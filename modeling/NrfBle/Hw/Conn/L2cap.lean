/-
  The receive side above the link layer (`src/hw/conn.rs`): reassembly of L2CAP messages and their
  delivery to ATT, SMP, LE signaling or a credit-based channel.

  `handleL2cap` is called for every data PDU with a payload.  A PDU that starts a message (any LLID
  but CONTINUATION, or nothing collected yet) brings the four-byte L2CAP header.  Only ATT
  messages are collected over several PDUs; on the other channels the rest of the PDU is the whole
  message.
-/
import Mathlib.Tactic
import NrfBle.Hw.Conn.Att

namespace NrfBle

open Checked

/-! ## The credit-based channel -/

namespace Coc

/-- The channel id is one of the two ends of the channel. -/
def hasCid (coc : Coc) (cid : UInt16) : Bool := cid = coc.localCid ∨ cid = coc.peerCid

/-- Append a piece to the SDU being collected, as far as it fits. -/
def append (coc : Coc) (chunk : List UInt8) : Except Panic Coc := do
  let room ← sub 256 coc.rxSduLen
  let n := min chunk.length room
  let rxSdu ← coc.rxSdu.write coc.rxSduLen (chunk.take n)
  return { coc with rxSdu := rxSdu, rxSduLen := coc.rxSduLen + n }

/-- A frame of the channel: the first one of an SDU brings the SDU's length. -/
def collect (coc : Coc) (body : List UInt8) : Except Panic Coc :=
  if coc.rxSduLen = 0 then do
    let total ← rd16 body 0
    let chunk ← slice body 2 body.length
    append { coc with rxSduTotal := total.toNat } chunk
  else coc.append body

end Coc

/-- `u16::saturating_add`. -/
def satAdd16 (a b : UInt16) : UInt16 := UInt16.ofNat (min (a.toNat + b.toNat) 65535)

namespace Conn

/-! ## LE signaling -/

/-- The peer asks to open a channel. -/
def cocRequest (c : Conn) (body : List UInt8) : Except Panic Conn :=
  if body.length < 12 then return c
  else do
    let psm ← rd16 body 2
    let peerCid ← rd16 body 4
    let mtu ← rd16 body 6
    let mps ← rd16 body 8
    let credits ← rd16 body 10
    let coc := { Coc.new psm with
      peerCid := peerCid, mtu := min mtu cocMtu, mps := min mps cocMps, credits := credits }
    return queueSignaling { c with coc := some coc }
      ([leCreditBasedConnectionRsp, 0] ++ le16 peerCid ++ le16 cocMtu ++ le16 cocMps ++
        le16 cocCredits ++ le16 0)

/-- The peer answers our request.  There is no length check here. -/
def cocResponse (c : Conn) (coc : Coc) (body : List UInt8) : Except Panic Conn := do
  let peerCid ← rd16 body 2
  let mtu ← rd16 body 4
  let mps ← rd16 body 6
  let credits ← rd16 body 8
  let result ← rd16 body 10
  if result = 0 then
    return { c with
      coc := some { coc with
        peerCid := peerCid, mtu := min coc.mtu mtu, mps := min coc.mps mps
        peerCredits := credits } }
  else return { c with coc := none }

/-- The peer grants credits. -/
def cocCredit (c : Conn) (coc : Coc) (body : List UInt8) : Except Panic Conn :=
  if body.length ≥ 6 then do
    let cid ← rd16 body 2
    let credits ← rd16 body 4
    if coc.hasCid cid then
      return { c with coc := some { coc with credits := satAdd16 coc.credits credits } }
    else return c
  else return c

/-- The peer closes the channel. -/
def cocEnd (c : Conn) (coc : Coc) (body : List UInt8) : Except Panic Conn := do
  let cid ← rd16 body 2
  if coc.hasCid cid then return { c with coc := none } else return c

/-- `Conn::handle_le_signaling`. -/
def handleLeSignaling (c : Conn) (body : List UInt8) : Except Panic Conn :=
  if body.length < 4 then return c
  else do
    let code ← idx body 0
    match code, c.coc with
    | leCreditBasedConnectionReq, _ => c.cocRequest body
    | leCreditBasedConnectionRsp, some coc => c.cocResponse coc body
    | leFlowControlCredit, some coc => c.cocCredit coc body
    | leCreditBasedConnectionEnd, some coc => c.cocEnd coc body
    | _, _ => return c

/-! ## Credit-based channel data -/

/-- A complete SDU: return one credit and hand the data to the host. -/
def finishSdu (c : Conn) (coc : Coc) : Conn :=
  let total := min coc.rxSduTotal 256
  let sdu := coc.rxSdu.bytes.take total
  let c := { c with coc := some { coc with rxSduLen := 0, rxSduTotal := 0 } }
  let c := c.queueSignaling ([leFlowControlCredit, 0] ++ le16 coc.peerCid ++ le16 1)
  c.storeRxData sdu (min total attPayloadMax) (Nat.min_le_right _ _)

/-- `Conn::rx_coc_sdu`. -/
def rxCocSdu (c : Conn) (body : List UInt8) (result : ConnEvent) :
    Except Panic (Conn × ConnEvent) :=
  match c.coc with
  | none => return (c, result)
  | some coc =>
    if coc.rxSduLen = 0 ∧ body.length < 2 then return (c, result)
    else do
      let coc ← coc.collect body
      -- an SDU of more than 256 bytes fills the buffer and is never complete
      if coc.rxSduLen ≥ coc.rxSduTotal then return (c.finishSdu coc, .data)
      else return ({ c with coc := some coc }, result)

/-! ## Pairing -/

/-- Queue an SMP PDU, behind an L2CAP header of its own. -/
def sendSmp (c : Conn) (out : List UInt8) : Conn :=
  c.queueL2cap (le16 (UInt16.ofNat out.length) ++ le16 l2capSmpCid ++ out) l2capSmpCid

/-- The Pairing Random branch: on success the key is set and a master asks for encryption. -/
def smpRandom (hw : Hw) (c : Conn) (body : List UInt8) : Conn :=
  match c.smp.handleRandom hw (body.take 17) with
  | (.ok rnd, smp) =>
    let c := { sendSmp { c with smp := smp } rnd with pairingInProgress := false }
    if c.role = .master then c.queueEncryptReq else c
  | (.error _, smp) =>
    { sendSmp { c with smp := smp } (Smp.buildFailed smp.pairingFailed) with
      pairingInProgress := false }

/-- `Conn::handle_smp`. -/
def handleSmp (hw : Hw) (c : Conn) (body : List UInt8) : Conn :=
  match body with
  | [] => c
  | op :: _ =>
    if op = smpPairingFailed then { c with pairingInProgress := false }
    else if op = smpSecurityRequest then
      let r := c.smp.buildPairingRequest
      sendSmp { c with smp := r.2 } r.1.bytes
    else if op = smpPairingRequest then
      match c.smp.handlePairingRequest (body.take 7) with
      | (.ok rsp, smp) => sendSmp { c with smp := smp, pairingInProgress := true } rsp.bytes
      | (.error _, smp) => { c with smp := smp }
    else if op = smpPairingResponse then
      match c.smp.handlePairingResponse (body.take 7) with
      | (.ok (), smp) => { c with smp := smp, pairingInProgress := true }
      | (.error _, smp) => { c with smp := smp }
    else if op = smpPairingConfirm then
      match c.smp.handleConfirm (body.take 17) with
      | (.ok (), smp) =>
        let r := smp.buildConfirm hw smp.iat smp.ia smp.ra
        sendSmp { c with smp := r.2 } r.1
      | (.error _, smp) => { c with smp := smp }
    else if op = smpPairingRandom then c.smpRandom hw body
    -- `SMP_ENCRYPTION_INFORMATION`, `SMP_MASTER_IDENTIFICATION` and unknown opcodes
    else c

/-! ## Reassembly

  The reassembler is written over the ATT handler it calls, so that a statement about EVERY handler
  says when it is called and with what; the program's is `handleAtt`. -/

/-- What is done with a complete ATT message. -/
abbrev AttHandler := Conn → List UInt8 → ConnEvent → Except Panic (Conn × ConnEvent)

/-- Append to the message being collected; deliver it to ATT when it is complete. -/
def reassemble (att : AttHandler) (c : Conn) (body : List UInt8) (result : ConnEvent) :
    Except Panic (Conn × ConnEvent) := do
  let room ← sub 256 c.rxL2capLen
  let n := min body.length room
  let rxL2cap ← c.rxL2cap.write c.rxL2capLen (body.take n)
  let c := { c with rxL2cap := rxL2cap, rxL2capLen := c.rxL2capLen + n }
  let msgLen := min c.rxL2capMsgLen 256
  if c.rxL2capLen ≥ msgLen then
    let msg ← c.rxL2cap.upto msgLen
    let (c, result) ← att c msg result
    return ({ c with rxL2capLen := 0 }, result)
  else return (c, result)

/-- The bytes of the message being collected, with `body` behind them. -/
def collected (c : Conn) (body : List UInt8) : List UInt8 :=
  c.rxL2cap.bytes.take c.rxL2capLen ++ body

/-- **What reassembly does.**  The piece is kept as far as the buffer goes; when the announced
    number of bytes is there, exactly these go to ATT and the collection starts over. -/
theorem reassemble_spec {c : Conn} (hlen : c.rxL2capLen ≤ 256) (body : List UInt8) :
    ∃ b : Buf 256,
      b.bytes.take (min (c.collected body).length 256) = (c.collected body).take 256 ∧
      ∀ (att : AttHandler) (result : ConnEvent), c.reassemble att body result =
        (let c₁ := { c with rxL2cap := b, rxL2capLen := min (c.collected body).length 256 }
        if min c.rxL2capMsgLen 256 ≤ (c.collected body).length then do
          let r ← att c₁ ((c.collected body).take (min c.rxL2capMsgLen 256)) result
          return ({ r.1 with rxL2capLen := 0 }, r.2)
        else return (c₁, result)) := by
  have hold : (c.rxL2cap.bytes.take c.rxL2capLen).length = c.rxL2capLen := by
    rw [List.length_take, c.rxL2cap.size]; omega
  have htotal : (c.collected body).length = c.rxL2capLen + body.length := by
    rw [collected, List.length_append, hold]
  have hn : c.rxL2capLen + min body.length (256 - c.rxL2capLen) =
      min (c.collected body).length 256 := by
    omega
  have hpiece : (body.take (min body.length (256 - c.rxL2capLen))).length =
      min body.length (256 - c.rxL2capLen) := by
    rw [List.length_take]; omega
  obtain ⟨b, hb⟩ := (c.rxL2cap.returns_write).mpr
    (show c.rxL2capLen + (body.take (min body.length (256 - c.rxL2capLen))).length ≤ 256 by
      rw [hpiece]; omega)
  have hbytes : b.bytes.take (min (c.collected body).length 256) = (c.collected body).take 256 := by
    have htake := Buf.take_of_write hb
    rw [hpiece, hn] at htake
    have hfront : (c.rxL2cap.bytes.take c.rxL2capLen).take 256 =
        c.rxL2cap.bytes.take c.rxL2capLen := List.take_of_length_le (by omega)
    rw [htake, collected, List.take_append, hold, hfront]
    rcases Nat.le_total body.length (256 - c.rxL2capLen) with h | h
    · rw [Nat.min_eq_left h, List.take_length, List.take_of_length_le h]
    · rw [Nat.min_eq_right h]
  refine ⟨b, hbytes, ?_⟩
  intro att result
  unfold reassemble
  rw [Checked.sub_of_le hlen, ok_bind]
  dsimp only
  rw [hb, ok_bind, hn, b.upto_of_le (Nat.min_le_right _ _), ok_bind]
  by_cases hdone : min c.rxL2capMsgLen 256 ≤ (c.collected body).length
  · -- the message is a prefix of what is in the buffer
    have hmsg : b.bytes.take (min c.rxL2capMsgLen 256) =
        (c.collected body).take (min c.rxL2capMsgLen 256) := by
      have hcap : min c.rxL2capMsgLen 256 ≤ 256 := Nat.min_le_right _ _
      have h := congrArg (List.take (min c.rxL2capMsgLen 256)) hbytes
      rw [List.take_take, List.take_take, Nat.min_eq_left (Nat.le_min.mpr ⟨hdone, hcap⟩),
        Nat.min_eq_left hcap] at h
      exact h
    rw [if_pos (by omega), if_pos hdone, hmsg]
  · rw [if_neg (by omega), if_neg hdone]

/-- The channel id belongs to the open credit-based channel. -/
def isCoc (c : Conn) (cid : UInt16) : Bool := c.coc.any (fun coc => coc.hasCid cid)

/-- **What reassembly can be**: the piece is added, or completes a message, which goes to ATT. -/
theorem reassemble_cases {att : AttHandler} {c c' : Conn} {body : List UInt8}
    {result result' : ConnEvent} (h : c.reassemble att body result = .ok (c', result')) :
    ∃ (b : Buf 256) (n : Nat),
      (c' = { c with rxL2cap := b, rxL2capLen := n } ∧ result' = result) ∨
      ∃ (msg : List UInt8) (c₁ : Conn),
        att { c with rxL2cap := b, rxL2capLen := n } msg result = .ok (c₁, result') ∧
        c' = { c₁ with rxL2capLen := 0 } := by
  unfold reassemble at h
  obtain ⟨_, _, h⟩ := bind_eq_ok.mp h
  obtain ⟨b, _, h⟩ := bind_eq_ok.mp h
  dsimp only at h
  split at h
  · obtain ⟨msg, _, h⟩ := bind_eq_ok.mp h
    obtain ⟨⟨c₁, r₁⟩, hatt, h⟩ := bind_eq_ok.mp h
    cases h
    exact ⟨b, _, .inr ⟨msg, c₁, hatt, rfl⟩⟩
  · cases h
    exact ⟨b, _, .inl ⟨rfl, rfl⟩⟩

/-- A PDU that starts a message, header and body taken apart. -/
def startMessage (att : AttHandler) (hw : Hw) (c : Conn) (msgLen cid : UInt16) (body : List UInt8)
    (result : ConnEvent) : Except Panic (Conn × ConnEvent) :=
  let c := { c with rxL2capLen := 0, rxL2capMsgLen := msgLen.toNat, rxL2capCid := cid }
  if cid = l2capSmpCidLocal then return ({ c.handleSmp hw body with rxL2capLen := 0 }, result)
  else if cid = l2capSignalingCid then do
    let c ← c.handleLeSignaling body
    return ({ c with rxL2capLen := 0 }, result)
  -- of all channels only ATT compares the announced length with what came
  else if cid = l2capAttCid then c.reassemble att body result
  else if c.isCoc cid then c.rxCocSdu body result
  else return (c, .l2cap cid)

/-- The PDU starts a message. -/
def isFirst (c : Conn) (llid : UInt8) : Bool :=
  llid ≠ llidDataContinuationOrComplete ∨ c.rxL2capLen = 0

/-- `Conn::handle_l2cap`, over the ATT handler. -/
def handleL2capWith (att : AttHandler) (hw : Hw) (c : Conn) (payload : List UInt8) (llid : UInt8)
    (result : ConnEvent) : Except Panic (Conn × ConnEvent) :=
  if c.isFirst llid then
    if payload.length < 4 then return (c, result)
    else do
      let msgLen ← rd16 payload 0
      let cid ← rd16 payload 2
      let body ← slice payload 4 payload.length
      c.startMessage att hw msgLen cid body result
  else c.reassemble att payload result

/-- `Conn::handle_l2cap`. -/
def handleL2cap (hw : Hw) (c : Conn) (payload : List UInt8) (llid : UInt8) (result : ConnEvent) :
    Except Panic (Conn × ConnEvent) := c.handleL2capWith handleAtt hw payload llid result

/-- A PDU that starts a message, taken apart. -/
theorem handleL2cap_first (att : AttHandler) (hw : Hw) {c : Conn} {llid : UInt8} (h : c.isFirst llid = true)
    (l₀ l₁ d₀ d₁ : UInt8) (body : List UInt8) (result : ConnEvent) :
    c.handleL2capWith att hw (l₀ :: l₁ :: d₀ :: d₁ :: body) llid result =
      c.startMessage att hw (ofLe16 l₀ l₁) (ofLe16 d₀ d₁) body result := by
  have hlen : ¬ (l₀ :: l₁ :: d₀ :: d₁ :: body).length < 4 := by
    simp only [List.length_cons]; omega
  have hbody : slice (l₀ :: l₁ :: d₀ :: d₁ :: body) 4 (l₀ :: l₁ :: d₀ :: d₁ :: body).length =
      .ok body := by
    rw [slice_of_le (by simp only [List.length_cons]; omega) (Nat.le_refl _), List.take_length]
    rfl
  unfold handleL2capWith
  rw [if_pos h, if_neg hlen, hbody]
  rfl

theorem handleL2cap_short (att : AttHandler) (hw : Hw) {c : Conn} {llid : UInt8} (h : c.isFirst llid = true)
    {payload : List UInt8} (hp : payload.length < 4) (result : ConnEvent) :
    c.handleL2capWith att hw payload llid result = .ok (c, result) := by
  unfold handleL2capWith
  rw [if_pos h, if_pos hp]
  rfl

/-- A PDU has no room for the L2CAP header, or it has one. -/
theorem short_or_header (payload : List UInt8) :
    payload.length < 4 ∨ ∃ l₀ l₁ d₀ d₁ body, payload = l₀ :: l₁ :: d₀ :: d₁ :: body := by
  match payload with
  | [] | [_] | [_, _] | [_, _, _] => exact .inl (by simp)
  | l₀ :: l₁ :: d₀ :: d₁ :: body => exact .inr ⟨l₀, l₁, d₀, d₁, body, rfl⟩

theorem handleL2cap_continuation (att : AttHandler) (hw : Hw) {c : Conn} {llid : UInt8}
    (h : c.isFirst llid = false) (payload : List UInt8) (result : ConnEvent) :
    c.handleL2capWith att hw payload llid result = c.reassemble att payload result := by
  unfold handleL2capWith
  rw [if_neg (by rw [h]; exact Bool.false_ne_true)]

/-! ## What handling a PDU can be -/

/-- The state in which the header of a message has been read. -/
def headerRead (c : Conn) (msgLen cid : UInt16) : Conn :=
  { c with rxL2capLen := 0, rxL2capMsgLen := msgLen.toNat, rxL2capCid := cid }

/-- **What can become of a data PDU**: it is added to the message being collected, dropped, or taken
    for the start of a message and handed to the channel its header names. -/
inductive Handled (hw : Hw) (c : Conn) (llid : UInt8) (result : ConnEvent) :
    List UInt8 → Conn × ConnEvent → Prop
  | continued {payload : List UInt8} {r : Conn × ConnEvent} (hcont : c.isFirst llid = false)
    (hrun : c.reassemble handleAtt payload result = .ok r) : Handled hw c llid result payload r
  | dropped {payload : List UInt8} (hfirst : c.isFirst llid = true) (hshort : payload.length < 4) :
    Handled hw c llid result payload (c, result)
  | smp {l₀ l₁ d₀ d₁ : UInt8} {body : List UInt8} (hfirst : c.isFirst llid = true)
    (hcid : ofLe16 d₀ d₁ = l2capSmpCidLocal) :
    Handled hw c llid result (l₀ :: l₁ :: d₀ :: d₁ :: body)
      ({ (c.headerRead (ofLe16 l₀ l₁) (ofLe16 d₀ d₁)).handleSmp hw body with rxL2capLen := 0 }, result)
  | signaling {l₀ l₁ d₀ d₁ : UInt8} {body : List UInt8} {c' : Conn} (hfirst : c.isFirst llid = true)
    (hrun : (c.headerRead (ofLe16 l₀ l₁) (ofLe16 d₀ d₁)).handleLeSignaling body = .ok c') :
    Handled hw c llid result (l₀ :: l₁ :: d₀ :: d₁ :: body) ({ c' with rxL2capLen := 0 }, result)
  | att {l₀ l₁ d₀ d₁ : UInt8} {body : List UInt8} {r : Conn × ConnEvent}
    (hfirst : c.isFirst llid = true)
    (hrun : (c.headerRead (ofLe16 l₀ l₁) (ofLe16 d₀ d₁)).reassemble handleAtt body result = .ok r) :
    Handled hw c llid result (l₀ :: l₁ :: d₀ :: d₁ :: body) r
  | coc {l₀ l₁ d₀ d₁ : UInt8} {body : List UInt8} {r : Conn × ConnEvent}
    (hfirst : c.isFirst llid = true)
    (hrun : (c.headerRead (ofLe16 l₀ l₁) (ofLe16 d₀ d₁)).rxCocSdu body result = .ok r) :
    Handled hw c llid result (l₀ :: l₁ :: d₀ :: d₁ :: body) r
  | unknown {l₀ l₁ d₀ d₁ : UInt8} {body : List UInt8} (hfirst : c.isFirst llid = true) :
    Handled hw c llid result (l₀ :: l₁ :: d₀ :: d₁ :: body)
      (c.headerRead (ofLe16 l₀ l₁) (ofLe16 d₀ d₁), .l2cap (ofLe16 d₀ d₁))

theorem handleL2cap_cases {hw : Hw} {c : Conn} {payload : List UInt8} {llid : UInt8}
    {result : ConnEvent} {r : Conn × ConnEvent}
    (h : c.handleL2cap hw payload llid result = .ok r) : Handled hw c llid result payload r := by
  cases hfirst : c.isFirst llid with
  | false =>
    rw [handleL2cap, handleL2cap_continuation handleAtt hw hfirst] at h
    exact .continued hfirst h
  | true =>
    rcases short_or_header payload with hshort | ⟨l₀, l₁, d₀, d₁, body, rfl⟩
    · rw [handleL2cap, handleL2cap_short handleAtt hw hfirst hshort] at h
      cases h
      exact .dropped hfirst hshort
    · rw [handleL2cap, handleL2cap_first handleAtt hw hfirst] at h
      unfold startMessage at h
      dsimp only at h
      split at h
      · rename_i hcid
        cases h
        exact .smp hfirst hcid
      · split at h
        · obtain ⟨c₁, h₁, h⟩ := bind_eq_ok.mp h
          cases h
          exact .signaling hfirst h₁
        · split at h
          · exact .att hfirst h
          · split at h
            · exact .coc hfirst h
            · cases h
              exact .unknown hfirst

/-- **What can become of a frame of the open channel**: it is ignored, collected, or completes an
    SDU. -/
inductive Taken (c : Conn) (body : List UInt8) (result : ConnEvent) : Conn → ConnEvent → Prop
  | ignored (hshort : ∀ coc, c.coc = some coc → coc.rxSduLen = 0 ∧ body.length < 2) :
    Taken c body result c result
  | kept {coc coc' : Coc} (hcoc : c.coc = some coc)
    (hlong : ¬ (coc.rxSduLen = 0 ∧ body.length < 2)) (hcollect : coc.collect body = .ok coc')
    (hmore : coc'.rxSduLen < coc'.rxSduTotal) : Taken c body result { c with coc := some coc' } result
  | finished {coc coc' : Coc} (hcoc : c.coc = some coc)
    (hlong : ¬ (coc.rxSduLen = 0 ∧ body.length < 2)) (hcollect : coc.collect body = .ok coc')
    (hall : coc'.rxSduTotal ≤ coc'.rxSduLen) : Taken c body result (c.finishSdu coc') .data

theorem rxCocSdu_cases {c c' : Conn} {body : List UInt8} {result result' : ConnEvent}
    (h : c.rxCocSdu body result = .ok (c', result')) : Taken c body result c' result' := by
  unfold rxCocSdu at h
  split at h
  · rename_i hnone
    cases h
    refine .ignored ?_
    intro coc hcoc
    rw [hnone] at hcoc
    cases hcoc
  · rename_i coc hcoc
    split at h
    · rename_i hshort
      cases h
      refine .ignored ?_
      intro coc' hcoc'
      rw [hcoc, Option.some.injEq] at hcoc'
      exact hcoc' ▸ hshort
    · rename_i hlong
      obtain ⟨coc', hcollect, h⟩ := bind_eq_ok.mp h
      split at h
      · rename_i hall
        cases h
        exact .finished hcoc hlong hcollect hall
      · rename_i hmore
        cases h
        exact .kept hcoc hlong hcollect (Nat.lt_of_not_le hmore)

/-! ## What the handlers leave alone -/

/-- **What a signaling message can do**: nothing; open a channel with nothing collected, and answer;
    change the numbers of the open channel; close it. -/
theorem handleLeSignaling_cases {c c' : Conn} {body : List UInt8}
    (h : c.handleLeSignaling body = .ok c') :
    c' = c ∨
    (∃ coc msg, coc.rxSduLen = 0 ∧ c' = queueSignaling { c with coc := some coc } msg) ∨
    (∃ coc coc', c.coc = some coc ∧ c' = { c with coc := some coc' } ∧
      coc'.rxSduLen = coc.rxSduLen) ∨
    c' = { c with coc := none } := by
  unfold handleLeSignaling at h
  split at h
  · cases h; exact .inl rfl
  · obtain ⟨code, _, h⟩ := bind_eq_ok.mp h
    split at h
    · -- a connection request
      unfold cocRequest at h
      split at h
      · cases h; exact .inl rfl
      · obtain ⟨_, _, h⟩ := bind_eq_ok.mp h
        obtain ⟨_, _, h⟩ := bind_eq_ok.mp h
        obtain ⟨_, _, h⟩ := bind_eq_ok.mp h
        obtain ⟨_, _, h⟩ := bind_eq_ok.mp h
        obtain ⟨_, _, h⟩ := bind_eq_ok.mp h
        cases h
        exact .inr (.inl ⟨_, _, rfl, rfl⟩)
    · -- a connection response
      rename_i coc hcoc _
      obtain ⟨_, _, h⟩ := bind_eq_ok.mp h
      obtain ⟨_, _, h⟩ := bind_eq_ok.mp h
      obtain ⟨_, _, h⟩ := bind_eq_ok.mp h
      obtain ⟨_, _, h⟩ := bind_eq_ok.mp h
      obtain ⟨_, _, h⟩ := bind_eq_ok.mp h
      split at h
      · cases h; exact .inr (.inr (.inl ⟨coc, _, hcoc, rfl, rfl⟩))
      · cases h; exact .inr (.inr (.inr rfl))
    · -- credits
      rename_i coc hcoc _
      unfold cocCredit at h
      split at h
      · obtain ⟨_, _, h⟩ := bind_eq_ok.mp h
        obtain ⟨_, _, h⟩ := bind_eq_ok.mp h
        split at h
        · cases h; exact .inr (.inr (.inl ⟨coc, _, hcoc, rfl, rfl⟩))
        · cases h; exact .inl rfl
      · cases h; exact .inl rfl
    · -- the end of the channel
      obtain ⟨_, _, h⟩ := bind_eq_ok.mp h
      split at h
      · cases h; exact .inr (.inr (.inr rfl))
      · cases h; exact .inl rfl
    · cases h; exact .inl rfl

theorem handleLeSignaling_frame {c c' : Conn} {body : List UInt8}
    (h : c.handleLeSignaling body = .ok c') : c'.link = c.link ∧ c'.keys = c.keys := by
  rcases handleLeSignaling_cases h with rfl | ⟨_, _, _, rfl⟩ | ⟨_, _, _, rfl, _⟩ | rfl
  all_goals exact ⟨rfl, rfl⟩

/-- The fields a frame of the open channel can change. -/
def CocFrame (c c' : Conn) : Prop :=
  c' = { c with
    coc := c'.coc, rxData := c'.rxData, rxDataLen := c'.rxDataLen, txAtt := c'.txAtt
    txAttLen := c'.txAttLen, txFragOffset := c'.txFragOffset, txPending := c'.txPending
    txCid := c'.txCid }

theorem rxCocSdu_frame {c c' : Conn} {body : List UInt8} {result result' : ConnEvent}
    (h : c.rxCocSdu body result = .ok (c', result')) : CocFrame c c' := by
  cases rxCocSdu_cases h with
  | ignored | kept | finished => rfl

theorem reassemble_frame {c c' : Conn} {body : List UInt8} {result result' : ConnEvent}
    (h : c.reassemble handleAtt body result = .ok (c', result')) :
    AttFrame { c with rxL2cap := c'.rxL2cap, rxL2capLen := c'.rxL2capLen } c' := by
  rcases reassemble_cases h with ⟨b, n, ⟨rfl, _⟩ | ⟨msg, c₁, hatt, rfl⟩⟩
  · rfl
  · have hframe := handleAtt_frame hatt
    unfold AttFrame at hframe ⊢
    rw [hframe]

/-! ## Pairing and the session key -/

/-- The SMP message is a Pairing Random that verifies: it sets the session key. -/
def smpSetsKey (hw : Hw) (smp : Smp) (body : List UInt8) : Bool :=
  body.head? = some smpPairingRandom ∧ (smp.handleRandom hw (body.take 17)).1.isOk

/-- The PDU brings such a message. -/
def setsKey (hw : Hw) (c : Conn) (payload : List UInt8) (llid : UInt8) : Bool :=
  c.isFirst llid ∧ 4 ≤ payload.length ∧
    ofLe16 (payload.getD 2 0) (payload.getD 3 0) = l2capSmpCidLocal ∧
    smpSetsKey hw c.smp (payload.drop 4)

/-- What pairing may do to the security state: `want_encrypt` is never taken back, and the session
    key changes only if `keyed` says so. -/
structure PairingEffect (keyed : Prop) (c c' : Conn) : Prop where
  link : c'.link = c.link
  wants : c.wantEncrypt = true → c'.wantEncrypt = true
  stk : c'.smp.stk = c.smp.stk ∨ keyed

theorem PairingEffect.of_frame {keyed : Prop} {c c' : Conn}
    (h : c'.link = c.link ∧ c'.keys = c.keys) : PairingEffect keyed c c' where
  link := h.1
  wants := by
    intro hw
    rw [show c'.wantEncrypt = c.wantEncrypt from congrArg Keys.wantEncrypt h.2]
    exact hw
  stk := .inl (congrArg (fun k => k.smp.stk) h.2)

/-- Queueing an SMP PDU touches the transmit slot only. -/
theorem sendSmp_frame (c : Conn) (out : List UInt8) :
    (sendSmp c out).link = c.link ∧ (sendSmp c out).keys = c.keys := ⟨rfl, rfl⟩

theorem smpRandom_effect (hw : Hw) (c : Conn) (rest : List UInt8) :
    PairingEffect (smpSetsKey hw c.smp (smpPairingRandom :: rest) = true) c
      (c.smpRandom hw (smpPairingRandom :: rest)) := by
  unfold smpRandom
  split
  · rename_i rnd smp heq
    have hkey : smpSetsKey hw c.smp (smpPairingRandom :: rest) = true := by
      unfold smpSetsKey
      rw [heq]
      exact decide_eq_true ⟨rfl, rfl⟩
    have hsend := sendSmp_frame { c with smp := smp } rnd
    generalize sendSmp { c with smp := smp } rnd = d at hsend ⊢
    have hlink : d.link = c.link := hsend.1
    have hwant : d.wantEncrypt = c.wantEncrypt := congrArg Keys.wantEncrypt hsend.2
    dsimp only
    split
    · exact ⟨hlink, fun _ => rfl, .inr hkey⟩
    · exact ⟨hlink, fun h => hwant.trans h, .inr hkey⟩
  · rename_i e smp heq
    have hsend := sendSmp_frame { c with smp := smp } (Smp.buildFailed smp.pairingFailed)
    generalize sendSmp { c with smp := smp } (Smp.buildFailed smp.pairingFailed) = d at hsend ⊢
    have hlink : d.link = c.link := hsend.1
    have hwant : d.wantEncrypt = c.wantEncrypt := congrArg Keys.wantEncrypt hsend.2
    have hstk : d.smp.stk = smp.stk := congrArg (fun k => k.smp.stk) hsend.2
    exact ⟨hlink, fun h => hwant.trans h, .inl (hstk.trans (Smp.handleRandom_stk_of_error heq))⟩

theorem handleSmp_effect (hw : Hw) (c : Conn) (body : List UInt8) :
    PairingEffect (smpSetsKey hw c.smp body = true) c (c.handleSmp hw body) := by
  unfold handleSmp
  split
  · exact ⟨rfl, id, .inl rfl⟩
  · rename_i op rest
    split
    · exact ⟨rfl, id, .inl rfl⟩
    · split
      · exact ⟨rfl, id, .inl rfl⟩
      · split
        · have hstk := c.smp.handlePairingRequest_stk ((op :: rest).take 7)
          split <;> (rename_i heq; rw [heq] at hstk; exact ⟨rfl, id, .inl hstk⟩)
        · split
          · have hstk := c.smp.handlePairingResponse_stk ((op :: rest).take 7)
            split <;> (rename_i heq; rw [heq] at hstk; exact ⟨rfl, id, .inl hstk⟩)
          · split
            · have hstk := c.smp.handleConfirm_stk ((op :: rest).take 17)
              split <;> (rename_i heq; rw [heq] at hstk; exact ⟨rfl, id, .inl hstk⟩)
            · split
              · rename_i h
                subst h
                exact smpRandom_effect hw c rest
              · exact ⟨rfl, id, .inl rfl⟩

/-- **What handling a data PDU does to the security state.** -/
theorem handleL2cap_effect {hw : Hw} {c c' : Conn} {payload : List UInt8} {llid : UInt8}
    {result result' : ConnEvent} (h : c.handleL2cap hw payload llid result = .ok (c', result')) :
    PairingEffect (setsKey hw c payload llid = true) c c' := by
  cases handleL2cap_cases h with
  | continued _ hrun =>
    have hf := reassemble_frame hrun
    exact .of_frame ⟨hf.link, hf.keys⟩
  | dropped => exact ⟨rfl, id, .inl rfl⟩
  | @smp l₀ l₁ d₀ d₁ body hfirst hcid =>
    have heff := (c.headerRead (ofLe16 l₀ l₁) (ofLe16 d₀ d₁)).handleSmp_effect hw body
    refine ⟨heff.link, heff.wants, heff.stk.imp id ?_⟩
    intro hkey
    exact decide_eq_true ⟨hfirst, by simp, hcid, hkey⟩
  | signaling _ hrun =>
    have hf := handleLeSignaling_frame hrun
    exact .of_frame ⟨hf.1, hf.2⟩
  | att _ hrun =>
    have hf := reassemble_frame hrun
    exact .of_frame ⟨hf.link, hf.keys⟩
  | coc _ hrun =>
    have hf := rxCocSdu_frame hrun
    have hlink := congrArg Conn.link hf
    have hkeys := congrArg Conn.keys hf
    exact .of_frame ⟨hlink, hkeys⟩
  | unknown => exact ⟨rfl, id, .inl rfl⟩

end Conn

end NrfBle
