/-
  The transmit side of a connection (`src/hw/conn.rs`): the single message slot, its fragmenter and
  the way to the radio.

  Five operations fill the slot (`queueAtt`, `queueNotify`, `queueSignaling`, `queueL2cap`,
  `l2capSend`).  They write DIFFERENT subsets of its fields: the last three set the channel and
  rewind the fragment offset, the first two leave both as they are.  `txFragment` cuts the next
  data channel PDU out of the slot; `tx` passes a built PDU through the cipher (on an encrypted
  link) and to the radio; `respond` chooses which PDU a connection event sends: a pending control
  PDU, else the next fragment, else an empty PDU.

  The length arithmetic of the queueing operations clips to the slot, so they are total; the
  fragmenter's is checked.
-/
import Mathlib.Tactic
import NrfBle.Lib.Logged
import NrfBle.Hw.Conn.State

namespace NrfBle

open Checked

/-- `HANDLE_TX_VALUE`. -/
abbrev handleTxValue : UInt16 := 0x0005

namespace Conn

/-! ## Filling the slot -/

/-- The common part of the operations: the first `n` bytes of `msg` at the front of the slot. -/
def fillSlot (c : Conn) (msg : List UInt8) (n : Nat) (h : n ≤ 251) : Buf 251 :=
  c.txAtt.splice 0 (msg.take n) (by rw [List.length_take]; omega)

/-- A message stored whole is what the slot begins with. -/
theorem take_fillSlot (c : Conn) (msg : List UInt8) {n : Nat} (h : n ≤ 251) (hn : n = msg.length) :
    (c.fillSlot msg n h).bytes.take msg.length = msg := by
  subst hn
  show (c.txAtt.bytes.take 0 ++ msg.take msg.length ++ c.txAtt.bytes.drop _).take msg.length = msg
  rw [List.take_length, List.take_zero, List.nil_append, List.take_left]

/-- `Conn::queue_att`.  Neither the channel nor the fragment offset is set. -/
def queueAtt (c : Conn) (att : List UInt8) : Conn :=
  let len := min att.length l2capPayloadMax
  { c with
    txAtt := c.fillSlot att len (Nat.min_le_right _ _)
    txAttLen := len
    txPending := true }

/-- `Conn::queue_notify` (its `Ok(())` is the only answer).  Neither the channel nor the fragment
    offset is set. -/
def queueNotify (c : Conn) (data : List UInt8) : Conn :=
  let len := min data.length attPayloadMax
  { c with
    txAtt := c.txAtt.splice 0 (0x1B :: le16 handleTxValue ++ data.take len) (by
      have hlen : len ≤ 244 := Nat.min_le_right _ _
      simp only [List.cons_append, List.length_cons, List.length_append, le16_length,
        List.length_take]
      omega)
    txAttLen := 3 + len
    txPending := true }

/-- `Conn::queue_signaling`. -/
def queueSignaling (c : Conn) (msg : List UInt8) : Conn :=
  let n := min msg.length (l2capPayloadMax - 4)
  { c with
    txAtt := c.fillSlot msg n (by simp only [n, l2capPayloadMax]; omega)
    txAttLen := n
    txCid := l2capSignalingCid
    txFragOffset := 0
    txPending := true }

/-- `Conn::queue_l2cap`. -/
def queueL2cap (c : Conn) (l2 : List UInt8) (cid : UInt16) : Conn :=
  let n := min l2.length l2capPayloadMax
  { c with
    txAtt := c.fillSlot l2 n (Nat.min_le_right _ _)
    txAttLen := n
    txCid := cid
    txFragOffset := 0
    txPending := true }

/-- `Conn::l2cap_connect`. -/
def l2capConnect (c : Conn) (psm : UInt16) : Conn :=
  if c.coc.isSome then c
  else
    queueSignaling { c with coc := some (Coc.new psm) }
      ([leCreditBasedConnectionReq, 0] ++ le16 psm ++ le16 cocLocalCid ++ le16 cocMtu ++
        le16 cocMps ++ le16 cocCredits)

/-- `Conn::l2cap_send`: one length-prefixed SDU on the channel's own id, for one credit. -/
def l2capSend (c : Conn) (data : List UInt8) : Except Error Unit × Conn :=
  match c.coc with
  | none => (.error .notRunning, c)
  | some coc =>
    if h : data.length > coc.mtu.toNat ∨ data.length + 2 > l2capPayloadMax then
      (.error .invalidLength, c)
    else if coc.credits = 0 then (.error .notRunning, c)
    else
      (.ok (),
        { c with
          coc := some { coc with credits := coc.credits - 1 }
          txAtt := c.txAtt.splice 0 (le16 (UInt16.ofNat data.length) ++ data) (by
            simp only [List.length_append, le16_length, l2capPayloadMax] at h ⊢
            omega)
          txAttLen := data.length + 2
          txCid := coc.localCid
          txFragOffset := 0
          txPending := true })

/-- Either `l2cap_send` refuses and changes nothing, or the SDU is in the slot, rewound and on the
    channel's own id. -/
theorem l2capSend_spec (c : Conn) (data : List UInt8) :
    (∃ e, c.l2capSend data = (.error e, c)) ∨
    (∃ coc txAtt, c.coc = some coc ∧ data.length + 2 ≤ 251 ∧
      c.l2capSend data = (.ok (), { c with
        coc := some { coc with credits := coc.credits - 1 }
        txAtt := txAtt, txAttLen := data.length + 2, txCid := coc.localCid, txFragOffset := 0
        txPending := true })) := by
  unfold l2capSend
  split
  · exact .inl ⟨_, rfl⟩
  · rename_i coc hcoc
    split
    · exact .inl ⟨_, rfl⟩
    · rename_i hlen
      split
      · exact .inl ⟨_, rfl⟩
      · refine .inr ⟨coc, _, hcoc, ?_, rfl⟩
        simp only [l2capPayloadMax] at hlen
        omega

/-- `Conn::gatt_send_request`. -/
def gattSendRequest (c : Conn) (att : List UInt8) : Conn :=
  { c.queueAtt att with pendingRequest := true }

/-- `Conn::queue_encrypt_req`: an all-zero `LL_ENC_REQ`. -/
def queueEncryptReq (c : Conn) : Conn :=
  { c with
    pendingControl := some ((Buf.zero 19).set 0 llControlEncryptReq)
    wantEncrypt := true }

/-! ## The fragmenter -/

/-- The first header byte of a PDU sent now. -/
def txHeader (c : Conn) (llid : UInt8) : UInt8 :=
  (llid &&& 0b11) ||| bit (!c.nesn) 2 ||| bit c.sn 3

/-- The payload of a fragment behind its two header bytes; the first one has the L2CAP header. -/
def putFragment (c : Conn) (first : Bool) (txBuf : Buf 64) (body : List UInt8) :
    Except Panic (Buf 64) :=
  if first then do
    let b ← txBuf.write 2 (le16 (UInt16.ofNat c.txAttLen))
    let b ← b.write 4 (le16 c.txCid)
    b.write 6 body
  else txBuf.write 2 body

/-- `Conn::tx_fragment`: build the next fragment in `tx_buf`; gives the packet length. -/
def txFragment (c : Conn) : Except Panic (Nat × Conn) := do
  let attLen := c.txAttLen
  let remaining ← sub attLen c.txFragOffset
  let first := decide (c.txFragOffset = 0)
  let avail := if first then c.txPduMax - 4 else c.txPduMax
  let chunk := min remaining avail
  let complete := first && decide (chunk = attLen)
  let llid :=
    if complete then llidDataComplete
    else if first then llidDataStart
    else llidDataContinuationOrComplete
  let payloadLen := if first then 4 + chunk else chunk
  let txBuf := (c.txBuf.set 0 (c.txHeader llid)).set 1 (UInt8.ofNat payloadLen)
  let body ← c.txAtt.sub c.txFragOffset (c.txFragOffset + chunk)
  let txBuf ← c.putFragment first txBuf body
  let offset := c.txFragOffset + chunk
  let last := decide (attLen ≤ offset)
  return (2 + payloadLen,
    { c with
      txBuf := txBuf
      txFragOffset := if last then 0 else offset
      txPending := if last then false else c.txPending })

/-! ## To the radio -/

/-- Direction byte of what this side sends. -/
def txDirection (c : Conn) : UInt8 :=
  match c.role with
  | .master => llNonceMasterToSlave
  | .slave => llNonceSlaveToMaster

/-- Direction byte of what this side receives. -/
def rxDirection (c : Conn) : UInt8 :=
  match c.role with
  | .master => llNonceSlaveToMaster
  | .slave => llNonceMasterToSlave

/-- `radio.transmit(&self.tx_buf[..len])`: hand `tx_buf` to the radio as it is. -/
def transmitRaw (c : Conn) (kind : TxKind) (len : Nat) : Logged Act Unit := do
  let air ← Logged.lift (c.txBuf.upto len)
  Logged.emit (.tx ⟨kind, c.encrypted, c.txBuf.bytes.take len, none, some air⟩)

/-- `Conn::tx`.  On an encrypted link the PDU is processed under the current packet counter; an
    error of the cipher means nothing is sent. -/
def tx (hw : Hw) (c : Conn) (kind : TxKind) (len : Nat) : Logged Act Conn :=
  if c.encrypted then do
    let r := (Ccm.setup c.smp.stk c.packetCounter c.txDirection).process hw false c.txBuf
    let c' := { c with ccm := r.2.1, txBuf := r.2.2 }
    let sent (air : Option (List UInt8)) : Act :=
      .tx ⟨kind, true, c.txBuf.bytes.take len, some (c.packetCounter, c.txDirection), air⟩
    if r.1 = false then
      Logged.emit (sent none)
      return c'
    else
      let air := c'.txBuf.upto (len + llMicLen)
      Logged.emit (sent air.toOption)
      let _ ← Logged.lift air
      return c'
  else do
    c.transmitRaw kind len
    return c

/-- `Conn::rx`: decrypt what was received, in place; false when the check failed. -/
def rx (hw : Hw) (c : Conn) : Bool × Conn :=
  if c.encrypted then
    let r := (Ccm.setup c.smp.stk c.packetCounter c.rxDirection).process hw true c.rxBuf
    (r.1, { c with ccm := r.2.1, rxBuf := r.2.2 })
  else (true, c)

/-- `Conn::respond`. -/
def respond (hw : Hw) (c : Conn) : Logged Act Conn :=
  match c.pendingControl with
  | some ctrl => do
    let txBuf := (c.txBuf.set 0 (c.txHeader llidControl)).set 1 18
    let txBuf ← Logged.lift (txBuf.write 2 (ctrl.bytes.take 18))
    tx hw { c with pendingControl := none, txBuf := txBuf } .pendingControl 20
  | none =>
    if c.txPending then do
      let (total, c) ← Logged.lift c.txFragment
      -- the sequence number moves on as soon as the fragment is built
      tx hw { c with sn := !c.sn } .fragment total
    else
      tx hw { c with txBuf := (c.txBuf.set 0 (c.txHeader llidDataComplete)).set 1 0 } .empty 2

/-! ## What a fragment is -/

/-- The sequence number bit of a header byte. -/
theorem txHeader_sn (c : Conn) (llid : UInt8) : ((c.txHeader llid &&& 0b1000) != 0) = c.sn := by
  unfold txHeader
  generalize c.nesn = nesn
  generalize c.sn = sn
  obtain ⟨llid⟩ := llid
  revert llid nesn sn
  decide +kernel

/-- The LLID bits of a header byte. -/
theorem txHeader_llid (c : Conn) (llid : UInt8) : c.txHeader llid &&& 0b11 = llid &&& 0b11 := by
  unfold txHeader
  generalize c.nesn = nesn
  generalize c.sn = sn
  obtain ⟨llid⟩ := llid
  revert llid nesn sn
  decide +kernel

/-- No PDU announces more data. -/
theorem txHeader_md (c : Conn) (llid : UInt8) : c.txHeader llid &&& 0b10000 = 0 := by
  unfold txHeader
  generalize c.nesn = nesn
  generalize c.sn = sn
  obtain ⟨llid⟩ := llid
  revert llid nesn sn
  decide +kernel

/-- How many bytes of the message the next fragment takes. -/
def fragChunk (c : Conn) : Nat :=
  min (c.txAttLen - c.txFragOffset) (if c.txFragOffset = 0 then c.txPduMax - 4 else c.txPduMax)

theorem fragChunk_le (c : Conn) : c.fragChunk ≤ c.txAttLen - c.txFragOffset := Nat.min_le_left _ _

/-- The first fragment leaves room for the L2CAP header. -/
theorem fragChunk_first {c : Conn} (h : c.txFragOffset = 0) :
    c.fragChunk = min c.txAttLen (c.txPduMax - 4) := by
  unfold fragChunk
  rw [if_pos h, h, Nat.sub_zero]

theorem fragChunk_next {c : Conn} (h : c.txFragOffset ≠ 0) :
    c.fragChunk = min (c.txAttLen - c.txFragOffset) c.txPduMax := by
  unfold fragChunk
  rw [if_neg h]

/-- With room for a byte behind the header every fragment moves on in the message. -/
theorem fragChunk_pos {c : Conn} (hin : c.txFragOffset < c.txAttLen) (hp : 5 ≤ c.txPduMax) :
    0 < c.fragChunk := by
  unfold fragChunk
  split <;> omega

/-- The header and the chunk fit the data length, if that has room for the header. -/
theorem fragChunk_room (c : Conn) :
    (if c.txFragOffset = 0 then 4 else 0) + c.fragChunk ≤ max 4 c.txPduMax := by
  unfold fragChunk
  split <;> omega

/-- The LLID of the next fragment. -/
def fragLlid (c : Conn) : UInt8 :=
  if c.txFragOffset = 0 then
    if c.fragChunk = c.txAttLen then llidDataComplete else llidDataStart
  else llidDataContinuationOrComplete

/-- The payload of the next fragment: on the first one the L2CAP header, then the chunk. -/
def fragPayload (c : Conn) : List UInt8 :=
  (if c.txFragOffset = 0 then le16 (UInt16.ofNat c.txAttLen) ++ le16 c.txCid else []) ++
    ((c.txAtt.bytes.take (c.txFragOffset + c.fragChunk)).drop c.txFragOffset)

/-- The slot after the next fragment: advanced, or rewound and no longer pending. -/
def afterFragment (c : Conn) (txBuf : Buf 64) : Conn :=
  { c with
    txBuf := txBuf
    txFragOffset := if c.txAttLen ≤ c.txFragOffset + c.fragChunk then 0
      else c.txFragOffset + c.fragChunk
    txPending := if c.txAttLen ≤ c.txFragOffset + c.fragChunk then false else c.txPending }

/-- The next fragment can be built: the offset is inside the message, the chunk inside the slot,
    and the PDU inside `tx_buf`. -/
structure FragFits (c : Conn) : Prop where
  offset : c.txFragOffset ≤ c.txAttLen
  chunk : c.txFragOffset + c.fragChunk ≤ 251
  payload : (if c.txFragOffset = 0 then 4 else 0) + c.fragChunk ≤ 62

theorem FragFits.payload_length {c : Conn} (h : c.FragFits) :
    c.fragPayload.length = (if c.txFragOffset = 0 then 4 else 0) + c.fragChunk := by
  have hc := h.chunk
  unfold fragPayload
  rw [List.length_append, List.length_drop, List.length_take, c.txAtt.size]
  split
  · rw [List.length_append, le16_length, le16_length]; omega
  · rw [List.length_nil]; omega

theorem FragFits.payload_le {c : Conn} (h : c.FragFits) (hp : 4 ≤ c.txPduMax) :
    c.fragPayload.length ≤ c.txPduMax := by
  have hroom := c.fragChunk_room
  rwa [← h.payload_length, Nat.max_eq_right hp] at hroom

/-- The fragmenter, its branches resolved. -/
theorem txFragment_eq (c : Conn) (h : c.txFragOffset ≤ c.txAttLen) :
    c.txFragment = (do
      let body ← c.txAtt.sub c.txFragOffset (c.txFragOffset + c.fragChunk)
      let txBuf ← c.putFragment (decide (c.txFragOffset = 0))
        ((c.txBuf.set 0 (c.txHeader c.fragLlid)).set 1
          (UInt8.ofNat ((if c.txFragOffset = 0 then 4 else 0) + c.fragChunk))) body
      return (2 + ((if c.txFragOffset = 0 then 4 else 0) + c.fragChunk), c.afterFragment txBuf)) := by
  unfold txFragment fragLlid afterFragment fragChunk
  dsimp only
  rw [sub_of_le h, ok_bind]
  by_cases h0 : c.txFragOffset = 0
  · simp only [h0, decide_true, Bool.true_and, decide_eq_true_eq, if_true]
  · simp only [h0, decide_false, Bool.false_and, decide_eq_true_eq, if_false, Nat.zero_add,
      Bool.false_eq_true]

theorem putFragment_ok {c : Conn} {first : Bool} {b b' : Buf 64} {body : List UInt8}
    (h : c.putFragment first b body = .ok b') :
    (if first then 4 else 0) + body.length ≤ 62 ∧
      b'.bytes.take (2 + ((if first then 4 else 0) + body.length)) = b.bytes.take 2 ++
        ((if first then le16 (UInt16.ofNat c.txAttLen) ++ le16 c.txCid else []) ++ body) := by
  unfold putFragment at h
  cases first with
  | false =>
    have hle := (Buf.write_eq_ok.mp h).1
    refine ⟨by simp only [Bool.false_eq_true, if_false]; omega, ?_⟩
    simp only [Bool.false_eq_true, if_false, Nat.zero_add, List.nil_append]
    exact Buf.take_of_write h
  | true =>
    obtain ⟨b₁, h₁, h⟩ := bind_eq_ok.mp h
    obtain ⟨b₂, h₂, h⟩ := bind_eq_ok.mp h
    have hle := (Buf.write_eq_ok.mp h).1
    refine ⟨by simp only [if_true]; omega, ?_⟩
    have t₁ : b₁.bytes.take 4 = b.bytes.take 2 ++ le16 (UInt16.ofNat c.txAttLen) :=
      Buf.take_of_write h₁
    have t₂ : b₂.bytes.take 6 = b₁.bytes.take 4 ++ le16 c.txCid := Buf.take_of_write h₂
    have t₃ := Buf.take_of_write h
    simp only [if_true]
    rw [show 2 + (4 + body.length) = 6 + body.length by omega, t₃, t₂, t₁]
    simp only [List.append_assoc]

theorem putFragment_returns {c : Conn} {first : Bool} {b : Buf 64} {body : List UInt8}
    (h : (if first then 4 else 0) + body.length ≤ 62) : Returns (c.putFragment first b body) := by
  unfold putFragment
  cases first with
  | false =>
    simp only [Bool.false_eq_true, if_false, Nat.zero_add] at h ⊢
    exact (b.returns_write).mpr (by omega)
  | true =>
    simp only [if_true] at h ⊢
    obtain ⟨b₁, h₁⟩ := (b.returns_write).mpr
      (show 2 + (le16 (UInt16.ofNat c.txAttLen)).length ≤ 64 by rw [le16_length]; omega)
    obtain ⟨b₂, h₂⟩ := (b₁.returns_write).mpr
      (show 4 + (le16 c.txCid).length ≤ 64 by rw [le16_length]; omega)
    rw [h₁, ok_bind, h₂, ok_bind]
    exact (b₂.returns_write).mpr (by omega)

/-- **The fragment.**  When it fits, `tx_fragment` gives the length of a PDU that is the header
    byte, the payload length and the payload, and moves the slot on. -/
theorem txFragment_ok {c : Conn} (h : c.FragFits) :
    ∃ b : Buf 64, c.txFragment = .ok (2 + c.fragPayload.length, c.afterFragment b) ∧
      b.bytes.take (2 + c.fragPayload.length) =
        c.txHeader c.fragLlid :: UInt8.ofNat c.fragPayload.length :: c.fragPayload := by
  have hlen := h.payload_length
  have hbody : ((c.txAtt.bytes.take (c.txFragOffset + c.fragChunk)).drop c.txFragOffset).length =
      c.fragChunk := by
    have hc := h.chunk
    rw [List.length_drop, List.length_take, c.txAtt.size]; omega
  rw [txFragment_eq c h.offset, c.txAtt.sub_of_le (by omega) h.chunk, ok_bind, ← hlen]
  have hfit : (if decide (c.txFragOffset = 0) then 4 else 0) +
      ((c.txAtt.bytes.take (c.txFragOffset + c.fragChunk)).drop c.txFragOffset).length ≤ 62 := by
    rw [hbody]
    simpa using h.payload
  obtain ⟨b, hb⟩ := putFragment_returns (c := c)
    (b := (c.txBuf.set 0 (c.txHeader c.fragLlid)).set 1 (UInt8.ofNat c.fragPayload.length)) hfit
  refine ⟨b, by rw [hb]; rfl, ?_⟩
  have htake := (putFragment_ok hb).2
  rw [hbody, Buf.take_two_set _ _ _ (by omega)] at htake
  simp only [decide_eq_true_eq] at htake
  rw [← hlen] at htake
  exact htake

/-- A fragment that was built did fit. -/
theorem fragFits_of_ok {c c' : Conn} {n : Nat} (h : c.txFragment = .ok (n, c')) : c.FragFits := by
  have hoff : c.txFragOffset ≤ c.txAttLen := by
    obtain ⟨remaining, hr, _⟩ := bind_eq_ok.mp h
    by_contra hlt
    rw [sub_of_lt (by omega)] at hr
    cases hr
  rw [txFragment_eq c hoff] at h
  obtain ⟨body, hbody, h⟩ := bind_eq_ok.mp h
  obtain ⟨b, hb, _⟩ := bind_eq_ok.mp h
  have hsl : c.txFragOffset ≤ c.txFragOffset + c.fragChunk ∧
      c.txFragOffset + c.fragChunk ≤ 251 ∧ body.length = c.fragChunk := by
    unfold Buf.sub slice at hbody
    split at hbody
    · rename_i hs
      rw [c.txAtt.size] at hs
      cases hbody
      refine ⟨hs.1, hs.2, ?_⟩
      rw [List.length_drop, List.length_take, c.txAtt.size]; omega
    · cases hbody
  refine ⟨hoff, hsl.2.1, ?_⟩
  have hfit := (putFragment_ok hb).1
  rw [hsl.2.2] at hfit
  simpa using hfit

/-! ## What is sent, and what changes -/

/-- `t` is the record of a PDU that `tx` took in state `c`: on an encrypted link it has a nonce, the
    current one; on an unencrypted link it has none. -/
structure Sent (c : Conn) (kind : TxKind) (t : TxRec) : Prop where
  kind : t.kind = kind
  encrypted : t.encrypted = c.encrypted
  nonce : t.nonce = if c.encrypted then some (c.packetCounter, c.txDirection) else none

/-- Everything but `tx_buf` and the cipher is as before. -/
def OnlyTxBuf (c c' : Conn) : Prop := c' = { c with ccm := c'.ccm, txBuf := c'.txBuf }

/-- `transmitRaw` sends `tx_buf` without a nonce, if the slice is in range. -/
theorem transmitRaw_of_le (c : Conn) (kind : TxKind) {len : Nat} (h : len ≤ 64) :
    c.transmitRaw kind len =
      ⟨[.tx ⟨kind, c.encrypted, c.txBuf.bytes.take len, none, some (c.txBuf.bytes.take len)⟩],
        .ok ()⟩ := by
  rw [transmitRaw, c.txBuf.upto_of_le h]; rfl

/-- `tx` emits one record (none when an unencrypted PDU overruns the buffer) and changes only
    `tx_buf` and the cipher. -/
theorem tx_spec (hw : Hw) (c : Conn) (kind : TxKind) (len : Nat) :
    ((c.tx hw kind len).log = [] ∧ ∃ p, (c.tx hw kind len).res = .error p) ∨
    (∃ t, (c.tx hw kind len).log = [.tx t] ∧ Sent c kind t ∧ t.plain = c.txBuf.bytes.take len ∧
      ∀ c', (c.tx hw kind len).res = .ok c' → OnlyTxBuf c c') := by
  unfold tx
  by_cases henc : c.encrypted = true
  · rw [if_pos henc]
    dsimp only
    split
    · refine .inr ⟨_, rfl, ⟨rfl, henc.symm, by rw [if_pos henc]⟩, rfl, ?_⟩
      intro c' h
      cases h
      rfl
    · -- the record is there also when the slice behind it is out of range
      generalize Buf.upto _ (len + llMicLen) = air
      cases air with
      | error p =>
        exact .inr ⟨_, rfl, ⟨rfl, henc.symm, by rw [if_pos henc]⟩, rfl, fun c' h => by cases h⟩
      | ok air =>
        refine .inr ⟨_, rfl, ⟨rfl, henc.symm, by rw [if_pos henc]⟩, rfl, ?_⟩
        intro c' h
        cases h
        rfl
  · rw [if_neg henc]
    rcases Nat.lt_or_ge 64 len with h64 | h64
    · left
      have hup : c.txBuf.upto len = .error .range := by
        unfold Buf.upto slice
        rw [if_neg (by rw [c.txBuf.size]; omega)]
      rw [transmitRaw, hup]
      exact ⟨rfl, _, rfl⟩
    · right
      rw [transmitRaw_of_le c kind h64]
      refine ⟨_, rfl, ⟨rfl, rfl, by rw [if_neg henc]⟩, rfl, ?_⟩
      intro c' h
      cases h
      rfl

/-- Building a fragment changes `tx_buf`, the offset and the pending flag. -/
theorem txFragment_frame {c c' : Conn} {n : Nat} (h : c.txFragment = .ok (n, c')) :
    c' = { c with
      txBuf := c'.txBuf, txFragOffset := c'.txFragOffset, txPending := c'.txPending } := by
  unfold txFragment at h
  obtain ⟨_, _, h⟩ := bind_eq_ok.mp h
  obtain ⟨_, _, h⟩ := bind_eq_ok.mp h
  obtain ⟨_, _, h⟩ := bind_eq_ok.mp h
  cases h
  rfl

/-- A PDU that starts with a header byte built in state `c` carries `c`'s sequence number. -/
theorem sn_of_plain {c : Conn} {t : TxRec} {llid : UInt8} {rest : List UInt8}
    (h : t.plain = c.txHeader llid :: rest) : t.sn = c.sn := by
  unfold TxRec.sn
  rw [h]
  exact c.txHeader_sn llid

/-- **What `respond` does.**  Either it stops before anything is sent, or it emits one record, of
    one of three kinds, under the link state and with the sequence number it started in.  The
    sequence number turns exactly when the record is a fragment. -/
theorem respond_spec (hw : Hw) (c : Conn) :
    ((c.respond hw).log = [] ∧ ∃ p, (c.respond hw).res = .error p) ∨
    (∃ t kind, (c.respond hw).log = [.tx t] ∧ Sent c kind t ∧ t.sn = c.sn ∧
      ∀ c', (c.respond hw).res = .ok c' →
        c' = { c with
          ccm := c'.ccm, txBuf := c'.txBuf, txFragOffset := c'.txFragOffset
          txPending := c'.txPending, pendingControl := c'.pendingControl
          sn := if kind = .fragment then !c.sn else c.sn }) := by
  unfold respond
  split
  -- a parked control PDU: its 18 bytes always fit
  · rename_i ctrl _
    obtain ⟨b, hb, _⟩ := ((c.txBuf.set 0 (c.txHeader llidControl)).set 1 18).write_of_le
      (show 2 + (ctrl.bytes.take 18).length ≤ 64 by rw [List.length_take, ctrl.size]; omega)
    dsimp only
    rw [hb, Logged.lift_ok_bind]
    rcases tx_spec hw { c with pendingControl := none, txBuf := b } .pendingControl 20 with
      h | ⟨t, hlog, hsent, hplain, hres⟩
    · exact .inl h
    · refine .inr ⟨t, .pendingControl, hlog, ⟨hsent.kind, hsent.encrypted, hsent.nonce⟩, ?_, ?_⟩
      · have htake := Buf.take_of_write hb
        rw [List.length_take, ctrl.size, Buf.take_two_set _ _ _ (by omega)] at htake
        exact sn_of_plain (hplain.trans htake)
      intro c' h'
      rw [hres c' h']; rfl
  · split
    -- the next fragment: its header was built before the sequence number turned
    · cases hf : c.txFragment with
      | error p => exact .inl ⟨rfl, p, rfl⟩
      | ok r =>
        obtain ⟨total, c₁⟩ := r
        have hc₁ := txFragment_frame hf
        rw [Logged.lift_ok_bind]
        dsimp only
        rcases tx_spec hw { c₁ with sn := !c₁.sn } .fragment total with
          h | ⟨t, hlog, hsent, hplain, hres⟩
        · exact .inl h
        · refine .inr ⟨t, .fragment, hlog, ⟨hsent.kind, ?_, ?_⟩, ?_, ?_⟩
          · rw [hsent.encrypted, hc₁]
          · rw [hsent.nonce, hc₁]; rfl
          · obtain ⟨b, hok, htake⟩ := txFragment_ok (fragFits_of_ok hf)
            rw [hf] at hok
            cases hok
            exact sn_of_plain (hplain.trans htake)
          · intro c' h'
            rw [hres c' h', hc₁]; rfl
    -- nothing to send: an empty PDU
    · rcases tx_spec hw
        { c with txBuf := (c.txBuf.set 0 (c.txHeader llidDataComplete)).set 1 0 } .empty 2 with
        h | ⟨t, hlog, hsent, hplain, hres⟩
      · exact .inl h
      · refine .inr ⟨t, .empty, hlog, ⟨hsent.kind, hsent.encrypted, hsent.nonce⟩, ?_, ?_⟩
        · exact sn_of_plain (hplain.trans (Buf.take_two_set _ _ _ (by omega)))
        intro c' h'
        rw [hres c' h']; rfl

end Conn

end NrfBle
