/-
  Link layer control (`src/hw/conn.rs`, `Conn::handle_ll_control`).

  Sixteen opcodes in independent branches.  Most answers are parked in `pending_control` for the
  next `respond`; three are sent at once, two of them (`LL_VERSION_IND`, `LL_FEATURE_RSP`) straight
  to the radio and one (`LL_START_ENC_RSP`) through `tx`.  The two START_ENC branches switch the
  link to encrypted and restart the packet counter, whatever happened before.
-/
import Mathlib.Tactic
import NrfBle.Hw.Conn.Tx

namespace NrfBle

open Checked

namespace Conn

/-- A parked control answer: the given bytes, then zeroes. -/
def controlPdu (bytes : List UInt8) (h : bytes.length ≤ 19) : Buf 19 :=
  (Buf.zero 19).splice 0 bytes (by omega)

/-- `tx_buf` with a control PDU in front: header, length field, then the given bytes. -/
def controlBuf (c : Conn) (len : UInt8) (bytes : List UInt8) (h : bytes.length ≤ 62) : Buf 64 :=
  c.txBuf.splice 0 (c.txHeader llidControl :: len :: bytes) (by
    simp only [List.length_cons]; omega)

/-- The two data lengths of an `LL_LENGTH_REQ` or `LL_LENGTH_RSP`, taken over. -/
def takeLengths (c : Conn) (payload : List UInt8) : Except Panic Conn := do
  let maxTx ← rd16 payload 1
  let maxRx ← rd16 payload 5
  return { c with
    txPduMax := min maxTx.toNat llPduPayloadMax, rxPduMax := min maxRx.toNat llPduPayloadMax }

/-- The parameters of an `LL_CONNECTION_UPDATE_REQ`, kept for their instant. -/
def takeUpdate (c : Conn) (payload : List UInt8) : Except Panic Conn :=
  if payload.length ≥ 10 then do
    let interval ← rd16 payload 3
    let timeout ← rd16 payload 7
    -- byte 10 is read although only ten bytes are known to be there
    let instant ← rd16 payload 9
    return { c with
      pendingUpdate := some (interval, timeout), pendingUpdateInstant := instant }
  else return c

/-- The link is encrypted from here on, under a fresh packet counter. -/
def startEncryption (c : Conn) : Conn := { c with encrypted := true, packetCounter := 0 }

/-- The branches of `Conn::handle_ll_control` that answer `Ok(())`. -/
def controlStep (hw : Hw) (c : Conn) (op : UInt8) (payload : List UInt8) : Logged Act Conn :=
  match op with
  | llControlVersionInd => do
    let c := { c with
      txBuf := c.controlBuf 4 [llControlVersionInd, 0x0C, 0xFF, 0xFF, 0x00, 0x00] (by decide) }
    -- straight to the radio, encrypted or not
    c.transmitRaw .control 8
    return { c with peerVersionOk := true }
  | llControlFeatureReq | llControlFeatureRsp => do
    let c := { c with
      txBuf := c.controlBuf 9 (llControlFeatureRsp :: List.replicate 8 0) (by decide) }
    c.transmitRaw .control 11
    return c
  | llControlEncryptReq =>
    return { c with
      pendingControl := some (controlPdu [llControlEncryptRsp] (by decide)), wantEncrypt := true }
  | llControlEncryptRsp =>
    return { c with pendingControl := some (controlPdu [llControlStartEncReq] (by decide)) }
  | llControlStartEncReq => do
    let c ← tx hw { c with txBuf := c.controlBuf 1 [llControlStartEncRsp, 0] (by decide) } .control 3
    -- neither `want_encrypt` nor the key is looked at, here and in the next branch
    return c.startEncryption
  | llControlStartEncRsp => return c.startEncryption
  | llControlLengthReq => do
    let c ← Logged.lift (c.takeLengths payload)
    return { c with
      pendingControl := some (controlPdu
        ([llControlLengthRsp] ++ le16 (UInt16.ofNat llPduPayloadMax) ++ le16 2120 ++
          le16 (UInt16.ofNat llPduPayloadMax) ++ le16 2120) (by decide)) }
  | llControlLengthRsp => Logged.lift (c.takeLengths payload)
  | llControlPingReq =>
    return { c with pendingControl := some (controlPdu [llControlPingRsp] (by decide)) }
  | llControlPhyReq =>
    return { c with
      pendingControl := some (controlPdu [llControlPhyRsp, 0, 0x01, 0x01, 0x01] (by decide)) }
  | llControlConnectionUpdateReq => Logged.lift (c.takeUpdate payload)
  | op =>
    return { c with pendingControl := some (controlPdu [llControlUnknownRsp, op] (by simp)) }

/-- `Conn::handle_ll_control`. -/
def handleLlControl (hw : Hw) (c : Conn) (payload : List UInt8) :
    Logged Act (Except DisconnectReason Unit × Conn) := do
  Logged.emit (.ctrl c payload)
  match payload with
  | [] => return (.ok (), c)
  | op :: _ =>
    if op = llControlTerminateInd then return (.error .remoteTerminate, c)
    else
      let c ← c.controlStep hw op payload
      return (.ok (), c)

/-! ## What a control PDU can do -/

/-- The two opcodes that switch the link to encrypted. -/
def isStartEnc (op : UInt8) : Bool := op = llControlStartEncReq ∨ op = llControlStartEncRsp

/-- The opcodes answered straight through the radio. -/
def isRawAnswer (op : UInt8) : Bool :=
  op = llControlVersionInd ∨ op = llControlFeatureReq ∨ op = llControlFeatureRsp

/-- `t` is the record of a control PDU that bypassed `tx` in state `c`. -/
structure SentRaw (c : Conn) (kind : TxKind) (t : TxRec) : Prop where
  kind : t.kind = kind
  encrypted : t.encrypted = c.encrypted
  nonce : t.nonce = none

/-- The fields a control PDU can change. -/
def ControlFrame (c c' : Conn) : Prop :=
  c' = { c with
    txBuf := c'.txBuf, ccm := c'.ccm, peerVersionOk := c'.peerVersionOk
    pendingControl := c'.pendingControl, wantEncrypt := c'.wantEncrypt
    encrypted := c'.encrypted, packetCounter := c'.packetCounter, txPduMax := c'.txPduMax
    rxPduMax := c'.rxPduMax, pendingUpdate := c'.pendingUpdate
    pendingUpdateInstant := c'.pendingUpdateInstant }

/-- What a control PDU does to the security state: the START_ENC PDUs switch to encrypted and
    restart the counter, no other one touches either; `want_encrypt` is never taken back. -/
structure ControlEffect (start : Bool) (c c' : Conn) : Prop where
  frame : ControlFrame c c'
  wants : c.wantEncrypt = true → c'.wantEncrypt = true
  encrypted : c'.encrypted = (start || c.encrypted)
  packetCounter : c'.packetCounter = if start then 0 else c.packetCounter

theorem ControlEffect.refl (c : Conn) : ControlEffect false c c := ⟨rfl, id, rfl, rfl⟩

theorem takeLengths_frame {c c' : Conn} {payload : List UInt8}
    (h : c.takeLengths payload = .ok c') :
    c' = { c with txPduMax := c'.txPduMax, rxPduMax := c'.rxPduMax } := by
  obtain ⟨_, _, h⟩ := bind_eq_ok.mp h
  obtain ⟨_, _, h⟩ := bind_eq_ok.mp h
  cases h
  rfl

theorem takeUpdate_frame {c c' : Conn} {payload : List UInt8}
    (h : c.takeUpdate payload = .ok c') :
    c' = { c with
      pendingUpdate := c'.pendingUpdate, pendingUpdateInstant := c'.pendingUpdateInstant } := by
  unfold takeUpdate at h
  split at h
  · obtain ⟨_, _, h⟩ := bind_eq_ok.mp h
    obtain ⟨_, _, h⟩ := bind_eq_ok.mp h
    obtain ⟨_, _, h⟩ := bind_eq_ok.mp h
    cases h
    rfl
  · cases h
    rfl

/-- The raw answers: one record without a nonce, whatever the state of the link. -/
theorem controlStep_raw (hw : Hw) (c : Conn) {op : UInt8} (payload : List UInt8)
    (h : isRawAnswer op = true) :
    ∃ t c', c.controlStep hw op payload = ⟨[.tx t], .ok c'⟩ ∧ SentRaw c .control t ∧
      ControlEffect (isStartEnc op) c c' := by
  have hop : op = 0x0C ∨ op = 0x08 ∨ op = 0x09 := by simpa [isRawAnswer] using h
  rcases hop with rfl | rfl | rfl
  all_goals
    unfold controlStep
    dsimp only
    rw [transmitRaw_of_le _ _ (by omega)]
    exact ⟨_, _, rfl, ⟨rfl, rfl, rfl⟩, ⟨rfl, id, rfl, rfl⟩⟩

/-- `LL_START_ENC_REQ`: at most one record, through `tx`, and the link is encrypted afterwards. -/
theorem controlStep_startEncReq (hw : Hw) (c : Conn) (payload : List UInt8) :
    ((c.controlStep hw llControlStartEncReq payload).log = [] ∨
      ∃ t, (c.controlStep hw llControlStartEncReq payload).log = [.tx t] ∧ Sent c .control t) ∧
    ∀ c', (c.controlStep hw llControlStartEncReq payload).res = .ok c' →
      ControlEffect true c c' := by
  have hx : c.controlStep hw llControlStartEncReq payload =
      (tx hw { c with txBuf := c.controlBuf 1 [llControlStartEncRsp, 0] (by decide) } .control 3 >>=
        fun c => pure c.startEncryption) := rfl
  rw [hx]
  rcases tx_spec hw { c with txBuf := c.controlBuf 1 [llControlStartEncRsp, 0] (by decide) }
    .control 3 with ⟨hlog, p, hp⟩ | ⟨t, hlog, hsent, _, hres⟩
  · rw [Logged.bind_of_error hp]
    exact ⟨.inl hlog, fun c' h => by cases h⟩
  · constructor
    · right
      refine ⟨t, ?_, ⟨hsent.kind, hsent.encrypted, hsent.nonce⟩⟩
      -- the record is logged whether or not `tx` goes on to panic
      exact (Logged.bind_log fun _ => rfl).trans hlog
    · intro c' h
      rw [Logged.bind_res] at h
      obtain ⟨c₁, h₁, h⟩ := bind_eq_ok.mp h
      cases h
      rw [hres c₁ h₁]
      exact ⟨rfl, id, rfl, rfl⟩

/-- Every other opcode sends nothing at once and leaves `encrypted` and the counter alone. -/
theorem controlStep_quiet (hw : Hw) (c : Conn) {op : UInt8} (payload : List UInt8)
    (hraw : isRawAnswer op = false) (hreq : op ≠ llControlStartEncReq) :
    (c.controlStep hw op payload).log = [] ∧
    ∀ c', (c.controlStep hw op payload).res = .ok c' → ControlEffect (isStartEnc op) c c' := by
  unfold controlStep
  split
  · cases hraw
  · cases hraw
  · cases hraw
  · exact ⟨rfl, fun c' h => by cases h; exact ⟨rfl, fun _ => rfl, rfl, rfl⟩⟩
  · exact ⟨rfl, fun c' h => by cases h; exact ⟨rfl, id, rfl, rfl⟩⟩
  · exact absurd rfl hreq
  · exact ⟨rfl, fun c' h => by cases h; exact ⟨rfl, id, rfl, rfl⟩⟩
  · cases hl : c.takeLengths payload with
    | error p => exact ⟨rfl, fun c' h => by cases h⟩
    | ok c₁ =>
      refine ⟨rfl, fun c' h => ?_⟩
      cases h
      rw [takeLengths_frame hl]
      exact ⟨rfl, id, rfl, rfl⟩
  · refine ⟨rfl, fun c' h => ?_⟩
    rw [takeLengths_frame h]
    exact ⟨rfl, id, rfl, rfl⟩
  · exact ⟨rfl, fun c' h => by cases h; exact ⟨rfl, id, rfl, rfl⟩⟩
  · exact ⟨rfl, fun c' h => by cases h; exact ⟨rfl, id, rfl, rfl⟩⟩
  · refine ⟨rfl, fun c' h => ?_⟩
    rw [takeUpdate_frame h]
    exact ⟨rfl, id, rfl, rfl⟩
  · rename_i h0C h08 h09 _ _ h05 h06 _ _ _ _ _
    have hstart : isStartEnc op = false := by
      unfold isStartEnc
      exact decide_eq_false (fun h => h.elim h05 h06)
    exact ⟨rfl, fun c' h => by
      cases h
      exact ⟨rfl, id, by rw [hstart]; rfl, by rw [hstart]; rfl⟩⟩

/-- **What a control PDU that is handled has done**: taken an update, taken lengths, or neither. -/
theorem controlStep_cases {hw : Hw} {c c' : Conn} {op : UInt8} {payload : List UInt8}
    (h : (c.controlStep hw op payload).res = .ok c') :
    (op = llControlConnectionUpdateReq ∧ c.takeUpdate payload = .ok c') ∨
      (∃ c₁, c.takeLengths payload = .ok c₁ ∧ c' = { c₁ with pendingControl := c'.pendingControl }) ∨
      c' = { c with
        txBuf := c'.txBuf, ccm := c'.ccm, peerVersionOk := c'.peerVersionOk
        pendingControl := c'.pendingControl, wantEncrypt := c'.wantEncrypt
        encrypted := c'.encrypted, packetCounter := c'.packetCounter } := by
  unfold controlStep at h
  split at h
  case h_1 | h_2 | h_3 =>
    -- straight to the radio
    dsimp only at h
    rw [transmitRaw_of_le _ _ (by omega)] at h
    cases h
    exact .inr (.inr rfl)
  case h_6 =>
    rw [Logged.bind_res] at h
    obtain ⟨c₁, hsent, h⟩ := bind_eq_ok.mp h
    cases h
    rcases tx_spec hw { c with txBuf := c.controlBuf 1 [llControlStartEncRsp, 0] (by decide) } .control 3
      with ⟨_, p, hp⟩ | ⟨_, _, _, _, hframe⟩
    · rw [hp] at hsent
      cases hsent
    · rw [hframe c₁ hsent]
      exact .inr (.inr rfl)
  case h_8 =>
    rw [Logged.bind_res] at h
    obtain ⟨c₁, htake, h⟩ := bind_eq_ok.mp h
    cases h
    exact .inr (.inl ⟨c₁, htake, rfl⟩)
  case h_9 => exact .inr (.inl ⟨c', h, rfl⟩)
  case h_12 => exact .inl ⟨rfl, h⟩
  all_goals
    cases h
    exact .inr (.inr rfl)

/-- The payload's opcode switches the link to encrypted. -/
def startsEnc (payload : List UInt8) : Bool := payload.head?.any isStartEnc

/-- The payload's opcode is answered straight through the radio. -/
def answersRaw (payload : List UInt8) : Bool := payload.head?.any isRawAnswer

theorem handleLlControl_cons (hw : Hw) (c : Conn) (op : UInt8) (rest : List UInt8)
    (h : op ≠ llControlTerminateInd) :
    (c.handleLlControl hw (op :: rest)).log =
        .ctrl c (op :: rest) :: (c.controlStep hw op (op :: rest)).log ∧
      (c.handleLlControl hw (op :: rest)).res =
        (c.controlStep hw op (op :: rest)).res >>= fun c' => .ok (.ok (), c') := by
  unfold handleLlControl
  rw [Logged.emit_bind]
  dsimp only
  rw [if_neg h, Logged.bind_res]
  exact ⟨congrArg _ (Logged.bind_log fun _ => rfl), rfl⟩

/-- **What handling a control PDU does.**  It logs the call, then at most one record: through `tx`
    for a START_ENC PDU, past it for a raw answer. -/
theorem handleLlControl_spec (hw : Hw) (c : Conn) (payload : List UInt8) :
    ((c.handleLlControl hw payload).log = [.ctrl c payload] ∧ answersRaw payload = false ∨
      ∃ t, (c.handleLlControl hw payload).log = [.ctrl c payload, .tx t] ∧
        (startsEnc payload = true ∧ answersRaw payload = false ∧ Sent c .control t ∨
          answersRaw payload = true ∧ SentRaw c .control t)) ∧
    ∀ r c', (c.handleLlControl hw payload).res = .ok (r, c') →
      ControlEffect (startsEnc payload) c c' := by
  match payload with
  | [] => exact ⟨.inl ⟨rfl, rfl⟩, fun r c' h => by cases h; exact .refl c⟩
  | op :: rest =>
    by_cases hterm : op = llControlTerminateInd
    · subst hterm
      exact ⟨.inl ⟨rfl, rfl⟩, fun r c' h => by cases h; exact .refl c⟩
    · obtain ⟨hlog, hres⟩ := handleLlControl_cons hw c op rest hterm
      have key : ∀ {start : Bool},
          (∀ c', (c.controlStep hw op (op :: rest)).res = .ok c' → ControlEffect start c c') →
          ∀ r c', (c.handleLlControl hw (op :: rest)).res = .ok (r, c') →
            ControlEffect start c c' := by
        intro start heff r c' h
        rw [hres] at h
        obtain ⟨c₁, h₁, h⟩ := bind_eq_ok.mp h
        cases h
        exact heff c' h₁
      rw [hlog]
      cases hraw : isRawAnswer op with
      | true =>
        obtain ⟨t, c₁, heq, hsent, heff⟩ := controlStep_raw hw c (op :: rest) hraw
        refine ⟨.inr ⟨t, by rw [heq], .inr ⟨hraw, hsent⟩⟩, key ?_⟩
        intro c' h
        rw [heq] at h
        cases h
        exact heff
      | false =>
        by_cases hreq : op = llControlStartEncReq
        · subst hreq
          obtain ⟨hl, heff⟩ := controlStep_startEncReq hw c (llControlStartEncReq :: rest)
          refine ⟨?_, key heff⟩
          rcases hl with hl | ⟨t, hl, hsent⟩
          · exact .inl ⟨by rw [hl], rfl⟩
          · exact .inr ⟨t, by rw [hl], .inl ⟨rfl, rfl, hsent⟩⟩
        · obtain ⟨hl, heff⟩ := controlStep_quiet hw c (op :: rest) hraw hreq
          exact ⟨.inl ⟨by rw [hl], hraw⟩, key heff⟩

/-! ## When the handler returns -/

/-- The lengths a control PDU must have: seven bytes for the length PDUs, and any number but ten
    for a connection update. -/
def ControlSafe (payload : List UInt8) : Prop :=
  match payload.head? with
  | some llControlLengthReq | some llControlLengthRsp => 7 ≤ payload.length
  | some llControlConnectionUpdateReq => payload.length ≠ 10
  | _ => True

theorem returns_takeLengths (c : Conn) (payload : List UInt8) :
    Returns (c.takeLengths payload) ↔ 7 ≤ payload.length := by
  unfold takeLengths
  rw [returns_rd16_bind fun _ => returns_rd16_bind fun _ => iff_true_intro (returns_pure _)]
  simp only [and_true]
  omega

theorem returns_takeUpdate (c : Conn) (payload : List UInt8) :
    Returns (c.takeUpdate payload) ↔ payload.length ≠ 10 := by
  unfold takeUpdate
  split
  · rw [returns_rd16_bind fun _ => returns_rd16_bind fun _ => returns_rd16_bind fun _ =>
      iff_true_intro (returns_pure _)]
    simp only [and_true]
    omega
  · exact iff_of_true (returns_pure _) (by omega)

/-- `tx` returns when the PDU and its MIC fit the buffer. -/
theorem returns_tx (hw : Hw) (c : Conn) (kind : TxKind) {len : Nat} (h : len + llMicLen ≤ 64) :
    Returns (c.tx hw kind len).res := by
  unfold tx
  split
  · dsimp only
    split
    · exact returns_ok _
    · rw [Logged.emit_bind, Buf.upto_of_le _ h]
      exact returns_ok _
  · rw [transmitRaw_of_le c kind (by omega)]
    exact returns_ok _

theorem returns_controlStep (hw : Hw) (c : Conn) (op : UInt8) (rest : List UInt8) :
    Returns (c.controlStep hw op (op :: rest)).res ↔ ControlSafe (op :: rest) := by
  unfold controlStep
  split
  · dsimp only
    rw [transmitRaw_of_le _ _ (by omega)]
    exact iff_of_true (returns_ok _) trivial
  · dsimp only
    rw [transmitRaw_of_le _ _ (by omega)]
    exact iff_of_true (returns_ok _) trivial
  · dsimp only
    rw [transmitRaw_of_le _ _ (by omega)]
    exact iff_of_true (returns_ok _) trivial
  · exact iff_of_true (returns_ok _) trivial
  · exact iff_of_true (returns_ok _) trivial
  · refine iff_of_true ?_ trivial
    rw [Logged.bind_res]
    exact (returns_bind_left (fun _ => returns_ok _)).mpr (returns_tx hw _ .control (by decide))
  · exact iff_of_true (returns_ok _) trivial
  · rw [Logged.bind_res]
    exact (returns_bind_left (fun _ => returns_ok _)).trans (returns_takeLengths c _)
  · exact returns_takeLengths c _
  · exact iff_of_true (returns_ok _) trivial
  · exact iff_of_true (returns_ok _) trivial
  · exact returns_takeUpdate c _
  · rename_i h0C h08 h09 h03 h04 h05 h06 h14 h15 h12 h16 h00
    refine iff_of_true (returns_ok _) ?_
    unfold ControlSafe
    split
    · rename_i h; exact absurd (Option.some.inj h) h14
    · rename_i h; exact absurd (Option.some.inj h) h15
    · rename_i h; exact absurd (Option.some.inj h) h00
    · trivial

/-- **When `handle_ll_control` returns.** -/
theorem returns_handleLlControl (hw : Hw) (c : Conn) (payload : List UInt8) :
    Returns (c.handleLlControl hw payload).res ↔ ControlSafe payload := by
  match payload with
  | [] => exact iff_of_true (returns_ok _) trivial
  | op :: rest =>
    by_cases hterm : op = llControlTerminateInd
    · subst hterm
      exact iff_of_true (returns_ok _) trivial
    · rw [(handleLlControl_cons hw c op rest hterm).2, returns_bind_left (fun _ => returns_ok _)]
      exact returns_controlStep hw c op rest

end Conn

end NrfBle
