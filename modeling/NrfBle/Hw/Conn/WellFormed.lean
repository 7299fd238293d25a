/-
  The data channel PDUs a connection sends, as the other side's decoder sees them.

  A PDU is built by hand at each place it is sent from: two header bytes, the second one the length of
  what follows, and the length of the slice for the radio given once more.  `DataPdu::decode` takes a
  slice iff the two lengths agree.  At all places but one they do (`Framed`); the answer to
  `LL_VERSION_IND` has a length field of four in front of six bytes.

  On an encrypted link the bytes on the air are the cipher's, so this is about the records that are
  not encrypted.
-/
import Mathlib.Tactic
import NrfBle.Hw.Conn.Channel
import NrfBle.Hw.Conn.Run

namespace NrfBle

open Checked

variable {hw : Hw}

/-! ## Lengths that agree -/

/-- The bytes are a header byte, the length of the payload, and the payload. -/
def Framed (bytes : List UInt8) : Prop :=
  ∃ b0 payload, bytes = b0 :: UInt8.ofNat payload.length :: payload ∧ payload.length ≤ 62

/-- The decoder takes the bytes. -/
def IsDataPdu (bytes : List UInt8) : Prop := ∃ pdu, DataPdu.decode bytes = .ok (.ok pdu)

theorem Framed.isDataPdu {bytes : List UInt8} (h : Framed bytes) : IsDataPdu bytes := by
  obtain ⟨b0, payload, rfl, hlen⟩ := h
  refine ⟨DataPdu.ofBytes b0 payload, ?_⟩
  rw [DataPdu.decode_cons, lengthByte_toNat hlen, if_pos rfl]

namespace Act

/-- A PDU that went out unencrypted is one the decoder takes. -/
def SendsDecodable : Act → Prop
  | .tx t => t.encrypted = false → ∃ air, t.air = some air ∧ IsDataPdu air
  | _ => True

/-- An `LL_VERSION_IND` was handled on an unencrypted link. -/
def AnswersVersion : Act → Prop
  | .ctrl c payload => c.encrypted = false ∧ payload.head? = some llControlVersionInd
  | _ => False

end Act

namespace Conn

/-! ## Every place a PDU is sent from -/

theorem transmitRaw_decodable (c : Conn) (kind : TxKind) {len : Nat} (hlen : len ≤ 64)
    (h : IsDataPdu (c.txBuf.bytes.take len)) : ∀ a ∈ (c.transmitRaw kind len).log, a.SendsDecodable := by
  rw [transmitRaw_of_le c kind hlen]
  intro a ha
  rw [List.mem_singleton.mp ha]
  exact fun _ => ⟨_, rfl, h⟩

/-- **Through `tx`.**  What is framed is decodable, or encrypted. -/
theorem tx_decodable (hw : Hw) (c : Conn) (kind : TxKind) {len : Nat} (hlen : len ≤ 64)
    (h : Framed (c.txBuf.bytes.take len)) : ∀ a ∈ (c.tx hw kind len).log, a.SendsDecodable := by
  cases henc : c.encrypted with
  | true =>
    intro a ha
    rcases tx_spec hw c kind len with ⟨hlog, _⟩ | ⟨t, hlog, hsent, _⟩
    · rw [hlog] at ha
      cases ha
    · rw [hlog] at ha
      rw [List.mem_singleton.mp ha]
      intro hplain
      rw [hsent.encrypted, henc] at hplain
      cases hplain
  | false =>
    have hlog : (c.tx hw kind len).log = (c.transmitRaw kind len).log := by
      unfold tx
      rw [if_neg (by rw [henc]; exact Bool.false_ne_true), transmitRaw_of_le c kind hlen]
      rfl
    rw [hlog]
    exact transmitRaw_decodable c kind hlen h.isDataPdu

/-- **The answer of an event**: a parked control PDU, the next fragment or an empty PDU. -/
theorem respond_decodable (hw : Hw) (c : Conn) : ∀ a ∈ (c.respond hw).log, a.SendsDecodable := by
  unfold respond
  split
  · rename_i ctrl _
    have hctrl : (ctrl.bytes.take 18).length = 18 := by rw [List.length_take, ctrl.size]; omega
    obtain ⟨b, hb, _⟩ := ((c.txBuf.set 0 (c.txHeader llidControl)).set 1 18).write_of_le
      (show 2 + (ctrl.bytes.take 18).length ≤ 64 by omega)
    dsimp only
    rw [hb, Logged.lift_ok_bind]
    refine tx_decodable hw _ .pendingControl (by omega) ⟨c.txHeader llidControl, ctrl.bytes.take 18, ?_, ?_⟩
    · have htake := Buf.take_of_write hb
      rw [hctrl, Buf.take_two_set _ _ _ (by omega)] at htake
      rw [hctrl]
      exact htake
    · omega
  · split
    · cases hf : c.txFragment with
      | error p => exact fun a ha => nomatch ha
      | ok r =>
        obtain ⟨total, c₁⟩ := r
        rw [Logged.lift_ok_bind]
        dsimp only
        have hfits := fragFits_of_ok hf
        have hlen : c.fragPayload.length ≤ 62 := by
          rw [hfits.payload_length]
          exact hfits.payload
        obtain ⟨b, hok, htake⟩ := txFragment_ok hfits
        rw [hf] at hok
        cases hok
        exact tx_decodable hw _ .fragment (by omega) ⟨_, _, htake, hlen⟩
    · exact tx_decodable hw _ .empty (by omega)
        ⟨_, [], Buf.take_two_set _ _ _ (by omega), Nat.zero_le _⟩

/-- A control PDU in `tx_buf`, behind its two header bytes. -/
theorem controlBuf_take (c : Conn) {bytes : List UInt8} (h : bytes.length ≤ 62) (len : UInt8)
    (k : Nat) : (c.controlBuf len bytes h).bytes.take (2 + k) =
      c.txHeader llidControl :: len :: (bytes ++ c.txBuf.bytes.drop (2 + bytes.length)).take k := by
  show (c.txBuf.bytes.take 0 ++ (c.txHeader llidControl :: len :: bytes) ++
    c.txBuf.bytes.drop (0 + (c.txHeader llidControl :: len :: bytes).length)).take (2 + k) = _
  rw [List.take_zero, List.nil_append, Nat.add_comm 2 k, List.cons_append, List.cons_append,
    List.take_succ_cons, List.take_succ_cons, List.length_cons, List.length_cons]
  congr 5
  omega

/-- The PDU that ends the link. -/
theorem sendTerminate_decodable (c : Conn) : ∀ a ∈ c.sendTerminate.log, a.SendsDecodable := by
  unfold sendTerminate
  dsimp only
  rw [transmitRaw_of_le _ _ (by omega)]
  intro a ha
  rcases List.mem_cons.mp ha with rfl | ha
  · trivial
  · rw [List.mem_singleton.mp ha]
    exact fun _ => ⟨_, rfl, Framed.isDataPdu ⟨_, [llControlTerminateInd, 0x13],
      controlBuf_take c (by decide) 2 2, by decide⟩⟩

/-- The answer to `LL_VERSION_IND` has a length field of four and six bytes behind it. -/
theorem version_not_decodable (hw : Hw) {c : Conn} (henc : c.encrypted = false) (rest : List UInt8) :
    ∃ a ∈ (c.handleLlControl hw (llControlVersionInd :: rest)).log, ¬ a.SendsDecodable := by
  obtain ⟨hlog, _⟩ := handleLlControl_cons hw c llControlVersionInd rest (by decide)
  rw [hlog]
  obtain ⟨plain, hstep⟩ : ∃ plain,
      (c.controlStep hw llControlVersionInd (llControlVersionInd :: rest)).log =
        [.tx ⟨.control, false, plain, none, some ((c.controlBuf 4
          [llControlVersionInd, 0x0C, 0xFF, 0xFF, 0x00, 0x00] (by decide)).bytes.take (2 + 6))⟩] := by
    unfold controlStep
    dsimp only
    rw [transmitRaw_of_le _ _ (by omega), ← henc]
    exact ⟨_, rfl⟩
  rw [hstep]
  refine ⟨_, List.mem_cons_of_mem _ List.mem_cons_self, ?_⟩
  intro h
  obtain ⟨air, hair, pdu, hdecode⟩ := h rfl
  cases hair
  rw [controlBuf_take c (by decide) 4 6, DataPdu.decode_cons] at hdecode
  cases hdecode

/-- The answer to `LL_FEATURE_REQ`. -/
theorem feature_decodable (c : Conn) : ∀ a ∈ (transmitRaw { c with
    txBuf := c.controlBuf 9 (llControlFeatureRsp :: List.replicate 8 0) (by decide) }
      .control 11).log, a.SendsDecodable :=
  transmitRaw_decodable _ .control (by omega) (Framed.isDataPdu ⟨_,
    llControlFeatureRsp :: List.replicate 8 0, controlBuf_take c (by decide) 9 9, by decide⟩)

/-- The answer to `LL_START_ENC_REQ`. -/
theorem startEnc_decodable (hw : Hw) (c : Conn) : ∀ a ∈ (tx hw { c with
    txBuf := c.controlBuf 1 [llControlStartEncRsp, 0] (by decide) } .control 3).log,
      a.SendsDecodable :=
  tx_decodable hw _ .control (by omega)
    ⟨_, [llControlStartEncRsp], controlBuf_take c (by decide) 1 1, by decide⟩

/-- **Every other control PDU.** -/
theorem controlStep_decodable (hw : Hw) (c : Conn) {op : UInt8} (payload : List UInt8)
    (hop : op ≠ llControlVersionInd) :
    ∀ a ∈ (c.controlStep hw op payload).log, a.SendsDecodable := by
  cases hraw : isRawAnswer op with
  | true =>
    have hfeature : op = llControlFeatureReq ∨ op = llControlFeatureRsp := by
      have h := of_decide_eq_true hraw
      exact h.resolve_left hop
    have hlog : (c.controlStep hw op payload).log = (transmitRaw { c with
        txBuf := c.controlBuf 9 (llControlFeatureRsp :: List.replicate 8 0) (by decide) }
          .control 11).log := by
      rw [transmitRaw_of_le _ _ (by omega)]
      rcases hfeature with rfl | rfl
      all_goals
        unfold controlStep
        dsimp only
        rw [transmitRaw_of_le _ _ (by omega)]
        rfl
    rw [hlog]
    exact feature_decodable c
  | false =>
    by_cases hreq : op = llControlStartEncReq
    · rw [hreq]
      have hsub : (c.controlStep hw llControlStartEncReq payload).log = (tx hw { c with
          txBuf := c.controlBuf 1 [llControlStartEncRsp, 0] (by decide) } .control 3).log := by
        have hx : c.controlStep hw llControlStartEncReq payload = (tx hw { c with
            txBuf := c.controlBuf 1 [llControlStartEncRsp, 0] (by decide) } .control 3 >>=
              fun c => pure c.startEncryption) := rfl
        rw [hx]
        exact Logged.bind_log fun _ => rfl
      rw [hsub]
      exact startEnc_decodable hw c
    · rw [(controlStep_quiet hw c payload hraw hreq).1]
      exact fun a ha => nomatch ha

/-- The log of a control PDU says what it was. -/
theorem not_answersVersion_iff (hw : Hw) (c : Conn) (payload : List UInt8) :
    (∀ a ∈ (c.handleLlControl hw payload).log, ¬ a.AnswersVersion) ↔
      ¬ (c.encrypted = false ∧ payload.head? = some llControlVersionInd) := by
  obtain ⟨hlog, _⟩ := handleLlControl_spec hw c payload
  rcases hlog with ⟨hlog, _⟩ | ⟨t, hlog, _⟩ <;> rw [hlog]
  · exact List.forall_mem_singleton
  · rw [List.forall_mem_cons, List.forall_mem_singleton]
    exact and_iff_left id

/-- **Handling a control PDU**: only a version indication is answered with what is no PDU. -/
theorem handleLlControl_decodable_iff (hw : Hw) (c : Conn) (payload : List UInt8) :
    (∀ a ∈ (c.handleLlControl hw payload).log, a.SendsDecodable) ↔
      ∀ a ∈ (c.handleLlControl hw payload).log, ¬ a.AnswersVersion := by
  rw [not_answersVersion_iff]
  cases payload with
  | nil => exact iff_of_true (List.forall_mem_singleton.mpr trivial) (fun h => nomatch h.2)
  | cons op rest =>
    by_cases hversion : op = llControlVersionInd
    · rw [hversion]
      cases henc : c.encrypted with
      | false =>
        obtain ⟨a, ha, hnot⟩ := version_not_decodable hw henc rest
        exact iff_of_false (fun h => hnot (h a ha)) (fun h => h ⟨rfl, rfl⟩)
      | true =>
        -- the answer goes out in the clear, but this is not about an encrypted link
        obtain ⟨hlog, _⟩ := handleLlControl_cons hw c llControlVersionInd rest (by decide)
        obtain ⟨t, c', hstep, hsent, _⟩ :=
          controlStep_raw hw c (llControlVersionInd :: rest)
            (show isRawAnswer llControlVersionInd = true from rfl)
        refine iff_of_true ?_ (fun h => nomatch h.1)
        rw [hlog, hstep, List.forall_mem_cons, List.forall_mem_singleton]
        refine ⟨trivial, ?_⟩
        intro hplain
        rw [hsent.encrypted, henc] at hplain
        cases hplain
    · refine iff_of_true ?_ (fun h => hversion (Option.some.inj h.2))
      by_cases hterm : op = llControlTerminateInd
      · rw [hterm]
        exact List.forall_mem_singleton.mpr trivial
      · rw [(handleLlControl_cons hw c op rest hterm).1, List.forall_mem_cons]
        exact ⟨trivial, controlStep_decodable hw c (op :: rest) hversion⟩

end Conn

/-! ## Along a run -/

/-- **One step.** -/
theorem Step.decodable_iff {s s' : Sys} {acts : List Act} (h : Step hw s acts s') :
    (∀ a ∈ acts, a.SendsDecodable) ↔ ∀ a ∈ acts, ¬ a.AnswersVersion := by
  cases h with
  | ctrl c o payload => exact c.handleLlControl_decodable_iff hw payload
  | respond c =>
    refine iff_of_true (c.respond_decodable hw) ?_
    rcases c.afterRespond_spec hw with ⟨hlog, _⟩ | ⟨t, kind, hlog, _⟩ <;> rw [hlog]
    · exact fun a ha => nomatch ha
    · exact List.forall_mem_singleton.mpr id
  | terminate c o =>
    refine iff_of_true c.sendTerminate_decodable ?_
    obtain ⟨t, r, c', hx, _⟩ := c.sendTerminate_spec
    rw [hx, List.forall_mem_cons, List.forall_mem_singleton]
    exact ⟨id, id⟩
  | tick | accept | l2cap | bondKey =>
    exact iff_of_true (List.forall_mem_singleton.mpr trivial) (List.forall_mem_singleton.mpr id)
  | deliver =>
    rw [List.forall_mem_cons, List.forall_mem_singleton, List.forall_mem_cons,
      List.forall_mem_singleton]
    exact iff_of_true ⟨trivial, trivial⟩ ⟨id, id⟩
  | heard | call => exact iff_of_true (fun a ha => nomatch ha) (fun a ha => nomatch ha)

/-- **Every run**, from any state: every PDU handed to the radio unencrypted is one `DataPdu::decode`
    takes iff no `LL_VERSION_IND` is handled while the link is unencrypted. -/
theorem sent_pdus_decode_iff (hw : Hw) (ops : List Op) (c : Conn) :
    (∀ a ∈ (Conn.runOps hw ops c).log, a.SendsDecodable) ↔
      ∀ a ∈ (Conn.runOps hw ops c).log, ¬ a.AnswersVersion := by
  obtain ⟨⟨_, h⟩, _⟩ := runOps_invariant hw
    (I := fun log _ => (∀ a ∈ log, a.SendsDecodable) ↔ ∀ a ∈ log, ¬ a.AnswersVersion) ops c
    (iff_of_true (fun a ha => nomatch ha) (fun a ha => nomatch ha)) (by
      intro log s acts s' ih hstep
      rw [List.forall_mem_append, List.forall_mem_append]
      exact and_congr ih hstep.decodable_iff)
  exact h

/-- A version indication handled by a new connection: eight bytes with a length field of four, which
    the decoder refuses. -/
theorem version_answer_not_decodable :
    let log := (Conn.runOps Hw.standIn [.llControl [llControlVersionInd]] (Conn.sample .slave)).log
    (log.filterMap Act.sent).map TxRec.air = [some [6, 4, 0x0C, 0x0C, 0xFF, 0xFF, 0, 0]] ∧
      DataPdu.decode [6, 4, 0x0C, 0x0C, 0xFF, 0xFF, 0, 0] = .ok (.error .invalidLength) ∧
      ¬ ∀ a ∈ log, a.SendsDecodable := by
  refine ⟨by decide +kernel, rfl, ?_⟩
  intro h
  obtain ⟨a, ha, hnot⟩ :=
    Conn.version_not_decodable Hw.standIn (c := Conn.sample .slave) rfl []
  exact hnot (h a ha)

end NrfBle
