/-
  When the PDU codec panics (`src/ll/pdu.rs`).

  The two decoders look at the length before they index, and always answer.  `encode_typed` checks the
  length of the payload and the room in the buffer, and refuses without a byte written; but it does not
  look at the slices it copies.  Two variants ask something of theirs: `ll_data` is copied into 22
  bytes, and the first byte of `ehs` is read.  With another `ll_data`, or an empty `ehs`, it panics
  unless it refuses before (`codecTotal_iff`).
-/
import Mathlib.Tactic
import NrfBle.Ll.Advertising

namespace NrfBle

open Checked

namespace AdvPdu

/-- The payload length `encode_typed` reckons with. -/
def reckoned : AdvPdu → Nat
  | .connectReq .. => 34
  | pdu => pdu.payload.length

/-- `encode_typed` refuses: the payload is longer than a header can say, or the buffer too small. -/
def Refused (pdu : AdvPdu) (out : List UInt8) : Prop :=
  pdu.reckoned > 63 ∨ out.length < 2 + pdu.reckoned

/-! ## The common frame -/

section Frame

variable {out out' : List UInt8} {pduType : UInt8} {txAdd rxAdd : Bool} {k : Nat}
  {writePayload : List UInt8 → Except Panic (List UInt8)}

theorem encodeWith_refused (h : k > 63 ∨ out.length < 2 + k) :
    ∃ e, encodeWith out pduType txAdd rxAdd k writePayload = .ok (.error e, out) := by
  unfold encodeWith
  by_cases hlong : k > 63
  · rw [if_pos hlong]
    exact ⟨_, rfl⟩
  · rw [if_neg hlong]
    dsimp only
    rw [if_pos (h.resolve_left hlong)]
    exact ⟨_, rfl⟩

/-- An error leaves the buffer alone. -/
theorem encodeWith_error {e : Error}
    (h : encodeWith out pduType txAdd rxAdd k writePayload = .ok (.error e, out')) : out' = out := by
  unfold encodeWith at h
  split at h
  · cases h
    rfl
  · dsimp only at h
    split at h
    · cases h
      rfl
    · obtain ⟨_, _, h⟩ := bind_eq_ok.mp h
      obtain ⟨_, _, h⟩ := bind_eq_ok.mp h
      obtain ⟨_, _, h⟩ := bind_eq_ok.mp h
      cases h

/-- A writer that cannot fill the area is not called only if the PDU is refused. -/
theorem returns_encodeWith_iff (hstuck : ∀ o : List UInt8, o.length = k → ¬ Returns (writePayload o)) :
    Returns (encodeWith out pduType txAdd rxAdd k writePayload) ↔ k > 63 ∨ out.length < 2 + k := by
  constructor
  · intro hret
    by_contra hroom
    rw [not_or] at hroom
    obtain ⟨r, h⟩ := hret
    unfold encodeWith at h
    rw [if_neg hroom.1] at h
    dsimp only at h
    rw [if_neg hroom.2] at h
    obtain ⟨out₁, hcopy, h⟩ := bind_eq_ok.mp h
    obtain ⟨body, hslice, h⟩ := bind_eq_ok.mp h
    obtain ⟨body', hwrite, _⟩ := bind_eq_ok.mp h
    obtain ⟨_, _, _, rfl⟩ := copyInto_eq_ok.mp hcopy
    refine hstuck body ?_ ⟨body', hwrite⟩
    unfold slice at hslice
    split at hslice
    · rename_i hbounds
      cases hslice
      rw [List.length_drop, List.length_take]
      omega
    · cases hslice
  · intro h
    obtain ⟨e, he⟩ := encodeWith_refused h
    exact ⟨_, he⟩

end Frame

/-! ## The two variants -/

/-- `ll_data` that has not 22 bytes cannot be copied. -/
theorem connectReq_stuck (a b : Buf 6) {llData : List UInt8} (h : llData.length ≠ 22) (o : List UInt8) :
    ¬ Returns (twoAddrs a b o >>= fun o => copyInto o 12 34 llData) := by
  rintro ⟨o', ho⟩
  obtain ⟨o₁, _, hcopy⟩ := bind_eq_ok.mp ho
  exact h (copyInto_eq_ok.mp hcopy).2.2.1

/-- **When `encode_typed` returns.** -/
theorem returns_encodeTyped_iff (pdu : AdvPdu) (out : List UInt8) (txAdd rxAdd : Bool) :
    Returns (pdu.encodeTyped out txAdd rxAdd) ↔ pdu.Sized ∨ pdu.Refused out := by
  by_cases hsized : pdu.Sized
  · exact iff_of_true ⟨_, encodeTyped_eq hsized out txAdd rxAdd⟩ (.inl hsized)
  rw [or_iff_right hsized]
  unfold encodeTyped
  by_cases hout : out.length < 2
  · rw [if_pos hout]
    exact iff_of_true (returns_ok _) (.inr (by omega))
  rw [if_neg hout]
  cases pdu with
  | connectReq a b llData => exact returns_encodeWith_iff fun o _ => connectReq_stuck a b hsized o
  | auxAdvExtIndWithEh addr adi ehs data =>
    obtain rfl : ehs = [] := not_not.mp hsized
    have hlen : 8 + ([] : List UInt8).length + data.length =
        (AdvPdu.auxAdvExtIndWithEh addr adi [] data).reckoned := by
      simp only [reckoned, payload, List.length_append, List.length_nil, addr.size, adi.size]
    dsimp only
    rw [hlen]
    refine returns_encodeWith_iff fun o _ => ?_
    rintro ⟨o', ho⟩
    obtain ⟨o₁, _, ho⟩ := bind_eq_ok.mp ho
    obtain ⟨o₂, _, ho⟩ := bind_eq_ok.mp ho
    -- the first byte of the extended header
    obtain ⟨eh0, heh, _⟩ := bind_eq_ok.mp ho
    cases heh
  | _ => exact absurd trivial hsized

/-- **An error leaves the buffer alone**, whatever the variant. -/
theorem encodeTyped_error {pdu : AdvPdu} {out out' : List UInt8} {txAdd rxAdd : Bool} {e : Error}
    (h : pdu.encodeTyped out txAdd rxAdd = .ok (.error e, out')) : out' = out := by
  unfold encodeTyped at h
  split at h
  · cases h
    rfl
  · cases pdu <;> exact encodeWith_error h

/-! ## The codec -/

/-- The codec answers: both decoders for these bytes, the encoder for this PDU and this buffer, and if
    with an error, then without a byte written. -/
structure CodecTotal (bytes : List UInt8) (pdu : AdvPdu) (out : List UInt8) (txAdd rxAdd : Bool) :
    Prop where
  decode : Returns (AdvPdu.decode bytes)
  decodeData : Returns (DataPdu.decode bytes)
  encode : Returns (pdu.encodeTyped out txAdd rxAdd)
  clean : ∀ e out', pdu.encodeTyped out txAdd rxAdd = .ok (.error e, out') → out' = out

/-- **When the codec is total.**  The decoders answer on all bytes, and an error leaves the buffer
    alone; so the codec is total iff the slices have the lengths the encoder relies on, or it refuses
    before it copies them. -/
theorem codecTotal_iff (bytes : List UInt8) (pdu : AdvPdu) (out : List UInt8) (txAdd rxAdd : Bool) :
    CodecTotal bytes pdu out txAdd rxAdd ↔ pdu.Sized ∨ pdu.Refused out := by
  rw [← returns_encodeTyped_iff pdu out txAdd rxAdd]
  constructor
  · exact CodecTotal.encode
  · intro h
    exact ⟨returns_decode bytes, DataPdu.returns_decode bytes, h, fun _ _ herr => encodeTyped_error herr⟩

/-- A `CONNECT_REQ` without parameters, and an auxiliary packet with an empty extended header, in a
    buffer of 64 bytes. -/
theorem encodeTyped_panics :
    (¬ ∀ bytes pdu out txAdd rxAdd, CodecTotal bytes pdu out txAdd rxAdd) ∧
      (AdvPdu.connectReq (Buf.zero 6) (Buf.zero 6) []).encodeTyped (List.replicate 64 0) false false =
        .error .length ∧
      (AdvPdu.auxAdvExtIndWithEh (Buf.zero 6) (Buf.zero 2) [] []).encodeTyped (List.replicate 64 0)
        false false = .error .index := by
  have hconnect : (AdvPdu.connectReq (Buf.zero 6) (Buf.zero 6) []).encodeTyped (List.replicate 64 0)
      false false = .error .length := by decide +kernel
  refine ⟨?_, hconnect, by decide +kernel⟩
  intro h
  have hret := (h [] (.connectReq (Buf.zero 6) (Buf.zero 6) []) (List.replicate 64 0) false false).encode
  rw [hconnect] at hret
  exact not_returns_error _ hret

end AdvPdu

end NrfBle
