/-
  What the session key depends on (`src/hw/smp.rs`).

  The pairing methods may be called in ANY order with ANY bytes; nothing in them looks at `state`.
  Two facts survive that:

  1. `peer_confirm` is a register that only `handle_confirm` writes, so at every point of every
     sequence of calls it holds the value of the last confirm that was accepted
     (`runCalls_peerConfirm`);
  2. `handle_random` compares with that register before it writes the key, and it is the only
     method that writes it.

  Together: the key is BOUND to the confirm value (`stk_bound_to_confirm`).

  The two ends of a pairing are a different matter.  Each derives the key from "my random value,
  your random value", in this order and in both roles, and s1 keeps eight bytes of each.  So the
  ends agree exactly when these eight bytes do (`stk_agree_iff`).

  The LTK of secure connections is meant to be the second output of f5, and is the MAC of the right
  message under the wrong key: the first output, the MacKey, where f5 has its own (`Smp.ltkIsF5_iff`).
-/
import Mathlib.Tactic
import NrfBle.Hw.Smp

namespace NrfBle

open Checked

namespace Smp

/-! ## The handlers, their branches resolved -/

theorem value_length {data : List UInt8} (h : ¬ data.length < 17) :
    ((data.take 17).drop 1).length = 16 := by
  rw [List.length_drop, List.length_take]
  omega

/-- The 16 bytes behind the opcode, `data[1..17]`; zeroes when they are not there. -/
def valueOf (data : List UInt8) : Buf 16 :=
  if h : data.length < 17 then Buf.zero 16 else ⟨(data.take 17).drop 1, value_length h⟩

theorem valueOf_bytes {data : List UInt8} (h : 17 ≤ data.length) :
    (valueOf data).bytes = (data.take 17).drop 1 := by
  unfold valueOf
  rw [dif_neg (by omega)]

/-- The value of a PDU that is an opcode and a value. -/
theorem valueOf_cons (op : UInt8) (r : Buf 16) : valueOf (op :: r.bytes) = r := by
  have hlen : (op :: r.bytes).length = 17 := by rw [List.length_cons, r.size]
  apply Buf.ext
  rw [valueOf_bytes (by omega), ← hlen, List.take_length, List.drop_one, List.tail_cons]

theorem command_length {data : List UInt8} (h : ¬ data.length < 7) : (data.take 7).length = 7 := by
  rw [List.length_take]
  omega

/-- The whole of a pairing request or response, `data[..7]`; zeroes when it is not there. -/
def commandOf (data : List UInt8) : Buf 7 :=
  if h : data.length < 7 then Buf.zero 7 else ⟨data.take 7, command_length h⟩

theorem commandOf_bytes {data : List UInt8} (h : 7 ≤ data.length) :
    (commandOf data).bytes = data.take 7 := by
  unfold commandOf
  rw [dif_neg (by omega)]

theorem handlePairingRequest_short (s : Smp) {data : List UInt8} (h : data.length < 7) :
    s.handlePairingRequest data = (.error .invalidPdu, s) := by
  unfold handlePairingRequest
  rw [dif_pos h]

theorem handlePairingRequest_long (s : Smp) {data : List UInt8} (h : 7 ≤ data.length) :
    s.handlePairingRequest data =
      (.ok pairingResponse,
        { s with
          preq := commandOf data, rat := 0, responder := true, state := .waitConfirm
          pres := pairingResponse }) := by
  unfold handlePairingRequest commandOf
  rw [dif_neg (by omega), dif_neg (by omega)]

theorem handlePairingResponse_short (s : Smp) {data : List UInt8} (h : data.length < 7) :
    s.handlePairingResponse data = (.error .invalidPdu, s) := by
  unfold handlePairingResponse
  rw [dif_pos h]

theorem handlePairingResponse_long (s : Smp) {data : List UInt8} (h : 7 ≤ data.length) :
    s.handlePairingResponse data =
      (.ok (), { s with pres := commandOf data, state := .waitConfirm }) := by
  unfold handlePairingResponse commandOf
  rw [dif_neg (by omega), dif_neg (by omega)]

/-- A public key is refused with at most the peer's point stored, or accepted with the secret. -/
theorem handlePublicKey_cases (hw : Hw) (s : Smp) (data : List UInt8) :
    (∃ point, s.handlePublicKey hw data = (.error .invalidPdu, { s with peerPublic := point })) ∨
    (∃ point dh, s.handlePublicKey hw data =
      (.ok (), { s with peerPublic := point, dhkey := dh, sc := true })) := by
  unfold handlePublicKey
  by_cases hlen : data.length < 65
  · rw [dif_pos hlen]
    exact .inl ⟨s.peerPublic, rfl⟩
  · rw [dif_neg hlen]
    dsimp only
    split
    · exact .inl ⟨_, rfl⟩
    · exact .inr ⟨_, _, rfl⟩

theorem handleConfirm_short (s : Smp) {data : List UInt8} (h : data.length < 17) :
    s.handleConfirm data = (.error .invalidPdu, s) := by
  unfold handleConfirm
  rw [dif_pos h]

theorem handleConfirm_long (s : Smp) {data : List UInt8} (h : 17 ≤ data.length) :
    s.handleConfirm data =
      (.ok (), { s with peerConfirm := valueOf data, state := .waitRandom }) := by
  unfold handleConfirm valueOf
  rw [dif_neg (by omega), dif_neg (by omega)]

theorem handleRandom_short (hw : Hw) (s : Smp) {data : List UInt8} (h : data.length < 17) :
    s.handleRandom hw data = (.error .invalidPdu, s) := by
  unfold handleRandom
  rw [dif_pos h]

/-- The random value verifies: it is the one the stored confirm value was made from. -/
def Verifies (hw : Hw) (s : Smp) (r : Buf 16) : Prop := c1 hw s.tk (s.c1Inputs r) = s.peerConfirm

theorem handleRandom_mismatch (hw : Hw) (s : Smp) {data : List UInt8} (h : 17 ≤ data.length)
    (hv : ¬ s.Verifies hw (valueOf data)) :
    s.handleRandom hw data =
      (.error .confirmMismatch,
        { s with peerRandom := valueOf data, pairingFailed := smpReasonConfirm }) := by
  unfold Verifies valueOf at hv
  rw [dif_neg (by omega)] at hv
  unfold handleRandom valueOf
  rw [dif_neg (by omega), dif_neg (by omega)]
  exact if_pos hv

theorem handleRandom_verified (hw : Hw) (s : Smp) {data : List UInt8} (h : 17 ≤ data.length)
    (hv : s.Verifies hw (valueOf data)) :
    s.handleRandom hw data =
      (.ok s.buildRandom,
        { s with
          peerRandom := valueOf data
          stk := s1 hw s.tk s.ownRandom (valueOf data)
          state := .waitingStartEnc
          pairingFailed := 0 }) := by
  unfold Verifies valueOf at hv
  rw [dif_neg (by omega)] at hv
  unfold handleRandom valueOf
  rw [dif_neg (by omega), dif_neg (by omega)]
  exact if_neg (not_not.mpr hv)

/-- **When `handle_random` succeeds.** -/
theorem handleRandom_isOk (hw : Hw) (s : Smp) (data : List UInt8) :
    (s.handleRandom hw data).1.isOk = true ↔ 17 ≤ data.length ∧ s.Verifies hw (valueOf data) := by
  rcases Nat.lt_or_ge data.length 17 with hlen | hlen
  · rw [s.handleRandom_short hw hlen]
    exact iff_of_false (by rintro h; cases h) (by omega)
  · by_cases hv : s.Verifies hw (valueOf data)
    · rw [s.handleRandom_verified hw hlen hv]
      exact iff_of_true rfl ⟨hlen, hv⟩
    · rw [s.handleRandom_mismatch hw hlen hv]
      exact iff_of_false (by rintro h; cases h) (fun h => hv h.2)

end Smp

/-! ## Sequences of calls -/

/-- A call of a method of `Smp`. -/
inductive SmpCall
  | setPasskey (passkey : Option UInt32)
  | enableSc
  | buildPairingRequest
  | handlePairingRequest (data : List UInt8)
  | handlePairingResponse (data : List UInt8)
  | buildPublicKey
  | handlePublicKey (data : List UInt8)
  | computeLtkSc (n1 n2 : Buf 16) (a1 a2 : Buf 7)
  | buildFailed (reason : UInt8)
  | failUnspecified
  | failOob
  | failAuth
  | buildConfirm (iat : UInt8) (ia ra : Buf 6)
  | handleConfirm (data : List UInt8)
  | buildRandom
  | handleRandom (data : List UInt8)

namespace SmpCall

/-- The state a call leaves.  The methods with a `&self` receiver leave it as it is, and so does
    `build_public_key` when it panics. -/
def run (hw : Hw) (s : Smp) : SmpCall → Smp
  | .setPasskey passkey => s.setPasskey passkey
  | .enableSc => s.enableSc
  | .buildPairingRequest => s.buildPairingRequest.2
  | .handlePairingRequest data => (s.handlePairingRequest data).2
  | .handlePairingResponse data => (s.handlePairingResponse data).2
  | .handlePublicKey data => (s.handlePublicKey hw data).2
  | .failUnspecified => s.failUnspecified.2
  | .failOob => s.failOob.2
  | .failAuth => s.failAuth.2
  | .buildConfirm iat ia ra => (s.buildConfirm hw iat ia ra).2
  | .handleConfirm data => (s.handleConfirm data).2
  | .handleRandom data => (s.handleRandom hw data).2
  | .buildPublicKey | .computeLtkSc .. | .buildFailed _ | .buildRandom => s

/-- The call answers `Err`. -/
def fails (hw : Hw) (s : Smp) : SmpCall → Bool
  | .handlePairingRequest data => !(s.handlePairingRequest data).1.isOk
  | .handlePairingResponse data => !(s.handlePairingResponse data).1.isOk
  | .handlePublicKey data => !(s.handlePublicKey hw data).1.isOk
  | .handleConfirm data => !(s.handleConfirm data).1.isOk
  | .handleRandom data => !(s.handleRandom hw data).1.isOk
  | _ => false

/-- The call is one of `handle_random`. -/
def isRandom : SmpCall → Bool
  | .handleRandom _ => true
  | _ => false

end SmpCall

/-- A pairing state, and the value of the last confirm it accepted. -/
structure SmpRun where
  smp : Smp
  lastConfirm : Buf 16

namespace SmpRun

/-- Make a call, and take note of a confirm that was accepted. -/
def step (hw : Hw) (r : SmpRun) (call : SmpCall) : SmpRun where
  smp := call.run hw r.smp
  lastConfirm :=
    match call with
    | .handleConfirm data =>
      if (r.smp.handleConfirm data).1.isOk then Smp.valueOf data else r.lastConfirm
    | _ => r.lastConfirm

/-- A sequence of calls, from `Smp::new()`. -/
def runCalls (hw : Hw) (calls : List SmpCall) : SmpRun :=
  calls.foldl (step hw) ⟨Smp.new, Buf.zero 16⟩

end SmpRun

/-! ## The confirm value -/

/-- Only `handle_confirm` writes the stored confirm value. -/
theorem SmpCall.run_peerConfirm (hw : Hw) (s : Smp) (call : SmpCall) :
    (call.run hw s).peerConfirm =
      match call with
      | .handleConfirm data =>
        if (s.handleConfirm data).1.isOk then Smp.valueOf data else s.peerConfirm
      | _ => s.peerConfirm := by
  cases call with
  | handlePairingRequest data =>
    show (s.handlePairingRequest data).2.peerConfirm = s.peerConfirm
    rcases Nat.lt_or_ge data.length 7 with hlen | hlen
    · rw [s.handlePairingRequest_short hlen]
    · rw [s.handlePairingRequest_long hlen]
  | handlePairingResponse data =>
    show (s.handlePairingResponse data).2.peerConfirm = s.peerConfirm
    rcases Nat.lt_or_ge data.length 7 with hlen | hlen
    · rw [s.handlePairingResponse_short hlen]
    · rw [s.handlePairingResponse_long hlen]
  | handlePublicKey data =>
    show (s.handlePublicKey hw data).2.peerConfirm = s.peerConfirm
    rcases s.handlePublicKey_cases hw data with ⟨point, h⟩ | ⟨point, dh, h⟩ <;> rw [h]
  | handleConfirm data =>
    show (s.handleConfirm data).2.peerConfirm =
      if (s.handleConfirm data).1.isOk then Smp.valueOf data else s.peerConfirm
    rcases Nat.lt_or_ge data.length 17 with hlen | hlen
    · rw [s.handleConfirm_short hlen]; rfl
    · rw [s.handleConfirm_long hlen]; rfl
  | handleRandom data =>
    show (s.handleRandom hw data).2.peerConfirm = s.peerConfirm
    rcases Nat.lt_or_ge data.length 17 with hlen | hlen
    · rw [s.handleRandom_short hw hlen]
    · by_cases hv : s.Verifies hw (Smp.valueOf data)
      · rw [s.handleRandom_verified hw hlen hv]
      · rw [s.handleRandom_mismatch hw hlen hv]
  | _ => rfl

/-- The register holds the last confirm value: one call. -/
theorem SmpRun.step_peerConfirm (hw : Hw) {r : SmpRun} (h : r.smp.peerConfirm = r.lastConfirm)
    (call : SmpCall) : (r.step hw call).smp.peerConfirm = (r.step hw call).lastConfirm := by
  unfold SmpRun.step
  rw [call.run_peerConfirm hw, h]

/-- The register holds the last confirm value, after every sequence of calls. -/
theorem SmpRun.runCalls_peerConfirm (hw : Hw) (calls : List SmpCall) :
    (SmpRun.runCalls hw calls).smp.peerConfirm = (SmpRun.runCalls hw calls).lastConfirm := by
  have hrun : ∀ r : SmpRun, r.smp.peerConfirm = r.lastConfirm →
      (calls.foldl (SmpRun.step hw) r).smp.peerConfirm =
        (calls.foldl (SmpRun.step hw) r).lastConfirm := by
    induction calls with
    | nil => intro r h; exact h
    | cons call calls ih => intro r h; exact ih _ (SmpRun.step_peerConfirm hw h call)
  exact hrun ⟨Smp.new, Buf.zero 16⟩ rfl

/-! ## The key -/

/-- The key material and the pairing state are as before. -/
structure SameKeys (s s' : Smp) : Prop where
  stk : s'.stk = s.stk
  dhkey : s'.dhkey = s.dhkey
  sc : s'.sc = s.sc
  state : s'.state = s.state

theorem SameKeys.refl (s : Smp) : SameKeys s s := ⟨rfl, rfl, rfl, rfl⟩

/-- **A call that answers `Err` touches no key material**, although some write before they
    check. -/
theorem SmpCall.sameKeys_of_fails (hw : Hw) (s : Smp) (call : SmpCall)
    (h : call.fails hw s = true) : SameKeys s (call.run hw s) := by
  cases call with
  | handlePairingRequest data =>
    replace h : (!(s.handlePairingRequest data).1.isOk) = true := h
    show SameKeys s (s.handlePairingRequest data).2
    rcases Nat.lt_or_ge data.length 7 with hlen | hlen
    · rw [s.handlePairingRequest_short hlen]; exact .refl s
    · rw [s.handlePairingRequest_long hlen] at h; cases h
  | handlePairingResponse data =>
    replace h : (!(s.handlePairingResponse data).1.isOk) = true := h
    show SameKeys s (s.handlePairingResponse data).2
    rcases Nat.lt_or_ge data.length 7 with hlen | hlen
    · rw [s.handlePairingResponse_short hlen]; exact .refl s
    · rw [s.handlePairingResponse_long hlen] at h; cases h
  | handlePublicKey data =>
    replace h : (!(s.handlePublicKey hw data).1.isOk) = true := h
    show SameKeys s (s.handlePublicKey hw data).2
    rcases s.handlePublicKey_cases hw data with ⟨point, heq⟩ | ⟨point, dh, heq⟩
    · -- the peer's point is stored already, the secret is not
      rw [heq]; exact ⟨rfl, rfl, rfl, rfl⟩
    · rw [heq] at h; cases h
  | handleConfirm data =>
    replace h : (!(s.handleConfirm data).1.isOk) = true := h
    show SameKeys s (s.handleConfirm data).2
    rcases Nat.lt_or_ge data.length 17 with hlen | hlen
    · rw [s.handleConfirm_short hlen]; exact .refl s
    · rw [s.handleConfirm_long hlen] at h; cases h
  | handleRandom data =>
    replace h : (!(s.handleRandom hw data).1.isOk) = true := h
    show SameKeys s (s.handleRandom hw data).2
    rcases Nat.lt_or_ge data.length 17 with hlen | hlen
    · rw [s.handleRandom_short hw hlen]; exact .refl s
    · by_cases hv : s.Verifies hw (Smp.valueOf data)
      · rw [s.handleRandom_verified hw hlen hv] at h; cases h
      · -- the peer's random value and the reason are stored
        rw [s.handleRandom_mismatch hw hlen hv]; exact ⟨rfl, rfl, rfl, rfl⟩
  | _ => cases h

/-- No method but `handle_random` writes the key. -/
theorem SmpCall.run_stk (hw : Hw) (s : Smp) (call : SmpCall) (h : call.isRandom = false) :
    (call.run hw s).stk = s.stk := by
  cases call with
  | handlePairingRequest data => exact s.handlePairingRequest_stk data
  | handlePairingResponse data => exact s.handlePairingResponse_stk data
  | handleConfirm data => exact s.handleConfirm_stk data
  | handlePublicKey data =>
    show (s.handlePublicKey hw data).2.stk = s.stk
    rcases s.handlePublicKey_cases hw data with ⟨point, heq⟩ | ⟨point, dh, heq⟩ <;> rw [heq]
  | handleRandom data => cases h
  | _ => rfl

/-- **The session key is bound to the confirm value.**  After every sequence of calls from
    `Smp::new()`:
    (1) `handle_random` accepts a PDU iff it is long enough and c1 of its random value, under the
        current inputs, is the last confirm value accepted (zero if none);
    (2) then the key is s1 of the two random values;
    (3) a call that answers `Err` leaves key material and state as they were;
    (4) no other method writes the key. -/
theorem stk_bound_to_confirm (hw : Hw) (calls : List SmpCall) :
    (∀ data, ((SmpRun.runCalls hw calls).smp.handleRandom hw data).1.isOk = true ↔
      17 ≤ data.length ∧
        c1 hw (SmpRun.runCalls hw calls).smp.tk
          ((SmpRun.runCalls hw calls).smp.c1Inputs (Smp.valueOf data)) =
            (SmpRun.runCalls hw calls).lastConfirm) ∧
    (∀ data, ((SmpRun.runCalls hw calls).smp.handleRandom hw data).1.isOk = true →
      ((SmpRun.runCalls hw calls).smp.handleRandom hw data).2.stk =
        s1 hw (SmpRun.runCalls hw calls).smp.tk (SmpRun.runCalls hw calls).smp.ownRandom
          (Smp.valueOf data)) ∧
    (∀ call : SmpCall, call.fails hw (SmpRun.runCalls hw calls).smp = true →
      SameKeys (SmpRun.runCalls hw calls).smp (call.run hw (SmpRun.runCalls hw calls).smp)) ∧
    (∀ call : SmpCall, call.isRandom = false →
      (call.run hw (SmpRun.runCalls hw calls).smp).stk = (SmpRun.runCalls hw calls).smp.stk) := by
  have hconf := SmpRun.runCalls_peerConfirm hw calls
  generalize SmpRun.runCalls hw calls = r at hconf
  refine ⟨?_, ?_, SmpCall.sameKeys_of_fails hw r.smp, SmpCall.run_stk hw r.smp⟩
  · intro data
    rw [Smp.handleRandom_isOk, Smp.Verifies, hconf]
  · intro data hok
    obtain ⟨hlen, hv⟩ := (Smp.handleRandom_isOk hw r.smp data).mp hok
    rw [r.smp.handleRandom_verified hw hlen hv]

/-! ## The two ends -/

/-- The eight bytes of each random value that s1 keeps decide its result, if the cipher is a
    permutation. -/
theorem s1_swap_iff {hw : Hw} {k : Buf 16} (haes : Function.Injective (hw.aesEncrypt k))
    (ra rb : Buf 16) : s1 hw k ra rb = s1 hw k rb ra ↔ ra.bytes.take 8 = rb.bytes.take 8 := by
  constructor
  · intro h
    have hblock := congrArg Buf.bytes (haes h)
    have hlen : (rb.bytes.take 8).length = (ra.bytes.take 8).length := by
      rw [List.length_take, List.length_take, ra.size, rb.size]
    exact (List.append_inj hblock hlen).2
  · intro h
    unfold s1
    simp only [h]

/-- Two ends of one pairing: equal c1 inputs, and each holds the confirm value of the other's
    random value. -/
structure PairedEnds (hw : Hw) (initiator responder : Smp) : Prop where
  tk : initiator.tk = responder.tk
  inputs : ∀ r, initiator.c1Inputs r = responder.c1Inputs r
  confirmI : initiator.Verifies hw responder.ownRandom
  confirmR : responder.Verifies hw initiator.ownRandom

/-- **Agreement on the session key.**  Two ends that exchange their random values both accept, and
    they derive the same key iff the random values agree in their first eight bytes: both roles
    put their OWN random value first. -/
theorem stk_agree_iff (hw : Hw) (haes : ∀ k, Function.Bijective (hw.aesEncrypt k))
    (initiator responder : Smp) (h : PairedEnds hw initiator responder) (op : UInt8) :
    ((responder.handleRandom hw (op :: initiator.ownRandom.bytes)).1.isOk = true ∧
      (initiator.handleRandom hw (op :: responder.ownRandom.bytes)).1.isOk = true ∧
      (initiator.handleRandom hw (op :: responder.ownRandom.bytes)).2.stk =
        (responder.handleRandom hw (op :: initiator.ownRandom.bytes)).2.stk) ↔
    initiator.ownRandom.bytes.take 8 = responder.ownRandom.bytes.take 8 := by
  have hlen : ∀ r : Buf 16, 17 ≤ (op :: r.bytes).length := by
    intro r
    rw [List.length_cons, r.size]
  have hi : initiator.Verifies hw (Smp.valueOf (op :: responder.ownRandom.bytes)) := by
    rw [Smp.valueOf_cons]
    exact h.confirmI
  have hr : responder.Verifies hw (Smp.valueOf (op :: initiator.ownRandom.bytes)) := by
    rw [Smp.valueOf_cons]
    exact h.confirmR
  rw [responder.handleRandom_verified hw (hlen _) hr,
    initiator.handleRandom_verified hw (hlen _) hi, Smp.valueOf_cons, Smp.valueOf_cons, h.tk,
    ← s1_swap_iff (haes responder.tk).injective]
  constructor
  · rintro ⟨_, _, hs⟩
    exact hs
  · intro hs
    exact ⟨rfl, rfl, hs⟩

/-- An end of a Just Works pairing with these random and confirm values, everything else zero. -/
def Smp.holding (own confirm : Buf 16) : Smp :=
  { Smp.new with ownRandom := own, peerConfirm := confirm }

/-- A random value of two halves. -/
def halves (x y : UInt8) : Buf 16 := ⟨List.replicate 8 x ++ List.replicate 8 y, by simp⟩

/-- Two ends whose random values share their first eight bytes agree.  (With the identity for a
    block cipher and all other inputs zero, c1 of a random value is the value itself.) -/
theorem stk_agree_sharing_eight :
    ((Smp.holding (halves 7 9) (halves 7 7)).handleRandom Hw.standIn
        (4 :: (halves 7 7).bytes)).1.isOk = true ∧
      ((Smp.holding (halves 7 7) (halves 7 9)).handleRandom Hw.standIn
        (4 :: (halves 7 9).bytes)).1.isOk = true ∧
      ((Smp.holding (halves 7 7) (halves 7 9)).handleRandom Hw.standIn
        (4 :: (halves 7 9).bytes)).2.stk =
        ((Smp.holding (halves 7 9) (halves 7 7)).handleRandom Hw.standIn
          (4 :: (halves 7 7).bytes)).2.stk := by
  have hends : PairedEnds Hw.standIn (Smp.holding (halves 7 7) (halves 7 9))
      (Smp.holding (halves 7 9) (halves 7 7)) :=
    ⟨rfl, fun _ => rfl, by unfold Smp.Verifies; decide +kernel,
      by unfold Smp.Verifies; decide +kernel⟩
  exact (stk_agree_iff Hw.standIn (fun _ => Function.bijective_id) _ _ hends 4).mpr
    (by decide +kernel)

/-- Two ends with the random values `07..07` and `09..09` hold each other's confirm value, both accept
    and derive DIFFERENT keys. -/
theorem stk_differs_for_other_randoms :
    PairedEnds Hw.standIn (Smp.holding (halves 7 7) (halves 9 9))
        (Smp.holding (halves 9 9) (halves 7 7)) ∧
      ((Smp.holding (halves 9 9) (halves 7 7)).handleRandom Hw.standIn
        (4 :: (halves 7 7).bytes)).1.isOk = true ∧
      ((Smp.holding (halves 7 7) (halves 9 9)).handleRandom Hw.standIn
        (4 :: (halves 9 9).bytes)).1.isOk = true ∧
      ((Smp.holding (halves 7 7) (halves 9 9)).handleRandom Hw.standIn
        (4 :: (halves 9 9).bytes)).2.stk ≠
        ((Smp.holding (halves 9 9) (halves 7 7)).handleRandom Hw.standIn
          (4 :: (halves 7 7).bytes)).2.stk := by
  refine ⟨⟨rfl, fun _ => rfl, ?_, ?_⟩, ?_⟩
  · unfold Smp.Verifies; decide +kernel
  · unfold Smp.Verifies; decide +kernel
  · decide +kernel

/-! ## The key of secure connections -/

section F5

variable (hw : Hw) (dhkey : Buf 32) (n1 n2 : Buf 16) (a1 a2 : Buf 7)

/-- f5's salt. -/
def f5Salt : List UInt8 :=
  [0xbe, 0x83, 0x60, 0x5a, 0xdb, 0x0b, 0x37, 0x60, 0x38, 0xa5, 0xf5, 0xaa, 0x91, 0x83, 0x88, 0x6c]

theorem f5Salt_length : f5Salt.length = 16 := rfl

/-- f5's key: the shared secret under the salt. -/
def f5Key : Buf 16 := hw.aesCmac ⟨f5Salt, f5Salt_length⟩ dhkey.bytes

/-- f5's message with its counter: the length, the two ends, "btle". -/
def f5Message (counter : UInt8) : List UInt8 :=
  [0x00, 0x01] ++ a2.bytes ++ a1.bytes ++ n2.bytes ++ n1.bytes ++ [0x65, 0x6c, 0x74, 0x62] ++ [counter]

/-- f5: the MacKey and the LTK, both under the one key. -/
def f5 : Buf 16 × Buf 16 :=
  (hw.aesCmac (f5Key hw dhkey) (f5Message n1 n2 a1 a2 0),
    hw.aesCmac (f5Key hw dhkey) (f5Message n1 n2 a1 a2 1))

end F5

/-- The LTK is the second output of f5. -/
def Smp.LtkIsF5 (hw : Hw) (s : Smp) (n1 n2 : Buf 16) (a1 a2 : Buf 7) : Prop :=
  s.computeLtkSc hw n1 n2 a1 a2 = (f5 hw s.dhkey n1 n2 a1 a2).2

/-- The source puts the MacKey in the place of the key. -/
theorem Smp.computeLtkSc_eq (hw : Hw) (s : Smp) (n1 n2 : Buf 16) (a1 a2 : Buf 7) :
    s.computeLtkSc hw n1 n2 a1 a2 =
      hw.aesCmac (f5 hw s.dhkey n1 n2 a1 a2).1 (f5Message n1 n2 a1 a2 1) := rfl

/-- A MAC that adds one to each byte of its key. -/
def Hw.countingMac : Hw :=
  { Hw.standIn with
    aesCmac := fun key _ => ⟨key.bytes.map (· + 1), by rw [List.length_map, key.size]⟩ }

/-- **Which LTK is f5's.**  No inputs make it f5's for every MAC.  For a given MAC it is iff the MacKey
    and f5's key give the message the same tag; if no two keys do that, iff the MacKey is f5's key. -/
theorem Smp.ltkIsF5_iff (s : Smp) (n1 n2 : Buf 16) (a1 a2 : Buf 7) :
    (¬ ∀ hw, s.LtkIsF5 hw n1 n2 a1 a2) ∧
      (∀ hw, s.LtkIsF5 hw n1 n2 a1 a2 ↔
        hw.aesCmac (f5 hw s.dhkey n1 n2 a1 a2).1 (f5Message n1 n2 a1 a2 1) =
          hw.aesCmac (f5Key hw s.dhkey) (f5Message n1 n2 a1 a2 1)) ∧
      ∀ hw, (Function.Injective fun key => hw.aesCmac key (f5Message n1 n2 a1 a2 1)) →
        (s.LtkIsF5 hw n1 n2 a1 a2 ↔ (f5 hw s.dhkey n1 n2 a1 a2).1 = f5Key hw s.dhkey) := by
  have htags : ∀ hw, s.LtkIsF5 hw n1 n2 a1 a2 ↔
      hw.aesCmac (f5 hw s.dhkey n1 n2 a1 a2).1 (f5Message n1 n2 a1 a2 1) =
        hw.aesCmac (f5Key hw s.dhkey) (f5Message n1 n2 a1 a2 1) := by
    intro hw
    unfold Smp.LtkIsF5
    rw [Smp.computeLtkSc_eq]
    rfl
  refine ⟨?_, htags, ?_⟩
  · intro h
    -- the salt plus three is not the salt plus two
    have hcounted : (0xbe + 1 + 1 + 1 : UInt8) = 0xbe + 1 + 1 :=
      congrArg (fun tag : Buf 16 => tag.bytes.getD 0 0) ((htags Hw.countingMac).mp (h Hw.countingMac))
    exact absurd hcounted (by decide)
  · intro hw hkeys
    rw [htags hw]
    exact ⟨fun h => hkeys h, congrArg fun key => hw.aesCmac key _⟩

/-- A MAC that gives back its key. -/
theorem Smp.ltkIsF5_standIn :
    (¬ ∀ hw, Smp.new.LtkIsF5 hw (Buf.zero 16) (Buf.zero 16) (Buf.zero 7) (Buf.zero 7)) ∧
      Smp.new.LtkIsF5 Hw.standIn (Buf.zero 16) (Buf.zero 16) (Buf.zero 7) (Buf.zero 7) := by
  obtain ⟨hnever, -, hkeys⟩ := Smp.ltkIsF5_iff Smp.new (Buf.zero 16) (Buf.zero 16) (Buf.zero 7) (Buf.zero 7)
  exact ⟨hnever, (hkeys Hw.standIn fun _ _ h => h).mpr rfl⟩

/-- The secret of the source's own test of f5. -/
def f5TestSecret : Smp :=
  { Smp.new with
    dhkey := ⟨[0x5f, 0xd1, 0x45, 0x03, 0x99, 0x7d, 0x08, 0xfc, 0x21, 0xec, 0x94, 0x74, 0x18, 0x82, 0xe4,
      0xed, 0x66, 0x5e, 0x1d, 0xba, 0x4e, 0xe4, 0xbd, 0xcc, 0x6c, 0xb6, 0x1f, 0x1a, 0x17, 0x7e, 0x98,
      0x17], rfl⟩ }

/-- Its nonces: the bytes from `k` on. -/
def f5TestNonce (k : Nat) : Buf 16 :=
  ⟨(List.range' k 16).map .ofNat, by rw [List.length_map, List.length_range']⟩

/-- Its addresses. -/
def f5TestAddr (b last : UInt8) : Buf 7 := ⟨List.replicate 6 b ++ [last], rfl⟩

/-- What AES-CMAC gives in it: the tags of the salt, of f5's key, and of the MacKey. -/
def Hw.f5TestMac : Hw :=
  { Hw.standIn with
    aesCmac := fun key msg =>
      if msg.length = 32 then
        ⟨[0xb2, 0x8e, 0x4a, 0x6d, 0x84, 0xc6, 0x77, 0x6a, 0x2d, 0xdd, 0x5e, 0xa9, 0x4c, 0x8d, 0x47,
          0x2f], rfl⟩
      else if msg.getD 52 0 = 0 then
        ⟨[0xcb, 0xc3, 0xa6, 0xdc, 0x83, 0x49, 0xcd, 0x8c, 0xbb, 0x95, 0xa2, 0xa0, 0x3d, 0x2b, 0xd1,
          0xd3], rfl⟩
      else if key.bytes.getD 0 0 = 0xb2 then
        ⟨[0x7e, 0xab, 0x4e, 0x18, 0xb8, 0x2b, 0x44, 0x17, 0x54, 0x48, 0xfc, 0x42, 0x42, 0x4a, 0x1d,
          0xbd], rfl⟩
      else
        ⟨[0x36, 0x21, 0x7f, 0xdd, 0x23, 0xfe, 0x9c, 0x5f, 0x8e, 0x40, 0x1c, 0xfa, 0xaa, 0x46, 0x47,
          0x14], rfl⟩ }

/-- In the test the LTK is the value the test asks for, and not f5's. -/
theorem Smp.ltk_of_test_not_f5 :
    (f5TestSecret.computeLtkSc Hw.f5TestMac (f5TestNonce 0) (f5TestNonce 16) (f5TestAddr 0xAA 0)
        (f5TestAddr 0xBB 1)).bytes.take 4 = [0x36, 0x21, 0x7f, 0xdd] ∧
      (f5 Hw.f5TestMac f5TestSecret.dhkey (f5TestNonce 0) (f5TestNonce 16) (f5TestAddr 0xAA 0)
        (f5TestAddr 0xBB 1)).2.bytes.take 4 = [0x7e, 0xab, 0x4e, 0x18] ∧
      ¬ ∀ hw (s : Smp) n1 n2 a1 a2, s.LtkIsF5 hw n1 n2 a1 a2 := by
  refine ⟨by decide +kernel, by decide +kernel, ?_⟩
  intro h
  have hsame := congrArg (fun key : Buf 16 => key.bytes.getD 0 0)
    (h Hw.f5TestMac f5TestSecret (f5TestNonce 0) (f5TestNonce 16) (f5TestAddr 0xAA 0) (f5TestAddr 0xBB 1))
  revert hsame
  decide +kernel

end NrfBle
