/-
  The pairing state machine behind `Conn::handle_smp`.

  Of a connection only three things matter for the order of the pairing steps: `smp.state`, whether a
  pairing request was exchanged at all (`smp.preq` is not zero any more), and `pairing_in_progress`.
  That is the abstract machine, `PairingView`; a received PDU is one of eight `SmpEvent`s to it, and
  `handleSmp_view` says that `handle_smp` takes exactly its steps.

  The machine ACCEPTS EVERY EVENT IN EVERY STATE: `SmpState` is written by the handlers and read by
  none of them.  So `WaitingStartEnc` can be reached without a request, or behind a random value that
  did not verify.  What the states would be good for is `expects`, the check nobody makes; along a run
  in which every PDU is expected the order of the steps does hold (`waitingStartEnc_in_order`).
-/
import Mathlib.Tactic
import NrfBle.Hw.SmpKey
import NrfBle.Hw.Conn.Run

namespace NrfBle

open Checked

/-! ## The abstract machine -/

/-- What a received SMP PDU is to the pairing machine. -/
inductive SmpEvent
  /-- Nothing: an empty or too short PDU, or an opcode without effect. -/
  | ignored
  /-- Pairing Failed. -/
  | failed
  /-- Security Request: a pairing request is sent. -/
  | securityRequest
  /-- Pairing Request: it is answered at once. -/
  | request
  /-- Pairing Response. -/
  | response
  /-- Pairing Confirm. -/
  | confirm
  /-- Pairing Random, and whether it verified. -/
  | random (ok : Bool)
  deriving DecidableEq, Repr

/-- What the order of the pairing steps depends on. -/
structure PairingView where
  state : SmpState
  /-- A pairing request was sent or received. -/
  asked : Bool
  /-- `pairing_in_progress`. -/
  running : Bool
  deriving DecidableEq, Repr

/-- One step of the machine. -/
def PairingView.after (v : PairingView) : SmpEvent → PairingView
  | .ignored => v
  | .failed => { v with running := false }
  | .securityRequest => { v with asked := true }
  | .request => ⟨.waitConfirm, true, true⟩
  | .response => { v with state := .waitConfirm, running := true }
  | .confirm => { v with state := .waitRandom }
  | .random true => { v with state := .waitingStartEnc, running := false }
  -- the state stays where it is
  | .random false => { v with running := false }

namespace Conn

/-- The machine's state of a connection. -/
def pairingView (c : Conn) : PairingView :=
  ⟨c.smp.state, decide (c.smp.preq ≠ Buf.zero 7), c.pairingInProgress⟩

/-- The machine's event of a PDU. -/
def smpEvent (hw : Hw) (c : Conn) : List UInt8 → SmpEvent
  | [] => .ignored
  | op :: rest =>
    if op = smpPairingFailed then .failed
    else if op = smpSecurityRequest then .securityRequest
    else if op = smpPairingRequest then if rest.length < 6 then .ignored else .request
    else if op = smpPairingResponse then if rest.length < 6 then .ignored else .response
    else if op = smpPairingConfirm then if rest.length < 16 then .ignored else .confirm
    else if op = smpPairingRandom then
      .random (c.smp.handleRandom hw ((op :: rest).take 17)).1.isOk
    else .ignored

/-! ## The connection takes the machine's steps -/

theorem sendSmp_view (c : Conn) (out : List UInt8) : (c.sendSmp out).pairingView = c.pairingView :=
  rfl

/-- A request that was exchanged is not all zeroes: its first byte is its opcode. -/
theorem request_ne_zero {b : Buf 7} {rest : List UInt8} (h : b.bytes = smpPairingRequest :: rest) :
    b ≠ Buf.zero 7 := by
  rintro rfl
  cases h

theorem smpRandom_view (hw : Hw) (c : Conn) (body : List UInt8) :
    (c.smpRandom hw body).pairingView =
      c.pairingView.after (.random (c.smp.handleRandom hw (body.take 17)).1.isOk) := by
  unfold smpRandom
  rcases Nat.lt_or_ge (body.take 17).length 17 with hlen | hlen
  · rw [c.smp.handleRandom_short hw hlen]; rfl
  · by_cases hv : c.smp.Verifies hw (Smp.valueOf (body.take 17))
    · rw [c.smp.handleRandom_verified hw hlen hv]
      dsimp only
      split <;> rfl
    · rw [c.smp.handleRandom_mismatch hw hlen hv]; rfl

/-- **`handle_smp` is the machine.** -/
theorem handleSmp_view (hw : Hw) (c : Conn) (body : List UInt8) :
    (c.handleSmp hw body).pairingView = c.pairingView.after (c.smpEvent hw body) := by
  cases body with
  | nil => rfl
  | cons op rest =>
    have htake7 : ((op :: rest).take 7).length < 7 ↔ rest.length < 6 := by
      rw [List.length_take, List.length_cons]; omega
    have htake17 : ((op :: rest).take 17).length < 17 ↔ rest.length < 16 := by
      rw [List.length_take, List.length_cons]; omega
    unfold handleSmp smpEvent
    dsimp only
    by_cases hf : op = smpPairingFailed
    · rw [if_pos hf, if_pos hf]; rfl
    rw [if_neg hf, if_neg hf]
    by_cases hs : op = smpSecurityRequest
    · rw [if_pos hs, if_pos hs, sendSmp_view]
      unfold pairingView PairingView.after
      rw [decide_eq_true (request_ne_zero rfl)]
      rfl
    rw [if_neg hs, if_neg hs]
    by_cases hq : op = smpPairingRequest
    · rw [if_pos hq, if_pos hq]
      rcases Nat.lt_or_ge rest.length 6 with hlen | hlen
      · rw [c.smp.handlePairingRequest_short (htake7.mpr hlen), if_pos hlen]; rfl
      · have hlong : 7 ≤ ((op :: rest).take 7).length := by
          rw [List.length_take, List.length_cons]; omega
        have hne : Smp.commandOf ((op :: rest).take 7) ≠ Buf.zero 7 := by
          have hbytes : (Smp.commandOf ((op :: rest).take 7)).bytes =
              smpPairingRequest :: rest.take 6 := by
            rw [Smp.commandOf_bytes hlong, List.take_take, Nat.min_self, List.take_succ_cons, hq]
          exact request_ne_zero hbytes
        rw [c.smp.handlePairingRequest_long hlong, if_neg (by omega)]
        dsimp only
        rw [sendSmp_view]
        unfold pairingView PairingView.after
        rw [decide_eq_true hne]
    rw [if_neg hq, if_neg hq]
    by_cases hr : op = smpPairingResponse
    · rw [if_pos hr, if_pos hr]
      rcases Nat.lt_or_ge rest.length 6 with hlen | hlen
      · rw [c.smp.handlePairingResponse_short (htake7.mpr hlen), if_pos hlen]; rfl
      · rw [c.smp.handlePairingResponse_long (by rw [List.length_take, List.length_cons]; omega),
          if_neg (by omega)]
        rfl
    rw [if_neg hr, if_neg hr]
    by_cases hc : op = smpPairingConfirm
    · rw [if_pos hc, if_pos hc]
      rcases Nat.lt_or_ge rest.length 16 with hlen | hlen
      · rw [c.smp.handleConfirm_short (htake17.mpr hlen), if_pos hlen]; rfl
      · rw [c.smp.handleConfirm_long (by rw [List.length_take, List.length_cons]; omega),
          if_neg (by omega)]
        rfl
    rw [if_neg hc, if_neg hc]
    by_cases hn : op = smpPairingRandom
    · rw [if_pos hn, if_pos hn]
      exact smpRandom_view hw c (op :: rest)
    · rw [if_neg hn, if_neg hn]; rfl

end Conn

/-! ## What was exchanged -/

/-- A step of the pairing procedure that was taken. -/
inductive Mark
  | request
  | response
  | confirm
  | random (ok : Bool)
  deriving DecidableEq, Repr

/-- The steps an event stands for.  A received request is answered in the same call. -/
def SmpEvent.marks : SmpEvent → List Mark
  | .ignored | .failed => []
  | .securityRequest => [.request]
  | .request => [.request, .response]
  | .response => [.response]
  | .confirm => [.confirm]
  | .random ok => [.random ok]

/-- The steps since the last pairing request, if there was one. -/
def sinceRequest (history : List Mark) : Option (List Mark) :=
  history.foldl (fun acc m => if m = .request then some [] else acc.map (· ++ [m])) none

theorem sinceRequest_append (history : List Mark) (m : Mark) :
    sinceRequest (history ++ [m]) =
      if m = .request then some [] else (sinceRequest history).map (· ++ [m]) := by
  unfold sinceRequest
  rw [List.foldl_append]
  rfl

/-- Since the last pairing request the steps `want` were taken, in that order, and no random value
    failed to verify. -/
def Since (history want : List Mark) : Prop :=
  ∃ steps, sinceRequest history = some steps ∧ .random false ∉ steps ∧ want.Sublist steps

theorem Since.request (history : List Mark) : Since (history ++ [.request]) [] := by
  refine ⟨[], ?_, List.not_mem_nil, List.Sublist.refl _⟩
  rw [sinceRequest_append, if_pos rfl]

/-- One more step that is wanted. -/
theorem Since.snoc {history want : List Mark} (h : Since history want) {m : Mark}
    (hreq : m ≠ .request) (hfail : m ≠ .random false) : Since (history ++ [m]) (want ++ [m]) := by
  obtain ⟨steps, hsteps, hno, hsub⟩ := h
  refine ⟨steps ++ [m], ?_, ?_, hsub.append (List.Sublist.refl _)⟩
  · rw [sinceRequest_append, if_neg hreq, hsteps]; rfl
  · intro hmem
    rcases List.mem_append.mp hmem with hmem | hmem
    · exact hno hmem
    · exact hfail (List.mem_singleton.mp hmem).symm

theorem Since.weaken {history want less : List Mark} (h : Since history want)
    (hsub : less.Sublist want) : Since history less := by
  obtain ⟨steps, hsteps, hno, hwant⟩ := h
  exact ⟨steps, hsteps, hno, hsub.trans hwant⟩

/-- **In order**: since the last pairing request came a response, then a confirm value, then a random
    value that verified, and none that did not. -/
def InOrder (history : List Mark) : Prop := Since history [.response, .confirm, .random true]

/-! ## The check nobody makes -/

/-- The event is one the state was waiting for. -/
def PairingView.expects (v : PairingView) : SmpEvent → Bool
  | .ignored | .failed | .request => true
  -- no pairing under way
  | .securityRequest => v.state = .idle ∨ v.state = .waitingStartEnc
  -- the answer to a request, not behind a failed random value
  | .response => v.asked = true ∧ (v.state = .waitRandom → v.running = true)
  | .confirm => v.state = .waitConfirm
  | .random _ => v.state = .waitRandom ∧ v.running = true

/-- What the state says about the steps so far, if every event was expected. -/
structure OrderInv (v : PairingView) (history : List Mark) : Prop where
  idle : v.state = .idle → v.asked = true → Since history []
  waitConfirm : v.state = .waitConfirm → Since history [.response]
  waitRandom : v.state = .waitRandom → v.running = true → Since history [.response, .confirm]
  done : v.state = .waitingStartEnc → Since history []
  unused : v.state ≠ .waitPairingResponse ∧ v.state ≠ .encrypted

/-- Wherever an answer to a request is expected, nothing failed since the request. -/
theorem OrderInv.since {v : PairingView} {history : List Mark} (h : OrderInv v history)
    (hexp : v.expects .response = true) : Since history [] := by
  obtain ⟨hasked, hrun⟩ := of_decide_eq_true hexp
  cases hs : v.state with
  | idle => exact h.idle hs hasked
  | waitPairingResponse => exact absurd hs h.unused.1
  | waitConfirm => exact (h.waitConfirm hs).weaken (List.nil_sublist _)
  | waitRandom => exact (h.waitRandom hs (hrun hs)).weaken (List.nil_sublist _)
  | waitingStartEnc => exact h.done hs
  | encrypted => exact absurd hs h.unused.2

/-- **One expected event keeps the order.** -/
theorem OrderInv.step {v : PairingView} {history : List Mark} (h : OrderInv v history)
    (e : SmpEvent) (hexp : v.expects e = true) : OrderInv (v.after e) (history ++ e.marks) := by
  cases e with
  | ignored => rw [show history ++ SmpEvent.ignored.marks = history from List.append_nil _]; exact h
  | failed =>
    rw [show history ++ SmpEvent.failed.marks = history from List.append_nil _]
    exact ⟨h.idle, h.waitConfirm, fun _ hr => (by cases hr), h.done, h.unused⟩
  | securityRequest =>
    have hstate : v.state = .idle ∨ v.state = .waitingStartEnc := of_decide_eq_true hexp
    have hnew : Since (history ++ [.request]) [] := .request history
    refine ⟨fun _ _ => hnew, ?_, ?_, fun _ => hnew, h.unused⟩
    · intro (hs : v.state = .waitConfirm)
      rcases hstate with hi | hi <;> (rw [hi] at hs; cases hs)
    · intro (hs : v.state = .waitRandom)
      rcases hstate with hi | hi <;> (rw [hi] at hs; cases hs)
  | request =>
    have hnew : Since (history ++ [.request, .response]) [.response] := by
      have h₁ := (Since.request history).snoc (m := .response) (by decide) (by decide)
      rwa [List.append_assoc] at h₁
    exact ⟨fun hs => (by cases hs), fun _ => hnew, fun hs => (by cases hs), fun hs => (by cases hs),
      (by rintro ⟨⟩), (by rintro ⟨⟩)⟩
  | response =>
    have hnew : Since (history ++ [.response]) [.response] :=
      (h.since hexp).snoc (by decide) (by decide)
    exact ⟨fun hs => (by cases hs), fun _ => hnew, fun hs => (by cases hs), fun hs => (by cases hs),
      (by rintro ⟨⟩), (by rintro ⟨⟩)⟩
  | confirm =>
    have hstate : v.state = .waitConfirm := of_decide_eq_true hexp
    have hnew : Since (history ++ [.confirm]) [.response, .confirm] :=
      (h.waitConfirm hstate).snoc (by decide) (by decide)
    exact ⟨fun hs => (by cases hs), fun hs => (by cases hs), fun _ _ => hnew, fun hs => (by cases hs),
      (by rintro ⟨⟩), (by rintro ⟨⟩)⟩
  | random ok =>
    obtain ⟨hstate, hrun⟩ := of_decide_eq_true hexp
    cases ok with
    | true =>
      have hnew : Since (history ++ [.random true]) [.response, .confirm, .random true] :=
        (h.waitRandom hstate hrun).snoc (by decide) (by decide)
      exact ⟨fun hs => (by cases hs), fun hs => (by cases hs), fun hs => (by cases hs),
        fun _ => hnew.weaken (List.nil_sublist _), (by rintro ⟨⟩), (by rintro ⟨⟩)⟩
    | false =>
      -- the state is still `WaitRandom`, but nothing is in progress
      have hs' : (v.after (.random false)).state = .waitRandom := hstate
      refine ⟨?_, ?_, fun _ hr => (by cases hr), ?_, ?_, ?_⟩ <;> rw [hs'] <;> rintro ⟨⟩

/-! ## Runs -/

/-- A connection, and the pairing steps taken on it. -/
structure PairingRun where
  conn : Conn
  history : List Mark

namespace PairingRun

/-- Feed one PDU to `handle_smp`. -/
def step (hw : Hw) (r : PairingRun) (body : List UInt8) : PairingRun :=
  ⟨r.conn.handleSmp hw body, r.history ++ (r.conn.smpEvent hw body).marks⟩

/-- Feed PDUs one after the other. -/
def feedAll (hw : Hw) (r : PairingRun) (bodies : List (List UInt8)) : PairingRun :=
  bodies.foldl (step hw) r

theorem feedAll_snoc (hw : Hw) (r : PairingRun) (bodies : List (List UInt8)) (body : List UInt8) :
    r.feedAll hw (bodies ++ [body]) = (r.feedAll hw bodies).step hw body := by
  unfold feedAll
  rw [List.foldl_append]
  rfl

/-- Every PDU comes when the state is waiting for it. -/
def Expected (hw : Hw) : PairingRun → List (List UInt8) → Prop
  | _, [] => True
  | r, body :: rest =>
    r.conn.pairingView.expects (r.conn.smpEvent hw body) = true ∧ Expected hw (r.step hw body) rest

theorem step_inv (hw : Hw) {r : PairingRun} {body : List UInt8}
    (hexp : r.conn.pairingView.expects (r.conn.smpEvent hw body) = true)
    (h : OrderInv r.conn.pairingView r.history) :
    OrderInv (r.step hw body).conn.pairingView (r.step hw body).history := by
  have hstep := h.step _ hexp
  rw [← Conn.handleSmp_view] at hstep
  exact hstep

theorem expected_append {hw : Hw} {r : PairingRun} {bodies : List (List UInt8)} {body : List UInt8}
    (h : Expected hw r (bodies ++ [body])) :
    Expected hw r bodies ∧
      (r.feedAll hw bodies).conn.pairingView.expects ((r.feedAll hw bodies).conn.smpEvent hw body) =
        true := by
  induction bodies generalizing r with
  | nil => exact ⟨trivial, h.1⟩
  | cons b bodies ih =>
    obtain ⟨hexp, hrest⟩ := ih h.2
    exact ⟨⟨h.1, hexp⟩, hrest⟩

/-- The order is kept along a run of expected PDUs. -/
theorem feedAll_inv {hw : Hw} {r : PairingRun} {bodies : List (List UInt8)}
    (hexp : Expected hw r bodies) (h : OrderInv r.conn.pairingView r.history) :
    OrderInv (r.feedAll hw bodies).conn.pairingView (r.feedAll hw bodies).history := by
  induction bodies generalizing r with
  | nil => exact h
  | cons body bodies ih => exact ih hexp.2 (step_inv hw hexp.1 h)

end PairingRun

theorem OrderInv.fresh (params : ConnectReqData) (firstChannel : UInt8) (now : UInt32)
    (role : ConnRole) : OrderInv (Conn.new params firstChannel now role).pairingView [] := by
  have hasked : (Conn.new params firstChannel now role).pairingView.asked = false := rfl
  refine ⟨?_, fun hs => (by cases hs), fun hs => (by cases hs), fun hs => (by cases hs),
    (by rintro ⟨⟩), (by rintro ⟨⟩)⟩
  intro _ ha
  rw [hasked] at ha
  cases ha

/-- Only a random value that verifies makes the state `WaitingStartEnc`. -/
theorem random_of_waitingStartEnc {v : PairingView} {e : SmpEvent}
    (hbefore : v.state ≠ .waitingStartEnc) (hafter : (v.after e).state = .waitingStartEnc) :
    e = .random true := by
  cases e with
  | random ok =>
    cases ok with
    | true => rfl
    | false => exact absurd hafter hbefore
  | ignored => exact absurd hafter hbefore
  | failed => exact absurd hafter hbefore
  | securityRequest => exact absurd hafter hbefore
  | request => cases hafter
  | response => cases hafter
  | confirm => cases hafter

/-- An expected PDU that makes the state `WaitingStartEnc` completes the order. -/
theorem OrderInv.becomes {r : PairingRun} (h : OrderInv r.conn.pairingView r.history) (hw : Hw)
    {body : List UInt8} (hexp : r.conn.pairingView.expects (r.conn.smpEvent hw body) = true)
    (hbefore : r.conn.smp.state ≠ .waitingStartEnc)
    (hafter : (r.step hw body).conn.smp.state = .waitingStartEnc) :
    InOrder (r.step hw body).history := by
  have hview := congrArg PairingView.state (Conn.handleSmp_view hw r.conn body)
  have hevent := random_of_waitingStartEnc (v := r.conn.pairingView) hbefore
    (hview.symm.trans hafter)
  rw [hevent] at hexp
  obtain ⟨hstate, hrun⟩ := of_decide_eq_true hexp
  unfold PairingRun.step
  rw [hevent]
  exact (h.waitRandom hstate hrun).snoc (by decide) (by decide)

/-- **The order of the pairing steps.**  In every run from a new connection in which every PDU comes
    when the state is waiting for it, the state becomes `WaitingStartEnc` only in order. -/
theorem waitingStartEnc_in_order (hw : Hw) (params : ConnectReqData) (firstChannel : UInt8)
    (now : UInt32) (role : ConnRole) (bodies : List (List UInt8)) (body : List UInt8)
    (hexp : PairingRun.Expected hw ⟨Conn.new params firstChannel now role, []⟩ (bodies ++ [body]))
    (hbefore : (PairingRun.feedAll hw ⟨Conn.new params firstChannel now role, []⟩
      bodies).conn.smp.state ≠ .waitingStartEnc)
    (hafter : (PairingRun.feedAll hw ⟨Conn.new params firstChannel now role, []⟩
      (bodies ++ [body])).conn.smp.state = .waitingStartEnc) :
    InOrder (PairingRun.feedAll hw ⟨Conn.new params firstChannel now role, []⟩
      (bodies ++ [body])).history := by
  obtain ⟨hruns, hlast⟩ := PairingRun.expected_append hexp
  have hinv := PairingRun.feedAll_inv hruns (OrderInv.fresh params firstChannel now role)
  rw [PairingRun.feedAll_snoc] at hafter ⊢
  exact hinv.becomes hw hlast hbefore hafter

/-- PDUs of a pairing that is in order for a stack with the identity for a block cipher: request,
    confirm value, random value. -/
def orderlyBodies : List (List UInt8) :=
  [[1, 3, 0, 1, 16, 1, 1], [3, 0, 0, 1, 3, 0, 1, 16, 1, 1, 2, 3, 0, 1, 16, 1, 1]]

/-- A responder goes through the steps in order. -/
theorem responder_in_order :
    InOrder (PairingRun.feedAll Hw.standIn ⟨Conn.sample .slave, []⟩
      (orderlyBodies ++ [4 :: List.replicate 16 0])).history := by
  refine waitingStartEnc_in_order Hw.standIn _ _ _ .slave orderlyBodies (4 :: List.replicate 16 0)
    ?_ ?_ ?_
  · exact ⟨rfl, rfl, rfl, trivial⟩
  · decide +kernel
  · decide +kernel

/-- A confirm value and a random value, without any request, lead to `WaitingStartEnc`; and so does a
    second random value behind one that did not verify. -/
theorem waitingStartEnc_out_of_order :
    ((PairingRun.feedAll Hw.standIn ⟨Conn.sample .slave, []⟩
        [3 :: List.replicate 16 9, 4 :: List.replicate 16 9]).conn.smp.state = .waitingStartEnc ∧
      ¬ InOrder (PairingRun.feedAll Hw.standIn ⟨Conn.sample .slave, []⟩
        [3 :: List.replicate 16 9, 4 :: List.replicate 16 9]).history) ∧
    ((PairingRun.feedAll Hw.standIn ⟨Conn.sample .slave, []⟩
        (orderlyBodies ++ [4 :: List.replicate 16 9, 4 :: List.replicate 16 0])).conn.smp.state =
          .waitingStartEnc ∧
      ¬ InOrder (PairingRun.feedAll Hw.standIn ⟨Conn.sample .slave, []⟩
        (orderlyBodies ++ [4 :: List.replicate 16 9, 4 :: List.replicate 16 0])).history) := by
  have h₁ : (PairingRun.feedAll Hw.standIn ⟨Conn.sample .slave, []⟩
      [3 :: List.replicate 16 9, 4 :: List.replicate 16 9]).history =
        [.confirm, .random true] := by decide +kernel
  have h₂ : (PairingRun.feedAll Hw.standIn ⟨Conn.sample .slave, []⟩
      (orderlyBodies ++ [4 :: List.replicate 16 9, 4 :: List.replicate 16 0])).history =
        [.request, .response, .confirm, .random false, .random true] := by decide +kernel
  rw [h₁, h₂]
  refine ⟨⟨by decide +kernel, ?_⟩, ⟨by decide +kernel, ?_⟩⟩
  · rintro ⟨steps, hsteps, _⟩
    cases hsteps
  · rintro ⟨steps, hsteps, hno, _⟩
    cases hsteps
    exact hno (by decide)

end NrfBle
