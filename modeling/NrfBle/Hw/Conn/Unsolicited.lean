/-
  ATT PDUs that want no answer.

  `handle_att` answers what it does not know with an Error Response, and it knows no response unless
  a request is pending, no confirmation and, of the commands, only one.  So most PDUs that want no
  answer get one (`unanswered_keeps_slot_iff`).  An Error Response is among them: two connections
  without pending requests return it to each other for ever (`errors_never_end`).
-/
import Mathlib.Tactic
import NrfBle.Hw.Conn.Mtu

namespace NrfBle

open Checked

/-- Responses, the Error Response, a notification, a confirmation, and the commands. -/
def isUnanswered (op : UInt8) : Bool :=
  op ∈ [0x01, 0x03, 0x05, 0x07, 0x09, 0x0B, 0x0D, 0x0F, 0x11, 0x13, 0x17, 0x19, 0x1B, 0x1E] ∨
    op &&& 0x40 ≠ 0

/-- Request Not Supported. -/
def notSupported (op : UInt8) : List UInt8 := [0x01, op, 0x00, 0x00, 0x06]

namespace Conn

/-- The transmit slot. -/
def attSlot (c : Conn) : Buf 251 × Nat × Bool := (c.txAtt, c.txAttLen, c.txPending)

theorem WriteFrame.attSlot {c c' : Conn} (h : WriteFrame c c') : c'.attSlot = c.attSlot := by
  rw [h]
  rfl

/-- This PDU is in the slot. -/
def Holds (c : Conn) (att : List UInt8) : Prop :=
  c.txPending = true ∧ c.txAttLen = att.length ∧ c.txAtt.bytes.take att.length = att

theorem holds_queueAtt (c : Conn) {att : List UInt8} (h : att.length ≤ 251) :
    (c.queueAtt att).Holds att := by
  have hlen : (c.queueAtt att).txAttLen = att.length := Nat.min_eq_left h
  refine ⟨rfl, hlen, ?_⟩
  rw [← hlen]
  exact queueAtt_bytes c h

/-- Queueing a PDU changes nothing iff it is the one in the slot. -/
theorem queueAtt_attSlot_iff (c : Conn) {att : List UInt8} (h : att.length ≤ 251) :
    (c.queueAtt att).attSlot = c.attSlot ↔ c.Holds att := by
  obtain ⟨hpending, hlen, hbytes⟩ := holds_queueAtt c h
  constructor
  · intro heq
    have hbuf : (c.queueAtt att).txAtt = c.txAtt := congrArg Prod.fst heq
    have hlen' : (c.queueAtt att).txAttLen = c.txAttLen := congrArg (fun s => s.2.1) heq
    have hpending' : (c.queueAtt att).txPending = c.txPending := congrArg (fun s => s.2.2) heq
    exact ⟨hpending'.symm.trans hpending, hlen'.symm.trans hlen, hbuf ▸ hbytes⟩
  · rintro ⟨hp, hl, hb⟩
    have hbuf : (c.queueAtt att).txAtt = c.txAtt := by
      have hmin : min att.length l2capPayloadMax = att.length := Nat.min_eq_left h
      refine Buf.ext ?_
      show c.txAtt.bytes.take 0 ++ att.take (min att.length l2capPayloadMax) ++ c.txAtt.bytes.drop
        (0 + (att.take (min att.length l2capPayloadMax)).length) = c.txAtt.bytes
      rw [hmin, List.take_length, List.take_zero, List.nil_append, Nat.zero_add]
      exact (congrArg (· ++ c.txAtt.bytes.drop att.length) hb.symm).trans
        (List.take_append_drop _ _)
    exact Prod.ext hbuf (Prod.ext (hlen.trans hl.symm) (hpending.trans hp.symm))

/-- A PDU that is not answered leaves the slot alone. -/
theorem handleAtt_attSlot {c c' : Conn} {op : UInt8} {rest : List UInt8} {result result' : ConnEvent}
    (hop : ¬ c.answersAtt op) (h : c.handleAtt (op :: rest) result = .ok (c', result')) :
    c'.attSlot = c.attSlot := by
  cases handleAtt_cases h with
  | response _ hrun =>
    obtain ⟨mtu, _, hrun⟩ := bind_eq_ok.mp hrun
    cases hrun
    rfl
  | received _ _ hframe => exact hframe.attSlot
  | written hans => exact absurd hans hop
  | replied hans => exact absurd hans hop

/-- Of the opcodes that want no answer, the server knows none. -/
theorem attReply_unanswered {op : UInt8} (hop : isUnanswered op = true) (c : Conn)
    (att : List UInt8) : c.attReply op att = .ok (notSupported op) := by
  unfold attReply
  split
  all_goals first | rfl | (exfalso; revert hop; decide)

theorem handleAtt_unanswered {c : Conn} {op : UInt8} (hop : isUnanswered op = true)
    (hans : c.answersAtt op) (rest : List UInt8) (result : ConnEvent) :
    c.handleAtt (op :: rest) result = .ok (c.queueAtt (notSupported op), result) := by
  have h12 : op ≠ 0x12 := by
    rintro rfl
    cases hop
  exact handleAtt_reply op hans.1 hans.2.1 h12 hans.2.2 (attReply_unanswered hop c _) result

/-- A PDU that wants no answer and is long enough for a handle is handled. -/
theorem returns_unanswered {c : Conn} {op : UInt8} {rest : List UInt8} (hop : isUnanswered op = true)
    (hlen : 3 ≤ (op :: rest).length) (result : ConnEvent) :
    Returns (c.handleAtt (op :: rest) result) := by
  refine (returns_handleAtt c op rest result).mpr (.inr ?_)
  refine Nat.le_trans ?_ hlen
  unfold attNeed
  split
  all_goals first | exact Nat.le_refl _ | exact Nat.zero_le _ | (exfalso; revert hop; decide)

end Conn

/-- **Every PDU that wants no answer, in every state.**  It leaves the transmit slot alone iff it is
    taken for the response to a pending request, or is a notification or a Write Command, or the
    Error Response for it is in the slot already.  An Error Response is answered with another iff no
    request is pending. -/
theorem unanswered_keeps_slot_iff (c : Conn) (op : UInt8) (rest : List UInt8)
    (hop : isUnanswered op = true) (hlen : 3 ≤ (op :: rest).length) (result : ConnEvent) :
    ∃ c' result', c.handleAtt (op :: rest) result = .ok (c', result') ∧
      (c'.attSlot = c.attSlot ↔
        (c.pendingRequest = true ∧ Conn.isAttResponse op = true) ∨ op = 0x1B ∨ op = 0x52 ∨
          c.Holds (notSupported op)) ∧
      (op = 0x01 → (c' = c.queueAtt (notSupported 0x01) ↔ c.pendingRequest = false)) := by
  obtain ⟨⟨c', result'⟩, h⟩ := Conn.returns_unanswered (c := c) hop hlen result
  refine ⟨c', result', h, ?_, ?_⟩
  · by_cases hans : c.answersAtt op
    · rw [Conn.handleAtt_unanswered hop hans] at h
      cases h
      rw [Conn.queueAtt_attSlot_iff c (show (notSupported op).length ≤ 251 from (by decide : 5 ≤ 251))]
      obtain ⟨hresp, h1B, h52⟩ := hans
      simp only [hresp, h1B, h52, false_or]
    · refine iff_of_true (Conn.handleAtt_attSlot hans h) ?_
      unfold Conn.answersAtt at hans
      tauto
  · rintro rfl
    constructor
    · intro heq
      by_contra hpending
      have hresp : c.pendingRequest = true ∧ Conn.isAttResponse 0x01 = true :=
        ⟨Bool.eq_true_of_not_eq_false hpending, rfl⟩
      cases Conn.handleAtt_cases h with
      | response _ hrun =>
        -- taking a response ends the request, queueing does not
        have hdone : c'.pendingRequest = false := Conn.takeResponse_done hrun
        rw [heq] at hdone
        exact hpending hdone
      | received hnot => exact hnot hresp
      | written hans => exact hans.1 hresp
      | replied hans => exact hans.1 hresp
    · intro hpending
      have hans : c.answersAtt 0x01 := by
        refine ⟨?_, by decide, by decide⟩
        rw [hpending]
        exact fun h => Bool.false_ne_true h.1
      rw [Conn.handleAtt_unanswered hop hans] at h
      cases h
      rfl

/-- An Error Response while a request is pending. -/
theorem unanswered_keeps_slot_pending :
    ∃ c' result', ((Conn.sample .slave).gattSendRequest [0x0A, 3, 0]).handleAtt
        [0x01, 0x0A, 3, 0, 0x0A] .idle = .ok (c', result') ∧
      c'.attSlot = ((Conn.sample .slave).gattSendRequest [0x0A, 3, 0]).attSlot := by
  obtain ⟨c', result', h, hslot, _⟩ := unanswered_keeps_slot_iff
    ((Conn.sample .slave).gattSendRequest [0x0A, 3, 0]) 0x01 [0x0A, 3, 0, 0x0A] (by decide)
    (by decide) .idle
  exact ⟨c', result', h, hslot.mpr (.inl ⟨rfl, rfl⟩)⟩

/-! ## Two connections -/

/-- The first of two connections sends what it has in the slot; the second handles it and is the next
    to send. -/
def passAtt (s : Conn × Conn) : Except Panic (Conn × Conn) := do
  if s.1.txPending then
    let r ← s.2.handleAtt (s.1.txAtt.bytes.take s.1.txAttLen) .idle
    return (r.1, { s.1 with txPending := false })
  else return (s.2, s.1)

/-- Take turns. -/
def passAtts : Nat → Conn × Conn → Except Panic (Conn × Conn)
  | 0, s => return s
  | n + 1, s => do
    let s ← passAtt s
    passAtts n s

/-- The first has an Error Response to send, and no request is pending. -/
structure Quarrel (s : Conn × Conn) : Prop where
  error : ∃ rest, s.1.Holds (0x01 :: rest)
  first : s.1.pendingRequest = false
  second : s.2.pendingRequest = false

/-- An Error Response is answered with an Error Response. -/
theorem Quarrel.pass {s : Conn × Conn} (h : Quarrel s) : ∃ s', passAtt s = .ok s' ∧ Quarrel s' := by
  obtain ⟨rest, hpending, hlen, hbytes⟩ := h.error
  have hans : s.2.answersAtt 0x01 := by
    refine ⟨?_, by decide, by decide⟩
    rw [h.second]
    exact fun h => Bool.false_ne_true h.1
  have hpass : passAtt s = .ok (s.2.queueAtt (notSupported 0x01), { s.1 with txPending := false }) := by
    unfold passAtt
    rw [if_pos hpending, hlen, hbytes, Conn.handleAtt_unanswered rfl hans]
    rfl
  exact ⟨_, hpass, ⟨_, Conn.holds_queueAtt s.2 (by decide)⟩, h.second, h.first⟩

/-- **It never ends**: induction on the turns. -/
theorem errors_never_end {s : Conn × Conn} (h : Quarrel s) (n : Nat) :
    ∃ s', passAtts n s = .ok s' ∧ Quarrel s' := by
  induction n generalizing s with
  | zero => exact ⟨s, rfl, h⟩
  | succ n ih =>
    obtain ⟨s₁, hpass, h₁⟩ := h.pass
    obtain ⟨s', hrest, h'⟩ := ih h₁
    refine ⟨s', ?_, h'⟩
    rw [passAtts, hpass]
    exact hrest

/-- A confirmation is answered, although it is no request; and a first Error Response between two new
    connections is answered for ever. -/
theorem error_answers_error :
    isUnanswered 0x1E = true ∧
      (∃ c', (Conn.sample .slave).handleAtt [0x1E, 0, 0] .idle = .ok (c', .idle) ∧
        c'.attSlot ≠ (Conn.sample .slave).attSlot) ∧
      ∀ n, ∃ s', passAtts n ((Conn.sample .master).queueAtt (notSupported 0x1E), Conn.sample .slave) =
        .ok s' ∧ Quarrel s' := by
  refine ⟨rfl, ⟨_, rfl, ?_⟩, ?_⟩
  · intro heq
    have hpending : true = false := congrArg (fun s => s.2.2) heq
    cases hpending
  · exact errors_never_end ⟨⟨_, Conn.holds_queueAtt _ (by decide)⟩, rfl, rfl⟩

end NrfBle
