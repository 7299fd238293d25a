/-
  Bounded drop-oldest FIFOs, and the ring buffer of optional slots that implements one — almost.

  `Fifo.push k q e` is the ABSTRACT queue: append `e`, then let go of the oldest elements until
  at most `k` wait.  `Ring α n` is the usual array implementation: `n` slots of `Option α`, a
  `head` index to write at and a `tail` index to read at, full when one more push would make
  them meet.  Two views of emptiness coexist in it: `push` compares INDICES, `pop` looks at the
  OPTION in the tail slot.  They disagree in one situation only.  A push into a full ring moves
  the tail past the oldest element but leaves that element in its slot — and that slot is now
  the one `head` points at.  As long as the next push overwrites it nothing is seen; if instead
  the reader drains the ring and pops once more, it gets the dropped element back.

  `Sim r q d` is the simulation relation: `q` is what waits in `r`, and `d` says whether the
  slot under `head` still holds a dropped element.  The three step lemmas (`push_sim`,
  `pop_cons_sim`, `pop_nil_sim`) keep it, `pop_stale` is the disagreement, and the run theorem
  `outs_eq_iff` puts them together: the ring answers every pop of a run as the FIFO of capacity
  `n - 1` does IFF the run never pops a drained ring whose last push overflowed.
-/
import Mathlib.Data.List.ReduceOption
import Mathlib.Tactic

namespace RingBuffer

/-- One call of the two-method interface. -/
inductive Op (α : Type)
  | push (e : α)
  | pop
  deriving DecidableEq, Repr

/-- The elements a run pushes, in order. -/
def pushed {α : Type} : List (Op α) → List α
  | [] => []
  | .push e :: ops => e :: pushed ops
  | .pop :: ops => pushed ops

/-! ## The abstract queue -/

namespace Fifo

variable {α : Type}

/-- Append, then drop from the front whatever exceeds the capacity. -/
def push (k : Nat) (q : List α) (e : α) : List α := (q ++ [e]).drop (q.length + 1 - k)

/-- What the pops of a run return. -/
def outs (k : Nat) : List α → List (Op α) → List (Option α)
  | _, [] => []
  | q, .push e :: ops => outs k (push k q e) ops
  | q, .pop :: ops => q.head? :: outs k q.tail ops

theorem push_of_lt {k : Nat} {q : List α} (e : α) (h : q.length < k) : push k q e = q ++ [e] := by
  rw [push, show q.length + 1 - k = 0 by omega, List.drop_zero]

/-- A push into a full queue lets go of exactly the oldest element. -/
theorem push_of_eq {k : Nat} {x : α} {q : List α} (e : α) (h : (x :: q).length = k) :
    push k (x :: q) e = q ++ [e] := by
  rw [push, show (x :: q).length + 1 - k = 1 by omega]; rfl

theorem push_sublist (k : Nat) (q : List α) (e : α) : (push k q e).Sublist (q ++ [e]) :=
  List.drop_sublist _ _

/-- What a run returns comes in push order, each element at most once: it is a subsequence of
    what was waiting followed by what was pushed. -/
theorem outs_sublist (k : Nat) : ∀ (ops : List (Op α)) (q : List α),
    ((outs k q ops).reduceOption).Sublist (q ++ pushed ops) := by
  intro ops
  induction ops with
  | nil => intro q; exact List.nil_sublist _
  | cons op ops ih =>
    intro q
    cases op with
    | push e =>
      have h := (ih (push k q e)).trans ((push_sublist k q e).append_right (pushed ops))
      simpa [outs, pushed] using h
    | pop =>
      cases q with
      | nil => simpa [outs, pushed, List.reduceOption_cons_of_none] using ih []
      | cons x q =>
        have h := (ih q).cons_cons x
        simpa [outs, pushed, List.reduceOption_cons_of_some] using h

end Fifo

/-! ## The ring -/

/-- An array of `n` optional slots with a write index and a read index, both in range. -/
structure Ring (α : Type) (n : Nat) where
  slots : List (Option α)
  head : Nat
  tail : Nat
  size : slots.length = n
  head_lt : head < n
  tail_lt : tail < n

namespace Ring

variable {α : Type} {n : Nat}

/-- The empty ring. -/
def empty (α : Type) (n : Nat) (h : 0 < n) : Ring α n :=
  ⟨List.replicate n none, 0, 0, List.length_replicate, h, h⟩

/-- The content of slot `i`. -/
def slot (r : Ring α n) (i : Nat) : Option α := r.slots.getD i none

/-- Write at the head and advance it; when it would meet the tail, move the tail on first. -/
def push (r : Ring α n) (e : α) : Ring α n :=
  { slots := r.slots.set r.head (some e)
    head := (r.head + 1) % n
    tail := if (r.head + 1) % n = r.tail then (r.tail + 1) % n else r.tail
    size := by rw [List.length_set]; exact r.size
    head_lt := Nat.mod_lt _ (Nat.zero_lt_of_lt r.head_lt)
    tail_lt := by
      split
      · exact Nat.mod_lt _ (Nat.zero_lt_of_lt r.tail_lt)
      · exact r.tail_lt }

/-- Take the option out of the tail slot; advance the tail only when there was something. -/
def pop (r : Ring α n) : Option α × Ring α n :=
  let evt := r.slot r.tail
  let r' : Ring α n :=
    { slots := r.slots.set r.tail none
      head := r.head
      tail := if evt.isSome then (r.tail + 1) % n else r.tail
      size := by rw [List.length_set]; exact r.size
      head_lt := r.head_lt
      tail_lt := by
        split
        · exact Nat.mod_lt _ (Nat.zero_lt_of_lt r.tail_lt)
        · exact r.tail_lt }
  (evt, r')

/-- What the pops of a run return. -/
def outs : Ring α n → List (Op α) → List (Option α)
  | _, [] => []
  | r, .push e :: ops => outs (r.push e) ops
  | r, .pop :: ops => r.pop.1 :: outs r.pop.2 ops

/-! ## Index arithmetic -/

/-- The `i`-th slot after `t`, wrapping round. -/
def wrap (n t i : Nat) : Nat := if t + i < n then t + i else t + i - n

theorem succ_mod {t : Nat} (h : t < n) : (t + 1) % n = wrap n t 1 := by
  unfold wrap
  split
  · rename_i hlt; exact Nat.mod_eq_of_lt hlt
  · rename_i hge
    rw [show t + 1 = n by omega, Nat.mod_self, Nat.sub_self]

theorem wrap_lt {t i : Nat} (ht : t < n) (hi : i < n) : wrap n t i < n := by
  unfold wrap; split <;> omega

theorem wrap_inj {t i j : Nat} (hi : i < n) (hj : j < n) :
    wrap n t i = wrap n t j ↔ i = j := by
  unfold wrap; split <;> split <;> omega

theorem wrap_zero {t : Nat} (ht : t < n) : wrap n t 0 = t := by
  unfold wrap; split <;> omega

/-- Starting one slot later and going `i` on is starting here and going `i + 1` on. -/
theorem wrap_succ {t i : Nat} (ht : t < n) (hi : i + 1 < n) :
    wrap n (wrap n t 1) i = wrap n t (i + 1) := by
  unfold wrap; split <;> split <;> split <;> omega

/-- One past the last slot is the slot one started from. -/
theorem wrap_last {t : Nat} (ht : t < n) (hn : 2 ≤ n) : wrap n (wrap n t 1) (n - 1) = t := by
  unfold wrap; split <;> split <;> omega

theorem wrap_wrap_one {t i : Nat} (ht : t < n) (hi : i + 1 < n) :
    wrap n (wrap n t i) 1 = wrap n t (i + 1) := by
  unfold wrap; split <;> split <;> split <;> omega

theorem wrap_pred_one {t : Nat} (ht : t < n) (hn : 2 ≤ n) : wrap n (wrap n t (n - 1)) 1 = t := by
  unfold wrap; split <;> split <;> omega

/-! ## Slots after a write -/

theorem getD_set (l : List (Option α)) (i j : Nat) (v : Option α) (hi : i < l.length) :
    (l.set i v).getD j none = if i = j then v else l.getD j none := by
  simp only [List.getD_eq_getElem?_getD, List.getElem?_set]
  split
  · rename_i h; subst h; rfl
  · rfl

theorem slot_push (r : Ring α n) (e : α) (j : Nat) :
    (r.push e).slot j = if r.head = j then some e else r.slot j :=
  getD_set r.slots r.head j (some e) (by rw [r.size]; exact r.head_lt)

theorem slot_pop (r : Ring α n) (j : Nat) :
    r.pop.2.slot j = if r.tail = j then none else r.slot j :=
  getD_set r.slots r.tail j none (by rw [r.size]; exact r.tail_lt)

/-! ## Draining -/

/-- The number of slots that are not empty. -/
def occupied (r : Ring α n) : Nat := r.slots.countP Option.isSome

theorem occupied_le (r : Ring α n) : r.occupied ≤ n := by
  have h := List.countP_le_length (p := Option.isSome) (l := r.slots)
  rwa [r.size] at h

/-- A pop that brings an element empties a slot. -/
theorem occupied_pop {r : Ring α n} {x : α} (h : r.pop.1 = some x) : r.pop.2.occupied < r.occupied := by
  have hlt : r.tail < r.slots.length := by rw [r.size]; exact r.tail_lt
  have hx : r.slots[r.tail] = some x := by
    have hget : r.slots.getD r.tail none = some x := h
    rwa [List.getD_eq_getElem?_getD, List.getElem?_eq_getElem hlt] at hget
  have hpos : 0 < r.slots.countP Option.isSome :=
    List.countP_pos_iff.mpr ⟨_, List.getElem_mem hlt, by rw [hx]; rfl⟩
  show (r.slots.set r.tail none).countP Option.isSome < r.slots.countP Option.isSome
  rw [List.countP_set hlt, hx]
  simp only [Option.isSome_some, Option.isSome_none, if_true, Bool.false_eq_true, if_false]
  omega

/-! ## The simulation -/

/-- `q` waits in `r`, the slots beyond the head are empty, and `d` tells whether the slot under
    the head still holds an element that was dropped. -/
structure Sim (r : Ring α n) (q : List α) (d : Bool) : Prop where
  len : q.length < n
  head_eq : r.head = wrap n r.tail q.length
  live : ∀ i (h : i < q.length), r.slot (wrap n r.tail i) = some q[i]
  dead : ∀ j, q.length < j → j < n → r.slot (wrap n r.tail j) = none
  stale : (r.slot r.head).isSome = d

theorem sim_empty (h : 0 < n) : Sim (empty α n h) [] false where
  len := h
  head_eq := (wrap_zero h).symm
  live := fun i hi => absurd hi (Nat.not_lt_zero i)
  dead := fun j _ hj => by
    have hw : wrap n 0 j < n := wrap_lt h hj
    simp [slot, empty, List.getD_eq_getElem?_getD, hw]
  stale := by simp [slot, empty, List.getD_eq_getElem?_getD, h]

/-- A push with room to spare overwrites the slot under the head, and the next one is empty. -/
theorem push_sim_of_lt {r : Ring α n} {q : List α} {d : Bool} (e : α) (hs : Sim r q d)
    (hq : q.length + 1 < n) : Sim (r.push e) (q ++ [e]) false := by
  have hnext : (r.head + 1) % n = wrap n r.tail (q.length + 1) := by
    rw [succ_mod r.head_lt, hs.head_eq, wrap_wrap_one r.tail_lt hq]
  have hne : (r.head + 1) % n ≠ r.tail := by
    rw [hnext]
    intro h
    have h0 := (wrap_inj hq (by omega : 0 < n)).mp (h.trans (wrap_zero r.tail_lt).symm)
    omega
  have htail : (r.push e).tail = r.tail := if_neg hne
  have hhead : (r.push e).head = wrap n r.tail (q.length + 1) := hnext
  refine ⟨by simp; omega, by rw [hhead, htail]; simp, ?_, ?_, ?_⟩
  -- what waited is untouched, and the new element is where the head was
  · intro i hi
    rw [htail, slot_push, hs.head_eq]
    rcases Nat.lt_or_ge i q.length with hlt | hge
    · have hni : ¬ wrap n r.tail q.length = wrap n r.tail i := by
        rw [wrap_inj hs.len (by omega)]; omega
      rw [if_neg hni, hs.live i hlt, List.getElem_append_left hlt]
    · have hie : i = q.length := by simp at hi; omega
      subst hie
      rw [if_pos rfl]; simp
  -- beyond the new head is beyond the old one
  · intro j hj hjn
    have hj' : q.length + 1 < j := by simpa using hj
    have hni : ¬ wrap n r.tail q.length = wrap n r.tail j := by
      rw [wrap_inj hs.len hjn]; omega
    rw [htail, slot_push, hs.head_eq, if_neg hni]
    exact hs.dead j (by omega) hjn
  · have hni : ¬ wrap n r.tail q.length = wrap n r.tail (q.length + 1) := by
      rw [wrap_inj hs.len hq]; omega
    rw [hhead, slot_push, hs.head_eq, if_neg hni, hs.dead _ (Nat.lt_succ_self _) hq]
    rfl

/-- A push into a full ring: the tail steps over the oldest element, which stays in its slot —
    the slot the head has just moved to. -/
theorem push_sim_of_full {r : Ring α n} {x : α} {q : List α} {d : Bool} (e : α)
    (hs : Sim r (x :: q) d) (hq : q.length + 2 = n) : Sim (r.push e) (q ++ [e]) true := by
  have hn : 2 ≤ n := by omega
  have hlen : (x :: q).length = n - 1 := by simp; omega
  have hnext : (r.head + 1) % n = r.tail := by
    rw [succ_mod r.head_lt, hs.head_eq, hlen, wrap_pred_one r.tail_lt hn]
  have htail : (r.push e).tail = wrap n r.tail 1 := by
    rw [← succ_mod r.tail_lt]; exact if_pos hnext
  have hhead : (r.push e).head = r.tail := hnext
  have hold : r.head = wrap n r.tail (n - 1) := by rw [hs.head_eq, hlen]
  refine ⟨by simp; omega, ?_, ?_, ?_, ?_⟩
  · rw [hhead, htail, show (q ++ [e]).length = n - 1 by simp; omega, wrap_last r.tail_lt hn]
  · intro i hi
    have hin : i + 1 < n := by simp at hi; omega
    rw [htail, wrap_succ r.tail_lt hin, slot_push, hold]
    rcases Nat.lt_or_ge i q.length with hlt | hge
    · have hni : ¬ wrap n r.tail (n - 1) = wrap n r.tail (i + 1) := by
        rw [wrap_inj (by omega) hin]; omega
      rw [if_neg hni, hs.live (i + 1) (by simpa using hlt), List.getElem_append_left hlt]
      simp
    · have hie : i = q.length := by simp at hi; omega
      subst hie
      rw [if_pos (by rw [show q.length + 1 = n - 1 by omega])]; simp
  -- all slots but the one under the head are in use: none lies beyond it
  · intro j hj hjn
    have : n - 1 < j := by simp at hj; omega
    omega
  -- the head has reached the dropped element, which the push left in its slot
  · have hni : ¬ wrap n r.tail (n - 1) = r.tail := by
      intro h
      have h0 := (wrap_inj (by omega : n - 1 < n) (by omega : 0 < n)).mp
        (h.trans (wrap_zero r.tail_lt).symm)
      omega
    have hx := hs.live 0 (by simp)
    rw [wrap_zero r.tail_lt] at hx
    rw [hhead, slot_push, hold, if_neg hni, hx]
    rfl

/-- One push, full or not: the ring keeps simulating the FIFO of capacity `n - 1`, and the slot
    under the head is stale exactly when the push overflowed. -/
theorem push_sim {r : Ring α n} {q : List α} {d : Bool} (e : α) (hn : 2 ≤ n) (hs : Sim r q d) :
    Sim (r.push e) (Fifo.push (n - 1) q e) (decide (q.length = n - 1)) := by
  have hlen := hs.len
  rcases Nat.lt_or_ge (q.length + 1) n with hlt | hge
  · rw [Fifo.push_of_lt e (by omega), decide_eq_false (by omega)]
    exact push_sim_of_lt e hs hlt
  · cases q with
    | nil => simp at hge; omega
    | cons x q =>
      have hql : (x :: q).length = n - 1 := by omega
      rw [Fifo.push_of_eq e hql, decide_eq_true hql]
      exact push_sim_of_full e hs (by simp at hql; omega)

/-- Pushes with room for them all. -/
theorem foldl_push_sim {r : Ring α n} {q es : List α} (hs : Sim r q false)
    (hroom : q.length + es.length < n) : Sim (es.foldl push r) (q ++ es) false := by
  induction es generalizing q r with
  | nil =>
    rw [List.append_nil]
    exact hs
  | cons e es ih =>
    rw [List.length_cons] at hroom
    have hrest := ih (push_sim_of_lt e hs (by omega))
      (by rw [List.length_append, List.length_singleton]; omega)
    rwa [List.append_assoc] at hrest

/-- A pop with something waiting returns the oldest element and leaves the rest. -/
theorem pop_cons_sim {r : Ring α n} {x : α} {q : List α} {d : Bool} (hs : Sim r (x :: q) d) :
    r.pop.1 = some x ∧ Sim r.pop.2 q d := by
  have hlen : q.length + 1 < n := hs.len
  have hx : r.slot r.tail = some x := by
    have h := hs.live 0 (by simp)
    rwa [wrap_zero r.tail_lt] at h
  have htail : r.pop.2.tail = wrap n r.tail 1 := by
    rw [← succ_mod r.tail_lt]
    exact if_pos (by rw [hx]; rfl)
  have hoff : ∀ j, 0 < j → j < n → ¬ r.tail = wrap n r.tail j := by
    intro j hj hjn h
    have h0 := (wrap_inj (by omega : 0 < n) hjn).mp ((wrap_zero r.tail_lt).trans h)
    omega
  refine ⟨hx, by omega, ?_, ?_, ?_, ?_⟩
  · rw [htail, wrap_succ r.tail_lt hlen]; exact hs.head_eq
  · intro i hi
    rw [htail, wrap_succ r.tail_lt (by omega), slot_pop, if_neg (hoff _ (by omega) (by omega))]
    have h := hs.live (i + 1) (by simpa using hi)
    simpa using h
  · intro j hj hjn
    rw [htail, slot_pop]
    rcases Nat.lt_or_ge (j + 1) n with hlt | hge
    · rw [wrap_succ r.tail_lt hlt, if_neg (hoff _ (by omega) hlt)]
      exact hs.dead (j + 1) (by simpa using hj) hlt
    -- the slot just emptied is the last one beyond the head
    · rw [show j = n - 1 by omega, wrap_last r.tail_lt (by omega), if_pos rfl]
  · have hh : r.pop.2.head = r.head := rfl
    rw [hh, slot_pop, if_neg (by rw [hs.head_eq]; exact hoff _ (by simp) hlen)]
    exact hs.stale

/-- A pop of a drained ring with a clean head slot returns nothing and changes nothing. -/
theorem pop_nil_sim {r : Ring α n} (hs : Sim r [] false) :
    r.pop.1 = none ∧ Sim r.pop.2 [] false := by
  have hht : r.head = r.tail := by rw [hs.head_eq]; exact wrap_zero r.tail_lt
  have hx : r.slot r.tail = none := by
    have h := hs.stale
    rw [hht] at h
    simpa using h
  have htail : r.pop.2.tail = r.tail := if_neg (by rw [hx]; exact Bool.false_ne_true)
  refine ⟨hx, hs.len, ?_, fun i hi => absurd hi (Nat.not_lt_zero i), ?_, ?_⟩
  · rw [htail]; exact hs.head_eq
  · intro j hj hjn
    rw [htail, slot_pop]
    split
    · rfl
    · exact hs.dead j hj hjn
  · have hh : r.pop.2.head = r.head := rfl
    rw [hh, slot_pop, if_pos hht.symm]; rfl

/-- **The disagreement.**  A drained ring whose last push overflowed hands back the element that
    push dropped. -/
theorem pop_stale {r : Ring α n} (hs : Sim r [] true) : r.pop.1.isSome = true := by
  have hht : r.head = r.tail := by rw [hs.head_eq]; exact wrap_zero r.tail_lt
  have h := hs.stale
  rwa [hht] at h

/-- The run never pops when nothing waits and the last push overflowed.  `q` is what waits, `d`
    whether the last push found the queue full. -/
def NoStalePop (k : Nat) : List α → Bool → List (Op α) → Prop
  | _, _, [] => True
  | q, _, .push e :: ops => NoStalePop k (Fifo.push k q e) (decide (q.length = k)) ops
  | q, d, .pop :: ops => ¬ (q = [] ∧ d = true) ∧ NoStalePop k q.tail d ops

/-- **The run theorem.**  From a simulating pair, the ring and the FIFO answer the pops of a run
    alike iff the run makes no stale pop.  Induction on the run; a stale pop separates the two
    at once, every other step keeps the simulation. -/
theorem outs_eq_iff (hn : 2 ≤ n) : ∀ (ops : List (Op α)) (r : Ring α n) (q : List α) (d : Bool),
    Sim r q d → (r.outs ops = Fifo.outs (n - 1) q ops ↔ NoStalePop (n - 1) q d ops) := by
  intro ops
  induction ops with
  | nil => intro r q d _; exact ⟨fun _ => trivial, fun _ => rfl⟩
  | cons op ops ih =>
    intro r q d hs
    cases op with
    | push e => exact ih _ _ _ (push_sim e hn hs)
    | pop =>
      simp only [outs, Fifo.outs, NoStalePop, List.cons.injEq]
      cases q with
      | cons x q =>
        obtain ⟨hx, hs'⟩ := pop_cons_sim hs
        rw [hx, List.tail_cons, ih _ _ _ hs']
        simp
      | nil =>
        cases d with
        | false =>
          obtain ⟨hx, hs'⟩ := pop_nil_sim hs
          rw [hx, List.tail_nil, ih _ _ _ hs']
          simp
        | true =>
          -- the ring returns a dropped element where the FIFO returns none
          have hx := pop_stale hs
          constructor
          · rintro ⟨h, _⟩
            rw [h] at hx
            cases hx
          · rintro ⟨h, _⟩
            exact absurd ⟨rfl, rfl⟩ h

/-- From the empty ring: the refinement of the FIFO of capacity `n - 1`, with its exact
    condition. -/
theorem empty_outs_eq_iff (hn : 2 ≤ n) (ops : List (Op α)) :
    (empty α n (by omega)).outs ops = Fifo.outs (n - 1) [] ops ↔
      NoStalePop (n - 1) [] false ops :=
  outs_eq_iff hn ops _ [] false (sim_empty (by omega))

end Ring

end RingBuffer
