/-
  Records that say where they end, one behind another in a buffer.

  A format writes a record and reads the first record of a buffer.  Its two laws are fields: what is
  written is read back whatever stands behind it, and what is read was written so.  Records are PACKED
  one behind another, and a reader is asked again and again for the next one.  Each time it has one, is
  at the end, or is at something that is no record; there it stays.

  So every buffer is a packing of records and a rest (`exists_split`), the answers of the reader are
  those records and then, for ever, what the rest says (`outcomes_append`), and the reader comes to
  the end iff the buffer is a packing (`done_mem_iff`), which it then is in one way only
  (`pack_of_outcomes`).
-/
import Mathlib.Tactic

namespace Records

/-- A format of records. -/
structure Format (α β : Type) where
  Valid : α → Prop
  write : α → List β
  /-- The first record, and what is behind it. -/
  read : List β → Option (α × List β)
  read_write : ∀ {a : α} (rest : List β), Valid a → read (write a ++ rest) = some (a, rest)
  write_read : ∀ {xs rest : List β} {a : α}, read xs = some (a, rest) → Valid a ∧ xs = write a ++ rest
  write_ne_nil : ∀ {a : α}, Valid a → write a ≠ []

/-- What a reader that is asked for the next record can answer. -/
inductive Outcome (α : Type)
  | done
  | bad
  | got (a : α)
  deriving DecidableEq

namespace Format

variable {α β : Type} (F : Format α β)

/-- Records one behind another. -/
def pack (as : List α) : List β := as.flatMap F.write

/-- The buffer is a packing of records. -/
def WellFormed (xs : List β) : Prop := ∃ as, (∀ a ∈ as, F.Valid a) ∧ xs = F.pack as

/-- The reader is asked once. -/
def next : List β → Outcome α × List β
  | [] => (.done, [])
  | x :: xs =>
    match F.read (x :: xs) with
    | none => (.bad, x :: xs)
    | some (a, rest) => (.got a, rest)

/-- The reader is asked `n` times. -/
def outcomes : Nat → List β → List (Outcome α)
  | 0, _ => []
  | n + 1, xs => (F.next xs).1 :: outcomes n (F.next xs).2

/-- Nothing, or something that is no record. -/
def Stuck (rest : List β) : Prop := rest = [] ∨ F.read rest = none

/-- What the rest of a buffer answers. -/
def last : List β → Outcome α
  | [] => .done
  | _ :: _ => .bad

@[simp] theorem pack_nil : F.pack [] = [] := rfl

@[simp] theorem pack_cons (a : α) (as : List α) : F.pack (a :: as) = F.write a ++ F.pack as := rfl

@[simp] theorem length_outcomes (n : Nat) (xs : List β) : (F.outcomes n xs).length = n := by
  induction n generalizing xs with
  | zero => rfl
  | succ n ih => rw [outcomes, List.length_cons, ih]

variable {F}

/-! ## One answer -/

theorem next_write {a : α} (h : F.Valid a) (rest : List β) :
    F.next (F.write a ++ rest) = (.got a, rest) := by
  have hread := F.read_write rest h
  cases hxs : F.write a ++ rest with
  | nil => exact absurd (List.append_eq_nil_iff.mp hxs).1 (F.write_ne_nil h)
  | cons x xs =>
    rw [hxs] at hread
    dsimp only [next]
    rw [hread]

theorem next_stuck {rest : List β} (h : F.Stuck rest) : F.next rest = (last rest, rest) := by
  cases rest with
  | nil => rfl
  | cons x xs =>
    have hread : F.read (x :: xs) = none := h.resolve_left (List.cons_ne_nil x xs)
    dsimp only [next]
    rw [hread]
    rfl

theorem next_of_read {xs rest : List β} {a : α} (h : F.read xs = some (a, rest)) :
    F.next xs = (.got a, rest) := by
  obtain ⟨hvalid, rfl⟩ := F.write_read h
  exact next_write hvalid rest

/-- The three answers, and what they say of the buffer. -/
theorem next_cases (xs : List β) :
    (∃ a rest, F.Valid a ∧ xs = F.write a ++ rest ∧ F.next xs = (.got a, rest)) ∨
      F.Stuck xs := by
  cases hread : F.read xs with
  | none => exact .inr (.inr hread)
  | some r =>
    obtain ⟨a, rest⟩ := r
    obtain ⟨hvalid, hxs⟩ := F.write_read hread
    exact .inl ⟨a, rest, hvalid, hxs, next_of_read hread⟩

/-! ## All answers -/

/-- A reader that is stuck stays so. -/
theorem outcomes_stuck {rest : List β} (h : F.Stuck rest) (n : Nat) :
    F.outcomes n rest = List.replicate n (last rest) := by
  induction n with
  | zero => rfl
  | succ n ih => rw [outcomes, next_stuck h, ih, List.replicate_succ]

/-- **The answers** are the records, and then what the rest says. -/
theorem outcomes_append {as : List α} (h : ∀ a ∈ as, F.Valid a) {rest : List β} (hrest : F.Stuck rest)
    (n : Nat) :
    F.outcomes (as.length + n) (F.pack as ++ rest) = as.map .got ++ List.replicate n (last rest) := by
  induction as with
  | nil =>
    rw [List.length_nil, Nat.zero_add]
    exact outcomes_stuck hrest n
  | cons a as ih =>
    rw [List.length_cons, Nat.succ_add, outcomes, pack_cons, List.append_assoc,
      next_write (h a List.mem_cons_self), ih fun b hb => h b (List.mem_cons_of_mem _ hb)]
    rfl

/-- A packing, to its end. -/
theorem outcomes_pack {as : List α} (h : ∀ a ∈ as, F.Valid a) :
    F.outcomes (as.length + 1) (F.pack as) = as.map .got ++ [.done] := by
  have hstuck : F.Stuck [] := .inl rfl
  have hall := outcomes_append h hstuck 1
  rwa [List.append_nil] at hall

/-- **Every buffer** is a packing of records with a rest: induction on its length, as a record is not
    empty. -/
theorem exists_split (F : Format α β) (xs : List β) :
    ∃ as rest, (∀ a ∈ as, F.Valid a) ∧ F.Stuck rest ∧ xs = F.pack as ++ rest := by
  induction hn : xs.length using Nat.strong_induction_on generalizing xs with
  | _ n ih =>
    rcases F.next_cases xs with ⟨a, rest, hvalid, rfl, _⟩ | hstuck
    · have hshort : rest.length < n := by
        have hpos := List.length_pos_of_ne_nil (F.write_ne_nil hvalid)
        rw [List.length_append] at hn
        omega
      obtain ⟨as, tail, has, htail, rfl⟩ := ih rest.length hshort rest rfl
      refine ⟨a :: as, tail, ?_, htail, (List.append_assoc _ _ _).symm⟩
      intro b hb
      rcases List.mem_cons.mp hb with rfl | hb
      · exact hvalid
      · exact has b hb
    · exact ⟨[], xs, fun a ha => absurd ha List.not_mem_nil, hstuck, rfl⟩

/-- There are at most as many records as elements. -/
theorem length_le_pack {as : List α} (h : ∀ a ∈ as, F.Valid a) : as.length ≤ (F.pack as).length := by
  induction as with
  | nil => exact Nat.le_refl 0
  | cons a as ih =>
    have hpos := List.length_pos_of_ne_nil (F.write_ne_nil (h a List.mem_cons_self))
    have hrest := ih fun b hb => h b (List.mem_cons_of_mem _ hb)
    rw [pack_cons, List.length_append, List.length_cons]
    omega

/-! ## Coming to the end -/

theorem eq_nil_of_last {rest : List β} (h : last rest = (Outcome.done : Outcome α)) : rest = [] := by
  cases rest with
  | nil => rfl
  | cons x xs => cases h

/-- Asked more often, the reader answers the same first. -/
theorem outcomes_initial (n m : Nat) (xs : List β) : F.outcomes n xs <+: F.outcomes (n + m) xs := by
  induction n generalizing xs with
  | zero => exact List.nil_prefix
  | succ n ih =>
    rw [Nat.succ_add, outcomes, outcomes]
    exact List.cons_prefix_cons.mpr ⟨rfl, ih _⟩

/-- **When the reader comes to the end**: iff the buffer is a packing, and then within as many answers
    as it has elements, and one more. -/
theorem done_mem_iff (F : Format α β) (xs : List β) :
    ((∃ n, Outcome.done ∈ F.outcomes n xs) ↔ F.WellFormed xs) ∧
      (F.WellFormed xs → ∃ as : List α, as.length ≤ xs.length ∧
        F.outcomes (as.length + 1) xs = as.map .got ++ [.done]) := by
  have hends : F.WellFormed xs → ∃ as : List α, as.length ≤ xs.length ∧
      F.outcomes (as.length + 1) xs = as.map .got ++ [.done] := by
    rintro ⟨as, hvalid, rfl⟩
    exact ⟨as, length_le_pack hvalid, outcomes_pack hvalid⟩
  refine ⟨⟨?_, ?_⟩, hends⟩
  · rintro ⟨n, hdone⟩
    obtain ⟨as, rest, hvalid, hstuck, rfl⟩ := F.exists_split xs
    have hmore := (outcomes_initial n as.length _).subset hdone
    rw [Nat.add_comm, outcomes_append hvalid hstuck, List.mem_append] at hmore
    rcases hmore with hmore | hmore
    · obtain ⟨a, _, ha⟩ := List.mem_map.mp hmore
      cases ha
    · obtain rfl := eq_nil_of_last (List.eq_of_mem_replicate hmore).symm
      exact ⟨as, hvalid, List.append_nil _⟩
  · intro h
    obtain ⟨as, _, hall⟩ := hends h
    exact ⟨_, hall ▸ List.mem_append_right _ List.mem_cons_self⟩

/-- **What came to the end is the packing of what was read.** -/
theorem pack_of_outcomes {as : List α} {xs : List β}
    (h : F.outcomes (as.length + 1) xs = as.map .got ++ [.done]) :
    (∀ a ∈ as, F.Valid a) ∧ xs = F.pack as := by
  induction as generalizing xs with
  | nil =>
    refine ⟨fun a ha => absurd ha List.not_mem_nil, ?_⟩
    rcases F.next_cases xs with ⟨a, rest, _, _, hnext⟩ | hstuck
    · rw [List.length_nil, outcomes, hnext] at h
      cases h
    · rw [List.length_nil, outcomes, next_stuck hstuck] at h
      exact eq_nil_of_last (List.cons.inj h).1
  | cons a as ih =>
    rw [List.length_cons, outcomes, List.map_cons, List.cons_append] at h
    obtain ⟨hhead, htail⟩ := List.cons.inj h
    rcases F.next_cases xs with ⟨b, rest, hvalid, rfl, hnext⟩ | hstuck
    · rw [hnext] at hhead htail
      cases hhead
      obtain ⟨has, rfl⟩ := ih htail
      refine ⟨?_, rfl⟩
      intro c hc
      rcases List.mem_cons.mp hc with rfl | hc
      · exact hvalid
      · exact has c hc
    · rw [next_stuck hstuck] at hhead
      cases xs <;> cases hhead

end Format

end Records
