/-
  A SET with a limited number of places, kept as the list of its elements in the order in which they
  came: an element is refused when it is there already, or when no place is left.

  What such a set is FOR is a history of calls, the earliest first, each insertion with its answer: the
  set is the list of what was taken since it was last cleared (`Run.eq_taken`), and no element of it is
  there twice (`Run.nodup`).
-/
import Mathlib.Tactic

namespace BoundedSet

variable {α : Type}

/-- One more element: is it taken, and the set after that. -/
def insert [DecidableEq α] (n : Nat) (xs : List α) (x : α) : Bool × List α :=
  if n ≤ xs.length ∨ x ∈ xs then (false, xs) else (true, xs ++ [x])

/-- A call, with its answer. -/
inductive Call (α : Type)
  | insert (x : α) (taken : Bool)
  | clear
  deriving DecidableEq, Repr

/-- The call leaves the elements there. -/
def Call.isInsert : Call α → Bool
  | .insert _ _ => true
  | .clear => false

/-- The element a call took. -/
def Call.taken? : Call α → Option α
  | .insert x true => some x
  | _ => none

/-- The calls since the set was last cleared. -/
def sinceClear (calls : List (Call α)) : List (Call α) := (calls.reverse.takeWhile Call.isInsert).reverse

/-- What was taken since then, in the order in which it came. -/
def taken (calls : List (Call α)) : List α := (sinceClear calls).filterMap Call.taken?

theorem sinceClear_insert (calls : List (Call α)) (x : α) (b : Bool) :
    sinceClear (calls ++ [.insert x b]) = sinceClear calls ++ [.insert x b] := by
  unfold sinceClear
  rw [List.reverse_append, List.reverse_singleton, List.singleton_append,
    List.takeWhile_cons_of_pos rfl, List.reverse_cons]

theorem sinceClear_clear (calls : List (Call α)) : sinceClear (calls ++ [.clear]) = [] := by
  unfold sinceClear
  rw [List.reverse_append, List.reverse_singleton, List.singleton_append,
    List.takeWhile_cons_of_neg Bool.false_ne_true, List.reverse_nil]

theorem taken_insert (calls : List (Call α)) (x : α) (b : Bool) :
    taken (calls ++ [.insert x b]) = taken calls ++ if b then [x] else [] := by
  unfold taken
  rw [sinceClear_insert, List.filterMap_append]
  cases b <;> rfl

theorem taken_clear (calls : List (Call α)) : taken (calls ++ [.clear]) = [] := by
  unfold taken
  rw [sinceClear_clear, List.filterMap_nil]

/-- An element was taken by a call that said so. -/
theorem mem_taken {calls : List (Call α)} {x : α} :
    x ∈ taken calls ↔ .insert x true ∈ sinceClear calls := by
  unfold taken
  rw [List.mem_filterMap]
  constructor
  · rintro ⟨_ | _, hcall, htaken⟩
    · rename_i y b
      cases b
      · cases htaken
      · cases htaken
        exact hcall
    · cases htaken
  · exact fun h => ⟨_, h, rfl⟩

section Run

variable [DecidableEq α] {n : Nat} {calls : List (Call α)} {xs : List α}

/-- The calls on a set of at most `n` elements that was empty, and the set after them. -/
inductive Run (n : Nat) : List (Call α) → List α → Prop
  | start : Run n [] []
  | insert {calls : List (Call α)} {xs : List α} (h : Run n calls xs) (x : α) :
      Run n (calls ++ [.insert x (BoundedSet.insert n xs x).1]) (BoundedSet.insert n xs x).2
  | clear {calls : List (Call α)} {xs : List α} (h : Run n calls xs) : Run n (calls ++ [.clear]) []

theorem insert_taken (n : Nat) (xs : List α) (x : α) :
    (insert n xs x).1 = true ↔ x ∉ xs ∧ xs.length < n := by
  unfold insert
  split
  · rename_i h
    refine ⟨fun hfalse => absurd hfalse Bool.false_ne_true, ?_⟩
    rintro ⟨hnew, hroom⟩
    exact absurd h (not_or.mpr ⟨Nat.not_le.mpr hroom, hnew⟩)
  · rename_i h
    rw [not_or, Nat.not_le] at h
    exact ⟨fun _ => h.symm, fun _ => rfl⟩

theorem insert_eq (n : Nat) (xs : List α) (x : α) :
    (insert n xs x).2 = xs ++ if (insert n xs x).1 then [x] else [] := by
  unfold insert
  split
  · exact (List.append_nil xs).symm
  · rfl

/-- **The set is what was taken** since it was last cleared. -/
theorem Run.eq_taken (h : Run n calls xs) : xs = taken calls := by
  induction h with
  | start => rfl
  | insert _ x ih => rw [insert_eq, taken_insert, ← ih]
  | clear => exact (taken_clear _).symm

theorem Run.nodup (h : Run n calls xs) : xs.Nodup := by
  induction h with
  | start => exact List.nodup_nil
  | @insert calls xs _ x ih =>
    rw [insert_eq]
    split
    · rename_i htaken
      rw [← List.concat_eq_append]
      exact ih.concat ((insert_taken n xs x).mp htaken).1
    · rwa [List.append_nil]
  | clear => exact List.nodup_nil

end Run

end BoundedSet
