/-
  Memories written cell by cell.

  A memory is a function from addresses; a list of writes is played into it one after the other, and
  an interrupted program has played a PREFIX of its list.  A BURST is a run of consecutive cells.

  What lies outside a list of writes is not touched (`play_other`), so of several bursts in places of
  their own each one is found as if it were alone (`play_take_middle`), and an interrupted burst is
  read as its beginning, followed by what was there before (`read_burst_take`).
-/
import Mathlib.Tactic

namespace Writes

variable {α : Type}

/-- Write the cells of a list in order. -/
def play (ws : List (ℕ × α)) (m : ℕ → α) : ℕ → α :=
  ws.foldl (fun m w => Function.update m w.1 w.2) m

/-- The writes that put a list of values at consecutive addresses. -/
def burst : ℕ → List α → List (ℕ × α)
  | _, [] => []
  | a, v :: vs => (a, v) :: burst (a + 1) vs

/-- The `n` cells from `a` on. -/
def read (m : ℕ → α) (a n : ℕ) : List α := (List.range n).map (fun j => m (a + j))

@[simp] theorem read_length (m : ℕ → α) (a n : ℕ) : (read m a n).length = n := by
  rw [read, List.length_map, List.length_range]

theorem read_succ (m : ℕ → α) (a n : ℕ) : read m a (n + 1) = m a :: read m (a + 1) n := by
  unfold read
  rw [List.range_succ_eq_map, List.map_cons, List.map_map]
  refine congrArg₂ _ rfl ?_
  refine List.map_congr_left ?_
  intro j _
  show m (a + (j + 1)) = m (a + 1 + j)
  rw [Nat.add_right_comm, Nat.add_assoc]

/-- Reading depends on the cells read. -/
theorem read_congr {m m' : ℕ → α} {a n : ℕ} (h : ∀ x, a ≤ x → x < a + n → m x = m' x) :
    read m a n = read m' a n := by
  refine List.map_congr_left ?_
  intro j hj
  have hlt := List.mem_range.mp hj
  exact h (a + j) (by omega) (by omega)

theorem read_const (v : α) (a n : ℕ) : read (fun _ => v) a n = List.replicate n v := by
  rw [read, List.map_const', List.length_range]

theorem play_append (ws ws' : List (ℕ × α)) (m : ℕ → α) :
    play (ws ++ ws') m = play ws' (play ws m) := List.foldl_append

/-- A cell that is not written keeps its value. -/
theorem play_other {ws : List (ℕ × α)} {m : ℕ → α} {x : ℕ} (h : ∀ w ∈ ws, w.1 ≠ x) :
    play ws m x = m x := by
  induction ws generalizing m with
  | nil => rfl
  | cons w ws ih =>
    show play ws (Function.update m w.1 w.2) x = m x
    rw [ih (fun v hv => h v (List.mem_cons_of_mem _ hv)),
      Function.update_of_ne (Ne.symm (h w List.mem_cons_self))]

/-- What a cell holds in the end depends on the writes and on its own value. -/
theorem play_congr {ws : List (ℕ × α)} {m m' : ℕ → α} {x : ℕ} (h : m x = m' x) :
    play ws m x = play ws m' x := by
  induction ws generalizing m m' with
  | nil => exact h
  | cons w ws ih =>
    refine ih ?_
    show Function.update m w.1 w.2 x = Function.update m' w.1 w.2 x
    by_cases hw : x = w.1
    · subst hw
      rw [Function.update_self, Function.update_self]
    · rw [Function.update_of_ne hw, Function.update_of_ne hw, h]

@[simp] theorem burst_length (a : ℕ) (vs : List α) : (burst a vs).length = vs.length := by
  induction vs generalizing a with
  | nil => rfl
  | cons v vs ih => exact congrArg (· + 1) (ih (a + 1))

/-- The beginning of a burst is the burst of the beginning. -/
theorem burst_take (a : ℕ) (vs : List α) (k : ℕ) : (burst a vs).take k = burst a (vs.take k) := by
  induction vs generalizing a k with
  | nil => simp [burst]
  | cons v vs ih =>
    cases k with
    | zero => rfl
    | succ k => exact congrArg _ (ih (a + 1) k)

theorem mem_burst {a : ℕ} {vs : List α} {w : ℕ × α} (h : w ∈ burst a vs) :
    a ≤ w.1 ∧ w.1 < a + vs.length := by
  induction vs generalizing a with
  | nil => cases h
  | cons v vs ih =>
    rw [List.length_cons]
    rcases List.mem_cons.mp h with rfl | h
    · exact ⟨Nat.le_refl _, by dsimp only; omega⟩
    · have hi := ih h
      omega

/-- What a burst wrote is what is read, and behind it what was there before. -/
theorem read_burst (a : ℕ) (vs : List α) (m : ℕ → α) {n : ℕ} (h : vs.length ≤ n) :
    read (play (burst a vs) m) a n = vs ++ read m (a + vs.length) (n - vs.length) := by
  induction vs generalizing a m n with
  | nil => rfl
  | cons v vs ih =>
    rw [List.length_cons] at h ⊢
    obtain ⟨n, rfl⟩ : ∃ k, n = k + 1 := ⟨n - 1, by omega⟩
    have hself : play (burst (a + 1) vs) (Function.update m a v) a = v := by
      rw [play_other, Function.update_self]
      intro w hw
      have hlo := (mem_burst hw).1
      omega
    have hrest : read (Function.update m a v) (a + 1 + vs.length) (n - vs.length) =
        read m (a + (vs.length + 1)) (n + 1 - (vs.length + 1)) := by
      rw [show a + 1 + vs.length = a + (vs.length + 1) by omega,
        show n + 1 - (vs.length + 1) = n - vs.length by omega]
      refine read_congr ?_
      intro x hx _
      exact Function.update_of_ne (by omega) _ _
    show read (play (burst (a + 1) vs) (Function.update m a v)) a (n + 1) = _
    rw [read_succ, hself, ih (a + 1) _ (by omega), hrest]
    rfl

/-- **An interrupted burst** is read as its beginning, and behind it what was there before. -/
theorem read_burst_take (a : ℕ) (vs : List α) (m : ℕ → α) (k : ℕ) :
    read (play ((burst a vs).take k) m) a vs.length =
      vs.take k ++ read m (a + (vs.take k).length) (vs.length - (vs.take k).length) := by
  rw [burst_take]
  exact read_burst a _ m (by rw [List.length_take]; exact Nat.min_le_right _ _)

/-- **Writes in places of their own.**  Where only the middle part of a list of writes writes, the
    interrupted whole is the interrupted middle part. -/
theorem play_take_middle {pre mid post : List (ℕ × α)} {m : ℕ → α} {x : ℕ}
    (hpre : ∀ w ∈ pre, w.1 ≠ x) (hpost : ∀ w ∈ post, w.1 ≠ x) (k : ℕ) :
    play ((pre ++ mid ++ post).take k) m x = play (mid.take (k - pre.length)) m x := by
  have hother : ∀ (ws : List (ℕ × α)) (n : ℕ) (m : ℕ → α), (∀ w ∈ ws, w.1 ≠ x) →
      play (ws.take n) m x = m x := by
    intro ws n m h
    exact play_other (fun w hw => h w (List.mem_of_mem_take hw))
  rw [List.append_assoc, List.take_append, List.take_append, play_append, play_append,
    hother post _ _ hpost]
  exact play_congr (hother pre k m hpre)

end Writes
