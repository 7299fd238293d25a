/-
  Functions on a circle of prime size that respect a rotation, and searches round a circle of any size.

  A function `f` on the residues of a prime RESPECTS a rotation by `h` when its value after a turn
  depends on its value before it only.  Since `h` reaches every residue, such a function either tells
  all residues apart or none (`Respects.injective_or_const`).

  A search from a position goes once round (`roundFrom`); it finds something iff there is something
  to find (`firstFrom_isSome`).
-/
import Mathlib.Tactic
import Mathlib.Data.ZMod.Basic

namespace Rotation

/-! ## Once round -/

section Round

variable {n start x : ℕ} {good : ℕ → Bool}

/-- The positions of a circle of `n`, from `start` on, `k` of them. -/
def roundFrom (n start k : ℕ) : List ℕ := (List.range k).map fun i => (start + i) % n

/-- The first good position, once round from `start`. -/
def firstFrom (n : ℕ) (good : ℕ → Bool) (start : ℕ) : Option ℕ := (roundFrom n start n).find? good

theorem roundFrom_succ (hstart : start < n) (k : ℕ) :
    roundFrom n start (k + 1) = start :: roundFrom n ((start + 1) % n) k := by
  unfold roundFrom
  rw [List.range_succ_eq_map, List.map_cons, List.map_map, Nat.add_zero, Nat.mod_eq_of_lt hstart]
  congr 1
  apply List.map_congr_left
  intro i _
  show (start + (i + 1)) % n = ((start + 1) % n + i) % n
  rw [Nat.mod_add_mod, Nat.add_assoc, Nat.add_comm 1 i]

/-- Once round is everywhere. -/
theorem mem_roundFrom (hstart : start < n) : x ∈ roundFrom n start n ↔ x < n := by
  unfold roundFrom
  rw [List.mem_map]
  constructor
  · rintro ⟨i, _, rfl⟩
    exact Nat.mod_lt _ (by omega)
  · intro hx
    by_cases hle : start ≤ x
    · exact ⟨x - start, List.mem_range.mpr (by omega),
        by rw [Nat.add_sub_of_le hle, Nat.mod_eq_of_lt hx]⟩
    · refine ⟨x + n - start, List.mem_range.mpr (by omega), ?_⟩
      rw [show start + (x + n - start) = x + n by omega, Nat.add_mod_right, Nat.mod_eq_of_lt hx]

theorem firstFrom_some (hstart : start < n) (h : firstFrom n good start = some x) :
    x < n ∧ good x = true :=
  ⟨(mem_roundFrom hstart).mp (List.mem_of_find?_eq_some h), List.find?_some h⟩

/-- A search finds something iff there is something. -/
theorem firstFrom_isSome (hstart : start < n) :
    (firstFrom n good start).isSome = true ↔ ∃ x < n, good x = true := by
  unfold firstFrom
  rw [List.find?_isSome]
  constructor
  · rintro ⟨x, hx, hgood⟩
    exact ⟨x, (mem_roundFrom hstart).mp hx, hgood⟩
  · rintro ⟨x, hx, hgood⟩
    exact ⟨x, (mem_roundFrom hstart).mpr hx, hgood⟩

end Round

/-! ## Turning -/

variable {p : ℕ} {α : Type} {f : ZMod p → α} {h : ZMod p}

/-- The value after a turn is a function of the value before it. -/
def Respects (f : ZMod p → α) (h : ZMod p) : Prop := ∀ u v, f u = f v → f (u + h) = f (v + h)

theorem Respects.turns (hf : Respects f h) {u v : ZMod p} (huv : f u = f v) (k : ℕ) :
    f (u + k * h) = f (v + k * h) := by
  induction k with
  | zero => simpa using huv
  | succ k ih =>
    have hstep := hf _ _ ih
    have hsucc : ∀ w : ZMod p, w + k * h + h = w + ((k + 1 : ℕ) : ZMod p) * h := by
      intro w
      push_cast
      ring
    rw [hsucc, hsucc] at hstep
    exact hstep

variable [Fact p.Prime]

/-- Every residue is reached from every other by turning. -/
theorem exists_turns (hh : h ≠ 0) (u v : ZMod p) : ∃ k : ℕ, v = u + k * h := by
  refine ⟨((v - u) * h⁻¹).val, ?_⟩
  have hcast : ((((v - u) * h⁻¹).val : ℕ) : ZMod p) = (v - u) * h⁻¹ := ZMod.natCast_zmod_val _
  rw [hcast, mul_assoc, inv_mul_cancel₀ hh, mul_one, add_sub_cancel]

/-- **All or nothing.**  What respects a rotation that moves anything is injective or constant: two
    residues it does not tell apart keep their distance under every turn, so it is invariant under a
    rotation by that distance, which again reaches everything. -/
theorem Respects.injective_or_const (hh : h ≠ 0) (hf : Respects f h) :
    Function.Injective f ∨ ∀ u v, f u = f v := by
  by_cases hinj : Function.Injective f
  · exact .inl hinj
  · right
    obtain ⟨a, b, hab, hne⟩ : ∃ a b, f a = f b ∧ a ≠ b := by
      simpa [Function.Injective] using hinj
    have hshift : ∀ u, f u = f (u + (b - a)) := by
      intro u
      obtain ⟨k, hk⟩ := exists_turns hh a u
      have hturn := hf.turns hab k
      rw [← hk] at hturn
      rw [hturn, hk]
      congr 1
      ring
    have hall : ∀ (u : ZMod p) (k : ℕ), f u = f (u + k * (b - a)) := by
      intro u k
      induction k with
      | zero => simp
      | succ k ih =>
        rw [ih, hshift]
        congr 1
        push_cast
        ring
    intro u v
    obtain ⟨k, hk⟩ := exists_turns (sub_ne_zero.mpr (Ne.symm hne)) u v
    rw [hk]
    exact hall u k

end Rotation
