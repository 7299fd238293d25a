/-
  Handlers that pass a result along.

  A handler gets the result so far, and gives it back or puts a result of its OWN on top.  Results
  form a monoid: `1` is no result, `own * before` is one on top of another.  A handler THREADS its
  result if it does not look at what it gets: called with any result it does what it does when there
  is none, and puts its own on top.

  Threading is kept by what handlers are built with: sequencing, branching, computations that give
  no result.  So what a chain of such handlers reports is the product of what each would report
  alone.
-/
import Mathlib.Tactic
import NrfBle.Lib.Checked

namespace Checked

variable {R α β : Type} [Monoid R]

/-- The handler puts its own result on top of the one before, and does not look at that. -/
def Threads (f : R → Except Panic (α × R)) : Prop :=
  ∀ before, f before = f 1 >>= fun r => .ok (r.1, r.2 * before)

namespace Threads

/-- The result so far is passed on. -/
theorem pass (a : α) : Threads (fun before : R => .ok (a, before)) := by
  intro before
  rw [ok_bind, one_mul]

/-- A result that hides the one before. -/
theorem report (a : α) {e : R} (h : ∀ before, e * before = e) : Threads (fun _ : R => .ok (a, e)) := by
  intro before
  rw [ok_bind, h]

/-- A computation without a result in front. -/
theorem after (x : Except Panic β) {f : β → R → Except Panic (α × R)} (h : ∀ b, Threads (f b)) :
    Threads (fun before => x >>= fun b => f b before) := by
  intro before
  cases x with
  | error p => rfl
  | ok b => exact h b before

/-- What goes on from a result on top of the one before. -/
theorem onTop {f : R → Except Panic (α × R)} (h : Threads f) (e : R) :
    Threads (fun before => f (e * before)) := by
  intro before
  dsimp only
  rw [mul_one, h e, h (e * before)]
  cases f 1 with
  | error p => rfl
  | ok r => rw [ok_bind, ok_bind, ok_bind, mul_assoc]

/-- One handler behind the other. -/
theorem bind {f : R → Except Panic (β × R)} {g : β → R → Except Panic (α × R)} (hf : Threads f)
    (hg : ∀ b, Threads (g b)) : Threads (fun before => f before >>= fun r => g r.1 r.2) := by
  intro before
  dsimp only
  rw [hf before]
  cases f 1 with
  | error p => rfl
  | ok r =>
    have hthen := (hg r.1).onTop r.2 before
    dsimp only at hthen
    rw [mul_one] at hthen
    exact hthen

theorem ite {p : Prop} [Decidable p] {f g : R → Except Panic (α × R)} (hf : Threads f)
    (hg : Threads g) : Threads (fun before => if p then f before else g before) := by
  by_cases h : p
  · simp only [if_pos h]
    exact hf
  · simp only [if_neg h]
    exact hg

theorem congr {f g : R → Except Panic (α × R)} (h : Threads f)
    (hfg : ∀ before, g before = f before) : Threads g := by
  rwa [funext hfg]

end Threads

end Checked
