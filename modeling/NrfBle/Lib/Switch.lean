/-
  A SWITCH whose stop is deferred: switched off while it runs, it goes on until the next tick; and
  while the stop is pending it takes no command.

  What a switch is FOR is a history, the latest act first: the latest command is what it does, once a
  pending stop was carried out (`Means`).  That is so in every history in which no command to switch on
  comes while the stop is pending (`means_of_not_overtakes`); one that does is lost
  (`not_means_of_stopping`).
-/
import Mathlib.Tactic

namespace Switch

/-- What a switch does. -/
inductive Phase
  | idle
  | running
  | stopping
  deriving DecidableEq, Repr

/-- A command, or a tick. -/
inductive Act
  | set (on : Bool)
  | tick
  deriving DecidableEq, Repr

/-- One act. -/
def Phase.step : Phase → Act → Phase
  | .idle, .set true => .running
  | .running, .set false => .stopping
  | .stopping, .tick => .idle
  | p, _ => p

/-- The phase after a history. -/
def run (p : Phase) : List Act → Phase
  | [] => p
  | a :: acts => (run p acts).step a

/-- The latest command of a history. -/
def latest : List Act → Option Bool
  | [] => none
  | .set on :: _ => some on
  | .tick :: acts => latest acts

/-- After the next tick the switch does what the latest command asked for. -/
def Means (p : Phase) (acts : List Act) : Prop :=
  ∀ on, latest acts = some on → ((run p acts).step .tick = .running ↔ on = true)

/-- A command to switch on comes while the stop is pending. -/
def Overtakes (p : Phase) (acts : List Act) : Prop :=
  ∃ later earlier, acts = later ++ .set true :: earlier ∧ run p earlier = .stopping

variable {p : Phase} {acts : List Act}

theorem Overtakes.cons (h : Overtakes p acts) (a : Act) : Overtakes p (a :: acts) := by
  obtain ⟨later, earlier, rfl, hrun⟩ := h
  exact ⟨a :: later, earlier, rfl, hrun⟩

theorem Phase.step_tick (p : Phase) : p.step .tick = .running ↔ p = .running := by
  cases p <;> decide

/-- **The invariant**: it runs if the latest command was on, and not if it was off. -/
theorem running_iff (hok : ¬ Overtakes p acts) : ∀ on, latest acts = some on →
    (run p acts = .running ↔ on = true) := by
  induction acts with
  | nil => rintro on ⟨⟩
  | cons a acts ih =>
    have hbefore := ih (fun h => hok (h.cons a))
    cases a with
    | set on =>
      rintro _ ⟨⟩
      have hfree : on = true → run p acts ≠ .stopping := by
        rintro rfl hstop
        exact hok ⟨[], acts, rfl, hstop⟩
      show (run p acts).step (.set on) = .running ↔ on = true
      generalize run p acts = q at hfree
      cases q <;> cases on <;> simp [Phase.step] at hfree ⊢
    | tick =>
      intro on hlatest
      exact (Phase.step_tick _).trans (hbefore on hlatest)

theorem means_of_not_overtakes (hok : ¬ Overtakes p acts) : Means p acts := by
  intro on hlatest
  exact (Phase.step_tick _).trans (running_iff hok on hlatest)

/-- The command that comes too early is lost. -/
theorem not_means_of_stopping (h : run p acts = .stopping) : ¬ Means p (.set true :: acts) := by
  intro hmeans
  have hrun := (hmeans true rfl).mpr rfl
  rw [run, h] at hrun
  cases hrun

end Switch
