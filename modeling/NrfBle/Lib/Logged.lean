/-
  Checked programs that leave a LOG, and the step traces their logs are.

  `Logged E α` is a checked program that emits events of type `E` as it goes.  The log survives a
  panic: what was emitted before the program stopped was emitted.

  A system is a relation `step s acts s'`: from state `s` one step may emit `acts` and lead to
  `s'`.  `Steps` closes it under sequencing, and `Steps.invariant` is the induction rule: a
  property of (log so far, state) that holds at the start and is kept by every step holds in every
  state reached.

  The two meet in `Follows step s x post`: whatever the program `x`, started in the system state
  `s`, logs is a trace of the system, and when `x` returns `a` the trace ends in a state
  that `post a` accepts.  `Follows.bind` sequences such facts along a program's own binds, so
  that an invariant is proved on the small steps and used on the program; `Follows.simulate` carries
  them over to a system that simulates the first.
-/
import Mathlib.Tactic
import NrfBle.Lib.Checked

namespace Checked

/-! ## Logging programs -/

/-- A checked program with the events it emitted. -/
structure Logged (E α : Type) where
  log : List E
  res : Except Panic α

namespace Logged

variable {E α β : Type}

instance : Monad (Logged E) where
  pure a := ⟨[], .ok a⟩
  bind x f :=
    match x.res with
    | .ok a => ⟨x.log ++ (f a).log, (f a).res⟩
    | .error p => ⟨x.log, .error p⟩

/-- Emit one event. -/
def emit (e : E) : Logged E Unit := ⟨[e], .ok ()⟩

/-- Run a checked program that emits nothing. -/
def lift (x : Except Panic α) : Logged E α := ⟨[], x⟩

/-- A program with events emitted before it. -/
def prepend (log : List E) (x : Logged E α) : Logged E α := ⟨log ++ x.log, x.res⟩

/-- A program of a part, run in the whole: its events are events of the whole. -/
def within {F : Type} (f : E → F) (x : Logged E α) : Logged F α := ⟨x.log.map f, x.res⟩

@[ext] theorem ext {x y : Logged E α} (hl : x.log = y.log) (hr : x.res = y.res) : x = y := by
  cases x; cases y; cases hl; cases hr; rfl

@[simp] theorem pure_log (a : α) : (pure a : Logged E α).log = [] := rfl

theorem bind_of_ok {x : Logged E α} {a : α} (h : x.res = .ok a) (f : α → Logged E β) :
    (x >>= f) = ⟨x.log ++ (f a).log, (f a).res⟩ := by
  show (match x.res with
    | .ok a => (⟨x.log ++ (f a).log, (f a).res⟩ : Logged E β)
    | .error p => ⟨x.log, .error p⟩) = _
  rw [h]

theorem bind_of_error {x : Logged E α} {p : Panic} (h : x.res = .error p) (f : α → Logged E β) :
    (x >>= f) = ⟨x.log, .error p⟩ := by
  show (match x.res with
    | .ok a => (⟨x.log ++ (f a).log, (f a).res⟩ : Logged E β)
    | .error p => ⟨x.log, .error p⟩) = _
  rw [h]

/-- What a sequenced program returns: the log plays no part in it. -/
theorem bind_res (x : Logged E α) (f : α → Logged E β) :
    (x >>= f).res = x.res >>= fun a => (f a).res := by
  cases h : x.res with
  | ok a => rw [bind_of_ok h]; rfl
  | error p => rw [bind_of_error h]; rfl

/-- A continuation that emits nothing leaves the log as it is. -/
theorem bind_log {x : Logged E α} {f : α → Logged E β} (h : ∀ a, (f a).log = []) :
    (x >>= f).log = x.log := by
  cases hx : x.res with
  | ok a => rw [bind_of_ok hx, h a, List.append_nil]
  | error p => rw [bind_of_error hx]

theorem bind_assoc {γ : Type} (x : Logged E α) (f : α → Logged E β) (g : β → Logged E γ) :
    ((x >>= f) >>= g) = x >>= fun a => f a >>= g := by
  cases hx : x.res with
  | error p => rw [bind_of_error hx, bind_of_error hx, bind_of_error rfl]
  | ok a =>
    rw [bind_of_ok hx, bind_of_ok hx]
    cases hf : (f a).res with
    | error p => rw [bind_of_error (show (Logged.mk (x.log ++ (f a).log) (.error p)).res = _ from rfl),
        bind_of_error hf]
    | ok b => rw [bind_of_ok (show (Logged.mk (x.log ++ (f a).log) (.ok b)).res = _ from rfl),
        bind_of_ok hf, List.append_assoc]

/-- A program whose outcome is known, in front of a program. -/
@[simp] theorem mk_ok_bind (log : List E) (a : α) (f : α → Logged E β) :
    ((⟨log, .ok a⟩ : Logged E α) >>= f) = (f a).prepend log := rfl

@[simp] theorem prepend_mk (log log' : List E) (r : Except Panic α) :
    (⟨log', r⟩ : Logged E α).prepend log = ⟨log ++ log', r⟩ := rfl

theorem prepend_prepend (log log' : List E) (x : Logged E α) :
    (x.prepend log').prepend log = x.prepend (log ++ log') := by
  unfold prepend
  rw [List.append_assoc]

theorem prepend_bind (log : List E) (x : Logged E α) (f : α → Logged E β) :
    (x.prepend log >>= f) = (x >>= f).prepend log := by
  cases h : x.res with
  | error p => rw [bind_of_error h, bind_of_error (show (x.prepend log).res = _ from h)]; rfl
  | ok a =>
    rw [bind_of_ok h, bind_of_ok (show (x.prepend log).res = _ from h)]
    exact ext (List.append_assoc ..) rfl

theorem bind_pure (x : Logged E α) : (x >>= fun a => pure a) = x := by
  cases h : x.res with
  | error p => rw [bind_of_error h]; exact ext rfl h.symm
  | ok a => rw [bind_of_ok h]; exact ext (List.append_nil _) h.symm

@[simp] theorem pure_eq_mk (a : α) : (pure a : Logged E α) = ⟨[], .ok a⟩ := rfl

theorem pure_bind (a : α) (f : α → Logged E β) : ((pure a : Logged E α) >>= f) = f a := rfl

@[simp] theorem lift_ok_bind (a : α) (f : α → Logged E β) : (lift (.ok a) >>= f) = f a := rfl

@[simp] theorem emit_bind (e : E) (f : Unit → Logged E β) :
    (emit e >>= f) = ⟨e :: (f ()).log, (f ()).res⟩ := rfl

/-! ### Programs that log nothing of a kind -/

section Silent

variable {γ : Type} {f : E → Option γ}

/-- Nothing in the log is of the kind `f` picks. -/
def Silent (f : E → Option γ) (x : Logged E α) : Prop := x.log.filterMap f = []

theorem Silent.pure (a : α) : Silent f (pure a : Logged E α) := List.filterMap_nil

theorem Silent.lift (x : Except Panic α) : Silent f (lift x : Logged E α) := List.filterMap_nil

theorem Silent.emit {e : E} (h : f e = none) : Silent f (emit e) := List.filterMap_cons_none h

theorem Silent.bind {x : Logged E α} {g : α → Logged E β} (hx : Silent f x) (hg : ∀ a, Silent f (g a)) :
    Silent f (x >>= g) := by
  unfold Silent
  cases h : x.res with
  | error p => rw [bind_of_error h]; exact hx
  | ok a =>
    rw [bind_of_ok h, List.filterMap_append, hx, hg a]
    rfl

theorem Silent.within {F : Type} {f : F → Option γ} {g : E → F} (h : ∀ e, f (g e) = none) (x : Logged E α) :
    Silent f (x.within g) := by
  unfold Silent Logged.within
  rw [List.filterMap_map]
  exact List.filterMap_eq_nil_iff.mpr fun e _ => h e

end Silent

/-! ### What a program logs and returns -/

section Only

variable {P : E → Prop} {post : α → Prop} {post' : β → Prop}

/-- Whatever `x` logs is of the kind `P`, also when it panics, and what it returns is accepted. -/
structure Only (P : E → Prop) (x : Logged E α) (post : α → Prop) : Prop where
  logged : ∀ e ∈ x.log, P e
  returned : ∀ a, x.res = .ok a → post a

theorem Only.pure {a : α} (h : post a) : Only P (pure a) post where
  logged := List.forall_mem_nil _
  returned := by rintro _ ⟨⟩; exact h

theorem Only.lift {x : Except Panic α} (h : ∀ a, x = .ok a → post a) : Only P (lift x) post where
  logged := List.forall_mem_nil _
  returned := h

theorem Only.emit {e : E} (h : P e) : Only P (emit e) (fun _ => True) where
  logged := List.forall_mem_singleton.mpr h
  returned := fun _ _ => trivial

theorem Only.bind {x : Logged E α} {f : α → Logged E β} (hx : Only P x post)
    (hf : ∀ a, post a → Only P (f a) post') : Only P (x >>= f) post' := by
  cases h : x.res with
  | error p =>
    rw [bind_of_error h]
    exact ⟨hx.logged, by rintro _ ⟨⟩⟩
  | ok a =>
    have ha := hf a (hx.returned a h)
    rw [bind_of_ok h]
    refine ⟨?_, ha.returned⟩
    intro e he
    exact (List.mem_append.mp he).elim (hx.logged e) (ha.logged e)

theorem Only.mono {x : Logged E α} {post'' : α → Prop} (hx : Only P x post)
    (h : ∀ a, post a → post'' a) : Only P x post'' := ⟨hx.logged, fun a ha => h a (hx.returned a ha)⟩

theorem Only.within {F : Type} {Q : F → Prop} {g : E → F} {x : Logged E α} (hx : Only P x post)
    (h : ∀ e, P e → Q (g e)) : Only Q (x.within g) post where
  logged := List.forall_mem_map.mpr fun e he => h e (hx.logged e he)
  returned := hx.returned

end Only

end Logged

/-! ## Systems and their traces -/

section Steps

variable {S E : Type} (step : S → List E → S → Prop)

/-- A finite sequence of steps with the events they emitted. -/
inductive Steps : S → List E → S → Prop
  | refl (s : S) : Steps s [] s
  | snoc {s s' s'' : S} {log acts : List E} :
      Steps s log s' → step s' acts s'' → Steps s (log ++ acts) s''

variable {step}

theorem Steps.one {s s' : S} {acts : List E} (h : step s acts s') : Steps step s acts s' :=
  .snoc (.refl s) h

theorem Steps.trans {s s' s'' : S} {log log' : List E} (h : Steps step s log s')
    (h' : Steps step s' log' s'') : Steps step s (log ++ log') s'' := by
  induction h' with
  | refl => rwa [List.append_nil]
  | snoc _ hstep ih => rw [← List.append_assoc]; exact .snoc ih hstep

/-- **The invariant rule.**  What holds at the start, of the empty log, and is kept by every step
    holds in every state reached, of the log that led there. -/
theorem Steps.invariant {I : List E → S → Prop} {s : S} (hinit : I [] s)
    (hstep : ∀ log s' acts s'', I log s' → step s' acts s'' → I (log ++ acts) s'')
    {log : List E} {s' : S} (h : Steps step s log s') : I log s' := by
  induction h with
  | refl => exact hinit
  | snoc _ hs ih => exact hstep _ _ _ _ ih hs

end Steps

/-! ## Programs whose logs are traces -/

section Follows

variable {S E α β : Type} (step : S → List E → S → Prop)

/-- The log of `x` is a trace from `s`; if `x` returns `a`, one that ends where `post a` holds. -/
structure Follows (s : S) (x : Logged E α) (post : α → S → Prop) : Prop where
  trace : ∃ s', Steps step s x.log s'
  returned : ∀ a, x.res = .ok a → ∃ s', Steps step s x.log s' ∧ post a s'

variable {step} {s : S} {post : α → S → Prop} {post' : β → S → Prop}

theorem Follows.pure {a : α} (h : post a s) : Follows step s (pure a) post where
  trace := ⟨s, .refl s⟩
  returned := by
    intro b hb
    cases hb
    exact ⟨s, .refl s, h⟩

theorem Follows.lift {x : Except Panic α} (h : ∀ a, x = .ok a → post a s) :
    Follows step s (Logged.lift x) post where
  trace := ⟨s, .refl s⟩
  returned := fun a ha => ⟨s, .refl s, h a ha⟩

/-- A checked program without a log may still move the system, by a step that emits nothing. -/
theorem Follows.lift_silent {x : Except Panic α} (g : α → S)
    (h : ∀ a, x = .ok a → step s [] (g a) ∧ post a (g a)) :
    Follows step s (Logged.lift x) post where
  trace := ⟨s, .refl s⟩
  returned := fun a ha => ⟨g a, .one (h a ha).1, (h a ha).2⟩

/-- A step that emits nothing, in front of a program. -/
theorem Follows.after_silent {x : Logged E α} {s' : S} (hs : step s [] s')
    (hx : Follows step s' x post) : Follows step s x post where
  trace := by
    obtain ⟨s'', h⟩ := hx.trace
    exact ⟨s'', (Steps.one hs).trans h⟩
  returned := by
    intro a ha
    obtain ⟨s'', h, hp⟩ := hx.returned a ha
    exact ⟨s'', (Steps.one hs).trans h, hp⟩

/-- A program that is one step of the system, also when it stops half-way. -/
theorem Follows.of_step {x : Logged E α} {s' : S} (h : step s x.log s')
    (hp : ∀ a, x.res = .ok a → post a s') : Follows step s x post where
  trace := ⟨s', .one h⟩
  returned := fun a ha => ⟨s', .one h, hp a ha⟩

theorem Follows.bind {x : Logged E α} {f : α → Logged E β} (hx : Follows step s x post)
    (hf : ∀ a s', x.res = .ok a → post a s' → Follows step s' (f a) post') :
    Follows step s (x >>= f) post' := by
  cases h : x.res with
  | error p =>
    rw [Logged.bind_of_error h]
    exact ⟨hx.trace, fun b hb => by cases hb⟩
  | ok a =>
    obtain ⟨s₁, hs, hp⟩ := hx.returned a h
    have hfa := hf a s₁ h hp
    rw [Logged.bind_of_ok h]
    obtain ⟨s₂, hs₂⟩ := hfa.trace
    refine ⟨⟨s₂, hs.trans hs₂⟩, ?_⟩
    intro b hb
    obtain ⟨s₃, hs₃, hp₃⟩ := hfa.returned b hb
    exact ⟨s₃, hs.trans hs₃, hp₃⟩

theorem Follows.mono {x : Logged E α} {post'' : α → S → Prop} (hx : Follows step s x post)
    (h : ∀ a s', post a s' → post'' a s') : Follows step s x post'' where
  trace := hx.trace
  returned := by
    intro a ha
    obtain ⟨s', hs, hp⟩ := hx.returned a ha
    exact ⟨s', hs, h a s' hp⟩

/-- **The invariant rule for programs.**  An invariant of the steps holds of what the program
    logged, in some state; and when it returned, in the state it returned. -/
theorem Follows.invariant {x : Logged E α} (hx : Follows step s x post)
    {I : List E → S → Prop} (hinit : I [] s)
    (hstep : ∀ log s' acts s'', I log s' → step s' acts s'' → I (log ++ acts) s'') :
    (∃ s', I x.log s') ∧ ∀ a, x.res = .ok a → ∃ s', I x.log s' ∧ post a s' := by
  constructor
  · obtain ⟨s', h⟩ := hx.trace
    exact ⟨s', h.invariant hinit hstep⟩
  · intro a ha
    obtain ⟨s', h, hp⟩ := hx.returned a ha
    exact ⟨s', h.invariant hinit hstep, hp⟩

/-- **The simulation rule for programs.**  Where every step of one system is a trace of another, its
    events under other names, a program that follows the one follows the other. -/
theorem Follows.simulate {T F : Type} {step' : T → List F → T → Prop} {t : T} {x : Logged E α} (f : E → F)
    {R : S → T → Prop}
    (hsim : ∀ {s acts s' t}, step s acts s' → R s t → ∃ t', Steps step' t (acts.map f) t' ∧ R s' t')
    (hx : Follows step s x post) (h : R s t) :
    Follows step' t (x.within f) (fun a t' => ∃ s', R s' t' ∧ post a s') := by
  have htrace : ∀ {log s'}, Steps step s log s' → ∃ t', Steps step' t (log.map f) t' ∧ R s' t' := by
    intro log s' hs
    induction hs with
    | refl => exact ⟨t, .refl t, h⟩
    | snoc _ hstep ih =>
      obtain ⟨t₁, ht₁, hr₁⟩ := ih
      obtain ⟨t₂, ht₂, hr₂⟩ := hsim hstep hr₁
      rw [List.map_append]
      exact ⟨t₂, ht₁.trans ht₂, hr₂⟩
  constructor
  · obtain ⟨s', hs⟩ := hx.trace
    obtain ⟨t', ht, _⟩ := htrace hs
    exact ⟨t', ht⟩
  · intro a ha
    obtain ⟨s', hs, hp⟩ := hx.returned a ha
    obtain ⟨t', ht, hr⟩ := htrace hs
    exact ⟨t', ht, s', hr, hp⟩

end Follows

end Checked
