/-
  The blocking loops (`src/hw/ble.rs`: `adv_forever`, `scan_forever`, `conn_forever`, `drain_events`).

  A loop ticks when the compare has fired and then hands every pending event to the application's
  callback, which may call back into the stack, and push more events, before the next one is popped.
  `Callback` is such a program: it sees the stack after each of its calls and chooses the next by it.

  The queue drops its oldest event when it overflows, and may then return a dropped one.  A firmware
  that is driven by these loops never sees either (`blocking_loops_deliver`): a tick pushes three events
  at most, and the calls behind a tick two more, one for the advertiser and one for the scanner; what
  waits and what may still come (`Waiting`) are together never more than the seven places of the queue.
  Each event delivered lowers that sum, so every drain ends.

  What a loop keeps is a rule of its own (`LoopKeeps`).  By it a firmware follows a run of the stack
  (`Reached`), and the log of one that panics ends in a connection event or in a callback (`PanicsIn`).
-/
import Mathlib.Tactic
import NrfBle.Hw.Ble.Lifecycle
import NrfBle.Hw.Ble.Queue

namespace NrfBle

open Checked RingBuffer

/-- **What a callback does with an event**: operations, each one done before the next is chosen, and in
    the end the application's own state, or a panic of its own. -/
inductive Callback (σ : Type)
  | done (s : σ)
  | call (op : BleOp) (hop : op.ofApp = true) (next : Ble → Callback σ)
  | fail (p : Panic)

/-- The callback of an application: `on_event`. -/
abbrev App (σ : Type) := σ → BleEvent → Ble → Callback σ

/-- What a loop does: something of the stack, or the delivery of an event. -/
inductive LoopAct
  | act (a : BleAct)
  | deliver (evt : BleEvent)

/-- Where a loop got to: it returned, it waits for the next tick, or a drain is still going on. -/
inductive LoopEnd (σ : Type)
  | returned (s : σ) (b : Ble)
  | waiting (s : σ) (b : Ble)
  | draining

/-- The events the application was given. -/
def handed (log : List LoopAct) : List BleEvent :=
  log.filterMap fun a => match a with
    | .deliver evt => some evt
    | .act _ => none

/-- The stack's part of a log. -/
def stackLog (log : List LoopAct) : List BleAct :=
  log.filterMap fun a => match a with
    | .deliver _ => none
    | .act a => some a

section Loops

variable {σ ε : Type}

/-- Run a callback. -/
def Callback.run (hw : Hw) : Callback σ → Ble → Logged BleAct (σ × Ble)
  | .done s, b => return (s, b)
  | .call op _ next, b => do
    let b ← op.run hw b
    (next b).run hw b
  | .fail p, _ => Logged.lift (.error p)

/-- A callback that never panics. -/
def Callback.Safe : Callback σ → Prop
  | .done _ => True
  | .call _ _ next => ∀ b, (next b).Safe
  | .fail _ => False

/-- None of the callbacks panics. -/
def App.Safe (app : App σ) : Prop := ∀ s evt b, (app s evt b).Safe

/-- The callback makes some calls, with this log, and then panics by itself. -/
inductive Callback.Fails (hw : Hw) (p : Panic) : Callback σ → Ble → List BleAct → Prop
  | fail {b : Ble} : Fails hw p (.fail p) b []
  | call {op : BleOp} {hop : op.ofApp = true} {next : Ble → Callback σ} {b b' : Ble}
      {log more : List BleAct} (hrun : op.run hw b = ⟨log, .ok b'⟩)
      (hrest : Fails hw p (next b') b' more) : Fails hw p (.call op hop next) b (log ++ more)

namespace Ble

/-- `Ble::drain_events`, for `fuel` events at most. -/
def drainEvents (hw : Hw) (app : App σ) : Nat → σ → Ble → Logged LoopAct (Option (σ × Ble))
  | 0, _, _ => return none
  | fuel + 1, s, b =>
    match b.popEvent with
    | (none, b) => return some (s, b)
    | (some evt, b) => do
      Logged.emit (.deliver evt)
      let (s, b) ← ((app s evt b).run hw b).within .act
      drainEvents hw app fuel s b

/-- A blocking loop: a tick each time the compare fires, then a drain, until the tick says `false` or
    the state is one to stop in.  The list is what the ticks read. -/
def forever (hw : Hw) (app : App σ) (fuel : Nat) (tick : ε → Ble → Logged BleAct (Bool × Ble))
    (stops : Ble → Bool) : List ε → σ → Ble → Logged LoopAct (LoopEnd σ)
  | [], s, b => return .waiting s b
  | env :: envs, s, b => do
    let (alive, b) ← (tick env b).within .act
    match ← drainEvents hw app fuel s b with
    | none => return .draining
    | some (s, b) =>
      if alive && !stops b then forever hw app fuel tick stops envs s b else return .returned s b

/-- `Ble::adv_forever`. -/
def advForever (hw : Hw) (app : App σ) (fuel : Nat) : List AdvEnv → σ → Ble →
    Logged LoopAct (LoopEnd σ) :=
  forever hw app fuel (fun env b => do return (true, ← b.advTick env)) fun b => b.advState = .idle

/-- `Ble::scan_forever`. -/
def scanForever (hw : Hw) (app : App σ) (fuel : Nat) : List ScanEnv → σ → Ble →
    Logged LoopAct (LoopEnd σ) :=
  forever hw app fuel (fun env b => do return (true, ← b.scanTick env)) fun b => b.scanState = .idle

/-- `Ble::conn_forever`: the drain behind its loop is the one of the tick that said `false`. -/
def connForever (hw : Hw) (app : App σ) (fuel : Nat) : List ConnEnv → σ → Ble →
    Logged LoopAct (LoopEnd σ) :=
  forever hw app fuel (fun env b => b.connTick hw env) fun _ => false

end Ble

/-- A stage of a firmware's `main`: a call, or a loop with what its ticks read, the first and the
    others. -/
inductive MainStage
  | call (op : BleOp) (hop : op.ofApp = true)
  | advForever (env : AdvEnv) (envs : List AdvEnv)
  | scanForever (env : ScanEnv) (envs : List ScanEnv)
  | connForever (env : ConnEnv) (envs : List ConnEnv)

/-- Carry out a stage. -/
def MainStage.run (hw : Hw) (app : App σ) (fuel : Nat) (s : σ) (b : Ble) :
    MainStage → Logged LoopAct (LoopEnd σ)
  | .call op _ => do return .returned s (← (op.run hw b).within .act)
  | .advForever env envs => b.advForever hw app fuel (env :: envs) s
  | .scanForever env envs => b.scanForever hw app fuel (env :: envs) s
  | .connForever env envs => b.connForever hw app fuel (env :: envs) s

/-- The stage is one of the loops. -/
def MainStage.isLoop : MainStage → Bool
  | .call _ _ => false
  | _ => true

/-- The stage drives a connection. -/
def MainStage.drives : MainStage → Bool
  | .connForever _ _ => true
  | _ => false

/-- A firmware: one stage after another, as far as it gets. -/
def firmware (hw : Hw) (app : App σ) (fuel : Nat) : List MainStage → σ → Ble →
    Logged LoopAct (LoopEnd σ)
  | [], s, b => return .returned s b
  | stage :: stages, s, b => do
    match ← stage.run hw app fuel s b with
    | .returned s b => firmware hw app fuel stages s b
    | r => return r

/-! ## Logs -/

theorem handed_append (xs ys : List LoopAct) : handed (xs ++ ys) = handed xs ++ handed ys :=
  List.filterMap_append

theorem stackLog_append (xs ys : List LoopAct) : stackLog (xs ++ ys) = stackLog xs ++ stackLog ys :=
  List.filterMap_append

/-- The stack delivers nothing by itself. -/
theorem handed_act (log : List BleAct) : handed (log.map .act) = [] := by
  unfold handed
  rw [List.filterMap_map]
  exact List.filterMap_eq_nil_iff.mpr fun _ _ => rfl

theorem stackLog_act (log : List BleAct) : stackLog (log.map .act) = log := by
  unfold stackLog
  rw [List.filterMap_map]
  exact List.filterMap_some

/-- One log behind another: what waits in between is delivered by the second, or still waits. -/
theorem handed_in_order {q mid waits : List BleEvent} {xs ys : List LoopAct}
    (h : q ++ pushed (stackLog xs) = handed xs ++ mid)
    (h' : mid ++ pushed (stackLog ys) = handed ys ++ waits) :
    q ++ pushed (stackLog (xs ++ ys)) = handed (xs ++ ys) ++ waits := by
  rw [stackLog_append, pushed_append, ← List.append_assoc, h, List.append_assoc, h', handed_append,
    List.append_assoc]

/-! ## What waits -/

namespace Ble

/-- **`q` waits**, the queue is clean, and what waits and what the calls may still push are together no
    more than `n`. -/
structure Waiting (n : Nat) (q : List BleEvent) (b : Ble) : Prop where
  bounds : b.Bounds
  queue : Ring.Sim b.events q false
  room : q.length + b.credit ≤ n

theorem Waiting.of_spends {configures : Bool} {n : Nat} {q : List BleEvent} {b b' : Ble}
    {log : List BleAct} (h : Waiting n q b) (hn : n < eventQueueLen) (hb' : b'.Bounds)
    (hspends : b.Spends configures log b') : Waiting n (q ++ pushed log) b' where
  bounds := hb'
  queue := by
    have hroom := h.room
    have hpaid := hspends.paid
    rw [hspends.queue]
    exact Ring.foldl_push_sim h.queue (show q.length + _ < eventQueueLen by omega)
  room := by
    have hroom := h.room
    have hpaid := hspends.paid
    rw [List.length_append]
    omega

theorem popEvent_eq {b : Ble} {r : Option BleEvent} (h : b.events.pop.1 = r) :
    b.popEvent = (r, { b with events := b.events.pop.2 }) := by
  rw [← h]
  rfl

/-- An event is popped, or the queue is empty. -/
theorem Waiting.pop {n : Nat} {q : List BleEvent} {b : Ble} (h : Waiting n q b) :
    ∃ b', b.popEvent = (q.head?, b') ∧ Waiting (n - (q.length - q.tail.length)) q.tail b' := by
  have hroom := h.room
  cases q with
  | nil =>
    obtain ⟨hnone, hqueue⟩ := Ring.pop_nil_sim h.queue
    exact ⟨_, popEvent_eq hnone, { h.bounds with }, hqueue, hroom⟩
  | cons evt q =>
    obtain ⟨hsome, hqueue⟩ := Ring.pop_cons_sim h.queue
    rw [List.length_cons] at hroom
    refine ⟨_, popEvent_eq hsome, { h.bounds with }, hqueue, ?_⟩
    show q.length + b.credit ≤ n - (q.length + 1 - q.length)
    omega

theorem waiting_new : Waiting 2 [] Ble.new :=
  ⟨bounds_new, Ring.sim_empty (by decide), Nat.le_refl 2⟩

end Ble

open Ble

/-- How a callback ends. -/
inductive CallbackEnds (cb : Callback σ) (n : Nat) (q : List BleEvent) : Logged BleAct (σ × Ble) → Prop
  | failed {log : List BleAct} {p : Panic} (hpanics : ¬ cb.Safe) : CallbackEnds cb n q ⟨log, .error p⟩
  | done {log : List BleAct} {s : σ} {b : Ble} (h : Waiting n (q ++ pushed log) b) :
      CallbackEnds cb n q ⟨log, .ok (s, b)⟩

/-- **A callback** returns, unless it panics, and what it pushes has room. -/
theorem Callback.run_ends (hw : Hw) (cb : Callback σ) {n : Nat} {q : List BleEvent} {b : Ble}
    (h : Waiting n q b) (hn : n < eventQueueLen) : CallbackEnds cb n q (cb.run hw b) := by
  induction cb generalizing q b with
  | done s =>
    refine .done ?_
    rw [show pushed [] = [] from rfl, List.append_nil]
    exact h
  | fail p => exact .failed id
  | call op hop next ih =>
    obtain ⟨log, b₁, hrun, hspends⟩ := ofApp_spends hw hop b
    have hb₁ : b₁.Bounds := run_bounds hw op h.bounds (by rw [hrun])
    have hnext := ih b₁ (h.of_spends hn hb₁ hspends)
    rw [Callback.run, hrun, Logged.mk_ok_bind]
    generalize (next b₁).run hw b₁ = x at hnext
    cases hnext with
    | failed hpanics => exact .failed fun hsafe => hpanics (hsafe b₁)
    | done h' =>
      refine .done ?_
      rw [pushed_append, ← List.append_assoc]
      exact h'

/-- How a drain ends that found `q` waiting. -/
inductive Drained (app : App σ) (q : List BleEvent) : Logged LoopAct (Option (σ × Ble)) → Prop
  | failed {log : List LoopAct} {p : Panic} (waits : List BleEvent) (hpanics : ¬ app.Safe)
      (horder : q ++ pushed (stackLog log) = handed log ++ waits) : Drained app q ⟨log, .error p⟩
  | done {log : List LoopAct} {s : σ} {b : Ble} (h : Waiting 2 [] b)
      (horder : q ++ pushed (stackLog log) = handed log) : Drained app q ⟨log, .ok (some (s, b))⟩

/-- **A drain ends**: everything that waits, and everything the callbacks add to it, is delivered in
    order.  The induction is on the sum of `Waiting`, which each delivery lowers. -/
theorem drainEvents_delivers (hw : Hw) (app : App σ) {n fuel : Nat} {q : List BleEvent} {s : σ}
    {b : Ble} (h : Waiting n q b) (hn : n < eventQueueLen) (hfuel : n < fuel) :
    Drained app q (drainEvents hw app fuel s b) := by
  induction fuel generalizing n q s b with
  | zero => omega
  | succ fuel ih =>
    obtain ⟨b₀, hpop, h₀⟩ := h.pop
    rw [drainEvents, hpop]
    cases q with
    | nil => exact .done ⟨h₀.bounds, h₀.queue, (Nat.zero_add _).trans_le (credit_le b₀)⟩ rfl
    | cons evt q =>
      rw [List.tail_cons, List.length_cons, Nat.add_sub_cancel_left] at h₀
      have hpos : 1 ≤ n := by
        have hroom := h.room
        rw [List.length_cons] at hroom
        omega
      have hcb := (app s evt b₀).run_ends hw h₀ (by omega)
      dsimp only [List.head?]
      rw [Logged.emit_bind]
      generalize (app s evt b₀).run hw b₀ = x at hcb
      cases hcb with
      | @failed log p hpanics =>
        refine .failed (q ++ pushed log) (fun hsafe => hpanics (hsafe s evt b₀)) ?_
        show evt :: q ++ pushed (stackLog (log.map .act)) =
          evt :: handed (log.map .act) ++ (q ++ pushed log)
        rw [stackLog_act, handed_act]
        rfl
      | @done log s₁ b₁ h₁ =>
        have hdrain := ih (s := s₁) h₁ (by omega) (by omega)
        -- what this delivery adds to the log of the rest
        have horder : ∀ {log' : List LoopAct} {waits : List BleEvent},
            (q ++ pushed log) ++ pushed (stackLog log') = handed log' ++ waits →
            evt :: q ++ pushed (stackLog (log.map .act ++ log')) =
              evt :: handed (log.map .act ++ log') ++ waits := by
          intro log' waits hrest
          rw [stackLog_append, stackLog_act, pushed_append, handed_append, handed_act, List.nil_append,
            List.cons_append, List.cons_append, ← hrest, List.append_assoc]
        simp only [Logged.within, Logged.mk_ok_bind]
        generalize drainEvents hw app fuel s₁ b₁ = y at hdrain
        cases hdrain with
        | failed waits hpanics hrest => exact .failed waits hpanics (horder hrest)
        | @done log' s' b' h' hrest =>
          refine .done h' ?_
          have hall := @horder log' [] (hrest.trans (List.append_nil _).symm)
          rw [List.append_nil] at hall
          exact hall

/-! ## The loops -/

/-- With this waiting in the queue: a loop waits for its next tick with an empty one only. -/
def LoopEnd.Leaves (waits : List BleEvent) : LoopEnd σ → Prop
  | .returned _ b => Waiting 2 waits b
  | .waiting _ b => waits = [] ∧ Waiting 2 [] b
  | .draining => False

/-- **What a loop or a firmware does** that found `q` waiting: what waited and what was pushed is, in
    this order, what was delivered and what waits now. -/
structure HandsOver (q waits : List BleEvent) (safe : Prop) (x : Logged LoopAct (LoopEnd σ)) :
    Prop where
  order : q ++ pushed (stackLog x.log) = handed x.log ++ waits
  ended : ∀ r, x.res = .ok r → r.Leaves waits
  returns : safe → ∃ r, x.res = .ok r

/-- What a loop relies on in its tick; a safe one always returns. -/
structure TickSpec (safe : Prop) (tick : ε → Ble → Logged BleAct (Bool × Ble)) : Prop where
  enqueues : ∀ env b, Enqueues False 3 b.events (tick env b) Prod.snd
  bounds : ∀ env {b r}, b.Bounds → (tick env b).res = .ok r → r.2.Bounds
  silent : ∀ env {b p}, b.Bounds → (tick env b).res = .error p → pushed (tick env b).log = []
  returns : safe → ∀ env {b}, b.Bounds → ∃ r, (tick env b).res = .ok r

/-- What waits after a tick. -/
theorem TickSpec.waiting {safe : Prop} {tick : ε → Ble → Logged BleAct (Bool × Ble)}
    (ht : TickSpec safe tick) {q : List BleEvent} {env : ε} {b : Ble} {r : Bool × Ble}
    (h : Waiting 2 q b) (hrun : (tick env b).res = .ok r) :
    Waiting 7 (q ++ pushed (tick env b).log) r.2 := by
  have hfew := (ht.enqueues env b).few
  have hroom := h.room
  have hcredit := credit_le r.2
  refine ⟨ht.bounds env h.bounds hrun, ?_, ?_⟩
  · rw [(ht.enqueues env b).queue r hrun]
    exact Ring.foldl_push_sim h.queue (show q.length + _ < 8 by omega)
  · rw [List.length_append]
    omega

/-- **A blocking loop delivers everything**: what it found and what it pushed, in order; at the end of
    each round nothing waits.  Only a panic leaves something undelivered. -/
theorem forever_delivers (hw : Hw) (app : App σ) {fuel : Nat} (hfuel : 8 ≤ fuel) {safe : Prop}
    {tick : ε → Ble → Logged BleAct (Bool × Ble)} (ht : TickSpec safe tick) (stops : Ble → Bool)
    (envs : List ε) {q : List BleEvent} {s : σ} {b : Ble} (h : Waiting 2 q b)
    (hq : envs = [] → q = []) :
    ∃ waits, HandsOver q waits (safe ∧ app.Safe) (forever hw app fuel tick stops envs s b) ∧
      ∀ r, (forever hw app fuel tick stops envs s b).res = .ok r → waits = [] := by
  induction envs generalizing q s b with
  | nil =>
    obtain rfl := hq rfl
    refine ⟨[], ⟨rfl, ?_, fun _ => ⟨_, rfl⟩⟩, fun _ _ => rfl⟩
    rintro _ ⟨⟩
    exact ⟨rfl, h⟩
  | cons env envs ih =>
    have hround : ∀ r, (tick env b).res = .ok r → Waiting 7 (q ++ pushed (tick env b).log) r.2 :=
      fun r hr => ht.waiting h hr
    have hsilent := fun p => ht.silent env (p := p) h.bounds
    have hreturns := fun hsafe : safe ∧ app.Safe => ht.returns hsafe.1 env h.bounds
    rw [forever]
    rcases hx : tick env b with ⟨log, p | ⟨alive, b₁⟩⟩
    -- the tick panicked: it had pushed nothing
    · rw [hx] at hsilent hreturns
      have hnone : pushed log = [] := hsilent p rfl
      refine ⟨q, ⟨?_, by rintro _ ⟨⟩, ?_⟩, by rintro _ ⟨⟩⟩
      · show q ++ pushed (stackLog (log.map .act)) = handed (log.map .act) ++ q
        rw [stackLog_act, hnone, handed_act]
        exact List.append_nil q
      · intro hsafe
        obtain ⟨r, hr⟩ := hreturns hsafe
        cases hr
    · rw [hx] at hround
      have hdrain := drainEvents_delivers hw app (s := s) (hround _ rfl) (by decide)
        (show 7 < fuel by omega)
      have hwithin : (Logged.within LoopAct.act ⟨log, .ok (alive, b₁)⟩ : Logged LoopAct (Bool × Ble)) =
        ⟨log.map .act, .ok (alive, b₁)⟩ := rfl
      rw [hwithin, Logged.mk_ok_bind]
      dsimp only at hdrain ⊢
      have hfound : q ++ pushed (stackLog (log.map .act)) =
        handed (log.map .act) ++ (q ++ pushed log) := by
        rw [stackLog_act, handed_act, List.nil_append]
      generalize drainEvents hw app fuel s b₁ = x at hdrain
      cases hdrain with
      | @failed log' p waits hpanics horder =>
        exact ⟨waits, ⟨handed_in_order hfound horder, by rintro _ ⟨⟩, fun hsafe =>
          (hpanics hsafe.2).elim⟩,
          by rintro _ ⟨⟩⟩
      | @done log' s' b' h' hlog' =>
        rw [Logged.mk_ok_bind]
        dsimp only
        -- the log of this round is delivered whole
        have horder : q ++ pushed (stackLog (log.map .act ++ log')) =
            handed (log.map .act ++ log') ++ [] :=
          handed_in_order hfound (hlog'.trans (List.append_nil _).symm)
        split
        · obtain ⟨waits, hrest, hwaits⟩ := ih (s := s') h' (fun _ => rfl)
          refine ⟨waits, ⟨?_, hrest.ended, hrest.returns⟩, hwaits⟩
          show q ++ pushed (stackLog (log.map .act ++ (log' ++ _))) =
            handed (log.map .act ++ (log' ++ _)) ++ waits
          rw [← List.append_assoc]
          exact handed_in_order horder hrest.order
        · refine ⟨[], ⟨?_, ?_, fun _ => ⟨_, rfl⟩⟩, fun _ _ => rfl⟩
          · show q ++ pushed (stackLog (log.map .act ++ (log' ++ []))) =
              handed (log.map .act ++ (log' ++ [])) ++ []
            rw [List.append_nil log']
            exact horder
          · rintro _ ⟨⟩
            exact h'

/-- **A tick that drives no connection**, and always goes on. -/
theorem tick_spec (hw : Hw) (op : ε → BleOp) (hpop : ∀ env, op env ≠ .nextEvent)
    (hdrive : ∀ env env', op env ≠ .connTick env') :
    TickSpec True fun env b => do return (true, ← (op env).run hw b) where
  enqueues env b := Enqueues.bind (m := 0) (run_enqueues hw (hpop env) b) fun _ _ => .pure rfl
  bounds := by
    intro env b r hb hr
    obtain ⟨b', hres⟩ := run_returns hw (hdrive env) hb
    rw [Logged.bind_res, hres] at hr
    cases hr
    exact run_bounds hw (op env) hb hres
  silent := by
    intro env b p hb hp
    obtain ⟨b', hres⟩ := run_returns hw (hdrive env) hb
    rw [Logged.bind_res, hres] at hp
    cases hp
  returns := by
    intro _ env b hb
    obtain ⟨b', hres⟩ := run_returns hw (hdrive env) hb
    exact ⟨(true, b'), by rw [Logged.bind_res, hres]; rfl⟩

theorem advTick_spec (hw : Hw) :
    TickSpec True fun (env : AdvEnv) b => do return (true, ← b.advTick env) :=
  tick_spec hw .advTick (by rintro _ ⟨⟩) (by rintro _ _ ⟨⟩)

theorem scanTick_spec (hw : Hw) :
    TickSpec True fun (env : ScanEnv) b => do return (true, ← b.scanTick env) :=
  tick_spec hw .scanTick (by rintro _ ⟨⟩) (by rintro _ _ ⟨⟩)

/-- A connection event may panic. -/
theorem connTick_spec (hw : Hw) : TickSpec False fun (env : ConnEnv) b => b.connTick hw env where
  enqueues env b := (connTick_enqueues hw b env).mono (by decide)
  bounds := by
    intro env b r hb hr
    have hdone := b.connTick_done hw env
    generalize b.connTick hw env = x at hdone hr
    cases hdone with
    | panicked hopen hin => cases hr
    | closed hreason =>
      cases hr
      exact { hb with }
    | kept hconn hin hevent frame quiet data =>
      cases hr
      dsimp only
      rw [frame]
      exact { hb with }
  silent := by
    intro env b p _ hp
    obtain ⟨c, _, _, hlog⟩ := connTick_panics hp
    rw [hlog]
    exact pushed_conn _
  returns := fun h => h.elim

/-! ## The firmware -/

/-- **A stage.** -/
theorem MainStage.run_delivers (hw : Hw) (app : App σ) {fuel : Nat} (hfuel : 8 ≤ fuel)
    (stage : MainStage) {q : List BleEvent} {s : σ} {b : Ble} (h : Waiting 2 q b) :
    ∃ waits, HandsOver q waits (stage.drives = false ∧ app.Safe) (stage.run hw app fuel s b) ∧
      (stage.isLoop = true → ∀ r, (stage.run hw app fuel s b).res = .ok r → waits = []) := by
  cases stage with
  | call op hop =>
    obtain ⟨log, b', hrun, hspends⟩ := ofApp_spends hw hop b
    have hb' : b'.Bounds := run_bounds hw op h.bounds (by rw [hrun])
    have hstage : MainStage.run hw app fuel s b (.call op hop) =
        ⟨log.map .act ++ [], .ok (.returned s b')⟩ := by
      rw [MainStage.run, hrun]
      rfl
    rw [hstage, List.append_nil]
    refine ⟨q ++ pushed log, ⟨?_, ?_, fun _ => ⟨_, rfl⟩⟩, by rintro ⟨⟩⟩
    · rw [stackLog_act, handed_act, List.nil_append]
    · rintro _ ⟨⟩
      exact h.of_spends (by decide) hb' hspends
  | advForever env envs =>
    obtain ⟨waits, hd, hnone⟩ := forever_delivers hw app hfuel (advTick_spec hw)
      (fun b => b.advState = .idle) (env :: envs) (s := s) h (by rintro ⟨⟩)
    exact ⟨waits, ⟨hd.order, hd.ended, fun hsafe => hd.returns ⟨trivial, hsafe.2⟩⟩, fun _ => hnone⟩
  | scanForever env envs =>
    obtain ⟨waits, hd, hnone⟩ := forever_delivers hw app hfuel (scanTick_spec hw)
      (fun b => b.scanState = .idle) (env :: envs) (s := s) h (by rintro ⟨⟩)
    exact ⟨waits, ⟨hd.order, hd.ended, fun hsafe => hd.returns ⟨trivial, hsafe.2⟩⟩, fun _ => hnone⟩
  | connForever env envs =>
    obtain ⟨waits, hd, hnone⟩ := forever_delivers hw app hfuel (connTick_spec hw)
      (fun _ => false) (env :: envs) (s := s) h (by rintro ⟨⟩)
    exact ⟨waits, ⟨hd.order, hd.ended, fun hsafe => Bool.noConfusion hsafe.1⟩, fun _ => hnone⟩

/-- **A firmware**, from a queue with room. -/
theorem firmware_delivers (hw : Hw) (app : App σ) {fuel : Nat} (hfuel : 8 ≤ fuel)
    (stages : List MainStage) {q : List BleEvent} {s : σ} {b : Ble} (h : Waiting 2 q b) :
    ∃ waits, HandsOver q waits ((∀ stage ∈ stages, stage.drives = false) ∧ app.Safe)
        (firmware hw app fuel stages s b) ∧
      ∀ last, stages.getLast? = some last → last.isLoop = true →
        ∀ r, (firmware hw app fuel stages s b).res = .ok r → waits = [] := by
  induction stages generalizing q s b with
  | nil =>
    refine ⟨q, ⟨List.append_nil q, ?_, fun _ => ⟨_, rfl⟩⟩, by rintro _ ⟨⟩⟩
    rintro _ ⟨⟩
    exact h
  | cons stage stages ih =>
    obtain ⟨waits, hstage, hloop⟩ := stage.run_delivers hw app hfuel (s := s) h
    rw [firmware]
    rcases hx : stage.run hw app fuel s b with ⟨log, p | r⟩
    · rw [hx] at hstage
      refine ⟨waits, ⟨hstage.order, by rintro _ ⟨⟩, ?_⟩, by rintro _ _ _ _ ⟨⟩⟩
      intro hsafe
      obtain ⟨r, hr⟩ := hstage.returns ⟨hsafe.1 stage List.mem_cons_self, hsafe.2⟩
      cases hr
    rw [hx] at hstage hloop
    rw [Logged.mk_ok_bind]
    cases r with
    | draining => exact (hstage.ended _ rfl).elim
    | waiting s' b' =>
      obtain ⟨hnil, _⟩ := hstage.ended _ rfl
      have hlog : (Logged.prepend log (pure (LoopEnd.waiting s' b')) : Logged LoopAct (LoopEnd σ)) =
          ⟨log, .ok (.waiting s' b')⟩ := by
        rw [Logged.pure_eq_mk, Logged.prepend_mk, List.append_nil]
      rw [hlog]
      exact ⟨waits, ⟨hstage.order, hstage.ended, fun _ => ⟨_, rfl⟩⟩, fun _ _ _ _ _ => hnil⟩
    | returned s' b' =>
      obtain ⟨waits', hrest, hlast⟩ := ih (s := s') (hstage.ended _ rfl)
      refine ⟨waits', ⟨?_, hrest.ended, ?_⟩, ?_⟩
      · show q ++ pushed (stackLog (log ++ _)) = handed (log ++ _) ++ waits'
        exact handed_in_order hstage.order hrest.order
      · exact fun hsafe => hrest.returns ⟨fun st hst => hsafe.1 st (List.mem_cons_of_mem _ hst),
          hsafe.2⟩
      · intro last hgl hisLoop r hr
        cases stages with
        | nil =>
          cases hgl
          cases hr
          -- nothing was run behind the loop, which had left nothing
          have hwaits : waits = [] := hloop hisLoop _ rfl
          have horder : waits ++ [] = [] ++ waits' := hrest.order
          rw [List.append_nil, List.nil_append] at horder
          rw [← horder, hwaits]
        | cons next stages => exact hlast last hgl hisLoop r hr

/-! ## What a loop keeps -/

/-- What comes of a callback behind this log: `K` is kept, or the panic is one that `Fails` allows. -/
inductive Delivered (K : List LoopAct → σ → Ble → Prop) (Fails : List LoopAct → Panic → Prop)
    (before : List LoopAct) : Logged BleAct (σ × Ble) → Prop
  | done {acts : List BleAct} {s : σ} {b : Ble} (h : K (before ++ acts.map .act) s b) :
      Delivered K Fails before ⟨acts, .ok (s, b)⟩
  | failed {acts : List BleAct} {p : Panic} (h : Fails (before ++ acts.map .act) p) :
      Delivered K Fails before ⟨acts, .error p⟩

/-- **A rule for the loops**: `Go` holds before each tick, and `K`, which also sees what the tick said,
    behind it and between the deliveries that follow; both see the log so far and the application.
    `Fails` is what is known of a callback that panics. -/
structure LoopKeeps (hw : Hw) (app : App σ) (tick : ε → Ble → Logged BleAct (Bool × Ble))
    (stops : Ble → Bool) (Go : List LoopAct → σ → Ble → Prop)
    (K : Bool → List LoopAct → σ → Ble → Prop) (Fails : List LoopAct → Panic → Prop) : Prop where
  tick : ∀ env {log s b r}, Go log s b → (tick env b).res = .ok r →
    K r.1 (log ++ (tick env b).log.map .act) s r.2
  popped : ∀ {a log s b}, K a log s b → K a log s b.popEvent.2
  deliver : ∀ evt {a log s b}, K a log s b →
    Delivered (K a) Fails (log ++ [.deliver evt]) ((app s evt b).run hw b)
  again : ∀ {log s b}, K true log s b → stops b = false → Go log s b

/-- How a drain ends that keeps `K`, with this log before it. -/
inductive KeptDrain (K : List LoopAct → σ → Ble → Prop) (Fails : List LoopAct → Panic → Prop)
    (before : List LoopAct) : Logged LoopAct (Option (σ × Ble)) → Prop
  | draining {log : List LoopAct} : KeptDrain K Fails before ⟨log, .ok none⟩
  | done {log : List LoopAct} {s : σ} {b : Ble} (h : K (before ++ log) s b) :
      KeptDrain K Fails before ⟨log, .ok (some (s, b))⟩
  | failed {log : List LoopAct} {p : Panic} (h : Fails (before ++ log) p) :
      KeptDrain K Fails before ⟨log, .error p⟩

/-- How a loop ends that keeps them, with this log before it. -/
inductive KeptEnd (tick : ε → Ble → Logged BleAct (Bool × Ble)) (stops : Ble → Bool)
    (Go : List LoopAct → σ → Ble → Prop) (K : Bool → List LoopAct → σ → Ble → Prop)
    (Fails : List LoopAct → Panic → Prop) (before : List LoopAct) : Logged LoopAct (LoopEnd σ) → Prop
  | returned {log : List LoopAct} {a : Bool} {s : σ} {b : Ble} (h : K a (before ++ log) s b)
      (hstops : (a && !stops b) = false) :
      KeptEnd tick stops Go K Fails before ⟨log, .ok (.returned s b)⟩
  | waiting {log : List LoopAct} {s : σ} {b : Ble} (h : Go (before ++ log) s b) :
      KeptEnd tick stops Go K Fails before ⟨log, .ok (.waiting s b)⟩
  | draining {log : List LoopAct} : KeptEnd tick stops Go K Fails before ⟨log, .ok .draining⟩
  | panicked {front : List LoopAct} {s : σ} {b : Ble} {env : ε} {p : Panic} (h : Go (before ++ front) s b)
      (hpanic : (tick env b).res = .error p) :
      KeptEnd tick stops Go K Fails before ⟨front ++ (tick env b).log.map .act, .error p⟩
  | failed {log : List LoopAct} {p : Panic} (h : Fails (before ++ log) p) :
      KeptEnd tick stops Go K Fails before ⟨log, .error p⟩

variable {hw : Hw} {app : App σ} {tick : ε → Ble → Logged BleAct (Bool × Ble)} {stops : Ble → Bool}
  {Go : List LoopAct → σ → Ble → Prop} {K : Bool → List LoopAct → σ → Ble → Prop}
  {Fails : List LoopAct → Panic → Prop}

theorem KeptDrain.prepend {K : List LoopAct → σ → Ble → Prop} {before log : List LoopAct}
    {x : Logged LoopAct (Option (σ × Ble))} (h : KeptDrain K Fails (before ++ log) x) :
    KeptDrain K Fails before (x.prepend log) := by
  cases h with
  | draining => exact .draining
  | done h =>
    rw [List.append_assoc] at h
    exact .done h
  | failed h =>
    rw [List.append_assoc] at h
    exact .failed h

/-- A drain keeps what each delivery keeps. -/
theorem LoopKeeps.drain (hkeeps : LoopKeeps hw app tick stops Go K Fails) {a : Bool} (fuel : Nat)
    {before : List LoopAct} {s : σ} {b : Ble} (h : K a before s b) :
    KeptDrain (K a) Fails before (drainEvents hw app fuel s b) := by
  induction fuel generalizing before s b with
  | zero => exact .draining
  | succ fuel ih =>
    have hpopped := hkeeps.popped h
    rw [drainEvents]
    rcases hpop : b.popEvent with ⟨_ | evt, b₀⟩
    · rw [hpop] at hpopped
      refine .done ?_
      rw [List.append_nil]
      exact hpopped
    · rw [hpop] at hpopped
      have hdelivered := hkeeps.deliver evt hpopped
      dsimp only
      rw [Logged.emit_bind]
      generalize (app s evt b₀).run hw b₀ = x at hdelivered
      cases hdelivered with
      | @failed acts p hfails =>
        rw [List.append_assoc] at hfails
        exact .failed hfails
      | @done acts s₁ b₁ h₁ =>
        have hrest := (ih h₁).prepend.prepend
        rw [Logged.prepend_prepend] at hrest
        exact hrest

/-- A loop that found some log in front of it. -/
theorem KeptEnd.prepend {before log : List LoopAct} {x : Logged LoopAct (LoopEnd σ)}
    (h : KeptEnd tick stops Go K Fails (before ++ log) x) :
    KeptEnd tick stops Go K Fails before (x.prepend log) := by
  cases h with
  | returned h hstops =>
    rw [List.append_assoc] at h
    exact .returned h hstops
  | waiting h =>
    rw [List.append_assoc] at h
    exact .waiting h
  | draining => exact .draining
  | panicked h hpanic =>
    rw [List.append_assoc] at h
    rw [Logged.prepend_mk, ← List.append_assoc]
    exact .panicked h hpanic
  | failed h =>
    rw [List.append_assoc] at h
    exact .failed h

/-- **The rule.**  A loop that begins where `Go` holds waits where `Go` holds, returns where `K` does,
    and panics in a tick from where `Go` held or in a callback. -/
theorem LoopKeeps.forever (hkeeps : LoopKeeps hw app tick stops Go K Fails) (fuel : Nat) (envs : List ε)
    {before : List LoopAct} {s : σ} {b : Ble} (h : Go before s b) :
    KeptEnd tick stops Go K Fails before (Ble.forever hw app fuel tick stops envs s b) := by
  induction envs generalizing before s b with
  | nil =>
    refine .waiting ?_
    rw [List.append_nil]
    exact h
  | cons env envs ih =>
    have htick := fun r => hkeeps.tick env (r := r) h
    rw [Ble.forever]
    rcases hx : tick env b with ⟨log, p | ⟨a, b₁⟩⟩
    · have hend : KeptEnd tick stops Go K Fails before ⟨[] ++ (tick env b).log.map .act, .error p⟩ :=
        .panicked (by rw [List.append_nil]; exact h) (by rw [hx])
      rw [hx] at hend
      exact hend
    · rw [hx] at htick
      have hdrain := hkeeps.drain fuel (htick _ rfl)
      have hwithin : (Logged.within LoopAct.act ⟨log, .ok (a, b₁)⟩ : Logged LoopAct (Bool × Ble)) =
        ⟨log.map .act, .ok (a, b₁)⟩ := rfl
      rw [hwithin, Logged.mk_ok_bind]
      dsimp only at hdrain ⊢
      refine KeptEnd.prepend ?_
      generalize drainEvents hw app fuel s b₁ = x at hdrain
      cases hdrain with
      | draining => exact .draining
      | failed hfails => exact .failed hfails
      | @done log' s' b' hkept =>
        rw [Logged.mk_ok_bind]
        dsimp only
        refine KeptEnd.prepend ?_
        split
        · rename_i hagain
          rw [Bool.and_eq_true, Bool.not_eq_true'] at hagain
          obtain ⟨rfl, hstops⟩ := hagain
          exact ih (hkeeps.again hkept hstops)
        · rename_i hagain
          refine .returned (a := a) ?_ (Bool.eq_false_iff.mpr hagain)
          rw [List.append_nil]
          exact hkept

/-! ## Where a panic comes from -/

/-- The log is what a run of the stack did, with deliveries in between, and the run has come to `b`. -/
def Reached (hw : Hw) (log : List LoopAct) (b : Ble) : Prop :=
  ∃ moves, Run hw moves (.ok b) ∧ actsOf moves = stackLog log

/-- One more operation. -/
theorem Reached.op {log : List LoopAct} {b b' : Ble} (h : Reached hw log b) (op : BleOp)
    (hrun : (op.run hw b).res = .ok b') : Reached hw (log ++ (op.run hw b).log.map .act) b' := by
  obtain ⟨moves, hmoves, hacts⟩ := h
  have hstep := hmoves.step op
  rw [hrun] at hstep
  refine ⟨_, hstep, ?_⟩
  rw [actsOf, hacts, stackLog_append, stackLog_act]

theorem Reached.deliver {log : List LoopAct} {b : Ble} (h : Reached hw log b) (evt : BleEvent) :
    Reached hw (log ++ [.deliver evt]) b := by
  obtain ⟨moves, hmoves, hacts⟩ := h
  exact ⟨moves, hmoves, by rw [stackLog_append, hacts]; exact (List.append_nil _).symm⟩

theorem Reached.popped {log : List LoopAct} {b : Ble} (h : Reached hw log b) :
    Reached hw log b.popEvent.2 := by
  have hpop : Reached hw (log ++ []) b.popEvent.2 := h.op .nextEvent rfl
  rwa [List.append_nil] at hpop

theorem Reached.bounds {log : List LoopAct} {b : Ble} (h : Reached hw log b) : b.Bounds := by
  obtain ⟨moves, hmoves, _⟩ := h
  exact hmoves.bounds b rfl

/-- **The panic is at the end of the log**, and it is one of a connection event of the open link, or of
    a callback by itself. -/
inductive PanicsIn (hw : Hw) (app : App σ) (p : Panic) : List LoopAct → Prop
  | event {front : List LoopAct} {b : Ble} {c : Conn} {env : ConnEnv} (hreached : Reached hw front b)
      (hconn : b.conn = some c) (hpanic : (c.event hw env.windows).res = .error p) :
      PanicsIn hw app p (front ++ (c.event hw env.windows).log.map fun a => .act (.conn a))
  | callback {front : List LoopAct} {s : σ} {evt : BleEvent} {b : Ble} {acts : List BleAct}
      (hreached : Reached hw front b) (hfails : (app s evt b).Fails hw p b acts) :
      PanicsIn hw app p (front ++ .deliver evt :: acts.map .act)

/-- A callback gets somewhere, or panics by itself: its calls never do. -/
theorem Callback.run_reaches (cb : Callback σ) {log : List LoopAct} {b : Ble} (h : Reached hw log b) :
    (∃ acts s b', cb.run hw b = ⟨acts, .ok (s, b')⟩ ∧ Reached hw (log ++ acts.map .act) b') ∨
      ∃ acts p, cb.run hw b = ⟨acts, .error p⟩ ∧ cb.Fails hw p b acts := by
  induction cb generalizing log b with
  | done s => exact .inl ⟨[], s, b, rfl, by rwa [List.map_nil, List.append_nil]⟩
  | fail p => exact .inr ⟨[], p, rfl, .fail⟩
  | call op hop next ih =>
    obtain ⟨acts, b₁, hrun, _⟩ := ofApp_spends hw hop b
    have h₁ := h.op op (congrArg Logged.res hrun)
    rw [hrun] at h₁
    rw [Callback.run, hrun, Logged.mk_ok_bind]
    rcases ih b₁ h₁ with ⟨acts', s, b', hnext, h'⟩ | ⟨acts', p, hnext, hfails⟩
    · refine .inl ⟨acts ++ acts', s, b', by rw [hnext, Logged.prepend_mk], ?_⟩
      rwa [List.map_append, ← List.append_assoc]
    · exact .inr ⟨acts ++ acts', p, by rw [hnext, Logged.prepend_mk], .call hrun hfails⟩

/-- **Every loop follows the stack**, as far as its ticks are operations. -/
theorem reached_keeps (hw : Hw) (app : App σ) {tick : ε → Ble → Logged BleAct (Bool × Ble)}
    (op : ε → BleOp) (htick : ∀ env b, (tick env b >>= fun r => pure r.2) = (op env).run hw b)
    (stops : Ble → Bool) :
    LoopKeeps hw app tick stops (fun log _ b => Reached hw log b) (fun _ log _ b => Reached hw log b)
      (fun log p => PanicsIn hw app p log) where
  tick := by
    intro env log s b r h hrun
    have hsame := htick env b
    rw [Logged.bind_of_ok hrun] at hsame
    have hres : ((op env).run hw b).res = .ok r.2 := by rw [← hsame]; rfl
    have hnext := h.op (op env) hres
    rwa [← hsame, show (tick env b).log ++ (pure r.2 : Logged BleAct Ble).log = (tick env b).log from
      List.append_nil _] at hnext
  popped := Reached.popped
  deliver := by
    intro evt a log s b h
    rcases (app s evt b).run_reaches (h.deliver evt) with ⟨acts, s', b', hrun, h'⟩ | ⟨acts, p, hrun, hfails⟩
    · rw [hrun]
      exact .done h'
    · rw [hrun]
      refine .failed ?_
      rw [List.append_assoc]
      exact .callback h hfails
  again := fun h _ => h

/-- Where a stage or a firmware got to, with this log before it. -/
inductive Traced (hw : Hw) (app : App σ) (before : List LoopAct) : Logged LoopAct (LoopEnd σ) → Prop
  | returned {log : List LoopAct} {s : σ} {b : Ble} (h : Reached hw (before ++ log) b) :
      Traced hw app before ⟨log, .ok (.returned s b)⟩
  | waiting {log : List LoopAct} {s : σ} {b : Ble} (h : Reached hw (before ++ log) b) :
      Traced hw app before ⟨log, .ok (.waiting s b)⟩
  | draining {log : List LoopAct} : Traced hw app before ⟨log, .ok .draining⟩
  | panicked {log : List LoopAct} {p : Panic} (h : PanicsIn hw app p (before ++ log)) :
      Traced hw app before ⟨log, .error p⟩

theorem Traced.prepend {before log : List LoopAct} {x : Logged LoopAct (LoopEnd σ)}
    (h : Traced hw app (before ++ log) x) : Traced hw app before (x.prepend log) := by
  cases h with
  | returned h => exact .returned (by rwa [← List.append_assoc])
  | waiting h => exact .waiting (by rwa [← List.append_assoc])
  | draining => exact .draining
  | panicked h => exact .panicked (by rwa [← List.append_assoc])

/-- A loop that follows the stack, once it is known where its ticks panic. -/
theorem KeptEnd.traced {before : List LoopAct} {x : Logged LoopAct (LoopEnd σ)}
    (h : KeptEnd tick stops (fun log _ b => Reached hw log b) (fun _ log _ b => Reached hw log b)
      (fun log p => PanicsIn hw app p log) before x)
    (htick : ∀ {log env b p}, Reached hw log b → (tick env b).res = .error p →
      PanicsIn hw app p (log ++ (tick env b).log.map .act)) : Traced hw app before x := by
  cases h with
  | returned h _ => exact .returned h
  | waiting h => exact .waiting h
  | draining => exact .draining
  | panicked h hpanic =>
    have hin := htick h hpanic
    rw [List.append_assoc] at hin
    exact .panicked hin
  | failed h => exact .panicked h

/-- A loop whose ticks return. -/
theorem traced_returning (hw : Hw) (app : App σ) (fuel : Nat) (op : ε → BleOp)
    (hdrive : ∀ env env', op env ≠ .connTick env') (stops : Ble → Bool) (envs : List ε)
    {before : List LoopAct} {s : σ} {b : Ble} (h : Reached hw before b) :
    Traced hw app before
      (Ble.forever hw app fuel (fun env b => do return (true, ← (op env).run hw b)) stops envs s b) := by
  have hsame : ∀ env b, ((do return (true, ← (op env).run hw b) : Logged BleAct (Bool × Ble)) >>=
      fun r => pure r.2) = (op env).run hw b := by
    intro env b
    rw [Logged.bind_assoc]
    refine Logged.ext (Logged.bind_log fun _ => rfl) ?_
    rw [Logged.bind_res]
    cases ((op env).run hw b).res <;> rfl
  refine ((reached_keeps hw app op hsame stops).forever fuel envs h).traced ?_
  intro log env b p hreached hpanic
  obtain ⟨b', hres⟩ := run_returns hw (hdrive env) hreached.bounds
  rw [Logged.bind_res, hres] at hpanic
  cases hpanic

theorem MainStage.run_traced (hw : Hw) (app : App σ) (fuel : Nat) (stage : MainStage)
    {before : List LoopAct} {s : σ} {b : Ble} (h : Reached hw before b) :
    Traced hw app before (stage.run hw app fuel s b) := by
  cases stage with
  | call op hop =>
    obtain ⟨acts, b', hrun, _⟩ := ofApp_spends hw hop b
    have h' := h.op op (congrArg Logged.res hrun)
    have hstage : MainStage.run hw app fuel s b (.call op hop) =
        ⟨acts.map .act ++ [], .ok (.returned s b')⟩ := by
      rw [MainStage.run, hrun]
      rfl
    rw [hrun] at h'
    rw [hstage, List.append_nil]
    exact .returned h'
  | advForever env envs =>
    exact traced_returning hw app fuel .advTick (by rintro _ _ ⟨⟩) _ (env :: envs) h
  | scanForever env envs =>
    exact traced_returning hw app fuel .scanTick (by rintro _ _ ⟨⟩) _ (env :: envs) h
  | connForever env envs =>
    refine ((reached_keeps hw app .connTick (fun _ _ => rfl) fun _ => false).forever fuel
      (env :: envs) h).traced ?_
    intro log env b p hreached hpanic
    obtain ⟨c, hconn, hevent, hlog⟩ := connTick_panics hpanic
    rw [hlog, List.map_map]
    exact .event hreached hconn hevent

theorem firmware_traced (hw : Hw) (app : App σ) (fuel : Nat) (stages : List MainStage)
    {before : List LoopAct} {s : σ} {b : Ble} (h : Reached hw before b) :
    Traced hw app before (firmware hw app fuel stages s b) := by
  induction stages generalizing before s b with
  | nil => exact .returned (by rwa [List.append_nil])
  | cons stage stages ih =>
    have hstage := stage.run_traced hw app fuel (s := s) h
    rw [firmware]
    generalize stage.run hw app fuel s b = x at hstage
    cases hstage with
    | panicked h' => exact .panicked h'
    | draining => exact .draining
    | @waiting log s' b' h' =>
      rw [Logged.mk_ok_bind]
      refine .waiting (s := s') ?_
      show Reached hw (before ++ (log ++ [])) b'
      rwa [List.append_nil]
    | returned h' =>
      rw [Logged.mk_ok_bind]
      exact (ih h').prepend

/-- **No event is lost, invented, repeated or out of order** in a firmware driven by the blocking loops,
    whatever its callback calls, the radio brings and the clock reads: what was pushed is, in this
    order, what was delivered and what waits in the queue, and behind a loop nothing waits.  Every drain
    ends; and a run that panics has done so in a connection event or in a callback by itself. -/
theorem blocking_loops_deliver (hw : Hw) (app : App σ) (stages : List MainStage) (s : σ) (fuel : Nat)
    (hfuel : 8 ≤ fuel) :
    ∃ waits, pushed (stackLog (firmware hw app fuel stages s Ble.new).log) =
        handed (firmware hw app fuel stages s Ble.new).log ++ waits ∧
      (∀ r, (firmware hw app fuel stages s Ble.new).res = .ok r →
        match r with
        | .returned _ b => Ring.Sim b.events waits false
        | .waiting _ b => waits = [] ∧ Ring.Sim b.events [] false
        | .draining => False) ∧
      (∀ last, stages.getLast? = some last → last.isLoop = true →
        ∀ r, (firmware hw app fuel stages s Ble.new).res = .ok r → waits = []) ∧
      (app.Safe → (∀ stage ∈ stages, stage.drives = false) →
        ∃ r, (firmware hw app fuel stages s Ble.new).res = .ok r) ∧
      ∀ p, (firmware hw app fuel stages s Ble.new).res = .error p →
        PanicsIn hw app p (firmware hw app fuel stages s Ble.new).log := by
  obtain ⟨waits, hd, hlast⟩ := firmware_delivers hw app hfuel stages (s := s) waiting_new
  refine ⟨waits, hd.order, ?_, hlast, fun hsafe hdrives => hd.returns ⟨hdrives, hsafe⟩, ?_⟩
  · intro r hr
    have hleaves := hd.ended r hr
    cases r with
    | returned s' b => exact hleaves.queue
    | waiting s' b => exact ⟨hleaves.1, hleaves.2.queue⟩
    | draining => exact hleaves
  · intro p hp
    have htraced : Traced hw app [] (firmware hw app fuel stages s Ble.new) :=
      firmware_traced hw app fuel stages ⟨[], .start, rfl⟩
    generalize firmware hw app fuel stages s Ble.new = x at hp htraced
    cases htraced with
    | panicked h =>
      cases hp
      exact h
    | _ => cases hp

end Loops

/-- An application that stops advertising as soon as it has started. -/
def stopAtOnce : App Unit := fun s evt _ =>
  match evt with
  | .advStarted => .call (.call .gapAdvStop) rfl fun _ => .done s
  | _ => .done s

/-- An advertiser that is started, and stopped from the callback. -/
def startAndStop : List MainStage :=
  [.call (.call (.gapAdvStart { advType := .nonConnectableUndirected } 0)) rfl,
    .advForever ⟨0, 0, .silent, 0, 0⟩ [⟨0, 0, .silent, 0, 0⟩]]

/-- Both of its events are delivered. -/
theorem start_and_stop_delivered :
    handed (firmware Hw.standIn stopAtOnce 8 startAndStop () Ble.new).log = [.advStarted, .advStopped] ∧
      pushed (stackLog (firmware Hw.standIn stopAtOnce 8 startAndStop () Ble.new).log) =
        [.advStarted, .advStopped] := by
  obtain ⟨waits, horder, _, hlast, hreturns, _⟩ :=
    blocking_loops_deliver Hw.standIn stopAtOnce startAndStop () 8 (Nat.le_refl 8)
  have hsafe : stopAtOnce.Safe := by
    intro s evt b
    unfold stopAtOnce
    split
    · exact fun _ => trivial
    · exact trivial
  obtain ⟨r, hr⟩ := hreturns hsafe (by decide)
  have hwaits : waits = [] := hlast _ rfl rfl r hr
  have hdelivered : handed (firmware Hw.standIn stopAtOnce 8 startAndStop () Ble.new).log =
      [.advStarted, .advStopped] := by decide +kernel
  refine ⟨hdelivered, ?_⟩
  rw [horder, hwaits, List.append_nil]
  exact hdelivered

end NrfBle
