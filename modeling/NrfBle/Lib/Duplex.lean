/-
  Two parties on a lossless link.

  A party is given by three functions on its state: a local call, what it has queued for the other
  side (and the state once that is sent), and what a received message does.  A net holds the two
  states and, for each side, the messages on their way TO it, oldest first.  A run interleaves local
  calls, sends and deliveries in any order; nothing is lost, duplicated or reordered on the way, but a
  party may overwrite what it has queued before it is sent.

  * `Along` is the runs all of whose moves meet a condition, `traffic` what a run sends.
  * `Simulates` relates a party to a more abstract one: the same calls, and messages that are an
    encoding of the abstract ones.  `Simulates.run` carries the relation over every run, so what an
    abstract protocol does in every interleaving is what the concrete one does.
-/
import Mathlib.Tactic

namespace Duplex

/-- The two ends of a link. -/
inductive Side
  | left
  | right
  deriving DecidableEq, Repr

/-- The other end. -/
def Side.other : Side → Side
  | .left => .right
  | .right => .left

@[simp] theorem Side.other_ne (s : Side) : s.other ≠ s := by cases s <;> decide

theorem Side.eq_or_other (s r : Side) : r = s ∨ r = s.other := by
  cases s <;> cases r <;> decide

/-- A party: its local calls, what it has queued, and what a message does to it. -/
structure Party (κ σ μ : Type) where
  call : κ → σ → σ
  take : σ → Option (μ × σ)
  receive : μ → σ → σ

/-- Both ends, and the messages on their way to each. -/
structure Net (σ μ : Type) where
  state : Side → σ
  flight : Side → List μ

/-- A net, given end by end: states, then what is on its way to the left and to the right. -/
def Net.ends {σ μ : Type} (l r : σ) (toLeft toRight : List μ) : Net σ μ where
  state
    | .left => l
    | .right => r
  flight
    | .left => toLeft
    | .right => toRight

/-- A net, seen from one end: its own state and the other's, what is on its way to it and what is on
    its way to the other. -/
def Net.seenFrom {σ μ : Type} (s : Side) (mine yours : σ) (toMe toYou : List μ) : Net σ μ :=
  match s with
  | .left => .ends mine yours toMe toYou
  | .right => .ends yours mine toYou toMe

/-- Two nets are the same if their ends are. -/
theorem Net.ext_sides {σ μ : Type} {w v : Net σ μ} (hstate : ∀ s, w.state s = v.state s)
    (hflight : ∀ s, w.flight s = v.flight s) : w = v := by
  obtain ⟨f, g⟩ := w
  obtain ⟨f', g'⟩ := v
  cases (funext hstate : f = f')
  cases (funext hflight : g = g')
  rfl

/-- What happens next. -/
inductive Move (κ : Type)
  | call (s : Side) (k : κ)
  | send (s : Side)
  | deliver (s : Side)
  deriving DecidableEq, Repr

namespace Party

variable {κ σ μ τ ν : Type}

/-- One move.  To send with nothing queued, or to deliver with nothing on its way, does nothing. -/
def step (P : Party κ σ μ) (w : Net σ μ) : Move κ → Net σ μ
  | .call s k => { w with state := Function.update w.state s (P.call k (w.state s)) }
  | .send s =>
    match P.take (w.state s) with
    | none => w
    | some (m, st) =>
      ⟨Function.update w.state s st, Function.update w.flight s.other (w.flight s.other ++ [m])⟩
  | .deliver s =>
    match w.flight s with
    | [] => w
    | m :: ms => ⟨Function.update w.state s (P.receive m (w.state s)), Function.update w.flight s ms⟩

theorem step_send_idle {P : Party κ σ μ} {w : Net σ μ} {s : Side} (h : P.take (w.state s) = none) :
    P.step w (.send s) = w := by
  show (match P.take (w.state s) with
    | none => w
    | some (m, st) => ⟨Function.update w.state s st,
        Function.update w.flight s.other (w.flight s.other ++ [m])⟩) = w
  rw [h]

theorem step_send {P : Party κ σ μ} {w : Net σ μ} {s : Side} {m : μ} {st : σ}
    (h : P.take (w.state s) = some (m, st)) :
    P.step w (.send s) = ⟨Function.update w.state s st,
      Function.update w.flight s.other (w.flight s.other ++ [m])⟩ := by
  show (match P.take (w.state s) with
    | none => w
    | some (m, st) => ⟨Function.update w.state s st,
        Function.update w.flight s.other (w.flight s.other ++ [m])⟩) = _
  rw [h]

theorem step_deliver_nil {P : Party κ σ μ} {w : Net σ μ} {s : Side} (h : w.flight s = []) :
    P.step w (.deliver s) = w := by
  show (match w.flight s with
    | [] => w
    | m :: ms => ⟨Function.update w.state s (P.receive m (w.state s)),
        Function.update w.flight s ms⟩) = w
  rw [h]

theorem step_deliver {P : Party κ σ μ} {w : Net σ μ} {s : Side} {m : μ} {ms : List μ}
    (h : w.flight s = m :: ms) :
    P.step w (.deliver s) = ⟨Function.update w.state s (P.receive m (w.state s)),
      Function.update w.flight s ms⟩ := by
  show (match w.flight s with
    | [] => w
    | m :: ms => ⟨Function.update w.state s (P.receive m (w.state s)),
        Function.update w.flight s ms⟩) = _
  rw [h]

/-- A sequence of moves. -/
def run (P : Party κ σ μ) (moves : List (Move κ)) (w : Net σ μ) : Net σ μ :=
  moves.foldl P.step w

/-- Nothing is queued and nothing is on its way. -/
def Quiet (P : Party κ σ μ) (w : Net σ μ) : Prop :=
  ∀ s, w.flight s = [] ∧ P.take (w.state s) = none

/-- Every move of the run is made in a state that allows it. -/
def Along (P : Party κ σ μ) (ok : Net σ μ → Move κ → Prop) : List (Move κ) → Net σ μ → Prop
  | [], _ => True
  | m :: ms, w => ok w m ∧ Along P ok ms (P.step w m)

/-- The messages a move sends. -/
def sends (P : Party κ σ μ) (w : Net σ μ) : Move κ → List μ
  | .send s => (P.take (w.state s)).toList.map Prod.fst
  | _ => []

/-- The messages a run sends, in the order they were sent. -/
def traffic (P : Party κ σ μ) : List (Move κ) → Net σ μ → List μ
  | [], _ => []
  | m :: ms, w => P.sends w m ++ traffic P ms (P.step w m)

end Party

/-! ## Simulation -/

variable {κ σ μ τ ν : Type}

/-- `P` does, on related states, what `A` does, and its messages are the encodings of `A`'s. -/
structure Simulates (P : Party κ σ μ) (A : Party κ τ ν) (R : σ → τ → Prop) (e : ν → μ) : Prop where
  call : ∀ {c a} (k : κ), R c a → R (P.call k c) (A.call k a)
  idle : ∀ {c a}, R c a → A.take a = none → P.take c = none
  send : ∀ {c a m a'}, R c a → A.take a = some (m, a') → ∃ c', P.take c = some (e m, c') ∧ R c' a'
  receive : ∀ {c a} (m : ν), R c a → R (P.receive (e m) c) (A.receive m a)

/-- Two nets in step with each other. -/
structure Related (R : σ → τ → Prop) (e : ν → μ) (w : Net σ μ) (v : Net τ ν) : Prop where
  state : ∀ s, R (w.state s) (v.state s)
  flight : ∀ s, w.flight s = (v.flight s).map e

namespace Simulates

variable {P : Party κ σ μ} {A : Party κ τ ν} {R : σ → τ → Prop} {e : ν → μ}

/-- Updating one end keeps the other end's relation. -/
theorem update_state {f : Side → σ} {g : Side → τ} (h : ∀ s, R (f s) (g s)) (s : Side) {c : σ}
    {a : τ} (hs : R c a) : ∀ r, R (Function.update f s c r) (Function.update g s a r) := by
  intro r
  rcases s.eq_or_other r with rfl | rfl
  · simpa using hs
  · simpa using h s.other

theorem update_flight {f : Side → List μ} {g : Side → List ν} (h : ∀ s, f s = (g s).map e) (s : Side)
    {ms : List μ} {ns : List ν} (hs : ms = ns.map e) :
    ∀ r, Function.update f s ms r = (Function.update g s ns r).map e := by
  intro r
  rcases s.eq_or_other r with rfl | rfl
  · simpa using hs
  · simpa using h s.other

/-- One move, and what it sends. -/
theorem step (hsim : Simulates P A R e) {w : Net σ μ} {v : Net τ ν} (h : Related R e w v)
    (m : Move κ) : Related R e (P.step w m) (A.step v m) ∧ P.sends w m = (A.sends v m).map e := by
  cases m with
  | call s k => exact ⟨⟨update_state h.state s (hsim.call k (h.state s)), h.flight⟩, rfl⟩
  | send s =>
    cases ha : A.take (v.state s) with
    | none =>
      have hc := hsim.idle (h.state s) ha
      rw [Party.step_send_idle hc, Party.step_send_idle ha]
      refine ⟨h, ?_⟩
      show (P.take (w.state s)).toList.map Prod.fst =
        ((A.take (v.state s)).toList.map Prod.fst).map e
      rw [hc, ha]
      rfl
    | some r =>
      obtain ⟨m, a'⟩ := r
      obtain ⟨c', hc, hr⟩ := hsim.send (h.state s) ha
      rw [Party.step_send hc, Party.step_send ha]
      refine ⟨⟨update_state h.state s hr, update_flight h.flight s.other ?_⟩, ?_⟩
      · rw [h.flight, List.map_append]
        rfl
      · show (P.take (w.state s)).toList.map Prod.fst =
          ((A.take (v.state s)).toList.map Prod.fst).map e
        rw [hc, ha]
        rfl
  | deliver s =>
    refine ⟨?_, rfl⟩
    have hf := h.flight s
    cases hv : v.flight s with
    | nil =>
      rw [hv] at hf
      rw [Party.step_deliver_nil hf, Party.step_deliver_nil hv]
      exact h
    | cons m ms =>
      rw [hv] at hf
      rw [Party.step_deliver hf, Party.step_deliver hv]
      exact ⟨update_state h.state s (hsim.receive m (h.state s)), update_flight h.flight s rfl⟩

/-- **Every run**, move by move. -/
theorem run (hsim : Simulates P A R e) {w : Net σ μ} {v : Net τ ν} (h : Related R e w v)
    (moves : List (Move κ)) : Related R e (P.run moves w) (A.run moves v) := by
  induction moves generalizing w v with
  | nil => exact h
  | cons m ms ih => exact ih (hsim.step h m).1

/-- A condition on the moves that says the same on both sides holds along the same runs. -/
theorem along_iff (hsim : Simulates P A R e) {ok : Net σ μ → Move κ → Prop}
    {ok' : Net τ ν → Move κ → Prop}
    (hok : ∀ {w v} m, Related R e w v → (ok w m ↔ ok' v m)) {w : Net σ μ} {v : Net τ ν}
    (h : Related R e w v) (moves : List (Move κ)) : P.Along ok moves w ↔ A.Along ok' moves v := by
  induction moves generalizing w v with
  | nil => exact Iff.rfl
  | cons m ms ih => exact and_congr (hok m h) (ih (hsim.step h m).1)

/-- The messages of a run are the encodings of the abstract run's. -/
theorem traffic (hsim : Simulates P A R e) {w : Net σ μ} {v : Net τ ν} (h : Related R e w v)
    (moves : List (Move κ)) : P.traffic moves w = (A.traffic moves v).map e := by
  induction moves generalizing w v with
  | nil => rfl
  | cons m ms ih =>
    obtain ⟨hr, hs⟩ := hsim.step h m
    rw [Party.traffic, Party.traffic, List.map_append, hs, ih hr]

/-- Both are quiet together. -/
theorem quiet_iff (hsim : Simulates P A R e) {w : Net σ μ} {v : Net τ ν} (h : Related R e w v) :
    P.Quiet w ↔ A.Quiet v := by
  constructor
  · intro hq s
    obtain ⟨hf, ht⟩ := hq s
    refine ⟨List.map_eq_nil_iff.mp ((h.flight s).symm.trans hf), ?_⟩
    cases ha : A.take (v.state s) with
    | none => rfl
    | some r =>
      obtain ⟨c', hc, _⟩ := hsim.send (h.state s) ha
      rw [ht] at hc
      cases hc
  · intro hq s
    obtain ⟨hf, ht⟩ := hq s
    exact ⟨by rw [h.flight s, hf]; rfl, hsim.idle (h.state s) ht⟩

end Simulates

end Duplex
