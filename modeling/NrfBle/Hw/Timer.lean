/-
  Waiting on the scheduler's clock (`src/hw/timers.rs`, and the deadline loops of `src/hw/ble.rs` and
  `src/hw/conn.rs`).

  1. **The clock** — TIMER0 runs as a 24-BIT counter, so the reading `k` ticks after the reading `t0`
     is `(t0 + k) mod 2^24`.  A deadline is a 32-BIT sum, `t0.wrapping_add(w)`, and does not wrap with
     the counter.

  2. **The waits** — a listening loop leaves when `now() >= deadline`, a spin loop when
     `now() < deadline` fails, and a periodic event is due when `now() < next_event` fails.  These are
     three spellings of one test, and `WaitSite` lists where each of them stands and for how many
     ticks.

  3. **The result** (`wait_iff`) — a wait ends at its reading `w`, not before and not later, iff
     `t0 + w < 2^24`.  In the other case the deadline lies beyond every value the counter can have,
     and the loop does not end at all.

  4. **The intervals** — an accumulator hands out whole ticks and carries the rest, so what it has
     handed out and what it carries make up all the intervals (`next_carry`, `schedule_carry`).
-/
import Mathlib.Tactic
import NrfBle.Hw.Drivers

namespace NrfBle

open Checked

/-! ## Tick arithmetic -/

/-- `window_ticks`: `(units * 625).div_ceil(32)`. -/
def windowTicks (units : UInt16) : Nat := (units.toNat * 625 + 31) / 32

/-- An accumulator as the two constructors make them and `next` keeps them. -/
structure IntervalAccum.Bounded (acc : IntervalAccum) : Prop where
  whole : acc.whole ≤ 39
  fracPart : acc.fracPart < 32
  frac : acc.frac < 32

theorem IntervalAccum.bounded_new : IntervalAccum.new.Bounded := ⟨by decide, by decide, by decide⟩

/-- The 32nds of a tick in one unit. -/
def IntervalAccum.rate (acc : IntervalAccum) : Nat := 32 * acc.whole + acc.fracPart

/-- No operation of a bounded accumulator leaves 32 bits. -/
theorem IntervalAccum.next_value {acc : IntervalAccum} (h : acc.Bounded) (units : UInt16) :
    acc.next units = .ok (units.toNat * acc.whole + (acc.frac + units.toNat * acc.fracPart) / 32,
      { acc with frac := (acc.frac + units.toNat * acc.fracPart) % 32 }) := by
  obtain ⟨hwhole, hpart, hfrac⟩ := h
  have hu : units.toNat < 65536 := units.toNat_lt
  have hbase : units.toNat * acc.whole ≤ 65535 * 39 := Nat.mul_le_mul (by omega) hwhole
  have hprod : units.toNat * acc.fracPart ≤ 65535 * 31 := Nat.mul_le_mul (by omega) (by omega)
  have hfit : ∀ x, x ≤ 100000000 → fit 32 x = .ok x := fun x hx => if_pos (by omega)
  unfold next
  rw [hfit _ (by omega), ok_bind, hfit _ (by omega), ok_bind, hfit _ (by omega), ok_bind,
    hfit _ (by omega)]
  rfl

/-- What a call of `next` hands out and what it carries over make up the interval and what was
    carried before. -/
theorem IntervalAccum.next_carry {acc : IntervalAccum} (h : acc.Bounded) (units : UInt16) :
    ∃ ticks acc', acc.next units = .ok (ticks, acc') ∧ acc'.Bounded ∧ acc'.rate = acc.rate ∧
      32 * ticks + acc'.frac = acc.frac + acc.rate * units.toNat := by
  refine ⟨_, _, next_value h units, ⟨h.whole, h.fracPart, Nat.mod_lt _ (by decide)⟩, rfl, ?_⟩
  have hsplit := Nat.div_add_mod (acc.frac + units.toNat * acc.fracPart) 32
  unfold rate
  dsimp only
  calc 32 * (units.toNat * acc.whole + (acc.frac + units.toNat * acc.fracPart) / 32) +
        (acc.frac + units.toNat * acc.fracPart) % 32
      = 32 * (units.toNat * acc.whole) + (acc.frac + units.toNat * acc.fracPart) := by omega
    _ = acc.frac + (32 * acc.whole + acc.fracPart) * units.toNat := by ring

/-- No sum of a bounded accumulator leaves 32 bits, and it stays bounded. -/
theorem IntervalAccum.next_eq {acc : IntervalAccum} (h : acc.Bounded) (units : UInt16) :
    ∃ ticks acc', acc.next units = .ok (ticks, acc') ∧ acc'.Bounded := by
  obtain ⟨ticks, acc', hnext, hb, _⟩ := next_carry h units
  exact ⟨ticks, acc', hnext, hb⟩

/-- `PeriodicSync`. -/
structure PeriodicSync where
  channel : UInt8
  units : UInt16
  frac : Nat
  nextEvent : UInt32
  deriving DecidableEq

namespace PeriodicSync

/-- `PeriodicSync::next_interval`.  Every `u32` operation is checked. -/
def nextInterval (sync : PeriodicSync) : Except Panic (Nat × PeriodicSync) := do
  let base ← fit 32 (sync.units.toNat * 39)
  let part ← fit 32 (sync.units.toNat * 2)
  let frac ← fit 32 (sync.frac + part)
  let ticks ← fit 32 (base + frac / 32)
  return (ticks, { sync with frac := frac % 32 })

/-- The due test of `periodic_tick`. -/
def due (sync : PeriodicSync) (now : UInt32) : Bool := !(now < sync.nextEvent)

/-- The ticks to the next periodic event. -/
def interval (units : UInt16) (frac : Nat) : Nat := units.toNat * 39 + (frac + units.toNat * 2) / 32

theorem nextInterval_eq {sync : PeriodicSync} (h : sync.frac < 32) :
    sync.nextInterval = .ok (interval sync.units sync.frac,
      { sync with frac := (sync.frac + sync.units.toNat * 2) % 32 }) := by
  have hu : sync.units.toNat < 65536 := sync.units.toNat_lt
  have hfit : ∀ x, x ≤ 100000000 → fit 32 x = .ok x := fun x hx => if_pos (by omega)
  unfold nextInterval
  rw [hfit _ (by omega), ok_bind, hfit _ (by omega), ok_bind, hfit _ (by omega), ok_bind,
    hfit _ (by omega)]
  rfl

end PeriodicSync

/-! ## Schedules -/

/-- The ticks of successive intervals, and the accumulator after them. -/
def IntervalAccum.schedule (acc : IntervalAccum) :
    List UInt16 → Except Panic (List Nat × IntervalAccum)
  | [] => return ([], acc)
  | units :: rest => do
    let (ticks, acc) ← acc.next units
    let (more, acc) ← acc.schedule rest
    return (ticks :: more, acc)

/-- The ticks of `n` successive periodic events, and the record after them. -/
def PeriodicSync.schedule (sync : PeriodicSync) : Nat → Except Panic (List Nat × PeriodicSync)
  | 0 => return ([], sync)
  | n + 1 => do
    let (ticks, sync) ← sync.nextInterval
    let (more, sync) ← sync.schedule n
    return (ticks :: more, sync)

/-- The units of intervals together. -/
def totalUnits (us : List UInt16) : Nat := (us.map UInt16.toNat).sum

/-- The schedule of intervals exists, and after each of them it is at most the part of a tick behind
    that its accumulator carries: `rate` 32nds of a tick for each unit, rounded down. -/
def Driftless (acc : IntervalAccum) (rate : Nat) (us : List UInt16) : Prop :=
  ∃ ticks : List Nat, ∀ n, ∃ acc', acc.schedule (us.take n) = .ok (ticks.take n, acc') ∧
    acc'.frac < 32 ∧ (ticks.take n).sum = rate * totalUnits (us.take n) / 32

/-- What a schedule has handed out and what it carries make up all its intervals. -/
theorem IntervalAccum.schedule_carry {acc : IntervalAccum} (h : acc.Bounded) (us : List UInt16) :
    ∃ ticks : List Nat, ∀ n, ∃ acc', acc.schedule (us.take n) = .ok (ticks.take n, acc') ∧
      acc'.frac < 32 ∧
      32 * (ticks.take n).sum + acc'.frac = acc.frac + acc.rate * totalUnits (us.take n) := by
  induction us generalizing acc with
  | nil =>
    refine ⟨[], fun n => ⟨acc, ?_, h.frac, ?_⟩⟩
    · rw [List.take_nil, List.take_nil]
      rfl
    · simp [totalUnits]
  | cons units us ih =>
    obtain ⟨t, acc₁, hnext, hb, hrate, hcarry⟩ := next_carry h units
    obtain ⟨ticks, hticks⟩ := ih hb
    refine ⟨t :: ticks, fun n => ?_⟩
    cases n with
    | zero => exact ⟨acc, rfl, h.frac, by simp [totalUnits]⟩
    | succ n =>
      obtain ⟨acc', hrun, hfrac, hsum⟩ := hticks n
      refine ⟨acc', ?_, hfrac, ?_⟩
      · rw [List.take_succ_cons, schedule, hnext, ok_bind]
        dsimp only
        rw [hrun]
        rfl
      · have htotal : totalUnits (units :: us.take n) = units.toNat + totalUnits (us.take n) :=
          List.sum_cons
        rw [List.take_succ_cons, List.take_succ_cons, List.sum_cons, htotal, Nat.mul_add acc.rate]
        rw [hrate] at hsum
        omega

theorem IntervalAccum.driftless {acc : IntervalAccum} (h : acc.Bounded) (h0 : acc.frac = 0)
    (us : List UInt16) : Driftless acc acc.rate us := by
  obtain ⟨ticks, hticks⟩ := schedule_carry h us
  refine ⟨ticks, fun n => ?_⟩
  obtain ⟨acc', hrun, hfrac, hsum⟩ := hticks n
  exact ⟨acc', hrun, hfrac, by omega⟩

/-- The accumulator of a periodic sync, written by hand, is the one of connection intervals. -/
theorem PeriodicSync.schedule_eq {sync : PeriodicSync} (h : sync.frac < 32) (n : Nat) :
    ∃ ticks acc' sync', (IntervalAccum.mk 39 2 sync.frac).schedule (List.replicate n sync.units) =
      .ok (ticks, acc') ∧ sync.schedule n = .ok (ticks, sync') := by
  induction n generalizing sync with
  | zero => exact ⟨[], _, sync, rfl, rfl⟩
  | succ n ih =>
    have hb : (IntervalAccum.mk 39 2 sync.frac).Bounded := ⟨Nat.le_refl 39, show 2 < 32 by decide, h⟩
    have hnext : ({ sync with frac := (sync.frac + sync.units.toNat * 2) % 32 } :
        PeriodicSync).frac < 32 := Nat.mod_lt _ (by decide)
    obtain ⟨ticks, acc', sync', hacc, hsync⟩ := ih hnext
    refine ⟨interval sync.units sync.frac :: ticks, acc', sync', ?_, ?_⟩
    · rw [List.replicate_succ, IntervalAccum.schedule, IntervalAccum.next_value hb, ok_bind]
      dsimp only
      rw [hacc]
      rfl
    · rw [schedule, nextInterval_eq h, ok_bind]
      dsimp only
      rw [hsync]
      rfl

/-- **Schedules do not drift.**  For intervals of any length and in any order, the accumulator for
    units of 0.625 ms has handed out 625/32 ticks for each unit after each of them, the one for units
    of 1.25 ms 1250/32, rounded down, without an overflow and with less than a tick carried; and the
    periodic sync of any interval hands out what the latter does. -/
theorem schedules_driftless (us : List UInt16) :
    Driftless IntervalAccum.new 625 us ∧ Driftless IntervalAccum.new125ms 1250 us ∧
      ∀ (sync : PeriodicSync) (n : Nat), sync.frac = 0 →
        ∃ ticks acc' sync', IntervalAccum.new125ms.schedule (List.replicate n sync.units) =
          .ok (ticks, acc') ∧ sync.schedule n = .ok (ticks, sync') := by
  have hb : IntervalAccum.new125ms.Bounded := ⟨Nat.le_refl 39, by decide, by decide⟩
  refine ⟨IntervalAccum.driftless IntervalAccum.bounded_new rfl us, IntervalAccum.driftless hb rfl us,
    fun sync n h0 => ?_⟩
  obtain ⟨ticks, acc', sync', hacc, hsync⟩ := PeriodicSync.schedule_eq (show sync.frac < 32 by omega) n
  rw [h0] at hacc
  exact ⟨ticks, acc', sync', hacc, hsync⟩

/-- The intervals of the repository's tests, as a constant 1.25 ms schedule and as a periodic sync. -/
theorem schedules_driftless_sample :
    ∃ ticks acc' sync', IntervalAccum.new125ms.schedule (List.replicate 8 25) = .ok (ticks, acc') ∧
      (PeriodicSync.mk 37 25 0 0).schedule 8 = .ok (ticks, sync') :=
  (schedules_driftless []).2.2 ⟨37, 25, 0, 0⟩ 8 rfl

/-! ## The clock and the loops -/

/-- The reading `k` ticks after the reading `t0`. -/
def reading (t0 : Fin (2 ^ 24)) (k : Nat) : UInt32 := UInt32.ofNat ((t0.1 + k) % 2 ^ 24)

/-- `timer.now().wrapping_add(ticks)`, taken at the reading `t0`. -/
def deadline (t0 : Fin (2 ^ 24)) (ticks : Nat) : UInt32 := reading t0 0 + UInt32.ofNat ticks

/-- How a listening loop ends. -/
inductive ListenEnd
  | packet (len : Nat)
  | timeout
  | crcError
  deriving DecidableEq, Repr

/-- A listening loop: what `receive_poll` and `now()` answer in its `k`-th round.  `none` is a loop
    still running after `fuel` rounds. -/
def listenLoop (poll : Nat → Except Error (Option Nat)) (now : Nat → UInt32) (limit : UInt32) :
    Nat → Nat → Option (ListenEnd × Nat)
  | 0, _ => none
  | fuel + 1, k =>
    match poll k with
    | .ok (some len) => some (.packet len, k)
    | .ok none => if now k ≥ limit then some (.timeout, k) else listenLoop poll now limit fuel (k + 1)
    | .error _ => some (.crcError, k)

/-- `while timer.now() < deadline {}`. -/
def spinLoop (now : Nat → UInt32) (limit : UInt32) : Nat → Nat → Option Nat
  | 0, _ => none
  | fuel + 1, k => if now k < limit then spinLoop now limit fuel (k + 1) else some k

/-- The first reading at which `periodic_tick` finds its event due. -/
def firstDue (sync : PeriodicSync) (now : Nat → UInt32) : Nat → Nat → Option Nat
  | 0, _ => none
  | fuel + 1, k => if sync.due (now k) then some k else firstDue sync now fuel (k + 1)

/-! ## Where the stack waits -/

/-- The timed waits of the stack. -/
inductive WaitSite
  /-- `radio_window` of `listen_for_scan_req`. -/
  | scanReqWindow
  /-- `radio_window` of `listen_for_scan_and_connect`. -/
  | connectReqWindow
  /-- The listening loop of `Conn::event`. -/
  | connEvent
  | eventMaster
  | scanTick (window : UInt16)
  | listenForScanRsp
  | transmitAuxAdv
  | transmitPeriodicAdv
  | followAux
  | periodicTick (channel : UInt8) (units : UInt16) (frac : Fin 32)

namespace WaitSite

/-- How long each of them waits. -/
def ticks : WaitSite → Nat
  | .scanReqWindow => timeoutTicks 300
  | .connectReqWindow => timeoutTicks 90000
  | .connEvent => timeoutTicks 2000
  | .eventMaster => timeoutTicks 2000
  | .scanTick window => windowTicks window / 3
  | .listenForScanRsp => timeoutTicks 300
  | .transmitAuxAdv => timeoutTicks 200
  | .transmitPeriodicAdv => timeoutTicks 200
  | .followAux => timeoutTicks 300
  | .periodicTick _ units frac => PeriodicSync.interval units frac

/-- The wait that starts at the reading `t0`, with nothing on air: the reading at which it ends, if it
    does within `fuel` readings. -/
def wait (site : WaitSite) (t0 : Fin (2 ^ 24)) (fuel : Nat) : Option Nat :=
  let limit := deadline t0 site.ticks
  match site with
  | .scanReqWindow | .connectReqWindow | .connEvent | .eventMaster | .scanTick _
  | .listenForScanRsp =>
    (listenLoop (fun _ => .ok none) (reading t0) limit fuel 0).map Prod.snd
  | .transmitAuxAdv | .transmitPeriodicAdv | .followAux => spinLoop (reading t0) limit fuel 0
  | .periodicTick channel units frac =>
    -- `next_event` is set to the deadline, whether the sync is new or continued
    firstDue ⟨channel, units, frac, limit⟩ (reading t0) fuel 0

/-- No wait is longer than the counter. -/
theorem ticks_lt (site : WaitSite) : site.ticks < 2 ^ 24 := by
  cases site with
  | scanTick window =>
    have hw : window.toNat < 65536 := window.toNat_lt
    show (window.toNat * 625 + 31) / 32 / 3 < 2 ^ 24
    omega
  | periodicTick channel units frac =>
    have hu : units.toNat < 65536 := units.toNat_lt
    have hf := frac.2
    show units.toNat * 39 + (frac.1 + units.toNat * 2) / 32 < 2 ^ 24
    omega
  | _ => decide

end WaitSite

/-! ## The loops as one search -/

/-- The first reading, from `k` on, that is not below the deadline. -/
def firstReached (now : Nat → UInt32) (limit : UInt32) : Nat → Nat → Option Nat
  | 0, _ => none
  | fuel + 1, k => if now k < limit then firstReached now limit fuel (k + 1) else some k

section Search

variable (now : Nat → UInt32) (limit : UInt32) (fuel k : Nat)

theorem spinLoop_eq : spinLoop now limit fuel k = firstReached now limit fuel k := by
  induction fuel generalizing k with
  | zero => rfl
  | succ fuel ih => rw [spinLoop, firstReached, ih]

theorem listenLoop_eq : (listenLoop (fun _ => .ok none) now limit fuel k).map Prod.snd =
    firstReached now limit fuel k := by
  induction fuel generalizing k with
  | zero => rfl
  | succ fuel ih =>
    rw [listenLoop, firstReached, ← ih]
    by_cases h : now k < limit
    · rw [if_pos h, if_neg (by simpa using h)]
    · rw [if_neg h, if_pos (by simpa using h)]; rfl

theorem firstDue_eq (sync : PeriodicSync) : firstDue sync now fuel k =
    firstReached now sync.nextEvent fuel k := by
  induction fuel generalizing k with
  | zero => rfl
  | succ fuel ih =>
    rw [firstDue, firstReached, ih, PeriodicSync.due]
    by_cases h : now k < sync.nextEvent <;> simp [h]

end Search

theorem WaitSite.wait_eq (site : WaitSite) (t0 : Fin (2 ^ 24)) (fuel : Nat) :
    site.wait t0 fuel = firstReached (reading t0) (deadline t0 site.ticks) fuel 0 := by
  cases site with
  | periodicTick channel units frac => exact firstDue_eq _ _ _ _
  | transmitAuxAdv => exact spinLoop_eq _ _ _ _
  | transmitPeriodicAdv => exact spinLoop_eq _ _ _ _
  | followAux => exact spinLoop_eq _ _ _ _
  | _ => exact listenLoop_eq _ _ _ _

/-- While the readings stay below the deadline the search goes on. -/
theorem firstReached_of_below {now : Nat → UInt32} {limit : UInt32} {n : Nat}
    (hbelow : ∀ k < n, now k < limit) (fuel k : Nat) (hk : k + fuel ≤ n) :
    firstReached now limit fuel k = none := by
  induction fuel generalizing k with
  | zero => rfl
  | succ fuel ih =>
    rw [firstReached, if_pos (hbelow k (by omega))]
    exact ih (k + 1) (by omega)

/-- It ends at the first reading that is not below the deadline. -/
theorem firstReached_at {now : Nat → UInt32} {limit : UInt32} {n : Nat}
    (hbelow : ∀ k < n, now k < limit) (hat : ¬ now n < limit) (fuel k : Nat) (hk : k ≤ n) :
    firstReached now limit fuel k = if n < k + fuel then some n else none := by
  induction fuel generalizing k with
  | zero => rw [if_neg (by omega)]; rfl
  | succ fuel ih =>
    rw [firstReached]
    rcases Nat.lt_or_ge k n with hlt | hge
    · rw [if_pos (hbelow k hlt), ih (k + 1) (by omega), show k + 1 + fuel = k + (fuel + 1) by omega]
    · obtain rfl : k = n := by omega
      rw [if_neg hat, if_pos (by omega)]

/-! ## Readings against deadlines -/

theorem reading_toNat (t0 : Fin (2 ^ 24)) (k : Nat) : (reading t0 k).toNat = (t0.1 + k) % 2 ^ 24 := by
  rw [reading, UInt32.toNat_ofNat', Nat.mod_eq_of_lt (by omega)]

/-- The sum of a reading and a wait shorter than the counter does not wrap. -/
theorem deadline_toNat (t0 : Fin (2 ^ 24)) {w : Nat} (hw : w < 2 ^ 24) :
    (deadline t0 w).toNat = t0.1 + w := by
  have ht := t0.2
  rw [deadline, UInt32.toNat_add, reading_toNat, UInt32.toNat_ofNat']
  omega

theorem reading_lt_deadline (t0 : Fin (2 ^ 24)) {w : Nat} (hw : w < 2 ^ 24) (k : Nat) :
    reading t0 k < deadline t0 w ↔ (t0.1 + k) % 2 ^ 24 < t0.1 + w := by
  rw [UInt32.lt_iff_toNat_lt, reading_toNat, deadline_toNat t0 hw]

/-- **When a timed wait ends.**  Every wait of the stack ends at its reading `w` exactly — within any
    number of readings above `w`, and within no fewer — iff the counter does not wrap before; if it
    does, the wait never ends. -/
theorem wait_iff (site : WaitSite) (t0 : Fin (2 ^ 24)) :
    ((∀ fuel, site.wait t0 fuel = if site.ticks < fuel then some site.ticks else none) ↔
        t0.1 + site.ticks < 2 ^ 24) ∧
      (¬ t0.1 + site.ticks < 2 ^ 24 → ∀ fuel, site.wait t0 fuel = none) := by
  have hw := site.ticks_lt
  have ht := t0.2
  -- a deadline beyond the counter is never reached
  have hnever : ¬ t0.1 + site.ticks < 2 ^ 24 → ∀ fuel, site.wait t0 fuel = none := by
    intro hwrap fuel
    rw [site.wait_eq]
    refine firstReached_of_below (n := fuel) ?_ fuel 0 (by omega)
    intro k _
    rw [reading_lt_deadline t0 hw]
    have hmod := Nat.mod_lt (t0.1 + k) (show 2 ^ 24 > 0 by decide)
    omega
  refine ⟨⟨?_, ?_⟩, hnever⟩
  · intro hends
    by_contra hwrap
    have h := hends (site.ticks + 1)
    rw [hnever hwrap, if_pos (by omega)] at h
    cases h
  · intro hfits fuel
    rw [site.wait_eq, firstReached_at (n := site.ticks) ?_ ?_ fuel 0 (by omega), Nat.zero_add]
    · intro k hk
      rw [reading_lt_deadline t0 hw, Nat.mod_eq_of_lt (by omega)]
      omega
    · rw [reading_lt_deadline t0 hw, Nat.mod_eq_of_lt (by omega)]
      omega

/-- Four ticks before the wrap, the window for a `SCAN_REQ` (10 ticks) does not end at its reading
    10: it never ends. -/
theorem scanReqWindow_hangs_at_wrap :
    ¬ (∀ fuel, WaitSite.scanReqWindow.wait ⟨2 ^ 24 - 4, by decide⟩ fuel =
        if WaitSite.scanReqWindow.ticks < fuel then some WaitSite.scanReqWindow.ticks else none) := by
  intro h
  have h11 : WaitSite.scanReqWindow.wait ⟨2 ^ 24 - 4, by decide⟩ 11 = none := by decide +kernel
  rw [h 11] at h11
  revert h11
  decide

end NrfBle
