/-
  The enable commands against the stack they drive (`src/hci.rs`: LE Set Advertising Enable, LE Set
  Scan Enable; `src/hw/ble.rs`: `gap_adv_start`, `gap_adv_stop`, `gap_scan_start`, `gap_scan_stop` and
  the two ticks).

  The host's view is synchronous: each command is answered with status 0 at once.  In the stack a stop
  is carried out by the next tick, and until then a start is refused; `handleCommand` drops that
  refusal.  So advertising and scanning are each a `Switch`, whose acts are the commands and the ticks
  of its own (`HostRun.phase`), and the reply is right in every run without a command to start what is
  about to stop, and in no other (`enable_means_iff`).
-/
import Mathlib.Tactic
import NrfBle.Lib.Switch
import NrfBle.Host.Hci

namespace NrfBle

open Checked

/-! ## The two activities -/

/-- What an enable command switches. -/
inductive Activity
  | advertising
  | scanning
  deriving DecidableEq, Repr

/-- The phase of the advertiser. -/
def AdvState.phase : AdvState → Switch.Phase
  | .idle => .idle
  | .running => .running
  | .stopPending => .stopping

/-- The phase of the scanner. -/
def ScanState.phase : ScanState → Switch.Phase
  | .idle => .idle
  | .running => .running
  | .stopPending => .stopping

namespace Activity

/-- The command that switches it. -/
def ocf : Activity → UInt16
  | advertising => ocfLeSetAdvEnable
  | scanning => ocfLeSetScanEnable

/-- The opcode bytes of that command. -/
def op (what : Activity) : UInt8 × UInt8 := (what.ocf.toUInt8, 0x20)

/-- The phase of an activity. -/
def phase : Activity → Ble → Switch.Phase
  | advertising, b => b.advState.phase
  | scanning, b => b.scanState.phase

/-- The stack is advertising, or scanning. -/
def On : Activity → Ble → Prop
  | advertising, b => b.advState = .running
  | scanning, b => b.scanState = .running

/-- The next tick returns, and leaves a state like this, if it makes no connection. -/
def AfterTick (what : Activity) (b : Ble) (P : Ble → Prop) : Prop :=
  match what with
  | advertising => ∀ env, b.advOpens env = none → ∃ log b', b.advTick env = ⟨log, .ok b'⟩ ∧ P b'
  | scanning => ∀ env, b.scanOpens env = none → ∃ log b', b.scanTick env = ⟨log, .ok b'⟩ ∧ P b'

theorem on_iff (what : Activity) (b : Ble) : what.On b ↔ what.phase b = .running := by
  cases what with
  | advertising =>
    show b.advState = .running ↔ b.advState.phase = .running
    cases b.advState <;> decide
  | scanning =>
    show b.scanState = .running ↔ b.scanState.phase = .running
    cases b.scanState <;> decide

end Activity

/-! ## Runs -/

/-- What happens between host, controller and air: an enable command with its parameters, the first of
    which is the enable byte; or a tick. -/
inductive HostOp
  | enable (what : Activity) (byte : UInt8) (rest : List UInt8) (hfit : (byte :: rest).length ≤ 255)
      (now : UInt32)
  | advTick (env : AdvEnv)
  | scanTick (env : ScanEnv)

namespace HostOp

/-- Carry it out. -/
def run : HostOp → Hci → Ble → Logged HciAct (Hci × Ble)
  | .enable what byte rest _ now, h, b => do
    let packet ← Logged.lift (HciPacket.command ogfLe what.ocf (byte :: rest))
    h.handleCommand b packet now
  | .advTick env, h, b => do
    let b ← (b.advTick env).within HciAct.ble
    return (h, b)
  | .scanTick env, h, b => do
    let b ← (b.scanTick env).within HciAct.ble
    return (h, b)

/-- It makes no connection. -/
def Unconnected : HostOp → Ble → Prop
  | .enable .., _ => True
  | .advTick env, b => b.advOpens env = none
  | .scanTick env, b => b.scanOpens env = none

/-- What it is to the switch of an activity. -/
def act (what : Activity) : HostOp → Option Switch.Act
  | .enable what' byte .. => if what' = what then some (.set (byte = 1)) else none
  | .advTick _ => if what = .advertising then some .tick else none
  | .scanTick _ => if what = .scanning then some .tick else none

end HostOp

/-- One operation of a run: the stack it found, and what was done. -/
structure HostMove where
  op : HostOp
  before : Ble
  log : List HciAct

/-- The runs without a connection, by their histories, the latest move first, and what they end in. -/
inductive HostRun (h₀ : Hci) (b₀ : Ble) : List HostMove → Except Panic (Hci × Ble) → Prop
  | start : HostRun h₀ b₀ [] (.ok (h₀, b₀))
  | step {moves : List HostMove} {h : Hci} {b : Ble} (op : HostOp) (hop : op.Unconnected b)
      (hrun : HostRun h₀ b₀ moves (.ok (h, b))) :
      HostRun h₀ b₀ (⟨op, b, (op.run h b).log⟩ :: moves) (op.run h b).res

/-- The latest enable command for an activity: its enable byte, and what was done. -/
def Activity.latest (what : Activity) : List HostMove → Option (UInt8 × List HciAct)
  | [] => none
  | m :: moves =>
    match m.op with
    | .enable what' byte .. => if what' = what then some (byte, m.log) else what.latest moves
    | _ => what.latest moves

/-- The latest command, if it was answered with status 0, is what the stack does after the next
    tick. -/
def Activity.Means (what : Activity) (moves : List HostMove) (b : Ble) : Prop :=
  ∀ byte log, what.latest moves = some (byte, log) →
    (∃ evt, .event evt ∈ log ∧ Hci.StatusZero what.op evt) →
      what.AfterTick b (fun b' => what.On b' ↔ byte = 1)

/-- A command to start what is about to stop. -/
def HostMove.Overtakes (m : HostMove) : Prop :=
  match m.op with
  | .enable what byte .. => byte = 1 ∧ what.phase m.before = .stopping
  | _ => False

/-! ## One step -/

theorem op_command {ogf : UInt8} {ocf : UInt16} {params : List UInt8} {packet : HciPacket}
    (h : HciPacket.command ogf ocf params = .ok packet) :
    packet.op = ((ocf &&& 0xFF).toUInt8, ((ocf >>> 8) &&& 0x03).toUInt8 ||| (ogf &&& 0x3F) <<< 2) := by
  obtain ⟨payload, hw, h⟩ := bind_eq_ok.mp h
  cases h
  have hbytes := (Buf.write_eq_ok.mp hw).2
  unfold HciPacket.op
  dsimp only
  rw [hbytes]
  rfl

/-- Starting: from idle, and from idle only. -/
theorem start_phase {b b' : Ble} {answer : Except Error Unit} {log : List BleAct} {now : UInt32} :
    (b.gapAdvStart {} now = ⟨log, .ok (answer, b')⟩ →
      b'.advState.phase = b.advState.phase.step (.set true) ∧ b'.scanState = b.scanState) ∧
    (b.gapScanStart {} now = ⟨log, .ok (answer, b')⟩ →
      b'.scanState.phase = b.scanState.phase.step (.set true) ∧ b'.advState = b.advState) := by
  constructor
  · intro h
    by_cases hidle : b.advState = .idle
    · have hallowed : Ble.AdvAllowed {} := ⟨by decide, by decide, by decide, by decide⟩
      obtain ⟨accum, compare, _, heq⟩ := Ble.gapAdvStart_eq hidle hallowed now
      cases heq.symm.trans h
      rw [hidle]
      exact ⟨rfl, rfl⟩
    · have hnot : ¬ (b.advState = .idle ∧ Ble.AdvAllowed {}) := fun hand => hidle hand.1
      obtain ⟨e, heq⟩ := Ble.gapAdvStart_refused hnot now
      cases heq.symm.trans h
      refine ⟨?_, rfl⟩
      cases hstate : b.advState with
      | idle => exact absurd hstate hidle
      | running => rfl
      | stopPending => rfl
  · intro h
    by_cases hidle : b.scanState = .idle
    · have hallowed : Ble.ScanAllowed {} := ⟨by decide, by decide, by decide⟩
      obtain ⟨accum, compare, _, heq⟩ := Ble.gapScanStart_eq hidle hallowed now
      cases heq.symm.trans h
      rw [hidle]
      exact ⟨rfl, rfl⟩
    · have hnot : ¬ (b.scanState = .idle ∧ Ble.ScanAllowed {}) := fun hand => hidle hand.1
      obtain ⟨e, heq⟩ := Ble.gapScanStart_refused hnot now
      cases heq.symm.trans h
      refine ⟨?_, rfl⟩
      cases hstate : b.scanState with
      | idle => exact absurd hstate hidle
      | running => rfl
      | stopPending => rfl

/-- Stopping: a running activity will stop. -/
theorem stop_phase {b b' : Ble} {answer : Except Error Unit} {log : List BleAct} :
    (b.gapAdvStop = ⟨log, .ok (answer, b')⟩ →
      b'.advState.phase = b.advState.phase.step (.set false) ∧ b'.scanState = b.scanState) ∧
    (b.gapScanStop = ⟨log, .ok (answer, b')⟩ →
      b'.scanState.phase = b.scanState.phase.step (.set false) ∧ b'.advState = b.advState) := by
  constructor
  · intro h
    unfold Ble.gapAdvStop at h
    cases hstate : b.advState with
    | idle => rw [hstate] at h; cases h; rw [hstate]; exact ⟨rfl, rfl⟩
    | running => rw [hstate] at h; cases h; exact ⟨rfl, rfl⟩
    | stopPending => rw [hstate] at h; cases h; rw [hstate]; exact ⟨rfl, rfl⟩
  · intro h
    unfold Ble.gapScanStop at h
    cases hstate : b.scanState with
    | idle => rw [hstate] at h; cases h; rw [hstate]; exact ⟨rfl, rfl⟩
    | running => rw [hstate] at h; cases h; exact ⟨rfl, rfl⟩
    | stopPending => rw [hstate] at h; cases h; rw [hstate]; exact ⟨rfl, rfl⟩

/-- What the call of an enable command does to the two switches. -/
theorem enable_call (what : Activity) (byte : UInt8) (rest : List UInt8) (now : UInt32) {b b' : Ble}
    (h : Hci.Calls (Hci.leCall what.ocf (byte :: rest) now) b b') (other : Activity) :
    other.phase b' =
      if what = other then (other.phase b).step (.set (byte = 1)) else other.phase b := by
  have hhead : (byte :: rest).head? = some 1 ↔ byte = 1 := Option.some_inj
  cases what with
  | advertising =>
    obtain ⟨log, answer, hcall⟩ : ∃ log answer,
        (Hci.advEnableCall (byte :: rest) now).run b = ⟨log, .ok (answer, b')⟩ := h
    have hstep : b'.advState.phase = b.advState.phase.step (.set (byte = 1)) ∧
        b'.scanState = b.scanState := by
      unfold Hci.advEnableCall at hcall
      by_cases hone : byte = 1
      · rw [if_pos (hhead.mpr hone)] at hcall
        rw [decide_eq_true hone]
        exact start_phase.1 hcall
      · rw [if_neg (mt hhead.mp hone)] at hcall
        rw [decide_eq_false hone]
        exact stop_phase.1 hcall
    cases other with
    | advertising => exact hstep.1
    | scanning => exact congrArg ScanState.phase hstep.2
  | scanning =>
    obtain ⟨log, answer, hcall⟩ : ∃ log answer,
        (Hci.scanEnableCall (byte :: rest) now).run b = ⟨log, .ok (answer, b')⟩ := h
    have hstep : b'.scanState.phase = b.scanState.phase.step (.set (byte = 1)) ∧
        b'.advState = b.advState := by
      unfold Hci.scanEnableCall at hcall
      by_cases hone : byte = 1
      · rw [if_pos (hhead.mpr hone)] at hcall
        rw [decide_eq_true hone]
        exact start_phase.2 hcall
      · rw [if_neg (mt hhead.mp hone)] at hcall
        rw [decide_eq_false hone]
        exact stop_phase.2 hcall
    cases other with
    | advertising => exact congrArg AdvState.phase hstep.2
    | scanning => exact hstep.1

/-- What one operation does: it returns, each switch takes its act, and a command is answered. -/
structure HostDone (op : HostOp) (b : Ble) (log : List HciAct) (b' : Ble) : Prop where
  bounds : b'.Bounds
  phase : ∀ what : Activity, what.phase b' =
    match op.act what with
    | some a => (what.phase b).step a
    | none => what.phase b
  answered : ∀ what byte rest hfit now, op = .enable what byte rest hfit now →
    ∃ evt, .event evt ∈ log ∧ Hci.StatusZero what.op evt

theorem hostDone_enable (h : Hci) {b : Ble} (hb : b.Bounds) (what : Activity) (byte : UInt8)
    (rest : List UInt8) (hfit : (byte :: rest).length ≤ 255) (now : UInt32) :
    ∃ log h' b', (HostOp.enable what byte rest hfit now).run h b = ⟨log, .ok (h', b')⟩ ∧
      HostDone (.enable what byte rest hfit now) b log b' := by
  obtain ⟨packet, hcmd, _⟩ := HciPacket.command_ok ogfLe what.ocf hfit
  have hocf : what.ocf < 1024 := by cases what <;> decide
  have hop : packet.op = what.op := by
    rw [op_command hcmd]
    cases what <;> rfl
  obtain ⟨b', hcalls, acts, evt, h', hrun, hzero, _⟩ := h.handleCommand_built b now hocf hfit hcmd
  refine ⟨acts.map HciAct.ble ++ [.event evt], h', b', ?_, hcalls.bounds hb, ?_, ?_⟩
  · show Logged.lift (HciPacket.command ogfLe what.ocf (byte :: rest)) >>= _ = _
    rw [hcmd, Logged.lift_ok_bind]
    exact hrun
  · intro other
    rw [enable_call what byte rest now hcalls other]
    show _ = match if what = other then some (Switch.Act.set (byte = 1)) else none with
      | some a => (other.phase b).step a
      | none => other.phase b
    by_cases hwhat : what = other
    · rw [if_pos hwhat, if_pos hwhat]
    · rw [if_neg hwhat, if_neg hwhat]
  · rintro _ _ _ _ _ ⟨⟩
    exact ⟨evt, List.mem_append_right _ List.mem_cons_self, hop ▸ hzero⟩

/-- **One operation** of a run, from any state within bounds. -/
theorem hostDone (h : Hci) {b : Ble} (hb : b.Bounds) {op : HostOp} (hop : op.Unconnected b) :
    ∃ log h' b', op.run h b = ⟨log, .ok (h', b')⟩ ∧ HostDone op b log b' := by
  cases op with
  | enable what byte rest hfit now => exact hostDone_enable h hb what byte rest hfit now
  | advTick env =>
    obtain ⟨log, b', hrun, hbounds, heff, hstate⟩ := Ble.advTick_done hb env
    refine ⟨log.map HciAct.ble, h, b', ?_, hbounds, ?_, by rintro _ _ _ _ _ ⟨⟩⟩
    · show (b.advTick env).within HciAct.ble >>= _ = _
      rw [hrun]
      exact Logged.ext (List.append_nil _) rfl
    · rintro (_ | _)
      · show b'.advState.phase = b.advState.phase.step .tick
        rw [hstate hop]
        cases b.advState <;> rfl
      · show b'.scanState.phase = b.scanState.phase
        rw [heff.frame]
  | scanTick env =>
    obtain ⟨log, b', hrun, hbounds, heff⟩ := Ble.scanTick_effect hb env
    refine ⟨log.map HciAct.ble, h, b', ?_, hbounds, ?_, by rintro _ _ _ _ _ ⟨⟩⟩
    · show (b.scanTick env).within HciAct.ble >>= _ = _
      rw [hrun]
      exact Logged.ext (List.append_nil _) rfl
    · rintro (_ | _)
      · show b'.advState.phase = b.advState.phase
        rw [heff.frame]
      · have hscan := heff.scan
        rw [show b.scanOpens env = none from hop] at hscan
        show b'.scanState.phase = b.scanState.phase.step .tick
        rw [hscan]
        cases b.scanState <;> rfl

/-! ## Runs are histories of switches -/

/-- The acts of a history, to the switch of an activity. -/
def Activity.acts (what : Activity) (moves : List HostMove) : List Switch.Act :=
  moves.filterMap (fun m => m.op.act what)

theorem Activity.acts_cons (what : Activity) (m : HostMove) (moves : List HostMove) :
    what.acts (m :: moves) = match m.op.act what with
      | some a => a :: what.acts moves
      | none => what.acts moves := by
  unfold acts
  rw [List.filterMap_cons]
  cases m.op.act what <;> rfl

/-- The latest command, to the switch. -/
theorem Activity.latest_acts (what : Activity) (moves : List HostMove) :
    Switch.latest (what.acts moves) = (what.latest moves).map (fun x => decide (x.1 = 1)) := by
  induction moves with
  | nil => rfl
  | cons m moves ih =>
    obtain ⟨op, before, log⟩ := m
    rw [what.acts_cons]
    cases op with
    | enable what' byte rest hfit now =>
      unfold HostOp.act latest
      by_cases hwhat : what' = what
      · simp only [if_pos hwhat]
        rfl
      · simp only [if_neg hwhat]
        exact ih
    | advTick env => cases what <;> exact ih
    | scanTick env => cases what <;> exact ih

variable {h₀ : Hci} {b₀ : Ble}

/-- **Every run returns**, and leaves each switch as its history says. -/
theorem HostRun.phase (hb : b₀.Bounds) {moves : List HostMove} {r : Except Panic (Hci × Ble)}
    (hrun : HostRun h₀ b₀ moves r) :
    ∃ h b, r = .ok (h, b) ∧ b.Bounds ∧
      ∀ what : Activity, what.phase b = Switch.run (what.phase b₀) (what.acts moves) := by
  induction hrun with
  | start => exact ⟨h₀, b₀, rfl, hb, fun what => rfl⟩
  | @step moves h b op hop _ ih =>
    obtain ⟨_, _, ⟨⟩, hbounds, hphase⟩ := ih
    obtain ⟨log, h', b', hrun, hdone⟩ := hostDone h hbounds hop
    refine ⟨h', b', by rw [hrun], hdone.bounds, ?_⟩
    intro what
    rw [hdone.phase what, what.acts_cons, hphase what]
    cases op.act what <;> rfl

theorem HostRun.of_append {later moves : List HostMove} {r : Except Panic (Hci × Ble)}
    (hrun : HostRun h₀ b₀ (later ++ moves) r) : ∃ r', HostRun h₀ b₀ moves r' := by
  induction later generalizing r with
  | nil => exact ⟨r, hrun⟩
  | cons m later ih =>
    cases hrun with
    | step op hop hrun => exact ih hrun

/-- Every command of a run was answered. -/
theorem HostRun.answered (hb : b₀.Bounds) {moves : List HostMove} {r : Except Panic (Hci × Ble)}
    (hrun : HostRun h₀ b₀ moves r) (what : Activity) {byte : UInt8} {log : List HciAct}
    (hlatest : what.latest moves = some (byte, log)) :
    ∃ evt, .event evt ∈ log ∧ Hci.StatusZero what.op evt := by
  induction hrun with
  | start => cases hlatest
  | @step moves h b op hop hrun ih =>
    obtain ⟨_, _, ⟨⟩, hbounds, _⟩ := hrun.phase hb
    obtain ⟨log', h', b', hres, hdone⟩ := hostDone h hbounds hop
    unfold Activity.latest at hlatest
    rw [hres] at hlatest
    cases op with
    | enable what' byte' rest hfit now =>
      dsimp only at hlatest
      split at hlatest
      · rename_i hwhat
        cases hlatest
        exact hdone.answered what byte rest hfit now (by rw [hwhat])
      · exact ih hlatest
    | advTick env => exact ih hlatest
    | scanTick env => exact ih hlatest

/-- Where one tick makes no connection, and all that make none leave the same truth, they leave what is
    asked for iff it is that. -/
theorem forall_ticks_iff {ε : Type} {quiet : ε → Prop} {tick : ε → Logged BleAct Ble} {on : Ble → Prop}
    {q p : Prop} (hquiet : ∃ env, quiet env)
    (htick : ∀ env, quiet env → ∃ log b', tick env = ⟨log, .ok b'⟩ ∧ (on b' ↔ q)) :
    (∀ env, quiet env → ∃ log b', tick env = ⟨log, .ok b'⟩ ∧ (on b' ↔ p)) ↔ (q ↔ p) := by
  constructor
  · intro hafter
    obtain ⟨env, hnone⟩ := hquiet
    obtain ⟨log, b', hrun, hon⟩ := htick env hnone
    obtain ⟨log', b'', hrun', hp⟩ := hafter env hnone
    cases hrun.symm.trans hrun'
    exact hon.symm.trans hp
  · intro hp env hnone
    obtain ⟨log, b', hrun, hon⟩ := htick env hnone
    exact ⟨log, b', hrun, hon.trans hp⟩

/-- A tick, seen by the switch. -/
theorem Activity.afterTick_iff (what : Activity) {b : Ble} (hb : b.Bounds) (p : Prop) :
    what.AfterTick b (fun b' => what.On b' ↔ p) ↔ ((what.phase b).step .tick = .running ↔ p) := by
  cases what with
  | advertising =>
    have htick : ∀ env, b.advOpens env = none → ∃ log b', b.advTick env = ⟨log, .ok b'⟩ ∧
        (advertising.On b' ↔ (advertising.phase b).step .tick = .running) := by
      intro env hnone
      obtain ⟨log, b', hrun, _, _, hstate⟩ := Ble.advTick_done hb env
      refine ⟨log, b', hrun, ?_⟩
      rw [on_iff]
      show b'.advState.phase = _ ↔ b.advState.phase.step .tick = _
      rw [hstate hnone]
      cases b.advState <;> exact Iff.rfl
    have hsilent : b.advOpens ⟨0, 0, .silent, 0, 0⟩ = none := by
      unfold Ble.advOpens Ble.serveOpens
      split
      · split <;> rfl
      · rfl
    exact forall_ticks_iff ⟨_, hsilent⟩ htick
  | scanning =>
    have htick : ∀ env, b.scanOpens env = none → ∃ log b', b.scanTick env = ⟨log, .ok b'⟩ ∧
        (scanning.On b' ↔ (scanning.phase b).step .tick = .running) := by
      intro env hnone
      obtain ⟨log, b', hrun, _, heff⟩ := Ble.scanTick_effect hb env
      have hscan := heff.scan
      rw [hnone] at hscan
      refine ⟨log, b', hrun, ?_⟩
      rw [on_iff]
      show b'.scanState.phase = _ ↔ b.scanState.phase.step .tick = _
      rw [hscan]
      cases b.scanState <;> exact Iff.rfl
    have hsilent : b.scanOpens ⟨0, .silent, 0, 0, .silent, 0, 0, .silent, 0, .silent⟩ = none := by
      unfold Ble.scanOpens Ble.listenOpens
      split
      · split
        · assumption
        · rfl
      · rfl
    exact forall_ticks_iff ⟨_, hsilent⟩ htick

/-- What the replies promise, seen by the switches. -/
theorem HostRun.means_iff (hb : b₀.Bounds) {moves : List HostMove} {h : Hci} {b : Ble}
    (hrun : HostRun h₀ b₀ moves (.ok (h, b))) (what : Activity) :
    what.Means moves b ↔ Switch.Means (what.phase b₀) (what.acts moves) := by
  obtain ⟨_, _, ⟨⟩, hbounds, hphase⟩ := hrun.phase hb
  unfold Activity.Means Switch.Means
  rw [what.latest_acts, ← hphase what]
  constructor
  · intro hmeans on hon
    obtain ⟨⟨byte, log⟩, hlatest, rfl⟩ := Option.map_eq_some_iff.mp hon
    rw [decide_eq_true_iff]
    exact (what.afterTick_iff hbounds _).mp
      (hmeans byte log hlatest (hrun.answered hb what hlatest))
  · intro hmeans byte log hlatest _
    have hon := hmeans (byte = 1) (by rw [hlatest]; rfl)
    rw [decide_eq_true_iff] at hon
    exact (what.afterTick_iff hbounds _).mpr hon

/-- A switch that is overtaken is so by a move of the run. -/
theorem HostRun.overtaken (hb : b₀.Bounds) {moves : List HostMove} {r : Except Panic (Hci × Ble)}
    (hrun : HostRun h₀ b₀ moves r) {what : Activity}
    (hover : Switch.Overtakes (what.phase b₀) (what.acts moves)) : ∃ m ∈ moves, m.Overtakes := by
  obtain ⟨later, earlier, hacts, hstop⟩ := hover
  obtain ⟨l, moves', rfl, _, hmoves'⟩ := List.filterMap_eq_append_iff.mp hacts
  obtain ⟨skipped, m, before, rfl, _, hact, hbefore⟩ := List.filterMap_eq_cons_iff.mp hmoves'
  refine ⟨m, by simp, ?_⟩
  rw [← List.append_assoc] at hrun
  obtain ⟨r', hrun'⟩ := hrun.of_append
  cases hrun' with
  | @step _ h b op hop hrun' =>
    obtain ⟨_, _, ⟨⟩, _, hphase⟩ := hrun'.phase hb
    unfold HostOp.act at hact
    cases op with
    | enable what' byte rest hfit now =>
      dsimp only at hact
      split at hact
      · rename_i hwhat
        subst hwhat
        have hset : Switch.Act.set (decide (byte = 1)) = .set true := Option.some.inj hact
        have hhere : what'.phase b = .stopping := by
          rw [hphase what', Activity.acts, hbefore]
          exact hstop
        exact ⟨of_decide_eq_true (Switch.Act.set.inj hset), hhere⟩
      · cases hact
    | advTick env =>
      dsimp only at hact
      split at hact <;> cases hact
    | scanTick env =>
      dsimp only at hact
      split at hact <;> cases hact

/-- The command that overtakes is lost. -/
theorem HostRun.lost (hb : b₀.Bounds) {moves : List HostMove} {m : HostMove} {h : Hci} {b : Ble}
    (hrun : HostRun h₀ b₀ (m :: moves) (.ok (h, b))) (hover : m.Overtakes) :
    ∃ what : Activity, ¬ what.Means (m :: moves) b := by
  have hmeans := hrun.means_iff hb
  generalize hend : (Except.ok (h, b) : Except Panic (Hci × Ble)) = r at hrun
  cases hrun with
  | @step _ h b op hop hrun =>
    obtain ⟨_, _, ⟨⟩, _, hphase⟩ := hrun.phase hb
    cases op with
    | enable what byte rest hfit now =>
      obtain ⟨rfl, hstop⟩ : byte = 1 ∧ what.phase b = .stopping := hover
      refine ⟨what, fun hkept => ?_⟩
      have hswitch := (hmeans what).mp hkept
      rw [what.acts_cons] at hswitch
      simp only [HostOp.act, if_true] at hswitch
      exact Switch.not_means_of_stopping ((hphase what).symm.trans hstop) hswitch
    | advTick env => exact hover.elim
    | scanTick env => exact hover.elim

/-- **The enable commands mean what they acknowledge**, at every moment of a run without a connection,
    iff none comes to start what is about to stop. -/
theorem enable_means_iff (hb : b₀.Bounds) {moves : List HostMove} {r : Except Panic (Hci × Ble)}
    (hrun : HostRun h₀ b₀ moves r) :
    (∀ later earlier r', moves = later ++ earlier → HostRun h₀ b₀ earlier r' →
      ∃ h b, r' = .ok (h, b) ∧ ∀ what : Activity, what.Means earlier b) ↔
      ∀ m ∈ moves, ¬ m.Overtakes := by
  constructor
  · intro hall m hmem hover
    obtain ⟨later, earlier, rfl⟩ := List.append_of_mem hmem
    obtain ⟨r', hrun'⟩ := hrun.of_append
    obtain ⟨h, b, rfl, hmeans⟩ := hall later (m :: earlier) r' rfl hrun'
    obtain ⟨what, hnot⟩ := hrun'.lost hb hover
    exact hnot (hmeans what)
  · rintro hok later earlier r' rfl hrun'
    obtain ⟨h, b, rfl, hbounds, hphase⟩ := hrun'.phase hb
    refine ⟨h, b, rfl, fun what => (hrun'.means_iff hb what).mpr (Switch.means_of_not_overtakes ?_)⟩
    intro hover
    obtain ⟨m, hmem, hm⟩ := hrun'.overtaken hb hover
    exact hok m (List.mem_append_right _ hmem) hm

theorem one_fits (byte : UInt8) : [byte].length ≤ 255 := Nat.le_of_ble_eq_true rfl

/-- An enable command with one parameter. -/
def HostOp.command (what : Activity) (byte : UInt8) : HostOp := .enable what byte [] (one_fits byte) 0

/-- Advertising is started. -/
theorem enable_means_start :
    ∃ h b, ((HostOp.command .advertising 1).run Hci.new Ble.new).res = .ok (h, b) ∧
      ∀ what : Activity, what.Means [⟨.command .advertising 1, Ble.new,
        ((HostOp.command .advertising 1).run Hci.new Ble.new).log⟩] b := by
  have hrun : HostRun Hci.new Ble.new _ _ := .step (.command .advertising 1) trivial .start
  refine (enable_means_iff Ble.bounds_new hrun).mpr ?_ [] _ _ rfl hrun
  intro m hm hover
  obtain rfl := List.mem_singleton.mp hm
  cases hover.2

/-- One more command of a run. -/
theorem HostRun.command {moves : List HostMove} {h : Hci} {b : Ble} (hb : b₀.Bounds)
    (hrun : HostRun h₀ b₀ moves (.ok (h, b))) (what : Activity) (byte : UInt8) :
    ∃ log h' b', HostRun h₀ b₀ (⟨.command what byte, b, log⟩ :: moves) (.ok (h', b')) ∧
      what.phase b' = (what.phase b).step (.set (byte = 1)) := by
  obtain ⟨_, _, ⟨⟩, hbounds, _⟩ := hrun.phase hb
  obtain ⟨log, h', b', hres, hdone⟩ := hostDone_enable h hbounds what byte [] (one_fits byte) 0
  have hstep := HostRun.step (HostOp.command what byte) trivial hrun
  rw [show (HostOp.command what byte).run h b = _ from hres] at hstep
  refine ⟨log, h', b', hstep, ?_⟩
  have hact : (HostOp.enable what byte [] (one_fits byte) 0).act what = some (.set (byte = 1)) :=
    if_pos rfl
  rw [hdone.phase what, hact]

/-- Started, stopped and started again before the tick: acknowledged, and lost. -/
theorem restart_is_lost :
    ∃ moves h b, HostRun Hci.new Ble.new moves (.ok (h, b)) ∧
      moves.map HostMove.op =
        [.command .advertising 1, .command .advertising 0, .command .advertising 1] ∧
      ¬ ∀ what : Activity, what.Means moves b := by
  obtain ⟨log₁, h₁, b₁, hrun₁, hphase₁⟩ :=
    (HostRun.start : HostRun Hci.new Ble.new _ _).command Ble.bounds_new .advertising 1
  obtain ⟨log₂, h₂, b₂, hrun₂, hphase₂⟩ := hrun₁.command Ble.bounds_new .advertising 0
  obtain ⟨log₃, h₃, b₃, hrun₃, _⟩ := hrun₂.command Ble.bounds_new .advertising 1
  have hover : (⟨.command .advertising 1, b₂, log₃⟩ : HostMove).Overtakes := by
    refine ⟨rfl, ?_⟩
    rw [hphase₂, hphase₁]
    rfl
  obtain ⟨what, hnot⟩ := hrun₃.lost Ble.bounds_new hover
  exact ⟨_, h₃, b₃, hrun₃, rfl, fun hall => hnot (hall what)⟩

end NrfBle
