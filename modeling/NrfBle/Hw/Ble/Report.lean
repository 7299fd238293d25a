/-
  What the application is told of its connection (`src/hw/ble.rs`: `conn_tick`, `conn_rx_data`).

  1. **The timeout** — the time since the last packet is a 32-BIT difference of 24-bit readings.  It
     is the true time as long as the counter has not wrapped in between, and far beyond every timeout
     when it has (`timeout_exact_iff`).

  2. **The data** — `ConnData` is pushed after the length of the data was set to zero, and popping it
     does not bring the length back: what `conn_rx_data` then returns is empty, whatever was written
     (`connData_without_data`).
-/
import Mathlib.Tactic
import NrfBle.Hw.Ble.Link

namespace NrfBle

open Checked

/-! ## The supervision timeout -/

/-- The 32-bit difference of two readings of a 24-bit counter: the true time, unless it wrapped. -/
theorem reading_sub (t0 : Fin (2 ^ 24)) {e : Nat} (he : e < 2 ^ 24) :
    (reading t0 e - reading t0 0).toNat =
      if t0.1 + e < 2 ^ 24 then e else e + (2 ^ 32 - 2 ^ 24) := by
  have ht := t0.2
  rw [UInt32.toNat_sub, reading_toNat, reading_toNat]
  split <;> omega

/-- **The timeout is exact when the counter does not wrap, or the time is over anyway.** -/
theorem timeout_exact_iff (hw : Hw) (b : Ble) (c : Conn) (env : ConnEnv) (t0 : Fin (2 ^ 24)) (e : Nat)
    (he : e < 2 ^ 24) (hconn : b.conn = some c) (hlast : c.lastRx = reading t0 0)
    (hnow : env.now = reading t0 e) :
    (.push (.disconnected .supervisionTimeout) ∈ (b.connTick hw env).log ↔ c.timeout.toNat * 313 ≤ e) ↔
      (t0.1 + e < 2 ^ 24 ∨ c.timeout.toNat * 313 ≤ e) := by
  have hlimit : c.timeout.toNat * 313 ≤ 65535 * 313 := by
    have := c.timeout.toNat_lt
    omega
  have hreported : .push (.disconnected .supervisionTimeout) ∈ (b.connTick hw env).log ↔
      c.timeout.toNat * 313 ≤ (reading t0 e - reading t0 0).toNat := by
    rw [Ble.timeout_reported_iff, ← hnow, ← hlast]
    constructor
    · rintro ⟨c₁, hc₁, h⟩
      cases hconn.symm.trans hc₁
      exact h
    · exact fun h => ⟨c, hconn, h⟩
  rw [hreported, reading_sub t0 he]
  by_cases hwrap : t0.1 + e < 2 ^ 24
  · rw [if_pos hwrap]
    exact ⟨fun _ => .inl hwrap, fun _ => Iff.rfl⟩
  · rw [if_neg hwrap]
    constructor
    · exact fun h => .inr (h.mp (by omega))
    · rintro (h | h)
      · exact absurd h hwrap
      · exact ⟨fun _ => h, fun _ => by omega⟩

/-- A link whose last packet came at the reading `t0`. -/
def linkAt (t0 : Fin (2 ^ 24)) : Ble :=
  { Ble.new with conn := some { Conn.sample .slave with lastRx := reading t0 0 } }

/-- Within the counter's range, the 626000 ticks of its timeout are over after 626000 ticks. -/
theorem timeout_exact_at_limit :
    .push (.disconnected .supervisionTimeout) ∈
      ((linkAt 4).connTick Hw.standIn ⟨reading 4 626000, [], 0⟩).log :=
  ((timeout_exact_iff Hw.standIn (linkAt 4) _ ⟨reading 4 626000, [], 0⟩ 4 626000 (by decide) rfl rfl
    rfl).mpr (.inl (by decide))).mpr (by decide)

/-- Ten ticks after a packet that came four ticks before the wrap, the link is dropped. -/
theorem timeout_after_ten_ticks :
    ¬ (.push (.disconnected .supervisionTimeout) ∈
        ((linkAt (2 ^ 24 - 4)).connTick Hw.standIn ⟨reading (2 ^ 24 - 4) 10, [], 0⟩).log ↔
      (Conn.sample .slave).timeout.toNat * 313 ≤ 10) := by
  intro h
  have hover : (linkAt (2 ^ 24 - 4)).TimedOut ⟨reading (2 ^ 24 - 4) 10, [], 0⟩ :=
    ⟨_, rfl, by decide⟩
  exact absurd (h.mp ((Ble.timeout_reported_iff _ _ _).mpr hover)) (by decide)

/-! ## The received data -/

/-- The state after some calls of `next_event`. -/
def Ble.popEvents : Nat → Ble → Ble
  | 0, b => b
  | n + 1, b => popEvents n b.popEvent.2

/-- The queue is all that `next_event` touches. -/
theorem Ble.popEvents_connRxData (n : Nat) (b : Ble) :
    (b.popEvents n).connRxData = b.connRxData := by
  induction n generalizing b with
  | zero => rfl
  | succ n ih => exact ih b.popEvent.2

/-- **`ConnData` never comes with its data.**  Whatever the tick was told of, it was told of some data;
    and after any number of pops `conn_rx_data` is empty, so it is none of the values a peer can have
    written. -/
theorem connData_without_data (hw : Hw) (b b' : Ble) (c : Conn) (env : ConnEnv) (log : List BleAct)
    (alive : Bool) (hconn : b.conn = some c) (htick : b.connTick hw env = ⟨log, .ok (alive, b')⟩)
    (hdata : .push .connData ∈ log) (pops : Nat) :
    (∃ answer c', (c.event hw env.windows).res = .ok (answer, c') ∧ 0 < c'.rxDataLen) ∧
      ∀ v : List UInt8, 1 ≤ v.length → (b'.popEvents pops).connRxData ≠ .ok v := by
  have hdone := b.connTick_done hw env
  rw [htick] at hdone
  cases hdone with
  | closed hreason =>
    rcases List.mem_append.mp hdata with h | h
    · obtain ⟨act, _, hact⟩ := List.mem_map.mp h
      cases hact
    · simp at h
  | kept hconn' hin hevent frame quiet data =>
    cases hconn.symm.trans hconn'
    refine ⟨⟨_, _, hevent, data hdata⟩, ?_⟩
    intro v hv hread
    rw [Ble.popEvents_connRxData, frame] at hread
    -- the length is zero
    have hempty : (Except.ok [] : Except Panic (List UInt8)) = .ok v := hread
    cases hempty
    cases hv

/-- A slave on an encrypted link that has the first byte, the opcode, of a Write Command of four. -/
def writtenLink : Conn :=
  { Conn.sample .slave with
    encrypted := true, rxL2cap := (Buf.zero 256).set 0 0x52, rxL2capLen := 1, rxL2capMsgLen := 4 }

/-- The rest of the command arrives: the RX handle, and the byte `0x41`. -/
def writeEnv : ConnEnv :=
  ⟨0, [.of 0 [0x00, 7, 0x03, 0x00, 0x41, 0, 0, 0, 0] (by decide)], 0⟩

/-- The event `ConnData`. -/
def isConnData : BleAct → Bool
  | .push .connData => true
  | _ => false

theorem isConnData_mem {log : List BleAct} (h : log.any isConnData = true) :
    .push .connData ∈ log := by
  obtain ⟨a, hmem, ha⟩ := List.any_eq_true.mp h
  unfold isConnData at ha
  split at ha
  · exact hmem
  · cases ha

/-- The tick in which the command is completed. -/
theorem written_tick :
    ∃ log b', Ble.connTick Hw.standIn { Ble.new with conn := some writtenLink } writeEnv =
        ⟨log, .ok (true, b')⟩ ∧
      .push .connData ∈ log ∧ b'.popEvent.1 = some .connData ∧ b'.popEvent.2.connRxData = .ok [] := by
  have hlog : (Ble.connTick Hw.standIn { Ble.new with conn := some writtenLink } writeEnv).log.any
      isConnData = true := by decide +kernel
  have hread : ((Ble.connTick Hw.standIn { Ble.new with conn := some writtenLink } writeEnv).res.map
      fun r => (r.1, r.2.popEvent.1, r.2.popEvent.2.connRxData)) =
      .ok (true, some .connData, .ok []) := by decide +kernel
  generalize Ble.connTick Hw.standIn { Ble.new with conn := some writtenLink } writeEnv = tick
    at hlog hread ⊢
  obtain ⟨log, _ | ⟨alive, b'⟩⟩ := tick
  · cases hread
  obtain ⟨rfl, hpop, hdata⟩ : alive = true ∧ b'.popEvent.1 = some .connData ∧
      b'.popEvent.2.connRxData = .ok [] := by simpa using Except.ok.inj hread
  exact ⟨log, b', rfl, isConnData_mem hlog, hpop, hdata⟩

/-- What `connData_without_data` says of that tick, after the one pop that brings the event. -/
theorem written_byte_announced :
    ∃ log alive b', Ble.connTick Hw.standIn { Ble.new with conn := some writtenLink } writeEnv =
        ⟨log, .ok (alive, b')⟩ ∧ (b'.popEvents 1).connRxData ≠ .ok [0x41] := by
  obtain ⟨log, b', htick, hmem, _, _⟩ := written_tick
  exact ⟨log, true, b', htick, (connData_without_data Hw.standIn _ b' writtenLink writeEnv log true rfl
    htick hmem 1).2 [0x41] (by decide)⟩

/-- The byte is received and announced, and gone when the application asks for it. -/
theorem written_byte_is_lost :
    ∃ log b' answer c',
      (writtenLink.event Hw.standIn writeEnv.windows).res = .ok (answer, c') ∧
      c'.rxData.bytes.take c'.rxDataLen = [0x41] ∧
      Ble.connTick Hw.standIn { Ble.new with conn := some writtenLink } writeEnv =
        ⟨log, .ok (true, b')⟩ ∧
      .push .connData ∈ log ∧ b'.popEvent.1 = some .connData ∧ b'.popEvent.2.connRxData = .ok [] := by
  have hevent : ((writtenLink.event Hw.standIn writeEnv.windows).res.map
      fun r => r.2.rxData.bytes.take r.2.rxDataLen) = .ok [0x41] := by decide +kernel
  generalize writtenLink.event Hw.standIn writeEnv.windows = event at hevent ⊢
  obtain ⟨_, _ | ⟨answer, c'⟩⟩ := event
  · cases hevent
  obtain ⟨log, b', htick⟩ := written_tick
  exact ⟨log, b', answer, c', rfl, Except.ok.inj hevent, htick⟩

end NrfBle
