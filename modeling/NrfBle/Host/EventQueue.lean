/-
  The two event queues of the host interface: `Ble::push_event` / `Ble::next_event`
  (`src/hw/ble.rs`, 8 slots) and `Hci::push_event` / `Hci::next_event` (`src/hci.rs`, 16 slots).

  The code of the two is one text with two constants, so both are the generic `Ring` at their own
  element type and size.  What a caller expects of them is a drop-oldest FIFO: 8 slots hold 7
  events, 16 hold 15, since a full ring keeps one slot free.  The generic run theorem says how far
  that expectation is met: always, EXCEPT that a reader who drains the queue after a push that
  overflowed, and then asks once more, is handed the event that push had dropped — after all the
  younger ones.
-/
import Mathlib.Tactic
import NrfBle.Lib.Ring
import NrfBle.Hw.Conn.State

namespace NrfBle

open Checked
open RingBuffer

/-! ## The events -/

/-- `AddrType`. -/
inductive AddrType
  | «public»
  | randomStatic
  | randomPrivateResolvable
  | randomPrivateNonResolvable
  deriving DecidableEq, Repr

/-- `BleEvent`. -/
inductive BleEvent
  | advStarted
  | advStopped
  | scanStarted
  | scanStopped
  | scanReqReceived (addr : Buf 6)
  | connectReqReceived (initAddr : Buf 6) (conn : ConnectReqData)
  | connected (conn : ConnectReqData)
  | disconnected (reason : DisconnectReason)
  | connData
  | llControl (op : UInt8)
  | l2cap (cid : UInt16)
  | periodicAdv (adi : Buf 2) (rssi : Int8)
  | periodicSynced (channel : UInt8) (interval : UInt16)
  | scanReport (addr : Buf 6) (addrType : AddrType) (advType : UInt8) (rssi : Int8)
      (data : Buf 31) (dataLen : Nat)
  deriving DecidableEq

/-- `HciPacket`. -/
structure HciPacket where
  packetType : UInt8
  payload : Buf 260
  len : Nat
  deriving DecidableEq

/-! ## The queues -/

namespace Ble

/-- `EVENT_QUEUE_LEN`. -/
abbrev eventQueueLen : Nat := 8

/-- The fields `events`, `event_head`, `event_tail` of `Ble`. -/
abbrev Events := Ring BleEvent eventQueueLen

/-- The queue of a new `Ble`. -/
def Events.new : Events := Ring.empty BleEvent eventQueueLen (by decide)

/-- `Ble::push_event`. -/
def pushEvent (q : Events) (evt : BleEvent) : Events := q.push evt

/-- `Ble::next_event`. -/
def nextEvent (q : Events) : Option BleEvent × Events := q.pop

/-- What the `next_event` calls of a run return. -/
def answers : Events → List (Op BleEvent) → List (Option BleEvent)
  | _, [] => []
  | q, .push e :: ops => answers (pushEvent q e) ops
  | q, .pop :: ops => (nextEvent q).1 :: answers (nextEvent q).2 ops

theorem answers_eq_outs (q : Events) (ops : List (Op BleEvent)) : answers q ops = q.outs ops := by
  induction ops generalizing q with
  | nil => rfl
  | cons op ops ih =>
    cases op with
    | push e => exact ih _
    | pop => exact congrArg _ (ih _)

end Ble

namespace Hci

/-- The fields `events`, `event_head`, `event_tail` of `Hci`. -/
abbrev Events := Ring HciPacket 16

/-- The queue of `Hci::new`. -/
def Events.new : Events := Ring.empty HciPacket 16 (by decide)

/-- `Hci::push_event`. -/
def pushEvent (q : Events) (evt : HciPacket) : Events := q.push evt

/-- `Hci::next_event`. -/
def nextEvent (q : Events) : Option HciPacket × Events := q.pop

/-- What the `next_event` calls of a run return. -/
def answers : Events → List (Op HciPacket) → List (Option HciPacket)
  | _, [] => []
  | q, .push e :: ops => answers (pushEvent q e) ops
  | q, .pop :: ops => (nextEvent q).1 :: answers (nextEvent q).2 ops

theorem answers_eq_outs (q : Events) (ops : List (Op HciPacket)) : answers q ops = q.outs ops := by
  induction ops generalizing q with
  | nil => rfl
  | cons op ops ih =>
    cases op with
    | push e => exact ih _
    | pop => exact congrArg _ (ih _)

end Hci

/-- **The event queues against the drop-oldest FIFO.**  In every run from the empty queue,
    `Ble::next_event` answers as the FIFO of 7 and `Hci::next_event` as the FIFO of 15 iff the run
    never asks a drained queue whose last push overflowed. -/
theorem event_queues_refine_fifo_iff (ble : List (Op BleEvent)) (hci : List (Op HciPacket)) :
    (Ble.answers Ble.Events.new ble = Fifo.outs 7 [] ble ↔ Ring.NoStalePop 7 [] false ble) ∧
      (Hci.answers Hci.Events.new hci = Fifo.outs 15 [] hci ↔ Ring.NoStalePop 15 [] false hci) := by
  constructor
  · rw [Ble.answers_eq_outs]
    exact Ring.empty_outs_eq_iff (by decide) ble
  · rw [Hci.answers_eq_outs]
    exact Ring.empty_outs_eq_iff (by decide) hci

/-- Eight pushes, then eight pops: the pops return events 2 to 8 and then event 1, which no FIFO of
    any capacity does. -/
theorem overflow_returns_dropped_event :
    let ops : List (Op BleEvent) :=
      [1, 2, 3, 4, 5, 6, 7, 8].map (fun k => Op.push (BleEvent.llControl k)) ++
        List.replicate 8 Op.pop
    Ble.answers Ble.Events.new ops =
        [2, 3, 4, 5, 6, 7, 8, 1].map (fun k => some (BleEvent.llControl k)) ∧
      ∀ k, Ble.answers Ble.Events.new ops ≠ Fifo.outs k [] ops := by
  have hans : Ble.answers Ble.Events.new
      ([1, 2, 3, 4, 5, 6, 7, 8].map (fun k => Op.push (BleEvent.llControl k)) ++
        List.replicate 8 Op.pop) =
      [2, 3, 4, 5, 6, 7, 8, 1].map (fun k => some (BleEvent.llControl k)) := by decide +kernel
  refine ⟨hans, ?_⟩
  intro k h
  -- a FIFO returns a subsequence of what was pushed, and 2 .. 8, 1 is none of 1 .. 8
  have hsub := Fifo.outs_sublist k ([1, 2, 3, 4, 5, 6, 7, 8].map (fun k =>
    Op.push (BleEvent.llControl k)) ++ List.replicate 8 Op.pop) []
  rw [← h, hans] at hsub
  revert hsub
  decide +kernel

end NrfBle
