/-
  One connection event (`src/hw/conn.rs`, `Conn::event` and `Conn::event_master`).

  The radio and the timer are the environment: for each listening window they deliver a
  `Window` — nothing in time, a packet with a bad CRC, or a packet of 64 buffer bytes — together
  with the time at its end.  A packet carries a ghost `tag` that says which PDU of the peer it is
  a copy of.

  A slave listens in up to four windows, as long as the peer announces more data, and answers once
  at the end; when the LAST window brings nothing it does not answer at all.  A master sends first
  and then listens in one window.
-/
import Mathlib.Tactic
import NrfBle.Hw.Conn.L2cap
import NrfBle.Hw.Conn.Control

namespace NrfBle

open Checked

/-- What one listening window brings. -/
inductive Reception
  | timeout
  | crcError
  | packet (tag : Nat) (buf : Buf 64)

/-- The ghost tag of what a window brings. -/
def Reception.tag : Reception → Nat
  | .packet tag _ => tag
  | _ => 0

/-- A listening window: its outcome, and the timer when it is over. -/
structure Window where
  rx : Reception
  now : UInt32

/-- The skipping loop of `next_channel`: at most `guard` steps to a channel of the map. -/
def skipUnused (map : Buf 5) : Nat → Nat → Nat
  | 0, ch => ch
  | guard + 1, ch =>
    if map.bytes.getD (ch / 8) 0 &&& ((1 : UInt8) <<< UInt8.ofNat (ch % 8)) = 0 then
      skipUnused map guard ((ch + 1) % 37)
    else ch

/-- `next_channel`.  The sum is an 8-bit one. -/
def nextChannel (current hop : UInt8) (map : Buf 5) : Except Panic UInt8 := do
  let sum ← fit 8 (current.toNat + hop.toNat)
  return UInt8.ofNat (skipUnused map 37 (sum % 37))

namespace Conn

/-! ## The start of an event -/

/-- A pending connection update takes effect at its instant. -/
def applyUpdate (c : Conn) : Conn :=
  match c.pendingUpdate with
  | some (interval, timeout) =>
    if c.eventCounter = c.pendingUpdateInstant then
      { c with interval := interval, timeout := timeout, accum := IntervalAccum.new125ms }
    else c
  | none => c

/-- Counters, pending update, anchor and channel at the start of `Conn::event`. -/
def beginEvent (c : Conn) : Except Panic Conn := do
  let c := { c with
    eventCounter := c.eventCounter + 1
    packetCounter := if c.encrypted then c.packetCounter + 1 else c.packetCounter }
  let c := c.applyUpdate
  let (ticks, accum) ← c.accum.next c.interval
  let channel ← nextChannel c.channel c.hop c.channelMap
  return { c with
    accum := accum, anchor := c.anchor + UInt32.ofNat ticks, channel := channel }

/-! ## Receiving -/

/-- One listening window: `none` when nothing usable came, else what the decoder says.  The radio
    measures the packet as it is on air, before the cipher works on it. -/
def listen (hw : Hw) (c : Conn) : Reception → Except Panic (Option (Except Error DataPdu) × Conn)
  | .timeout => return (none, c)
  | .crcError => return (none, c)
  | .packet _ buf => do
    let len ← Radio.pduLen buf.bytes
    let (ok, c) := rx hw { c with rxBuf := buf }
    if ok then
      let bytes ← c.rxBuf.upto len
      let pdu ← DataPdu.decode bytes
      return (some pdu, c)
    else return (none, c)

/-- `if pdu_sn != self.nesn { self.nesn = pdu_sn }`. -/
def acknowledge (c : Conn) (sn : Bool) : Conn := if sn != c.nesn then { c with nesn := sn } else c

/-- The call of `handle_l2cap` for a PDU of the peer. -/
def deliver (hw : Hw) (c : Conn) (tag : Nat) (pdu : DataPdu) (result : ConnEvent) :
    Logged Act (Conn × ConnEvent) := do
  Logged.emit (.l2cap c (some tag) pdu.llid (pdu.payload.take 64))
  Logged.lift (c.handleL2cap hw (pdu.payload.take 64) pdu.llid result)

/-- What a slave does with a decoded PDU.  The sequence number is recorded in every branch, and the
    payload is handled in every branch whether the PDU is new or not. -/
def slaveHandle (hw : Hw) (c : Conn) (tag : Nat) (pdu : DataPdu) (result : ConnEvent) :
    Logged Act (Except DisconnectReason ConnEvent × Conn) := do
  Logged.emit (.accept c tag pdu)
  let c := c.acknowledge pdu.sn
  match pdu.payload.take 64 with
  | [] => return (.ok result, c)
  | op :: rest =>
    if pdu.llid = llidControl then
      let (answer, c) ← c.handleLlControl hw (op :: rest)
      match answer with
      | .ok () => return (.ok (.control op), c)
      | .error reason => return (.error reason, c)
    else
      -- whether the PDU is new is worked out in the source and not used
      let (c, result) ← c.deliver hw tag pdu result
      return (.ok result, c)

/-- How the slave's listening loop ends. -/
inductive LoopEnd
  | silent
  | invalid
  | disconnected (reason : DisconnectReason)
  | done (result : ConnEvent)

/-- The listening loop of a slave; `handled` PDUs were handled so far. -/
def slaveLoop (hw : Hw) : List Window → Nat → ConnEvent → Conn → Logged Act (LoopEnd × Conn)
  | [], _, _, c => return (.silent, c)
  | w :: ws, handled, result, c => do
    let (got, c) ← Logged.lift (c.listen hw w.rx)
    match got with
    | none => return (.silent, c)
    | some (.error _) => return (.invalid, c)
    | some (.ok pdu) =>
      let (step, c) ← slaveHandle hw { c with lastRx := w.now } w.rx.tag pdu result
      match step with
      | .error reason => return (.disconnected reason, c)
      | .ok result =>
        -- no more data announced, or four PDUs in one event
        if !pdu.md || handled + 1 ≥ 4 then return (.done result, c)
        else slaveLoop hw ws (handled + 1) result c

/-- What a master does with a decoded PDU.  Of the control PDUs only `LL_TERMINATE_IND` has an
    effect. -/
def masterHandle (hw : Hw) (c : Conn) (tag : Nat) (pdu : DataPdu) :
    Logged Act (ConnEvent × Conn) := do
  Logged.emit (.accept c tag pdu)
  let c := c.acknowledge pdu.sn
  match pdu.payload.take 64 with
  | [] => return (.idle, c)
  | op :: _ =>
    if pdu.llid = llidControl then
      if op = llControlTerminateInd then return (.disconnected .remoteTerminate, c)
      else return (.control op, c)
    else
      let (c, result) ← c.deliver hw tag pdu .idle
      return (result, c)

/-! ## The event -/

/-- Send `LL_TERMINATE_IND`, straight to the radio. -/
def sendTerminate (c : Conn) : Logged Act (Except Error ConnEvent × Conn) := do
  Logged.emit (.terminate c)
  let c := { c with
    txBuf := c.controlBuf 2 [llControlTerminateInd, 0x13] (by decide) }
  c.transmitRaw .terminate 4
  return (.ok (.disconnected .hostTerminate), c)

/-- `Conn::event_master`. -/
def eventMaster (hw : Hw) (c : Conn) (ws : List Window) :
    Logged Act (Except Error ConnEvent × Conn) :=
  if c.terminatePending then c.sendTerminate
  else do
    let c ← c.respond hw
    match ws with
    | [] => return (.ok .idle, c)
    | w :: _ =>
      let (got, c) ← Logged.lift (c.listen hw w.rx)
      match got with
      | none => return (.ok .idle, c)
      | some (.error _) => return (.ok .idle, { c with lastRx := w.now })
      | some (.ok pdu) =>
        let (result, c) ← masterHandle hw { c with lastRx := w.now } w.rx.tag pdu
        return (.ok result, c)

/-- The slave's part of `Conn::event`. -/
def eventSlave (hw : Hw) (c : Conn) (ws : List Window) :
    Logged Act (Except Error ConnEvent × Conn) := do
  let (fin, c) ← slaveLoop hw ws 0 .idle c
  match fin with
  | .silent => return (.ok .idle, c)
  | .invalid => return (.error .invalidPdu, c)
  | .disconnected reason => return (.ok (.disconnected reason), c)
  | .done result =>
    if c.terminatePending then c.sendTerminate
    else
      let c ← c.respond hw
      return (.ok result, c)

/-- `Conn::event`. -/
def event (hw : Hw) (c : Conn) (ws : List Window) :
    Logged Act (Except Error ConnEvent × Conn) := do
  let c' ← Logged.lift c.beginEvent
  Logged.emit (.tick c)
  match channelFrequency c'.channel with
  | .error e => return (.error e, c')
  | .ok _ =>
    match c'.role with
    | .master => c'.eventMaster hw ws
    | .slave => c'.eventSlave hw ws

/-! ## What an event leaves alone -/

/-- The termination PDU always goes out, and never through the cipher. -/
theorem sendTerminate_spec (c : Conn) :
    ∃ t r c', c.sendTerminate = ⟨[.terminate c, .tx t], .ok (r, c')⟩ ∧ SentRaw c .terminate t ∧
      OnlyTxBuf c c' := by
  unfold sendTerminate
  dsimp only
  rw [transmitRaw_of_le _ _ (by omega)]
  exact ⟨_, _, _, rfl, ⟨rfl, rfl, rfl⟩, rfl⟩

/-- The start of an event: which fields change, and how the packet counter does. -/
theorem beginEvent_frame {c c' : Conn} (h : c.beginEvent = .ok c') :
    c' = { c with
      eventCounter := c.eventCounter + 1
      packetCounter := if c.encrypted then c.packetCounter + 1 else c.packetCounter
      interval := c'.interval, timeout := c'.timeout, accum := c'.accum, anchor := c'.anchor
      channel := c'.channel } := by
  have hupd : ∀ d : Conn, d.applyUpdate = { d with
      interval := d.applyUpdate.interval, timeout := d.applyUpdate.timeout
      accum := d.applyUpdate.accum } := by
    intro d
    unfold applyUpdate
    split
    · split <;> rfl
    · rfl
  obtain ⟨⟨ticks, accum⟩, _, h⟩ := bind_eq_ok.mp h
  obtain ⟨channel, _, h⟩ := bind_eq_ok.mp h
  cases h
  rw [hupd]

/-- Acknowledging is recording the sequence number. -/
theorem acknowledge_eq (c : Conn) (sn : Bool) : c.acknowledge sn = { c with nesn := sn } := by
  unfold acknowledge
  split
  · rfl
  · rename_i h
    have hsn : sn = c.nesn := by simpa using h
    rw [hsn]

/-- Listening changes only the receive buffer and the cipher. -/
theorem listen_frame {hw : Hw} {c c' : Conn} {r : Reception}
    {got : Option (Except Error DataPdu)} (h : c.listen hw r = .ok (got, c')) :
    c' = { c with rxBuf := c'.rxBuf, ccm := c'.ccm } := by
  cases r with
  | timeout => cases h; rfl
  | crcError => cases h; rfl
  | packet tag buf =>
    obtain ⟨len, _, h⟩ := bind_eq_ok.mp h
    have hrx : ∀ d : Conn, (d.rx hw).2 =
        { d with rxBuf := (d.rx hw).2.rxBuf, ccm := (d.rx hw).2.ccm } := by
      intro d
      unfold rx
      split <;> rfl
    dsimp only at h
    have hc' : c' = (rx hw { c with rxBuf := buf }).2 := by
      split at h
      · obtain ⟨_, _, h⟩ := bind_eq_ok.mp h
        obtain ⟨_, _, h⟩ := bind_eq_ok.mp h
        cases h; rfl
      · cases h; rfl
    rw [hc', hrx]

/-! ## The branches of a slave's event -/

/-- What a slave makes of the answer of `handle_ll_control`. -/
def controlResult (op : UInt8) : Except DisconnectReason Unit → Except DisconnectReason ConnEvent
  | .ok () => .ok (.control op)
  | .error reason => .error reason

/-- **Handling a PDU, by what is in it**: nothing, a control PDU or data. -/
theorem slaveHandle_cases (hw : Hw) (c : Conn) (tag : Nat) (pdu : DataPdu) :
    (∀ before, c.slaveHandle hw tag pdu before =
      ⟨[.accept c tag pdu], .ok (.ok before, c.acknowledge pdu.sn)⟩) ∨
    (∃ op rest, ∀ before, c.slaveHandle hw tag pdu before =
      ⟨.accept c tag pdu :: ((c.acknowledge pdu.sn).handleLlControl hw (op :: rest)).log,
        ((c.acknowledge pdu.sn).handleLlControl hw (op :: rest)).res >>=
          fun r => .ok (controlResult op r.1, r.2)⟩) ∨
    (∀ before, c.slaveHandle hw tag pdu before =
      ⟨[.accept c tag pdu,
          .l2cap (c.acknowledge pdu.sn) (some tag) pdu.llid (pdu.payload.take 64)],
        (c.acknowledge pdu.sn).handleL2cap hw (pdu.payload.take 64) pdu.llid before >>=
          fun r => .ok (.ok r.2, r.1)⟩) := by
  unfold slaveHandle
  simp only [Logged.emit_bind]
  cases hpay : pdu.payload.take 64 with
  | nil => exact .inl fun _ => rfl
  | cons op rest =>
    right
    by_cases hllid : pdu.llid = llidControl
    · refine .inl ⟨op, rest, fun before => ?_⟩
      simp only [if_pos hllid]
      refine Logged.ext (congrArg (List.cons _) (Logged.bind_log ?_))
        ((Logged.bind_res _ _).trans (congrArg _ (funext ?_)))
      all_goals
        rintro ⟨answer, c'⟩
        cases answer <;> rfl
    · refine .inr fun before => ?_
      simp only [if_neg hllid]
      unfold deliver
      rw [hpay]
      cases (c.acknowledge pdu.sn).handleL2cap hw (op :: rest) pdu.llid before <;> rfl

/-- How a round of the listening loop goes: it ends the loop, or the rest of the loop follows. -/
inductive Round (hw : Hw) (w : Window) (ws : List Window) (handled : Nat) (before : ConnEvent)
    (c : Conn) : LoopEnd → Conn → Prop
  | silent {d : Conn} (heard : c.listen hw w.rx = .ok (none, d)) : Round hw w ws handled before c .silent d
  | invalid {e : Error} {d : Conn} (heard : c.listen hw w.rx = .ok (some (.error e), d)) :
      Round hw w ws handled before c .invalid d
  | ended {pdu : DataPdu} {c₁ d : Conn} {reason : DisconnectReason}
      (heard : c.listen hw w.rx = .ok (some (.ok pdu), c₁))
      (handles : (slaveHandle hw { c₁ with lastRx := w.now } w.rx.tag pdu before).res =
        .ok (.error reason, d)) : Round hw w ws handled before c (.disconnected reason) d
  | last {pdu : DataPdu} {c₁ d : Conn} {result : ConnEvent}
      (heard : c.listen hw w.rx = .ok (some (.ok pdu), c₁))
      (handles : (slaveHandle hw { c₁ with lastRx := w.now } w.rx.tag pdu before).res =
        .ok (.ok result, d))
      (stop : pdu.md = false ∨ handled + 1 ≥ 4) : Round hw w ws handled before c (.done result) d
  | next {pdu : DataPdu} {c₁ c₂ d : Conn} {result : ConnEvent} {fin : LoopEnd}
      (heard : c.listen hw w.rx = .ok (some (.ok pdu), c₁))
      (handles : (slaveHandle hw { c₁ with lastRx := w.now } w.rx.tag pdu before).res =
        .ok (.ok result, c₂))
      (goOn : pdu.md = true ∧ handled + 1 < 4)
      (rest : (slaveLoop hw ws (handled + 1) result c₂).res = .ok (fin, d)) :
      Round hw w ws handled before c fin d

/-- **A round of the listening loop that returns.** -/
theorem slaveLoop_cases {hw : Hw} {w : Window} {ws : List Window} {handled : Nat}
    {before : ConnEvent} {c d : Conn} {fin : LoopEnd}
    (h : (slaveLoop hw (w :: ws) handled before c).res = .ok (fin, d)) :
    Round hw w ws handled before c fin d := by
  unfold slaveLoop at h
  rw [Logged.bind_res] at h
  obtain ⟨⟨got, c₁⟩, heard, h⟩ := bind_eq_ok.mp h
  dsimp only at h
  split at h
  · cases h; exact .silent heard
  · cases h; exact .invalid heard
  · rename_i pdu
    rw [Logged.bind_res] at h
    obtain ⟨⟨step, c₂⟩, handles, h⟩ := bind_eq_ok.mp h
    dsimp only at h
    split at h
    · cases h; exact .ended heard handles
    · split at h
      · rename_i hstop
        cases h
        exact .last heard handles (by simpa using hstop)
      · rename_i hgo
        simp only [Bool.or_eq_true, Bool.not_eq_true', decide_eq_true_eq, not_or,
          Bool.not_eq_false] at hgo
        exact .next heard handles ⟨hgo.1, by omega⟩ h

end Conn

end NrfBle
