/-
  The open connection, seen from the host (`src/hw/ble.rs`: `conn_tick`, `conn_rx_data`, and the calls
  that need a connection).

  `connTick` first compares the time since the last reception with the supervision timeout, then runs
  one connection event, then reports: the link is closed on a timeout, on an error of the event and
  when the event says so.  What the peer wrote is announced by `ConnData`; the length of the written
  data is cleared BEFORE that event is pushed.

  The calls of the application are one definition, `onConn`: refuse when there is no connection, else
  apply the connection's own operation.

  What a tick can do to the link is said once (`TickDone`): stop half-way, close it, or keep it.
-/
import Mathlib.Tactic
import NrfBle.Hw.Conn.Outcome
import NrfBle.Hw.Ble.State

namespace NrfBle

open Checked

/-- What a `conn_tick` reads: the clock, the windows of the connection event, and the compare value
    the event leaves armed. -/
structure ConnEnv where
  now : UInt32
  windows : List Window
  compare : UInt32

namespace Ble

/-! ## The tick -/

/-- The end of a connection: the record is dropped, the radio goes back to advertising, and the
    application is told. -/
def closeLink (b : Ble) (reason : DisconnectReason) : Logged BleAct (Bool × Ble) := do
  let _ ← setChannel 37
  let b ← { b with conn := none }.push (.disconnected reason)
  return (false, b)

/-- What `conn_tick` reports of an event that did not end the link. -/
def connReport (b : Ble) (evt : ConnEvent) : Logged BleAct Ble :=
  match evt with
  | .control op => b.push (.llControl op)
  | .l2cap cid => b.push (.l2cap cid)
  | _ => return b

/-- `conn_tick`'s treatment of received data. -/
def connDeliver (b : Ble) : Logged BleAct (Bool × Ble) :=
  match b.conn with
  | none => return (true, b)
  | some c =>
    if c.rxDataLen > 0 then do
      let b ← { b with conn := some { c with rxDataLen := 0 } }.push .connData
      return (true, b)
    else return (true, b)

/-- `Ble::conn_tick`. -/
def connTick (hw : Hw) (b : Ble) (env : ConnEnv) : Logged BleAct (Bool × Ble) :=
  match b.conn with
  | none => b.closeLink .localError
  | some c =>
    -- `timeout * 313` fits 32 bits for every 16-bit timeout
    if (env.now - c.lastRx).toNat ≥ c.timeout.toNat * 313 then b.closeLink .supervisionTimeout
    else do
      let (answer, c) ← (c.event hw env.windows).within BleAct.conn
      let b := { b with conn := some c, compare := env.compare }
      match answer with
      | .error _ => b.closeLink .localError
      | .ok (.disconnected reason) => b.closeLink reason
      | .ok evt =>
        let b ← b.connReport evt
        b.connDeliver

/-- `Ble::conn_rx_data`. -/
def connRxData (b : Ble) : Except Panic (List UInt8) :=
  match b.conn with
  | none => return []
  | some c => c.rxData.upto c.rxDataLen

/-- `Ble::next_event`. -/
def popEvent (b : Ble) : Option BleEvent × Ble :=
  let r := nextEvent b.events
  (r.1, { b with events := r.2 })

/-! ## Calls on the connection -/

/-- A call that needs a connection and then succeeds. -/
def onConn (b : Ble) (f : Conn → Conn) : Logged BleAct (Except Error Unit × Ble) :=
  match b.conn with
  | none => return (.error .notRunning, b)
  | some c => return (.ok (), { b with conn := some (f c) })

/-- `Ble::conn_send`. -/
def connSend (b : Ble) (data : List UInt8) : Logged BleAct (Except Error Unit × Ble) :=
  b.onConn fun c => c.queueNotify data

/-- `Ble::l2cap_connect`. -/
def l2capConnect (b : Ble) (psm : UInt16) : Logged BleAct (Except Error Unit × Ble) :=
  b.onConn fun c => c.l2capConnect psm

/-- `Ble::l2cap_send`. -/
def l2capSend (b : Ble) (data : List UInt8) : Logged BleAct (Except Error Unit × Ble) :=
  match b.conn with
  | none => return (.error .notRunning, b)
  | some c =>
    match c.l2capSend data with
    | (answer, c) => return (answer, { b with conn := some c })

/-- `Ble::gap_pair`. -/
def gapPair (b : Ble) : Logged BleAct (Except Error Unit × Ble) := b.onConn Conn.gapPair

/-- A GATT client request. -/
def gattRequest (b : Ble) (req : List UInt8) : Logged BleAct (Except Error Unit × Ble) :=
  b.onConn fun c => c.gattSendRequest req

/-- `Ble::gatt_discover_primary_services`. -/
def gattDiscoverPrimaryServices (b : Ble) : Logged BleAct (Except Error Unit × Ble) :=
  b.gattRequest (0x10 :: le16 0x2800 ++ le16 0x0001 ++ le16 0xFFFF)

/-- `Ble::gatt_discover_characteristics`. -/
def gattDiscoverCharacteristics (b : Ble) (start «end» : UInt16) :
    Logged BleAct (Except Error Unit × Ble) :=
  b.gattRequest (0x08 :: le16 0x2803 ++ le16 start ++ le16 «end»)

/-- `Ble::gatt_read`. -/
def gattRead (b : Ble) (handle : UInt16) : Logged BleAct (Except Error Unit × Ble) :=
  b.gattRequest (0x0A :: le16 handle)

/-- `Ble::gatt_write`: at most 20 bytes. -/
def gattWrite (b : Ble) (handle : UInt16) (data : List UInt8) :
    Logged BleAct (Except Error Unit × Ble) :=
  b.gattRequest (0x12 :: le16 handle ++ data.take 20)

/-- `Ble::gatt_subscribe`. -/
def gattSubscribe (b : Ble) (cccdHandle : UInt16) : Logged BleAct (Except Error Unit × Ble) :=
  b.gattRequest (0x12 :: le16 cccdHandle ++ le16 0x0001)

/-- `Ble::gap_terminate`. -/
def gapTerminate (b : Ble) : Logged BleAct (Except Error Unit × Ble) :=
  b.onConn fun c => { c with terminatePending := true }

/-- `Ble::gap_encrypt`. -/
def gapEncrypt (b : Ble) : Logged BleAct (Except Error Unit × Ble) :=
  match b.conn with
  | none => return (.error .notRunning, b)
  | some c => do
    let (answer, c) ← c.gapEncrypt.within BleAct.conn
    return (answer, { b with conn := some c })

/-- `Ble::gap_bond_save`: nothing happens without a connection. -/
def gapBondSave (b : Ble) (peer : Buf 6) (ltk : Buf 16) (irk : Option (Buf 16)) : Ble :=
  match b.conn with
  | none => b
  | some c => { b with conn := some { c with bondStore := c.bondStore.save peer ltk irk } }

/-- `Ble::gap_bond_find`. -/
def gapBondFind (b : Ble) (peer : Buf 6) : Option BondInfo :=
  match b.conn with
  | none => none
  | some c => c.bondStore.find peer

/-- `Ble::gatt_poll`. -/
def gattPoll (b : Ble) : Option (UInt8 × Buf 64 × Nat) × Ble :=
  match b.conn with
  | none => (none, b)
  | some c =>
    let r := c.gattTakeResult
    (if r.1.2.2 > 0 then some r.1 else none, { b with conn := some r.2 })

/-! ## What a tick does -/

/-- The connection is the same one: opened by the same request, with the same bonds. -/
def SameLink : Option Conn → Option Conn → Prop
  | none, none => True
  | some c, some c' => c.SamePeer c'
  | _, _ => False

theorem SameLink.refl (conn : Option Conn) : SameLink conn conn := by
  cases conn with
  | none => trivial
  | some c => exact Conn.SamePeer.refl c

theorem SameLink.isSome {conn conn' : Option Conn} (h : SameLink conn conn') :
    conn'.isSome = conn.isSome := by
  cases conn <;> cases conn' <;> first | rfl | exact h.elim

/-- The supervision timeout has passed by the clock. -/
def TimedOut (b : Ble) (env : ConnEnv) : Prop :=
  ∃ c, b.conn = some c ∧ c.timeout.toNat * 313 ≤ (env.now - c.lastRx).toNat

/-- **What a `conn_tick` can do**: stop half-way in the event; close the link and say so; or keep it,
    with nothing said about the link and the length of the received data cleared. -/
inductive TickDone (hw : Hw) (b : Ble) (env : ConnEnv) : Logged BleAct (Bool × Ble) → Prop
  | panicked {acts : List Act} {p : Panic} (hopen : b.conn.isSome) (hin : ¬ b.TimedOut env) :
      TickDone hw b env ⟨acts.map BleAct.conn, .error p⟩
  | closed {acts : List Act} {reason : DisconnectReason} {compare : UInt32}
      (hreason : reason = .supervisionTimeout ↔ b.TimedOut env) :
      TickDone hw b env ⟨acts.map BleAct.conn ++ [.setChannel 37, .push (.disconnected reason)],
        .ok (false, { b with
          conn := none, compare := compare, events := pushEvent b.events (.disconnected reason) })⟩
  | kept {log : List BleAct} {b' : Ble} {c c' : Conn} {answer : Except Error ConnEvent}
      (hconn : b.conn = some c) (hin : ¬ b.TimedOut env)
      (hevent : (c.event hw env.windows).res = .ok (answer, c'))
      (frame : b' = { b with
        conn := some { c' with rxDataLen := 0 }, compare := b'.compare, events := b'.events })
      (quiet : Quiet log) (data : .push .connData ∈ log → 0 < c'.rxDataLen) :
      TickDone hw b env ⟨log, .ok (true, b')⟩

theorem closeLink_eq (b : Ble) (reason : DisconnectReason) :
    b.closeLink reason = ⟨[.setChannel 37, .push (.disconnected reason)],
      .ok (false, { b with conn := none, events := pushEvent b.events (.disconnected reason) })⟩ := rfl

/-- The actions of a connection are none of its host's. -/
theorem Quiet.conn (acts : List Act) : Quiet (acts.map BleAct.conn) := by
  intro a ha
  obtain ⟨act, _, rfl⟩ := List.mem_map.mp ha
  exact ⟨rfl, rfl⟩

theorem Quiet.not_disconnected {log : List BleAct} (h : Quiet log) (reason : DisconnectReason) :
    .push (.disconnected reason) ∉ log := fun hmem => by
  have := (h _ hmem).1
  cases this

theorem connReport_quietly (b : Ble) (evt : ConnEvent) :
    ∃ log events, b.connReport evt = ⟨log, .ok { b with events := events }⟩ ∧ Quiet log ∧
      .push .connData ∉ log := by
  unfold connReport
  split
  · exact ⟨_, _, rfl, .cons ⟨rfl, rfl⟩ .nil, by simp [Logged.emit]⟩
  · exact ⟨_, _, rfl, .cons ⟨rfl, rfl⟩ .nil, by simp [Logged.emit]⟩
  · exact ⟨[], b.events, rfl, .nil, by simp⟩

/-- After the delivery the length is cleared, announced or not. -/
theorem connDeliver_quietly {b : Ble} {c : Conn} (h : b.conn = some c) :
    ∃ log events, b.connDeliver =
      ⟨log, .ok (true, { b with conn := some { c with rxDataLen := 0 }, events := events })⟩ ∧
      Quiet log ∧ (.push .connData ∈ log → 0 < c.rxDataLen) := by
  unfold connDeliver
  rw [h]
  dsimp only
  split
  · rename_i hlen
    exact ⟨_, _, rfl, .cons ⟨rfl, rfl⟩ .nil, fun _ => hlen⟩
  · rename_i hlen
    refine ⟨[], b.events, ?_, .nil, by intro hmem; cases hmem⟩
    have hzero : { c with rxDataLen := 0 } = c := by
      rw [show (0 : Nat) = c.rxDataLen by omega]
    rw [hzero, ← h]
    rfl

/-- **One `conn_tick`**, in any state. -/
theorem connTick_done (hw : Hw) (b : Ble) (env : ConnEnv) : TickDone hw b env (b.connTick hw env) := by
  unfold connTick
  split
  · rename_i hnone
    rw [closeLink_eq]
    refine @TickDone.closed hw b env [] _ b.compare ⟨by rintro ⟨⟩, ?_⟩
    rintro ⟨c, hc, _⟩
    rw [hnone] at hc
    cases hc
  · rename_i c hc
    split
    · rename_i hge
      rw [closeLink_eq]
      exact @TickDone.closed hw b env [] _ b.compare ⟨fun _ => ⟨c, hc, hge⟩, fun _ => rfl⟩
    · rename_i hlt
      have hin : ¬ b.TimedOut env := by
        rintro ⟨c₁, hc₁, hge⟩
        cases hc.symm.trans hc₁
        exact hlt hge
      rcases hres : (c.event hw env.windows).res with p | ⟨answer, c'⟩
      · rw [Logged.bind_of_error (show ((c.event hw env.windows).within BleAct.conn).res = .error p from hres)]
        exact .panicked (by rw [hc]; rfl) hin
      · obtain ⟨_, hanswer⟩ := Conn.event_outcome hres
        rw [Logged.bind_of_ok (show ((c.event hw env.windows).within BleAct.conn).res = _ from hres)]
        dsimp only
        split
        · exact .closed ⟨by rintro ⟨⟩, fun h => absurd h hin⟩
        · -- the event's own reasons are the two requests
          rename_i reason
          refine .closed ⟨?_, fun h => absurd h hin⟩
          rintro rfl
          rcases hanswer _ rfl with h | h <;> cases h
        · rename_i evt _
          obtain ⟨log, events, hreport, hquiet, hnot⟩ := connReport_quietly
            { b with conn := some c', compare := env.compare } evt
          obtain ⟨log', events', hdeliver, hquiet', hlen⟩ := connDeliver_quietly
            (b := { b with conn := some c', compare := env.compare, events := events }) rfl
          rw [hreport, Logged.mk_ok_bind, hdeliver]
          refine .kept hc hin hres rfl ((Quiet.conn _).append (hquiet.append hquiet')) ?_
          intro hmem
          rcases List.mem_append.mp hmem with hmem | hmem
          · obtain ⟨act, _, hact⟩ := List.mem_map.mp hmem
            cases hact
          · exact hlen ((List.mem_append.mp hmem).resolve_left hnot)

/-- A tick that panics does so in the event of the open connection, and logs nothing behind it. -/
theorem connTick_panics {hw : Hw} {b : Ble} {env : ConnEnv} {p : Panic}
    (h : (b.connTick hw env).res = .error p) :
    ∃ c, b.conn = some c ∧ (c.event hw env.windows).res = .error p ∧
      (b.connTick hw env).log = (c.event hw env.windows).log.map .conn := by
  unfold connTick at h ⊢
  split at h
  · cases h
  · rename_i c hc
    split at h
    · cases h
    · rename_i hin
      refine ⟨c, hc, ?_⟩
      rw [if_neg hin]
      rcases hres : (c.event hw env.windows).res with q | ⟨answer, c'⟩
      · rw [Logged.bind_of_error (show ((c.event hw env.windows).within BleAct.conn).res = _ from hres)]
          at h ⊢
        cases h
        exact ⟨rfl, rfl⟩
      · -- what is reported behind an event that returned is reported without a panic
        rw [Logged.bind_of_ok (show ((c.event hw env.windows).within BleAct.conn).res = _ from hres)] at h
        dsimp only at h
        split at h
        · cases h
        · cases h
        · rename_i evt _
          obtain ⟨log, events, hreport, _⟩ := connReport_quietly
            { b with conn := some c', compare := env.compare } evt
          obtain ⟨log', events', hdeliver, _⟩ := connDeliver_quietly
            (b := { b with conn := some c', compare := env.compare, events := events }) rfl
          rw [hreport, Logged.mk_ok_bind, hdeliver] at h
          cases h

/-! ## The supervision timeout -/

/-- The timeout is reported when it has passed by the clock, and only then. -/
theorem timeout_reported_iff (hw : Hw) (b : Ble) (env : ConnEnv) :
    .push (.disconnected .supervisionTimeout) ∈ (b.connTick hw env).log ↔ b.TimedOut env := by
  have hdone := b.connTick_done hw env
  generalize b.connTick hw env = x at hdone ⊢
  cases hdone with
  | panicked hopen hin => exact ⟨fun h => absurd h ((Quiet.conn _).not_disconnected _), fun h => absurd h hin⟩
  | kept hconn hin hevent frame quiet data =>
    exact ⟨fun h => absurd h (quiet.not_disconnected _), fun h => absurd h hin⟩
  | closed hreason =>
    rw [← hreason, List.mem_append]
    constructor
    · rintro (h | h)
      · exact absurd h ((Quiet.conn _).not_disconnected _)
      · simpa [eq_comm] using h
    · rintro rfl
      exact .inr (by simp)

end Ble

end NrfBle
