/-
  The controller layer (`src/hci.rs`: `Hci`): commands of the host become calls of the stack, events of
  the stack become events for the host.

  1. **Commands** — `handleCommand` takes the opcode and the parameters apart, makes at most one call,
     DROPS its answer, and replies: every command it knows or does not know is answered with status 0.

  2. **Events** — `tick` drains the stack's queue.  It is the loop of the source: `tick_eq` unrolls it,
     and says with it that the loop ends.

  Both leave a log of what the stack did and of which packets were queued for the host, as `HciAct`.
  A packet that reaches from its header to the end of the buffer never makes a handler panic
  (`onPacket_ok`).
-/
import Mathlib.Tactic
import NrfBle.Host.H4
import NrfBle.Hw.Ble.Calls

namespace NrfBle

open Checked

/-! ## Constants -/

/-- `HCI_EVT_COMMAND_COMPLETE`. -/
abbrev hciEvtCommandComplete : UInt8 := 0x0E
/-- `HCI_EVT_COMMAND_STATUS`. -/
abbrev hciEvtCommandStatus : UInt8 := 0x0F
/-- `HCI_EVT_DISCONNECTION_COMPLETE`. -/
abbrev hciEvtDisconnectionComplete : UInt8 := 0x05
/-- `HCI_EVT_LE_META`. -/
abbrev hciEvtLeMeta : UInt8 := 0x3E

/-- `HCI_LE_ADVERTISING_REPORT`. -/
abbrev hciLeAdvertisingReport : UInt8 := 0x02
/-- `HCI_LE_CONNECTION_COMPLETE`. -/
abbrev hciLeConnectionComplete : UInt8 := 0x01

/-- `OGF_HOST`. -/
abbrev ogfHost : UInt8 := 0x03
/-- `OGF_LE`. -/
abbrev ogfLe : UInt8 := 0x08

/-- `OCF_READ_LOCAL_VERSION`. -/
abbrev ocfReadLocalVersion : UInt16 := 0x0001
/-- `OCF_READ_BD_ADDR`. -/
abbrev ocfReadBdAddr : UInt16 := 0x0009
/-- `OCF_READ_BUFFER_SIZE`. -/
abbrev ocfReadBufferSize : UInt16 := 0x0005
/-- `OCF_LE_SET_ADV_PARAMS`. -/
abbrev ocfLeSetAdvParams : UInt16 := 0x0006
/-- `OCF_LE_SET_ADV_DATA`. -/
abbrev ocfLeSetAdvData : UInt16 := 0x0008
/-- `OCF_LE_SET_ADV_ENABLE`. -/
abbrev ocfLeSetAdvEnable : UInt16 := 0x000A
/-- `OCF_LE_SET_SCAN_PARAMS`. -/
abbrev ocfLeSetScanParams : UInt16 := 0x000B
/-- `OCF_LE_SET_SCAN_ENABLE`. -/
abbrev ocfLeSetScanEnable : UInt16 := 0x000C
/-- `OCF_LE_CREATE_CONNECTION`. -/
abbrev ocfLeCreateConnection : UInt16 := 0x000D
/-- `OCF_LE_SET_RANDOM_ADDRESS`. -/
abbrev ocfLeSetRandomAddress : UInt16 := 0x0005

/-! ## The record -/

/-- `Hci`. -/
structure Hci where
  framer : H4Framer
  events : Hci.Events
  ownAddr : Buf 6
  advEnabled : Bool
  scanEnabled : Bool
  connHandle : UInt16
  connectionOpen : Bool

/-- What the layer does: what the stack does under it, and the packets it queues for the host. -/
inductive HciAct
  | ble (act : BleAct)
  | event (packet : HciPacket)

/-- `reason as u8`. -/
def DisconnectReason.code : DisconnectReason → UInt8
  | .remoteTerminate => 0
  | .hostTerminate => 1
  | .supervisionTimeout => 2
  | .localError => 3

/-- `Ble::conn_is_master`. -/
def Ble.connIsMaster (b : Ble) : Bool := b.conn.any (fun c => c.role = .master)

/-- The two bytes of a command's opcode. -/
def HciPacket.op (packet : HciPacket) : UInt8 × UInt8 :=
  (packet.payload.bytes.getD 0 0, packet.payload.bytes.getD 1 0)

namespace Hci

/-- `Hci::new`. -/
def new : Hci where
  framer := H4Framer.new
  events := Events.new
  ownAddr := Buf.zero 6
  advEnabled := false
  scanEnabled := false
  connHandle := 0
  connectionOpen := false

/-- `Hci::feed`. -/
def feed (h : Hci) (byte : UInt8) : Except Panic (Option HciPacket × Hci) := do
  let (got, framer) ← h.framer.feed byte
  return (got, { h with framer := framer })

/-- `self.push_event(HciPacket::event(code, body))`, logged. -/
def push (h : Hci) (code : UInt8) (body : List UInt8) : Logged HciAct Hci := do
  let evt ← Logged.lift (HciPacket.event code body)
  Logged.emit (.event evt)
  return { h with events := pushEvent h.events evt }

/-- `Hci::next_event`. -/
def popEvent (h : Hci) : Option HciPacket × Hci :=
  let r := nextEvent h.events
  (r.1, { h with events := r.2 })

/-! ## Commands -/

/-- `Hci::command_complete`. -/
def commandComplete (h : Hci) (op : UInt8 × UInt8) (status : UInt8) (params : List UInt8) :
    Logged HciAct Hci := do
  let payload := ((((Buf.zero 260).set 0 1).set 1 op.1).set 2 op.2).set 3 status
  let payload ← Logged.lift (payload.write 4 params)
  let body ← Logged.lift (payload.upto (4 + params.length))
  h.push hciEvtCommandComplete body

/-- `Hci::command_status`. -/
def commandStatus (h : Hci) (op : UInt8 × UInt8) (status : UInt8) : Logged HciAct Hci :=
  h.push hciEvtCommandStatus [status, 1, op.1, op.2, 0]

/-- A call of the stack whose answer is dropped. -/
def calling (call : ApiCall) (b : Ble) : Logged HciAct Ble := do
  let r ← (call.run b).within HciAct.ble
  return r.2

/-- The commands of the group `OGF_HOST`. -/
def hostCommand (h : Hci) (op : UInt8 × UInt8) (ocf : UInt16) : Logged HciAct Hci :=
  if ocf = ocfReadLocalVersion then h.commandComplete op 0 (0x0C :: List.replicate 7 0)
  else if ocf = ocfReadBdAddr then h.commandComplete op 0 h.ownAddr.bytes
  else if ocf = ocfReadBufferSize then h.commandComplete op 0 (List.replicate 8 0)
  else h.commandComplete op 0 []

/-- LE Set Advertising Data. -/
def leSetAdvData (b : Ble) (params : List UInt8) : Logged HciAct Ble :=
  if params.length ≥ 32 then do
    let n := min (params.getD 0 0).toNat 31
    let data ← Logged.lift (slice params 1 (1 + n))
    let buf ← Logged.lift ((Buf.zero 31).write 0 data)
    let data ← Logged.lift (buf.upto n)
    calling (.gapAdvSetConfigure data []) b
  else return b

/-- LE Set Advertising Enable. -/
def leSetAdvEnable (h : Hci) (b : Ble) (params : List UInt8) (now : UInt32) :
    Logged HciAct (Hci × Ble) :=
  if params.head? = some 1 then do
    let b ← calling (.gapAdvStart {} now) b
    return ({ h with advEnabled := true }, b)
  else do
    let b ← calling .gapAdvStop b
    return ({ h with advEnabled := false }, b)

/-- LE Set Scan Enable. -/
def leSetScanEnable (h : Hci) (b : Ble) (params : List UInt8) (now : UInt32) :
    Logged HciAct (Hci × Ble) :=
  if params.head? = some 1 then do
    let b ← calling (.gapScanStart {} now) b
    return ({ h with scanEnabled := true }, b)
  else do
    let b ← calling .gapScanStop b
    return ({ h with scanEnabled := false }, b)

/-- LE Create Connection. -/
def leCreateConnection (b : Ble) (params : List UInt8) (now : UInt32) : Logged HciAct Ble :=
  if params.length ≥ 25 then do
    let bytes ← Logged.lift (slice params 14 20)
    let target ← Logged.lift ((Buf.zero 6).write 0 bytes)
    calling (.gapConnect target .«public» now) b
  else return b

/-- LE Set Random Address. -/
def leSetRandomAddress (h : Hci) (params : List UInt8) : Logged HciAct Hci :=
  if params.length ≥ 6 then do
    let bytes ← Logged.lift (slice params 0 6)
    let a ← Logged.lift ((Buf.zero 6).write 0 bytes)
    return { h with ownAddr := a }
  else return h

/-- The commands of the group `OGF_LE`. -/
def leCommand (h : Hci) (b : Ble) (op : UInt8 × UInt8) (ocf : UInt16) (params : List UInt8)
    (now : UInt32) : Logged HciAct (Hci × Ble) :=
  if ocf = ocfLeSetAdvData then do
    let b ← leSetAdvData b params
    let h ← h.commandComplete op 0 []
    return (h, b)
  else if ocf = ocfLeSetAdvParams then do
    let h ← h.commandComplete op 0 []
    return (h, b)
  else if ocf = ocfLeSetAdvEnable then do
    let (h, b) ← h.leSetAdvEnable b params now
    let h ← h.commandComplete op 0 []
    return (h, b)
  else if ocf = ocfLeSetScanParams then do
    let h ← h.commandComplete op 0 []
    return (h, b)
  else if ocf = ocfLeSetScanEnable then do
    let (h, b) ← h.leSetScanEnable b params now
    let h ← h.commandComplete op 0 []
    return (h, b)
  else if ocf = ocfLeCreateConnection then do
    let b ← leCreateConnection b params now
    let h ← h.commandStatus op 0
    return (h, b)
  else if ocf = ocfLeSetRandomAddress then do
    let h ← h.leSetRandomAddress params
    let h ← h.commandComplete op 0 []
    return (h, b)
  else do
    let h ← h.commandComplete op 0 []
    return (h, b)

/-- `Hci::handle_command`; `now` is what the clock reads if the command starts something. -/
def handleCommand (h : Hci) (b : Ble) (packet : HciPacket) (now : UInt32) :
    Logged HciAct (Hci × Ble) := do
  let (ogf, ocf) := packet.opcode
  let params ← Logged.lift (slice packet.payload.bytes 3 packet.len)
  if ogf = ogfHost then
    let h ← h.hostCommand packet.op ocf
    return (h, b)
  else if ogf = ogfLe then h.leCommand b packet.op ocf params now
  else
    let h ← h.commandComplete packet.op 0 []
    return (h, b)

/-- `Hci::on_packet`; `handle_acl` does nothing. -/
def onPacket (h : Hci) (b : Ble) (packet : HciPacket) (now : UInt32) : Logged HciAct (Hci × Ble) :=
  if packet.packetType = hciCommand then h.handleCommand b packet now
  else return (h, b)

/-! ## Events -/

/-- An LE Advertising Report: at most 27 bytes of the data. -/
def advertisingReport (h : Hci) (addr : Buf 6) (addrType : AddrType) (advType : UInt8) (rssi : Int8)
    (data : Buf 31) (dataLen : Nat) : Logged HciAct Hci := do
  let n := min dataLen 27
  let total := 11 + n + 1
  let payload := (((Buf.zero 260).set 0 hciLeAdvertisingReport).set 1 1).set 2 advType
  let payload := payload.set 3 (if addrType.isRandom then 0x01 else 0x00)
  let payload ← Logged.lift (payload.write 4 addr.bytes)
  let payload := payload.set 10 (UInt8.ofNat n)
  let bytes ← Logged.lift (data.upto n)
  let payload ← Logged.lift (payload.write 11 bytes)
  let payload ← Logged.lift (payload.store (11 + n) rssi.toUInt8)
  let body ← Logged.lift (payload.upto total)
  h.push hciEvtLeMeta body

/-- An LE Connection Complete. -/
def connectionComplete (h : Hci) (master : Bool) (conn : ConnectReqData) : Logged HciAct Hci := do
  let h := { h with connectionOpen := true, connHandle := 0 }
  let p := (Buf.zero 19).set 3 (if master then 0x01 else 0x00)
  let p := (p.set 11 conn.interval.toUInt8).set 12 (conn.interval >>> 8).toUInt8
  let p := (p.set 15 conn.timeout.toUInt8).set 16 (conn.timeout >>> 8).toUInt8
  let payload := ((Buf.zero 260).set 0 hciLeConnectionComplete).set 1 0
  let payload ← Logged.lift (payload.write 2 p.bytes)
  let body ← Logged.lift (payload.upto 21)
  h.push hciEvtLeMeta body

/-- What `tick` does with one event of the stack. -/
def onEvent (h : Hci) (b : Ble) (evt : BleEvent) : Logged HciAct Hci :=
  match evt with
  | .scanReport addr addrType advType rssi data dataLen =>
    h.advertisingReport addr addrType advType rssi data dataLen
  | .connected conn => h.connectionComplete b.connIsMaster conn
  | .disconnected reason => do
    let h ← h.push hciEvtDisconnectionComplete [0, 0, 0, reason.code]
    return { h with connectionOpen := false }
  | _ => return h

/-- The loop of `tick`, for at most this many events. -/
def tickLoop : Nat → Hci → Ble → Logged HciAct (Hci × Ble)
  | 0, h, b => return (h, b)
  | fuel + 1, h, b =>
    match b.popEvent with
    | (none, b) => return (h, b)
    | (some evt, b) => do
      let h ← h.onEvent b evt
      tickLoop fuel h b

/-- `Hci::tick`. -/
def tick (h : Hci) (b : Ble) : Logged HciAct (Hci × Ble) := tickLoop (Ble.eventQueueLen + 1) h b

/-! ## Replies -/

/-- A packet that answers the command `op` with status 0. -/
inductive StatusZero (op : UInt8 × UInt8) : HciPacket → Prop
  | complete {params : List UInt8} {evt : HciPacket}
      (h : HciPacket.event hciEvtCommandComplete ([1, op.1, op.2, 0] ++ params) = .ok evt) :
      StatusZero op evt
  | status {evt : HciPacket}
      (h : HciPacket.event hciEvtCommandStatus [0, 1, op.1, op.2, 0] = .ok evt) : StatusZero op evt

theorem push_eq (h : Hci) (code : UInt8) {body : List UInt8} (hlen : body.length ≤ 258) :
    ∃ evt, HciPacket.event code body = .ok evt ∧
      h.push code body = ⟨[.event evt], .ok { h with events := pushEvent h.events evt }⟩ := by
  obtain ⟨payload, hw, _⟩ := (((Buf.zero 260).set 0 code).set 1 (UInt8.ofNat body.length)).write_of_le
    (show 2 + body.length ≤ 260 by omega)
  have hevt : HciPacket.event code body = .ok ⟨hciEvent, payload, 2 + body.length⟩ := by
    unfold HciPacket.event
    dsimp only
    rw [hw]
    rfl
  refine ⟨_, hevt, ?_⟩
  unfold push
  rw [hevt]
  rfl

theorem commandComplete_eq (h : Hci) (op : UInt8 × UInt8) {params : List UInt8}
    (hlen : params.length ≤ 254) :
    ∃ evt, StatusZero op evt ∧
      h.commandComplete op 0 params =
        ⟨[.event evt], .ok { h with events := pushEvent h.events evt }⟩ := by
  obtain ⟨payload, hw, _⟩ := (((((Buf.zero 260).set 0 1).set 1 op.1).set 2 op.2).set 3 0).write_of_le
    (show 4 + params.length ≤ 260 by omega)
  have hbody : payload.upto (4 + params.length) = .ok ([1, op.1, op.2, 0] ++ params) := by
    rw [payload.upto_of_le (by omega), Buf.take_of_write hw]
    rfl
  obtain ⟨evt, hevt, hpush⟩ := h.push_eq hciEvtCommandComplete
    (show ([1, op.1, op.2, 0] ++ params).length ≤ 258 by simp; omega)
  refine ⟨evt, .complete hevt, ?_⟩
  unfold commandComplete
  dsimp only
  rw [hw, Logged.lift_ok_bind, hbody, Logged.lift_ok_bind, hpush]

theorem commandStatus_eq (h : Hci) (op : UInt8 × UInt8) :
    ∃ evt, StatusZero op evt ∧
      h.commandStatus op 0 = ⟨[.event evt], .ok { h with events := pushEvent h.events evt }⟩ := by
  obtain ⟨evt, hevt, hpush⟩ := h.push_eq hciEvtCommandStatus
    (show [0, 1, op.1, op.2, 0].length ≤ 258 from by simp)
  exact ⟨evt, .status hevt, hpush⟩

/-! ## A command is a call and a reply -/

/-- The call of LE Set Advertising Data. -/
def advDataCall (params : List UInt8) : Option ApiCall :=
  if params.length ≥ 32 then
    some (.gapAdvSetConfigure ((params.take (1 + min (params.getD 0 0).toNat 31)).drop 1) [])
  else none

/-- The call of LE Set Advertising Enable. -/
def advEnableCall (params : List UInt8) (now : UInt32) : ApiCall :=
  if params.head? = some 1 then .gapAdvStart {} now else .gapAdvStop

/-- The call of LE Set Scan Enable. -/
def scanEnableCall (params : List UInt8) (now : UInt32) : ApiCall :=
  if params.head? = some 1 then .gapScanStart {} now else .gapScanStop

/-- The call of LE Create Connection. -/
def createConnectionCall (params : List UInt8) (now : UInt32) : Option ApiCall :=
  if params.length ≥ 25 then
    (Buf.ofSlice 6 ((params.take 20).drop 14)).map (fun target => .gapConnect target .«public» now)
  else none

/-- The call of the stack that a command of the group `OGF_LE` makes. -/
def leCall (ocf : UInt16) (params : List UInt8) (now : UInt32) : Option ApiCall :=
  if ocf = ocfLeSetAdvData then advDataCall params
  else if ocf = ocfLeSetAdvEnable then some (advEnableCall params now)
  else if ocf = ocfLeSetScanEnable then some (scanEnableCall params now)
  else if ocf = ocfLeCreateConnection then createConnectionCall params now
  else none

/-- The stack after a call, if there was one. -/
def Calls : Option ApiCall → Ble → Ble → Prop
  | none, b, b' => b' = b
  | some call, b, b' => ∃ log answer, call.run b = ⟨log, .ok (answer, b')⟩

theorem Calls.bounds {call : Option ApiCall} {b b' : Ble} (h : Calls call b b') (hb : b.Bounds) :
    b'.Bounds := by
  cases call with
  | none =>
    cases h
    exact hb
  | some call =>
    obtain ⟨log, answer, hrun⟩ := h
    obtain ⟨log', answer', b'', hrun', heff⟩ := call.run_effect b
    cases hrun.symm.trans hrun'
    exact heff.bounds hb

/-- A command was carried out, with this stack left, and answered with status 0. -/
def Answered (h : Hci) (op : UInt8 × UInt8) (b' : Ble) (x : Logged HciAct (Hci × Ble)) : Prop :=
  ∃ (acts : List BleAct) (evt : HciPacket) (h' : Hci),
    x = ⟨acts.map HciAct.ble ++ [.event evt], .ok (h', b')⟩ ∧ StatusZero op evt ∧
    h'.framer = h.framer

theorem Answered.complete {h h₁ : Hci} (hframer : h₁.framer = h.framer) (op : UInt8 × UInt8) (b : Ble)
    {params : List UInt8} (hlen : params.length ≤ 254) :
    Answered h op b (h₁.commandComplete op 0 params >>= fun h => pure (h, b)) := by
  obtain ⟨evt, hzero, hreply⟩ := h₁.commandComplete_eq op hlen
  rw [hreply]
  exact ⟨[], evt, _, rfl, hzero, hframer⟩

theorem Answered.status (h : Hci) (op : UInt8 × UInt8) (b : Ble) :
    Answered h op b (h.commandStatus op 0 >>= fun h => pure (h, b)) := by
  obtain ⟨evt, hzero, hreply⟩ := h.commandStatus_eq op
  rw [hreply]
  exact ⟨[], evt, _, rfl, hzero, rfl⟩

/-- A call in front of a reply. -/
theorem Answered.after_call {h : Hci} {op : UInt8 × UInt8} {b b' : Ble} {call : ApiCall}
    {log : List BleAct} {answer : Except Error Unit} (hcall : call.run b = ⟨log, .ok (answer, b')⟩)
    {f : Ble → Logged HciAct (Hci × Ble)} (hf : Answered h op b' (f b')) :
    Answered h op b' (calling call b >>= f) := by
  obtain ⟨acts, evt, h', hx, hzero, hframer⟩ := hf
  have hcalling : calling call b = ⟨log.map HciAct.ble, .ok b'⟩ := by
    unfold calling
    rw [hcall]
    exact Logged.ext (List.append_nil _) rfl
  refine ⟨log ++ acts, evt, h', ?_, hzero, hframer⟩
  rw [hcalling, Logged.mk_ok_bind, hx, Logged.prepend_mk, List.map_append, List.append_assoc]

/-- A call, if there is one. -/
def callIf : Option ApiCall → Ble → Logged HciAct Ble
  | none, b => pure b
  | some call, b => calling call b

/-- A command that makes a call or none, whatever becomes of the call. -/
theorem answered_callIf {h : Hci} {op : UInt8 × UInt8} {b : Ble} (call : Option ApiCall)
    {f : Ble → Logged HciAct (Hci × Ble)} (hf : ∀ b', Answered h op b' (f b')) :
    ∃ b', Calls call b b' ∧ Answered h op b' (callIf call b >>= f) := by
  cases call with
  | none => exact ⟨b, rfl, hf b⟩
  | some call =>
    obtain ⟨log, answer, b', hcall, _⟩ := call.run_effect b
    exact ⟨b', ⟨log, answer, hcall⟩, .after_call hcall (hf b')⟩

/-- A slice that fits an array of its length, copied into it. -/
theorem copy_slice (n : Nat) (xs : List UInt8) {lo hi : Nat} (hle : lo ≤ hi) (hhi : hi ≤ xs.length)
    (hn : hi - lo = n) :
    ∃ buf : Buf n, Buf.ofSlice n ((xs.take hi).drop lo) = some buf ∧
      slice xs lo hi = .ok buf.bytes ∧ (Buf.zero n).write 0 buf.bytes = .ok buf := by
  have hlen : ((xs.take hi).drop lo).length = n := by
    rw [List.length_drop, List.length_take]; omega
  have hall : (Buf.zero n).bytes.drop n = [] := List.drop_of_length_le (Nat.le_of_eq (Buf.zero n).size)
  refine ⟨⟨_, hlen⟩, Buf.ofSlice_of_length hlen, slice_of_le hle hhi, ?_⟩
  refine Buf.write_eq_ok.mpr ⟨by dsimp only; omega, ?_⟩
  dsimp only
  rw [hlen, Nat.zero_add, List.take_zero, List.nil_append, hall, List.append_nil]

/-- The call of LE Set Advertising Data: the parameters, copied once over. -/
theorem leSetAdvData_eq (b : Ble) (params : List UInt8) :
    leSetAdvData b params = callIf (advDataCall params) b := by
  unfold leSetAdvData advDataCall
  split
  · rename_i h
    dsimp only
    generalize hn : min (params.getD 0 0).toNat 31 = n
    have hlen : ((params.take (1 + n)).drop 1).length = n := by
      rw [List.length_drop, List.length_take]; omega
    have hfit : 0 + ((params.take (1 + n)).drop 1).length ≤ 31 := by omega
    obtain ⟨buf, hw, _⟩ := (Buf.zero 31).write_of_le hfit
    have hback : buf.upto n = .ok ((params.take (1 + n)).drop 1) := by
      have htake := Buf.take_of_write hw
      rw [hlen, Nat.zero_add, List.take_zero, List.nil_append] at htake
      rw [buf.upto_of_le (by omega), htake]
    rw [slice_of_le (by omega) (by omega), Logged.lift_ok_bind, hw, Logged.lift_ok_bind, hback,
      Logged.lift_ok_bind]
    rfl
  · rfl

/-- A command that makes one call on a 1 and another on anything else, and notes which. -/
theorem enable_eq (on off : ApiCall) (note : Bool → Hci) (b : Ble) (params : List UInt8) :
    (if params.head? = some 1 then calling on b >>= fun b => pure (note true, b)
      else calling off b >>= fun b => pure (note false, b)) =
      callIf (some (if params.head? = some 1 then on else off)) b >>= fun b =>
        pure (note (decide (params.head? = some 1)), b) := by
  split
  · rename_i hone
    rw [decide_eq_true hone]
    rfl
  · rename_i hone
    rw [decide_eq_false hone]
    rfl

theorem leSetAdvEnable_eq (h : Hci) (b : Ble) (params : List UInt8) (now : UInt32) :
    h.leSetAdvEnable b params now = callIf (some (advEnableCall params now)) b >>= fun b =>
      pure ({ h with advEnabled := decide (params.head? = some 1) }, b) :=
  enable_eq (.gapAdvStart {} now) .gapAdvStop (fun on => { h with advEnabled := on }) b params

theorem leSetScanEnable_eq (h : Hci) (b : Ble) (params : List UInt8) (now : UInt32) :
    h.leSetScanEnable b params now = callIf (some (scanEnableCall params now)) b >>= fun b =>
      pure ({ h with scanEnabled := decide (params.head? = some 1) }, b) :=
  enable_eq (.gapScanStart {} now) .gapScanStop (fun on => { h with scanEnabled := on }) b params

theorem leCreateConnection_eq (b : Ble) (params : List UInt8) (now : UInt32) :
    leCreateConnection b params now = callIf (createConnectionCall params now) b := by
  unfold leCreateConnection createConnectionCall
  split
  · rename_i h
    obtain ⟨target, hof, hslice, hwrite⟩ := copy_slice 6 params (show 14 ≤ 20 by decide)
      (by omega) rfl
    rw [hof, hslice, Logged.lift_ok_bind, hwrite, Logged.lift_ok_bind]
    rfl
  · rfl

theorem leSetRandomAddress_eq (h : Hci) (params : List UInt8) :
    ∃ a, h.leSetRandomAddress params = pure { h with ownAddr := a } := by
  unfold leSetRandomAddress
  split
  · obtain ⟨a, _, hslice, hwrite⟩ := copy_slice 6 params (Nat.zero_le 6) (by omega) rfl
    refine ⟨a, ?_⟩
    rw [hslice, Logged.lift_ok_bind, hwrite, Logged.lift_ok_bind]
  · exact ⟨h.ownAddr, rfl⟩

/-- **Every command of the group `OGF_LE`** is its call, and a reply with status 0. -/
theorem leCommand_answered (h : Hci) (b : Ble) (op : UInt8 × UInt8) (ocf : UInt16) (params : List UInt8)
    (now : UInt32) :
    ∃ b', Calls (leCall ocf params now) b b' ∧ Answered h op b' (h.leCommand b op ocf params now) := by
  have hreply : ∀ (h₁ : Hci) (b' : Ble), h₁.framer = h.framer →
      Answered h op b' (h₁.commandComplete op 0 [] >>= fun h => pure (h, b')) :=
    fun h₁ b' hframer => .complete hframer op b' (Nat.zero_le _)
  unfold leCommand leCall
  by_cases hdata : ocf = ocfLeSetAdvData
  · rw [if_pos hdata, if_pos hdata, leSetAdvData_eq]
    exact answered_callIf _ (fun b' => hreply h b' rfl)
  rw [if_neg hdata, if_neg hdata]
  by_cases hparams : ocf = ocfLeSetAdvParams
  · subst hparams
    exact ⟨b, rfl, hreply h b rfl⟩
  rw [if_neg hparams]
  by_cases hadv : ocf = ocfLeSetAdvEnable
  · rw [if_pos hadv, if_pos hadv, leSetAdvEnable_eq, Logged.bind_assoc]
    simp only [Logged.pure_bind]
    exact answered_callIf _ (fun b' => hreply _ b' rfl)
  rw [if_neg hadv, if_neg hadv]
  by_cases hsparams : ocf = ocfLeSetScanParams
  · subst hsparams
    exact ⟨b, rfl, hreply h b rfl⟩
  rw [if_neg hsparams]
  by_cases hscan : ocf = ocfLeSetScanEnable
  · rw [if_pos hscan, if_pos hscan, leSetScanEnable_eq, Logged.bind_assoc]
    simp only [Logged.pure_bind]
    exact answered_callIf _ (fun b' => hreply _ b' rfl)
  rw [if_neg hscan, if_neg hscan]
  by_cases hconn : ocf = ocfLeCreateConnection
  · rw [if_pos hconn, if_pos hconn, leCreateConnection_eq]
    exact answered_callIf _ (fun b' => .status h op b')
  rw [if_neg hconn, if_neg hconn]
  refine ⟨b, rfl, ?_⟩
  split
  · obtain ⟨a, ha⟩ := h.leSetRandomAddress_eq params
    rw [ha, Logged.pure_bind]
    exact hreply _ b rfl
  · exact hreply h b rfl

/-- The call of the stack that a command makes. -/
def commandCall (packet : HciPacket) (now : UInt32) : Option ApiCall :=
  if packet.opcode.1 = ogfLe then leCall packet.opcode.2 (packet.body.drop 3) now else none

/-- **Every command**, known or not, is its call, and a reply with status 0. -/
theorem handleCommand_answered (h : Hci) (b : Ble) (packet : HciPacket) (now : UInt32)
    (hheader : 3 ≤ packet.len) (hroom : packet.len ≤ 260) :
    ∃ b', Calls (commandCall packet now) b b' ∧
      Answered h packet.op b' (h.handleCommand b packet now) := by
  have hslice : slice packet.payload.bytes 3 packet.len = .ok (packet.body.drop 3) :=
    slice_of_le hheader (by rw [packet.payload.size]; exact hroom)
  unfold handleCommand commandCall
  generalize packet.opcode = opcode
  obtain ⟨ogf, ocf⟩ := opcode
  dsimp only
  rw [hslice, Logged.lift_ok_bind]
  by_cases hhost : ogf = ogfHost
  · subst hhost
    rw [if_pos rfl, if_neg (by decide)]
    refine ⟨b, rfl, ?_⟩
    unfold hostCommand
    split
    · exact .complete rfl _ b (by decide)
    split
    · exact .complete rfl _ b (by rw [h.ownAddr.size]; decide)
    split
    · exact .complete rfl _ b (by decide)
    · exact .complete rfl _ b (by decide)
  rw [if_neg hhost]
  by_cases hle : ogf = ogfLe
  · rw [if_pos hle, if_pos hle]
    exact h.leCommand_answered b _ ocf _ now
  · rw [if_neg hle, if_neg hle]
    exact ⟨b, rfl, .complete rfl _ b (Nat.zero_le _)⟩

/-- A command as the host builds it. -/
theorem handleCommand_built (h : Hci) (b : Ble) {ocf : UInt16} {params : List UInt8}
    {packet : HciPacket} (now : UInt32) (hocf : ocf < 1024) (hlen : params.length ≤ 255)
    (hcmd : HciPacket.command ogfLe ocf params = .ok packet) :
    ∃ b', Calls (leCall ocf params now) b b' ∧
      Answered h packet.op b' (h.handleCommand b packet now) := by
  have hopcode : packet.opcode = (ogfLe, ocf) := HciPacket.opcode_command (by decide) hocf hcmd
  have hparts : 3 ≤ packet.len ∧ packet.len ≤ 260 ∧ packet.body.drop 3 = params := by
    obtain ⟨payload, hw, hpacket⟩ := bind_eq_ok.mp hcmd
    cases hpacket
    have hbody : (HciPacket.mk hciCommand payload (3 + params.length)).body =
        [_, _, UInt8.ofNat params.length] ++ params := HciPacket.body_of_write rfl hw
    refine ⟨Nat.le_add_right _ _, by dsimp only; omega, ?_⟩
    rw [hbody]
    rfl
  have hdone := h.handleCommand_answered b packet now hparts.1 hparts.2.1
  rwa [commandCall, hopcode, if_pos rfl, hparts.2.2] at hdone

/-- What a packet must be for `on_packet` not to panic. -/
def Handled (packet : HciPacket) : Prop :=
  packet.packetType = hciCommand → 3 ≤ packet.len ∧ packet.len ≤ 260

/-- **A packet is handled**, and the framer is left alone. -/
theorem onPacket_ok (h : Hci) (b : Ble) {packet : HciPacket} (now : UInt32) (hpacket : Handled packet) :
    ∃ log h' b', h.onPacket b packet now = ⟨log, .ok (h', b')⟩ ∧ h'.framer = h.framer := by
  unfold onPacket
  split
  · rename_i htype
    obtain ⟨hheader, hroom⟩ := hpacket htype
    obtain ⟨b', _, acts, evt, h', hrun, _, hframer⟩ :=
      h.handleCommand_answered b packet now hheader hroom
    exact ⟨_, h', b', hrun, hframer⟩
  · exact ⟨[], h, b, rfl, rfl⟩

/-- A packet that was handled left the framer alone, whatever packet it was. -/
theorem onPacket_framer {h h' : Hci} {b b' : Ble} {packet : HciPacket} {now : UInt32}
    {log : List HciAct} (hrun : h.onPacket b packet now = ⟨log, .ok (h', b')⟩) :
    h'.framer = h.framer := by
  by_cases hpacket : Handled packet
  · obtain ⟨log', h'', b'', hrun', hframer⟩ := h.onPacket_ok b now hpacket
    cases hrun.symm.trans hrun'
    exact hframer
  · -- a command whose parameters are no slice of the buffer
    obtain ⟨htype, hlen⟩ := Classical.not_imp.mp hpacket
    have hslice : slice packet.payload.bytes 3 packet.len = .error .range :=
      if_neg (by rw [packet.payload.size]; exact hlen)
    unfold onPacket handleCommand at hrun
    rw [if_pos htype, hslice] at hrun
    cases hrun

/-! ## The loop of `tick` -/

theorem popEvent_occupied {b b' : Ble} {evt : BleEvent} (h : b.popEvent = (some evt, b')) :
    b'.events.occupied < b.events.occupied := by
  have hb' : b' = b.popEvent.2 := by rw [h]
  rw [hb']
  exact RingBuffer.Ring.occupied_pop (x := evt) (congrArg Prod.fst h)

/-- The events still queued bound the loop. -/
theorem tickLoop_congr {n m : Nat} (h : Hci) {b : Ble} (hn : b.events.occupied < n)
    (hm : b.events.occupied < m) : tickLoop n h b = tickLoop m h b := by
  induction n generalizing m h b with
  | zero => omega
  | succ n ih =>
    obtain _ | m := m
    · omega
    unfold tickLoop
    rcases hpop : b.popEvent with ⟨_ | evt, b'⟩
    · rfl
    · dsimp only
      have hless := popEvent_occupied hpop
      exact congrArg (h.onEvent b' evt >>= ·) (funext fun h' => ih h' (by omega) (by omega))

/-- **`tick` is the loop of the source**: while there is an event, deal with it. -/
theorem tick_eq (h : Hci) (b : Ble) :
    h.tick b = match b.popEvent with
      | (none, b') => pure (h, b')
      | (some evt, b') => h.onEvent b' evt >>= fun h' => h'.tick b' := by
  show tickLoop (Ble.eventQueueLen + 1) h b = _
  unfold tickLoop
  rcases hpop : b.popEvent with ⟨_ | evt, b'⟩
  · rfl
  · have hless := popEvent_occupied hpop
    have hle : b.events.occupied ≤ Ble.eventQueueLen := b.events.occupied_le
    have hfuel : b'.events.occupied < Ble.eventQueueLen := Nat.lt_of_lt_of_le hless hle
    exact congrArg (h.onEvent b' evt >>= ·)
      (funext fun h' => tickLoop_congr h' hfuel (Nat.lt_succ_of_lt hfuel))

end Hci

end NrfBle
