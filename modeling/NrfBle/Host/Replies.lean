/-
  The host's side of the HCI layer (`src/hci.rs`): what it reads off a packet, and what it is told of
  a command and of an event of the stack.

  `HciPacket.hostEvent` reads the layout that `command_complete`, `command_status` and `tick` write; in
  an LE Connection Complete a byte stands in front of the role that the standard layout does not have.
  A packet `Carries` an event when the framer lets it through and the host reads that event off it.

    * a command is answered by one packet (`handleCommand_replied`), with status 0 whatever became of
      the call behind it: a Command Status for LE Create Connection, and a Command Complete for every
      other opcode, known or not;
    * an event of the stack is one packet or none (`onEvent_carries`).
-/
import Mathlib.Tactic
import NrfBle.Host.Reports
import NrfBle.Hw.Ble.Queue

namespace NrfBle

open Checked

/-- What a host reads. -/
inductive HostEvent
  | commandComplete (op : UInt8 × UInt8) (status : UInt8) (params : List UInt8)
  | commandStatus (op : UInt8 × UInt8) (status : UInt8)
  | advertisingReport (report : AdvReport)
  | connectionComplete (master : Bool) (interval timeout : UInt16)
  | disconnectionComplete (reason : UInt8)
  deriving DecidableEq

/-- Read a packet. -/
def HciPacket.hostEvent (packet : HciPacket) : Option HostEvent :=
  match packet.body with
  | code :: _ :: body =>
    if code = hciEvtCommandComplete then
      some (.commandComplete (body.getD 1 0, body.getD 2 0) (body.getD 3 0) (body.drop 4))
    else if code = hciEvtCommandStatus then
      some (.commandStatus (body.getD 2 0, body.getD 3 0) (body.getD 0 0))
    else if code = hciEvtDisconnectionComplete then some (.disconnectionComplete (body.getD 3 0))
    else if body.head? = some hciLeConnectionComplete then
      some (.connectionComplete (body.getD 5 0 == 1) (ofLe16 (body.getD 13 0) (body.getD 14 0))
        (ofLe16 (body.getD 17 0) (body.getD 18 0)))
    else packet.advReport.map .advertisingReport
  | _ => none

/-- The host reads what the transport shows it. -/
theorem HciPacket.hostEvent_congr {p q : HciPacket} (h : p.view = q.view) :
    p.hostEvent = q.hostEvent := by
  obtain ⟨htype, h⟩ := Prod.mk.inj h
  obtain ⟨-, hbody⟩ := Prod.mk.inj h
  unfold hostEvent advReport
  rw [htype, hbody]

/-- The host reads a report. -/
theorem HciPacket.hostEvent_advReport {packet : HciPacket} {report : AdvReport}
    (h : packet.advReport = some report) : packet.hostEvent = some (.advertisingReport report) := by
  have hread := h
  unfold advReport at hread
  split at hread
  · cases hread
  split at hread
  · rename_i hbody
    dsimp only at hread
    split at hread
    · rename_i hmeta
      obtain ⟨rfl, rfl, -⟩ := hmeta
      unfold hostEvent
      rw [h, hbody]
      rfl
    · cases hread
  · cases hread

/-- **The packet carries this event**, over the transport. -/
structure Carries (packet : HciPacket) (evt : HostEvent) : Prop where
  built : packet.Built
  reads : packet.hostEvent = some evt

namespace Hci

/-! ## Packets -/

/-- An event of these bytes, which carries this. -/
theorem push_carries (h : Hci) (code : UInt8) (body : List UInt8) (evt : HostEvent)
    (hlen : body.length ≤ 255)
    (hreads : ∀ packet : HciPacket, packet.body = [code, UInt8.ofNat body.length] ++ body →
      packet.hostEvent = some evt) :
    ∃ packet, h.push code body = ⟨[.event packet], .ok { h with events := pushEvent h.events packet }⟩ ∧
      Carries packet evt := by
  obtain ⟨packet, hok, hpush⟩ := h.push_eq code (show body.length ≤ 258 by omega)
  exact ⟨packet, hpush, .event hlen hok, hreads packet (HciPacket.event_body hok).2.2⟩

theorem commandComplete_carries (h : Hci) (op : UInt8 × UInt8) {params : List UInt8}
    (hlen : params.length ≤ 251) :
    ∃ packet, h.commandComplete op 0 params =
        ⟨[.event packet], .ok { h with events := pushEvent h.events packet }⟩ ∧
      Carries packet (.commandComplete op 0 params) := by
  obtain ⟨payload, hw, _⟩ := (((((Buf.zero 260).set 0 1).set 1 op.1).set 2 op.2).set 3 0).write_of_le
    (show 4 + params.length ≤ 260 by omega)
  have hbody : payload.upto (4 + params.length) = .ok ([1, op.1, op.2, 0] ++ params) := by
    rw [payload.upto_of_le (by omega), Buf.take_of_write hw]
    rfl
  have hfits : ([1, op.1, op.2, 0] ++ params).length ≤ 255 := by
    rw [List.length_append]
    exact (Nat.add_comm 4 _).trans_le (by omega)
  obtain ⟨packet, hpush, hcarries⟩ := h.push_carries hciEvtCommandComplete _
    (.commandComplete op 0 params) hfits (by
      intro packet hpacket
      unfold HciPacket.hostEvent
      rw [hpacket]
      rfl)
  refine ⟨packet, ?_, hcarries⟩
  unfold commandComplete
  dsimp only
  rw [hw, Logged.lift_ok_bind, hbody, Logged.lift_ok_bind, hpush]

theorem commandStatus_carries (h : Hci) (op : UInt8 × UInt8) :
    ∃ packet, h.commandStatus op 0 =
        ⟨[.event packet], .ok { h with events := pushEvent h.events packet }⟩ ∧
      Carries packet (.commandStatus op 0) :=
  h.push_carries hciEvtCommandStatus _ _ (show 5 ≤ 255 by decide) (by
    intro packet hpacket
    unfold HciPacket.hostEvent
    rw [hpacket]
    rfl)

theorem connectionComplete_carries (h : Hci) (master : Bool) (conn : ConnectReqData) :
    ∃ packet, h.connectionComplete master conn = ⟨[.event packet], .ok { h with
        connectionOpen := true, connHandle := 0, events := pushEvent h.events packet }⟩ ∧
      Carries packet (.connectionComplete master conn.interval conn.timeout) := by
  generalize hp : (((((Buf.zero 19).set 3 (if master then 0x01 else 0x00)).set
    11 conn.interval.toUInt8).set 12 (conn.interval >>> 8).toUInt8).set
    15 conn.timeout.toUInt8).set 16 (conn.timeout >>> 8).toUInt8 = p
  obtain ⟨payload, hw, _⟩ := (((Buf.zero 260).set 0 hciLeConnectionComplete).set 1 0).write_of_le
    (show 2 + p.bytes.length ≤ 260 by rw [p.size]; decide)
  have hbody : payload.upto 21 = .ok ([hciLeConnectionComplete, 0] ++ p.bytes) := by
    have htake := Buf.take_of_write hw
    rw [p.size] at htake
    rw [payload.upto_of_le (by decide), htake]
    rfl
  have hfits : ([hciLeConnectionComplete, 0] ++ p.bytes).length ≤ 255 := by
    rw [List.length_append, p.size]
    decide
  obtain ⟨packet, hpush, hcarries⟩ := ({ h with connectionOpen := true, connHandle := 0 } : Hci).push_carries
    hciEvtLeMeta _ (.connectionComplete master conn.interval conn.timeout) hfits (by
      intro packet hpacket
      have hrole : ((if master then (0x01 : UInt8) else 0x00) == 1) = master := by cases master <;> rfl
      unfold HciPacket.hostEvent
      rw [hpacket, ← hp]
      show some (HostEvent.connectionComplete ((if master then (0x01 : UInt8) else 0x00) == 1)
        (ofLe16 conn.interval.toUInt8 (conn.interval >>> 8).toUInt8)
        (ofLe16 conn.timeout.toUInt8 (conn.timeout >>> 8).toUInt8)) = _
      rw [hrole, ofLe16_shifted, ofLe16_shifted])
  refine ⟨packet, ?_, hcarries⟩
  unfold connectionComplete
  dsimp only
  rw [hp, hw, Logged.lift_ok_bind, hbody, Logged.lift_ok_bind, hpush]

/-- A report is one push of 39 bytes at most. -/
theorem advertisingReport_push (h : Hci) (addr : Buf 6) (addrType : AddrType) (advType : UInt8)
    (rssi : Int8) (data : Buf 31) (dataLen : Nat) :
    ∃ body, body.length ≤ 39 ∧
      h.advertisingReport addr addrType advType rssi data dataLen = h.push hciEvtLeMeta body := by
  generalize hn : min dataLen 27 = n
  have hle : n ≤ 27 := by omega
  have hcut : (data.bytes.take n).length = n := by
    rw [List.length_take, data.size]
    omega
  generalize hfront : ((((Buf.zero 260).set 0 hciLeAdvertisingReport).set 1 1).set 2 advType).set 3
    (if addrType.isRandom then 0x01 else 0x00) = front
  obtain ⟨p₁, hw₁, _⟩ := front.write_of_le
    (show 4 + addr.bytes.length ≤ 260 by rw [addr.size]; decide)
  obtain ⟨p₂, hw₂, _⟩ := (p₁.set 10 (UInt8.ofNat n)).write_of_le
    (show 11 + (data.bytes.take n).length ≤ 260 by omega)
  refine ⟨(p₂.set (11 + n) rssi.toUInt8).bytes.take (11 + n + 1), ?_, ?_⟩
  · rw [List.length_take]
    omega
  · unfold advertisingReport
    dsimp only
    rw [hn, hfront, hw₁, Logged.lift_ok_bind, data.upto_of_le (by omega), Logged.lift_ok_bind, hw₂,
      Logged.lift_ok_bind, p₂.store_of_lt (by omega), Logged.lift_ok_bind, Buf.upto_of_le _ (by omega),
      Logged.lift_ok_bind]

/-- At most 27 bytes of the data are told. -/
theorem advertisingReport_carries (h : Hci) (addr : Buf 6) (addrType : AddrType) (advType : UInt8)
    (rssi : Int8) (data : Buf 31) (dataLen : Nat) :
    ∃ packet, h.advertisingReport addr addrType advType rssi data dataLen =
        ⟨[.event packet], .ok { h with events := pushEvent h.events packet }⟩ ∧
      Carries packet (.advertisingReport ⟨advType, if addrType.isRandom then 0x01 else 0x00, addr.bytes,
        data.bytes.take (min dataLen 27), rssi.toUInt8⟩) := by
  generalize hcut : data.bytes.take (min dataLen 27) = cut
  have hlen : cut.length = min dataLen 27 := by
    rw [← hcut, List.length_take, data.size]
    omega
  have hall : cut.take 31 = cut := List.take_of_length_le (by omega)
  -- the report of the bytes that are told
  have hsame : h.advertisingReport addr addrType advType rssi data dataLen =
      h.advertisingReport addr addrType advType rssi (Ble.reportData cut) (min cut.length 31) := by
    have hback : (Ble.reportData cut).upto (min dataLen 27) = .ok cut := by
      have hfront : (Ble.reportData cut).bytes.take (min dataLen 27) =
        (cut.take 31).take (min dataLen 27) :=
        List.take_append_of_le_length (by rw [hall, hlen])
      rw [(Ble.reportData cut).upto_of_le (by omega), hfront, hall, List.take_of_length_le (by omega)]
    unfold advertisingReport
    dsimp only
    rw [show min (min cut.length 31) 27 = min dataLen 27 by omega, hback, data.upto_of_le (by omega),
      hcut]
  obtain ⟨packet, hrun, hreport⟩ := h.advertisingReport_eq addr addrType advType rssi cut
  rw [List.take_of_length_le (show cut.length ≤ 27 by omega)] at hreport
  rw [← hsame] at hrun
  obtain ⟨body, hbody, hpush⟩ := h.advertisingReport_push addr addrType advType rssi data dataLen
  obtain ⟨packet', hok, hpush'⟩ := h.push_eq hciEvtLeMeta (show body.length ≤ 258 by omega)
  have hlog := congrArg Logged.log (hrun.symm.trans (hpush.trans hpush'))
  obtain rfl : packet = packet' := HciAct.event.inj (List.cons.inj hlog).1
  refine ⟨packet, hrun, .event (by omega) hok, ?_⟩
  exact HciPacket.hostEvent_advReport hreport

/-! ## The events of the stack -/

/-- The packets of a list go on the queue. -/
def pushPackets (q : Events) (packets : List HciPacket) : Events := packets.foldl pushEvent q

/-- What the host is told of an event; `master` is the role of the open connection. -/
def told (master : Bool) : BleEvent → Option HostEvent
  | .scanReport addr addrType advType rssi data dataLen =>
    some (.advertisingReport ⟨advType, if addrType.isRandom then 0x01 else 0x00, addr.bytes,
      data.bytes.take (min dataLen 27), rssi.toUInt8⟩)
  | .connected conn => some (.connectionComplete master conn.interval conn.timeout)
  | .disconnected reason => some (.disconnectionComplete reason.code)
  | _ => none

/-- Framer, address and the queue but for these packets are as they were. -/
structure Queues (h : Hci) (packets : List HciPacket) (h' : Hci) : Prop where
  events : h'.events = pushPackets h.events packets
  framer : h'.framer = h.framer
  ownAddr : h'.ownAddr = h.ownAddr

theorem Queues.trans {h h' h'' : Hci} {xs ys : List HciPacket} (hx : Queues h xs h')
    (hy : Queues h' ys h'') : Queues h (xs ++ ys) h'' where
  events := by
    rw [hy.events, hx.events]
    exact List.foldl_append.symm
  framer := hy.framer.trans hx.framer
  ownAddr := hy.ownAddr.trans hx.ownAddr

/-- **An event of the stack** is told in one packet, or not at all. -/
theorem onEvent_carries (h : Hci) (b : Ble) (evt : BleEvent) :
    ∃ packets h', h.onEvent b evt = ⟨packets.map .event, .ok h'⟩ ∧ Queues h packets h' ∧
      List.Forall₂ Carries packets (told b.connIsMaster evt).toList := by
  cases evt with
  | scanReport addr addrType advType rssi data dataLen =>
    obtain ⟨packet, hrun, hcarries⟩ := h.advertisingReport_carries addr addrType advType rssi data dataLen
    exact ⟨[packet], _, hrun, ⟨rfl, rfl, rfl⟩, .cons hcarries .nil⟩
  | connected conn =>
    obtain ⟨packet, hrun, hcarries⟩ := h.connectionComplete_carries b.connIsMaster conn
    exact ⟨[packet], _, hrun, ⟨rfl, rfl, rfl⟩, .cons hcarries .nil⟩
  | disconnected reason =>
    obtain ⟨packet, hpush, hcarries⟩ := h.push_carries hciEvtDisconnectionComplete
      [0, 0, 0, reason.code] (.disconnectionComplete reason.code) (show 4 ≤ 255 by decide) (by
        intro packet hpacket
        unfold HciPacket.hostEvent
        rw [hpacket]
        rfl)
    refine ⟨[packet], { h with events := pushEvent h.events packet, connectionOpen := false }, ?_,
      ⟨rfl, rfl, rfl⟩, .cons hcarries .nil⟩
    show (h.push _ _ >>= fun h => pure { h with connectionOpen := false }) = _
    rw [hpush]
    rfl
  | _ => exact ⟨[], h, rfl, ⟨rfl, rfl, rfl⟩, .nil⟩

/-- **`tick` tells everything that waits**, in order. -/
theorem tick_carries {q : List BleEvent} (h : Hci) {b : Ble} (hq : RingBuffer.Ring.Sim b.events q false) :
    ∃ packets h' events, h.tick b = ⟨packets.map .event, .ok (h', { b with events := events })⟩ ∧
      Queues h packets h' ∧ RingBuffer.Ring.Sim events [] false ∧
      List.Forall₂ Carries packets (q.filterMap (told b.connIsMaster)) := by
  induction q generalizing h b with
  | nil =>
    obtain ⟨hnone, hqueue⟩ := RingBuffer.Ring.pop_nil_sim hq
    refine ⟨[], h, b.events.pop.2, ?_, ⟨rfl, rfl, rfl⟩, hqueue, .nil⟩
    have hpop : b.popEvent = (none, { b with events := b.events.pop.2 }) := by
      rw [← hnone]
      rfl
    rw [tick_eq, hpop]
    rfl
  | cons evt q ih =>
    obtain ⟨hsome, hqueue⟩ := RingBuffer.Ring.pop_cons_sim hq
    have hpop : b.popEvent = (some evt, { b with events := b.events.pop.2 }) := by
      rw [← hsome]
      rfl
    obtain ⟨packets, h₁, hrun, hq₁, hcarries⟩ := h.onEvent_carries { b with events := b.events.pop.2 } evt
    obtain ⟨packets', h', events, hrest, hq', hempty, hcarries'⟩ :=
      ih h₁ (b := { b with events := _ }) hqueue
    refine ⟨packets ++ packets', h', events, ?_, hq₁.trans hq', hempty, ?_⟩
    · rw [tick_eq, hpop]
      dsimp only
      rw [hrun, Logged.mk_ok_bind, hrest, Logged.prepend_mk, List.map_append]
    · have hall : (evt :: q).filterMap (told b.connIsMaster) =
          (told b.connIsMaster evt).toList ++ q.filterMap (told b.connIsMaster) := by
        cases htold : told b.connIsMaster evt with
        | none => exact List.filterMap_cons_none htold
        | some e => exact List.filterMap_cons_some htold
      rw [hall]
      exact List.rel_append hcarries hcarries'

/-! ## Commands -/

/-- The parameters of a Command Complete of the group `OGF_HOST`. -/
def hostParams (own : Buf 6) (ocf : UInt16) : List UInt8 :=
  if ocf = ocfReadLocalVersion then 0x0C :: List.replicate 7 0
  else if ocf = ocfReadBdAddr then own.bytes
  else if ocf = ocfReadBufferSize then List.replicate 8 0
  else []

/-- The answer to a command, by the address set last. -/
def answerTo (own : Buf 6) (op : UInt8 × UInt8) (ogf : UInt8) (ocf : UInt16) : HostEvent :=
  if ogf = ogfLe ∧ ocf = ocfLeCreateConnection then .commandStatus op 0
  else .commandComplete op 0 (if ogf = ogfHost then hostParams own ocf else [])

/-- The address after a command. -/
def addressAfter (own : Buf 6) (ogf : UInt8) (ocf : UInt16) (params : List UInt8) : Buf 6 :=
  if ogf = ogfLe ∧ ocf = ocfLeSetRandomAddress then (Buf.ofSlice 6 (params.take 6)).getD own else own

/-- What a command does to the stack. -/
structure Called (b : Ble) (acts : List BleAct) (b' : Ble) : Prop where
  bounds : b.Bounds → b'.Bounds
  spends : ∃ configures, b.Spends configures acts b'

theorem callIf_called (call : Option ApiCall) (b : Ble) :
    ∃ acts b', callIf call b = ⟨acts.map .ble, .ok b'⟩ ∧ Called b acts b' := by
  cases call with
  | none => exact ⟨[], b, rfl, id, false, .refl b⟩
  | some call =>
    obtain ⟨log, answer, b', hrun, hspends⟩ := call.run_spends b
    obtain ⟨log', answer', b'', hrun', heff⟩ := call.run_effect b
    cases hrun.symm.trans hrun'
    refine ⟨log, b', ?_, heff.bounds, _, hspends⟩
    show calling call b = _
    unfold calling
    rw [hrun]
    exact Logged.ext (List.append_nil _) rfl

/-- A command was answered so, with this address left. -/
def Replied (h : Hci) (own : Buf 6) (answer : HostEvent) (b : Ble) (x : Logged HciAct (Hci × Ble)) :
    Prop :=
  ∃ (acts : List BleAct) (packet : HciPacket) (h' : Hci) (b' : Ble),
    x = ⟨acts.map .ble ++ [.event packet], .ok (h', b')⟩ ∧ Carries packet answer ∧
      h'.events = pushPackets h.events [packet] ∧ h'.framer = h.framer ∧ h'.ownAddr = own ∧
        Called b acts b'

/-- A call, if there is one, and then one packet. -/
theorem Replied.of_packet {h h₁ : Hci} {b : Ble} {answer : HostEvent} {packet : HciPacket}
    {reply : Logged HciAct Hci} (hcarries : Carries packet answer)
    (hreply : reply = ⟨[.event packet], .ok { h₁ with events := pushEvent h₁.events packet }⟩)
    (hevents : h₁.events = h.events) (hframer : h₁.framer = h.framer) (call : Option ApiCall) :
    Replied h h₁.ownAddr answer b (callIf call b >>= fun b' => reply >>= fun h => pure (h, b')) := by
  obtain ⟨acts, b', hcall, hcalled⟩ := callIf_called call b
  refine ⟨acts, packet, { h₁ with events := pushEvent h₁.events packet }, b', ?_, hcarries, ?_, hframer,
    rfl,
    hcalled⟩
  · rw [hcall, Logged.mk_ok_bind, hreply]
    rfl
  · rw [← hevents]
    rfl

/-- Answered with a Command Complete. -/
theorem Replied.complete {h h₁ : Hci} {b : Ble} (hevents : h₁.events = h.events)
    (hframer : h₁.framer = h.framer) (call : Option ApiCall) (op : UInt8 × UInt8) {params : List UInt8}
    (hlen : params.length ≤ 251) : Replied h h₁.ownAddr (.commandComplete op 0 params) b
      (callIf call b >>= fun b' => h₁.commandComplete op 0 params >>= fun h => pure (h, b')) := by
  obtain ⟨packet, hreply, hcarries⟩ := h₁.commandComplete_carries op hlen
  exact .of_packet hcarries hreply hevents hframer call

/-- Answered so without a call. -/
theorem Replied.at_once {h h₁ : Hci} (b : Ble) (hevents : h₁.events = h.events)
    (hframer : h₁.framer = h.framer) (op : UInt8 × UInt8) {params : List UInt8}
    (hlen : params.length ≤ 251) : Replied h h₁.ownAddr (.commandComplete op 0 params) b
      (h₁.commandComplete op 0 params >>= fun h => pure (h, b)) := by
  have hreply := Replied.complete (b := b) hevents hframer none op hlen
  rwa [callIf, Logged.pure_bind] at hreply

/-- Six bytes of the parameters, if there are as many. -/
theorem leSetRandomAddress_own (h : Hci) (params : List UInt8) :
    h.leSetRandomAddress params =
      pure { h with ownAddr := (Buf.ofSlice 6 (params.take 6)).getD h.ownAddr } := by
  unfold leSetRandomAddress
  split
  · rename_i hlen
    obtain ⟨a, hof, hslice, hwrite⟩ := copy_slice 6 params (Nat.zero_le 6) (by omega) rfl
    rw [List.drop_zero] at hof
    rw [hslice, Logged.lift_ok_bind, hwrite, Logged.lift_ok_bind, hof]
    rfl
  · rename_i hlen
    have hshort : Buf.ofSlice 6 (params.take 6) = none :=
      dif_neg (by rw [List.length_take]; omega)
    rw [hshort]
    rfl

/-- **A command of the group `OGF_LE`.** -/
theorem leCommand_replied (h : Hci) (b : Ble) (op : UInt8 × UInt8) (ocf : UInt16) (params : List UInt8)
    (now : UInt32) :
    Replied h (addressAfter h.ownAddr ogfLe ocf params) (answerTo h.ownAddr op ogfLe ocf) b
      (h.leCommand b op ocf params now) := by
  have hcomplete : ocf ≠ ocfLeCreateConnection →
      answerTo h.ownAddr op ogfLe ocf = .commandComplete op 0 [] := by
    intro hne
    unfold answerTo
    rw [if_neg (fun hand => hne hand.2), if_neg (by decide)]
  have hnone : ([] : List UInt8).length ≤ 251 := Nat.zero_le _
  have hkeeps : ocf ≠ ocfLeSetRandomAddress → addressAfter h.ownAddr ogfLe ocf params = h.ownAddr :=
    fun hne => if_neg fun hand => hne hand.2
  unfold leCommand
  by_cases hdata : ocf = ocfLeSetAdvData
  · subst hdata
    rw [if_pos rfl, leSetAdvData_eq, hcomplete (by decide), hkeeps (by decide)]
    exact .complete rfl rfl _ op hnone
  rw [if_neg hdata]
  by_cases hparams : ocf = ocfLeSetAdvParams
  · subst hparams
    rw [if_pos rfl, hcomplete (by decide), hkeeps (by decide)]
    exact .at_once b rfl rfl op hnone
  rw [if_neg hparams]
  by_cases hadv : ocf = ocfLeSetAdvEnable
  · subst hadv
    rw [if_pos rfl, leSetAdvEnable_eq, Logged.bind_assoc, hcomplete (by decide), hkeeps (by decide)]
    simp only [Logged.pure_bind]
    exact .complete rfl rfl _ op hnone
  rw [if_neg hadv]
  by_cases hsparams : ocf = ocfLeSetScanParams
  · subst hsparams
    rw [if_pos rfl, hcomplete (by decide), hkeeps (by decide)]
    exact .at_once b rfl rfl op hnone
  rw [if_neg hsparams]
  by_cases hscan : ocf = ocfLeSetScanEnable
  · subst hscan
    rw [if_pos rfl, leSetScanEnable_eq, Logged.bind_assoc, hcomplete (by decide), hkeeps (by decide)]
    simp only [Logged.pure_bind]
    exact .complete rfl rfl _ op hnone
  rw [if_neg hscan]
  by_cases hconn : ocf = ocfLeCreateConnection
  · subst hconn
    obtain ⟨packet, hreply, hcarries⟩ := h.commandStatus_carries op
    rw [if_pos rfl, leCreateConnection_eq, hkeeps (by decide)]
    exact .of_packet hcarries hreply rfl rfl _
  rw [if_neg hconn, hcomplete hconn]
  by_cases haddr : ocf = ocfLeSetRandomAddress
  · subst haddr
    have hafter : addressAfter h.ownAddr ogfLe ocfLeSetRandomAddress params =
        (Buf.ofSlice 6 (params.take 6)).getD h.ownAddr := if_pos ⟨rfl, rfl⟩
    rw [if_pos rfl, leSetRandomAddress_own, Logged.pure_bind, hafter]
    exact .at_once b rfl rfl op hnone
  · rw [if_neg haddr, hkeeps haddr]
    exact .at_once b rfl rfl op hnone

/-- **Every command**, known or not. -/
theorem handleCommand_replied (h : Hci) (b : Ble) (packet : HciPacket) (now : UInt32)
    (hheader : 3 ≤ packet.len) (hroom : packet.len ≤ 260) :
    Replied h (addressAfter h.ownAddr packet.opcode.1 packet.opcode.2 (packet.body.drop 3))
      (answerTo h.ownAddr packet.op packet.opcode.1 packet.opcode.2) b
        (h.handleCommand b packet now) := by
  have hslice : slice packet.payload.bytes 3 packet.len = .ok (packet.body.drop 3) :=
    slice_of_le hheader (by rw [packet.payload.size]; exact hroom)
  unfold handleCommand
  generalize packet.opcode = opcode
  obtain ⟨ogf, ocf⟩ := opcode
  dsimp only
  rw [hslice, Logged.lift_ok_bind]
  by_cases hle : ogf = ogfLe
  · subst hle
    rw [if_neg (by decide), if_pos rfl]
    exact h.leCommand_replied b _ ocf _ now
  have hanswer : answerTo h.ownAddr packet.op ogf ocf =
      .commandComplete packet.op 0 (if ogf = ogfHost then hostParams h.ownAddr ocf else []) :=
    if_neg fun hand => hle hand.1
  have hkeeps : addressAfter h.ownAddr ogf ocf (packet.body.drop 3) = h.ownAddr :=
    if_neg fun hand => hle hand.1
  rw [hanswer, hkeeps]
  by_cases hhost : ogf = ogfHost
  · rw [if_pos hhost, if_pos hhost]
    have hfits : (hostParams h.ownAddr ocf).length ≤ 251 := by
      unfold hostParams
      split_ifs
      · decide
      · rw [h.ownAddr.size]
        decide
      · decide
      · decide
    have hreply : h.hostCommand packet.op ocf = h.commandComplete packet.op 0
      (hostParams h.ownAddr ocf) := by
      unfold hostCommand hostParams
      split_ifs <;> rfl
    rw [hreply]
    exact .at_once b rfl rfl _ hfits
  · rw [if_neg hhost, if_neg hhost, if_neg hle]
    exact .at_once b rfl rfl _ (Nat.zero_le _)

end Hci

end NrfBle
