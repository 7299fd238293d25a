/-
  The firmware of `examples/hwtest`.

  Its `main` sets an address and the advertising data and then loops: advertise until someone connects,
  drive the connection until it closes, begin again.  The callbacks say hello on connection and send
  back what the peer wrote.

  What it does is settled, whatever the radio brings (`hwtest_serves`).  Connections come one after the
  other; every advertising packet is one and the same `ADV_IND`, and in it the random static address
  stands as a public one, since `gap_adv_start` takes the address type from its parameters.  What the
  peer wrote never comes back: when `ConnData` is delivered `conn_tick` has cleared the length already,
  and the peer is notified of an empty value.  That also is why the copy into 20 bytes never panics. 
  The one thing that can stop the firmware is a panic in a connection event.

  The proof follows the loops with `LoopKeeps`: `Advertising`, `Connected` and `Idle` are the states
  between the ticks, and `Tale` is what they leave in the log.
-/
import Mathlib.Tactic
import NrfBle.Hw.Ble.Loops
import NrfBle.Hw.Ble.Meeting

namespace NrfBle

open Checked RingBuffer

namespace Hwtest

/-! ## The program -/

/-- What the firmware prints. -/
inductive Line
  | boot
  | advertising
  | connected (conn : ConnectReqData)
  | driving
  | rx (data : List UInt8)
  | disconnected (reason : DisconnectReason)
  | connEvt (evt : BleEvent)
  | closed

abbrev Console := List Line

/-- `adv_params`. -/
def advParams : AdvParams :=
  { intervalMin := 160, intervalMax := 160, advType := .connectableUndirected }

/-- The address. -/
def addr : Buf 6 := ⟨[0x08, 0x25, 0x20, 0xEF, 0xBE, 0xC1], rfl⟩

/-- `adv_data`: the flags and the name `nrf-ble`. -/
def advData : List UInt8 :=
  [0x02, 0x01, 0x06, 0x08, 0x09, 0x6E, 0x72, 0x66, 0x2D, 0x62, 0x6C, 0x65]

/-- `b"hello from nrf-ble!"`. -/
def hello : List UInt8 :=
  [0x68, 0x65, 0x6C, 0x6C, 0x6F, 0x20, 0x66, 0x72, 0x6F, 0x6D, 0x20, 0x6E, 0x72, 0x66, 0x2D, 0x62, 0x6C,
    0x65, 0x21]

/-- The copy into `[0u8; 20]`, and the slice of it that is sent back. -/
def copied (data : List UInt8) : Except Panic (List UInt8) := do
  let buf ← (Buf.zero 20).write 0 data
  buf.upto data.length

/-- The callback of `adv_forever`. -/
def onAdv : App Console := fun s evt _ =>
  match evt with
  | .connected conn => .call (.call (.connSend hello)) rfl fun _ => .done (s ++ [.connected conn])
  | _ => .done s

/-- The callback of `conn_forever`. -/
def onConn : App Console := fun s evt b =>
  match evt with
  | .connData =>
    match b.connRxData >>= copied with
    | .ok data => .call (.call (.connSend data)) rfl fun _ => .done (s ++ [.rx data])
    | .error p => .fail p
  | .disconnected reason => .done (s ++ [.disconnected reason])
  | other => .done (s ++ [.connEvt other])

/-- `unwrap` of a call's answer. -/
def unwrap : Except Error Unit → Except Panic Unit
  | .ok () => .ok ()
  | .error _ => .error .unwrap

/-- What a round of the loop reads: the clock, and for each tick what the tick reads.  The first one of
    the advertiser comes in any case. -/
structure Round where
  start : UInt32
  first : AdvEnv
  adv : List AdvEnv
  conn : List ConnEnv

/-- The second half of the loop's body: drive the connection. -/
def drive (hw : Hw) (fuel : Nat) (envs : List ConnEnv) (s : Console) (b : Ble) :
    Logged LoopAct (LoopEnd Console) := do
  match ← b.connForever hw onConn fuel envs (s ++ [.driving]) with
  | .returned s b => return .returned (s ++ [.closed]) b
  | e => return e

/-- The body of the loop. -/
def round (hw : Hw) (fuel : Nat) (r : Round) (s : Console) (b : Ble) :
    Logged LoopAct (LoopEnd Console) := do
  let (answer, b) ← (b.gapAdvStart advParams r.start).within .act
  let _ ← Logged.lift (unwrap answer)
  match ← b.advForever hw onAdv fuel (r.first :: r.adv) (s ++ [.advertising]) with
  | .returned s b => drive hw fuel r.conn s b
  | e => return e

/-- The loop. -/
def rounds (hw : Hw) (fuel : Nat) : List Round → Console → Ble → Logged LoopAct (LoopEnd Console)
  | [], s, b => return .returned s b
  | r :: rs, s, b => do
    match ← round hw fuel r s b with
    | .returned s b => rounds hw fuel rs s b
    | e => return e

/-- `main`. -/
def main (hw : Hw) (fuel : Nat) (rs : List Round) : Logged LoopAct (LoopEnd Console) := do
  let b := Ble.new.gapAddressSet addr .randomStatic
  let (answer, b) ← (b.gapAdvSetConfigure advData []).within .act
  let _ ← Logged.lift (unwrap answer)
  rounds hw fuel rs [.boot] b

/-! ## What is told of it -/

/-- The one packet it advertises with. -/
def advPacket : List UInt8 := (AdvPdu.advInd addr advData).bytes false false

/-- `k` connections one after the other, and perhaps one more. -/
def story (k : Nat) (isOpen : Bool) : List LinkEvent :=
  (List.replicate k [.connected, .disconnected]).flatten ++ if isOpen then [.connected] else []

/-- The links a log tells of, and the packets in it. -/
structure Tale (k : Nat) (isOpen : Bool) (log : List LoopAct) : Prop where
  links : linkEvents (stackLog log) = story k isOpen
  packets : ∀ pdu ∈ transmissions (stackLog log), pdu = advPacket

/-- No data was received, so far as the console knows. -/
def Blank (s : Console) : Prop := ∀ data, .rx data ∈ s → data = []

/-- As `main` set it up. -/
structure Configured (b : Ble) : Prop where
  bounds : b.Bounds
  addr : b.ownAddr = addr
  data : b.advDataBytes = advData
  noRsp : b.scanRspLen = 0

structure Idle (b : Ble) : Prop extends Configured b where
  adv : b.advState = .idle
  conn : b.conn = none

structure Advertising (b : Ble) : Prop extends Configured b where
  adv : b.advState = .running
  params : b.advParams = advParams
  addrType : b.ownAddrType = .«public»
  conn : b.conn = none

/-- A connection is open, and the length of its received data is clear. -/
structure Connected (b : Ble) : Prop extends Configured b where
  adv : b.advState = .idle
  conn : b.conn.map Conn.rxDataLen = some 0

/-! ## Logs -/

theorem transmissions_append (xs ys : List BleAct) :
    transmissions (xs ++ ys) = transmissions xs ++ transmissions ys := List.filterMap_append

/-- More log. -/
theorem Tale.extend {k m : Nat} {o o' : Bool} {log : List LoopAct} {more : List LoopAct}
    (h : Tale k o log) (hlinks : story k o ++ linkEvents (stackLog more) = story m o')
    (hpackets : ∀ pdu ∈ transmissions (stackLog more), pdu = advPacket) : Tale m o' (log ++ more) where
  links := by
    rw [stackLog_append, linkEvents_append, h.links]
    exact hlinks
  packets := by
    intro pdu hpdu
    rw [stackLog_append, transmissions_append] at hpdu
    exact (List.mem_append.mp hpdu).elim (h.packets pdu) (hpackets pdu)

theorem story_opens (k : Nat) : story k false ++ [.connected] = story k true := by
  unfold story
  rw [if_neg Bool.false_ne_true, if_pos rfl, List.append_nil]

theorem story_closes (k : Nat) : story k true ++ [.disconnected] = story (k + 1) false := by
  unfold story
  rw [if_neg Bool.false_ne_true, if_pos rfl, List.append_nil, List.replicate_succ', List.flatten_append,
    List.append_assoc]
  rfl

/-- A delivery, and what the callback did that only calls. -/
theorem Tale.deliver {k : Nat} {o : Bool} {log : List LoopAct} (h : Tale k o log) (evt : BleEvent) :
    Tale k o (log ++ [.deliver evt]) :=
  h.extend (List.append_nil _) (List.forall_mem_nil _)

/-! ## One step -/

/-- Whatever waits. -/
theorem Configured.popped {b : Ble} (h : Configured b) : Configured b.popEvent.2 :=
  ⟨{ h.bounds with }, h.addr, h.data, h.noRsp⟩

/-- The connection is all a `conn_send` changes, and not its received data. -/
theorem connSend_run (hw : Hw) (data : List UInt8) (b : Ble) :
    ∃ conn, BleOp.run hw (.call (.connSend data)) b = ⟨[], .ok { b with conn := conn }⟩ ∧
      conn.map Conn.rxDataLen = b.conn.map Conn.rxDataLen := by
  show ∃ conn, (b.connSend data >>= fun r => pure r.2) = _ ∧ _
  refine ⟨b.conn.map fun c => c.queueNotify data, ?_, ?_⟩
  · unfold Ble.connSend Ble.onConn
    cases hconn : b.conn with
    | none =>
      have hsame : { b with conn := none } = b := by rw [← hconn]
      rw [Option.map_none, hsame]
      rfl
    | some c => rfl
  · rw [Option.map_map]
    rfl

theorem Advertising.popped {b : Ble} (h : Advertising b) : Advertising b.popEvent.2 :=
  { h.toConfigured.popped with
    adv := h.adv, params := h.params, addrType := h.addrType, conn := h.conn }

theorem Connected.popped {b : Ble} (h : Connected b) : Connected b.popEvent.2 :=
  { h.toConfigured.popped with adv := h.adv, conn := h.conn }

theorem Idle.popped {b : Ble} (h : Idle b) : Idle b.popEvent.2 :=
  { h.toConfigured.popped with adv := h.adv, conn := h.conn }

theorem Connected.isSome {b : Ble} (h : Connected b) : b.conn.isSome = true := by
  rw [← Option.isSome_map (f := Conn.rxDataLen), h.conn]
  rfl

/-- Another connection in the state. -/
theorem Configured.with_conn {b : Ble} (h : Configured b) (conn : Option Conn) :
    Configured { b with conn := conn } :=
  ⟨{ h.bounds with }, h.addr, h.data, h.noRsp⟩

section WithConn

variable {b : Ble} {conn : Option Conn} (hconn : conn.map Conn.rxDataLen = b.conn.map Conn.rxDataLen)

include hconn

theorem Advertising.with_conn (h : Advertising b) : Advertising { b with conn := conn } := by
  rw [h.conn] at hconn
  exact ⟨h.toConfigured.with_conn conn, h.adv, h.params, h.addrType, Option.map_eq_none_iff.mp hconn⟩

theorem Connected.with_conn (h : Connected b) : Connected { b with conn := conn } :=
  ⟨h.toConfigured.with_conn conn, h.adv, hconn.trans h.conn⟩

theorem Idle.with_conn (h : Idle b) : Idle { b with conn := conn } := by
  rw [h.conn] at hconn
  exact ⟨h.toConfigured.with_conn conn, h.adv, Option.map_eq_none_iff.mp hconn⟩

end WithConn

/-- There is no response data, and so nothing else is sent. -/
theorem Advertising.serveLog {b : Ble} (h : Advertising b) {air : Air} (hreq : air.connectReq = none) :
    b.serveLog air = [] := by
  have hnoRsp : ∀ a, b.scanRspLog a = [] := fun a => if_neg (by rw [h.noRsp]; exact Nat.lt_irrefl 0)
  unfold Ble.serveLog
  rw [h.params, hreq]
  dsimp only [advParams]
  split
  · exact hnoRsp _
  · rfl

/-- **An advertising event** transmits the one packet; it goes on, or a connection is open. -/
theorem advTick_step {b : Ble} (h : Advertising b) (env : AdvEnv) :
    ∃ acts b', b.advTick env = ⟨acts, .ok b'⟩ ∧ transmissions acts = [advPacket] ∧
      (Advertising b' ∧ linkEvents acts = [] ∨ Connected b' ∧ linkEvents acts = [.connected]) := by
  have hext : b.advParams.extended = false := by rw [h.params]; rfl
  have htype : b.advParams.advType = .connectableUndirected := by rw [h.params]; rfl
  obtain ⟨b', hrun, hconn, hstate⟩ := Ble.advTick_legacy h.bounds h.adv hext env
  obtain ⟨log, b'', hrun', hbounds, heff⟩ := Ble.advTick_effect h.bounds env
  obtain rfl : b' = b'' := Except.ok.inj (congrArg Logged.res (hrun.symm.trans hrun'))
  have hframe := heff.frame
  have hconf : Configured b' :=
    ⟨hbounds, by rw [hframe]; exact h.addr, by rw [hframe]; exact h.data, by rw [hframe]; exact h.noRsp⟩
  have hpacket : b.legacyPdu.bytes b.ownAddrType.isRandom false = advPacket := by
    unfold Ble.legacyPdu
    rw [htype, h.addrType, h.addr, h.data]
    rfl
  have hopens : Ble.serveOpens b.advParams env.air = env.air.connectReq.map fun r => r.2.2 := by
    rw [h.params]
    rfl
  rw [hpacket] at hrun
  unfold Ble.servedConn at hconn
  unfold Ble.servedState at hstate
  rw [hopens] at hconn hstate
  refine ⟨_, b', hrun, ?_⟩
  cases hreq : env.air.connectReq with
  | some req =>
    rw [hreq] at hconn hstate
    have hlog : b.serveLog env.air =
        [.push (.connected req.2.2), .push (.connectReqReceived req.1 req.2.2)] := by
      unfold Ble.serveLog
      rw [htype, hreq]
    rw [hlog]
    exact ⟨rfl, .inr ⟨{ hconf with adv := hstate, conn := by rw [hconn]; rfl }, rfl⟩⟩
  | none =>
    rw [hreq] at hconn hstate
    rw [h.serveLog hreq]
    refine ⟨rfl, .inl ⟨{ hconf with adv := ?_, params := ?_, addrType := ?_, conn := ?_ }, rfl⟩⟩
    · exact hstate.trans h.adv
    · rw [hframe]
      exact h.params
    · rw [hframe]
      exact h.addrType
    · exact hconn.trans h.conn

/-- A connection event transmits none of the advertiser's packets. -/
theorem connTick_transmissions (hw : Hw) (b : Ble) (env : ConnEnv) :
    transmissions (b.connTick hw env).log = [] := by
  have hreport : ∀ (b : Ble) (evt : ConnEvent), transmissions (b.connReport evt).log = [] := by
    intro b evt
    unfold Ble.connReport
    split <;> rfl
  have hdeliver : ∀ b : Ble, transmissions b.connDeliver.log = [] := by
    intro b
    unfold Ble.connDeliver
    split
    · rfl
    · split <;> rfl
  unfold Ble.connTick
  split
  · rfl
  split
  · rfl
  refine Logged.Silent.bind (.within (fun _ => rfl) _) ?_
  rintro ⟨answer, c⟩
  dsimp only
  split
  · rfl
  · rfl
  · exact Logged.Silent.bind (hreport _ _) hdeliver

/-- **A connection event** keeps the connection or ends it. -/
theorem connTick_step (hw : Hw) {b b' : Ble} {alive : Bool} (h : Connected b) (env : ConnEnv)
    (hrun : (b.connTick hw env).res = .ok (alive, b')) :
    alive = true ∧ Connected b' ∧ linkEvents (b.connTick hw env).log = [] ∨
      alive = false ∧ Idle b' ∧ linkEvents (b.connTick hw env).log = [.disconnected] := by
  have hdone := b.connTick_done hw env
  generalize b.connTick hw env = x at hdone hrun ⊢
  cases hdone with
  | panicked hopen hin => cases hrun
  | closed hreason =>
    cases hrun
    refine .inr ⟨rfl, ⟨⟨{ h.bounds with }, h.addr, h.data, h.noRsp⟩, h.adv, rfl⟩, ?_⟩
    rw [linkEvents_append, linkEvents_conn]
    rfl
  | kept hconn hin hevent frame quiet data =>
    cases hrun
    refine .inl ⟨rfl, ?_, quiet.linkEvents⟩
    rw [frame]
    exact ⟨⟨{ h.bounds with }, h.addr, h.data, h.noRsp⟩, h.adv, rfl⟩

/-- A panic in it says nothing about the link. -/
theorem connTick_panic {hw : Hw} {b : Ble} {env : ConnEnv} {p : Panic}
    (hpanic : (b.connTick hw env).res = .error p) : linkEvents (b.connTick hw env).log = [] := by
  obtain ⟨c, _, _, hlog⟩ := Ble.connTick_panics hpanic
  rw [hlog]
  exact linkEvents_conn _

/-- **Starting** to advertise. -/
theorem gapAdvStart_step {b : Ble} (h : Idle b) (now : UInt32) :
    ∃ b', b.gapAdvStart advParams now = ⟨[.push .advStarted], .ok (.ok (), b')⟩ ∧ Advertising b' := by
  have hallowed : Ble.AdvAllowed advParams := by
    unfold Ble.AdvAllowed
    decide
  obtain ⟨accum, compare, haccum, heq⟩ := Ble.gapAdvStart_eq h.adv hallowed now
  refine ⟨_, heq, ⟨{ h.bounds with
    directed := ?_, advChannelIdx := (by decide : (0 : Nat) < 3), advAccum := haccum },
    h.addr, h.data, h.noRsp⟩, rfl, rfl, rfl, h.conn⟩
  rintro ⟨⟩

/-! ## The callbacks -/

/-- **A callback that does no harm**: it does not panic, changes at most the connection and not whether
    there is one, leaves the received data alone, and adds none to the console. -/
def Harmless (s : Console) (b : Ble) (x : Logged BleAct (Console × Ble)) : Prop :=
  ∃ s' conn, x = ⟨[], .ok (s', { b with conn := conn })⟩ ∧ (Blank s → Blank s') ∧
    conn.map Conn.rxDataLen = b.conn.map Conn.rxDataLen

theorem Blank.line {s : Console} (h : Blank s) {line : Line}
    (hline : ∀ data, line = .rx data → data = []) : Blank (s ++ [line]) := by
  intro data hmem
  rcases List.mem_append.mp hmem with hmem | hmem
  · exact h data hmem
  · exact hline data (List.mem_singleton.mp hmem).symm

theorem onAdv_run (hw : Hw) (s : Console) (evt : BleEvent) (b : Ble) :
    Harmless s b ((onAdv s evt b).run hw b) := by
  unfold onAdv
  split
  · rename_i params
    obtain ⟨conn, hrun, hconn⟩ := connSend_run hw hello b
    refine ⟨s ++ [.connected params], conn, ?_, fun h => h.line (by rintro _ ⟨⟩), hconn⟩
    show (BleOp.run hw (.call (.connSend hello)) b >>= fun b => pure (s ++ [.connected params], b)) = _
    rw [hrun]
    rfl
  · exact ⟨s, b.conn, rfl, id, rfl⟩

/-- `ConnData` finds no data. -/
theorem onConn_run (hw : Hw) (s : Console) (evt : BleEvent) {b : Ble}
    (hdata : ∀ n ∈ b.conn.map Conn.rxDataLen, n = 0) : Harmless s b ((onConn s evt b).run hw b) := by
  have hcopied : b.connRxData >>= copied = .ok [] := by
    unfold Ble.connRxData
    cases hconn : b.conn with
    | none => rfl
    | some c =>
      have hlen : c.rxDataLen = 0 := hdata _ (by rw [hconn]; rfl)
      dsimp only
      rw [hlen]
      rfl
  unfold onConn
  split
  · obtain ⟨conn, hrun, hconn⟩ := connSend_run hw [] b
    rw [hcopied]
    refine ⟨s ++ [.rx []], conn, ?_, fun h => h.line (by rintro _ ⟨⟩; rfl), hconn⟩
    show (BleOp.run hw (.call (.connSend [])) b >>= fun b => pure (s ++ [.rx []], b)) = _
    rw [hrun]
    rfl
  · exact ⟨_, b.conn, rfl, fun h => h.line (by rintro _ ⟨⟩), rfl⟩
  · exact ⟨_, b.conn, rfl, fun h => h.line (by rintro _ ⟨⟩), rfl⟩

/-! ## The loops -/

/-- Behind a tick of the advertiser: it goes on, or a connection is open. -/
def AdvLoop (k : Nat) (alive : Bool) (log : List LoopAct) (s : Console) (b : Ble) : Prop :=
  alive = true ∧ Blank s ∧ (Advertising b ∧ Tale k false log ∨ Connected b ∧ Tale k true log)

theorem advLoop_keeps (hw : Hw) (k : Nat) :
    LoopKeeps hw onAdv (fun (env : AdvEnv) b => do return (true, ← b.advTick env))
      (fun b => b.advState = .idle)
      (fun log s b => Blank s ∧ Advertising b ∧ Tale k false log) (AdvLoop k) (fun _ _ => False) where
  tick := by
    rintro env log s b r ⟨hblank, hadv, htale⟩ hrun
    obtain ⟨acts, b', htick, hsent, hnext⟩ := advTick_step hadv env
    rw [htick] at hrun ⊢
    cases hrun
    have hpackets : ∀ pdu ∈ transmissions (stackLog (acts.map .act)), pdu = advPacket := by
      rw [stackLog_act, hsent]
      exact fun pdu => List.mem_singleton.mp
    have hlog : (Logged.mk acts (.ok b') >>= fun b => pure (true, b)).log = acts := List.append_nil acts
    rw [hlog]
    refine ⟨rfl, hblank, hnext.imp ?_ ?_⟩
    · rintro ⟨hgoes, hlinks⟩
      refine ⟨hgoes, htale.extend ?_ hpackets⟩
      rw [stackLog_act, hlinks, List.append_nil]
    · rintro ⟨hopen, hlinks⟩
      refine ⟨hopen, htale.extend ?_ hpackets⟩
      rw [stackLog_act, hlinks]
      exact story_opens k
  popped := fun h =>
    ⟨h.1, h.2.1, h.2.2.imp (fun h => ⟨h.1.popped, h.2⟩) (fun h => ⟨h.1.popped, h.2⟩)⟩
  deliver := by
    rintro evt a log s b ⟨halive, hblank, hstate⟩
    obtain ⟨s', conn, hrun, hblank', hconn⟩ := onAdv_run hw s evt b
    rw [hrun]
    refine .done ?_
    rw [List.map_nil, List.append_nil]
    refine ⟨halive, hblank' hblank, hstate.imp ?_ ?_⟩
    · rintro ⟨hadv, htale⟩
      exact ⟨hadv.with_conn hconn, htale.deliver evt⟩
    · rintro ⟨hopen, htale⟩
      exact ⟨hopen.with_conn hconn, htale.deliver evt⟩
  again := by
    rintro log s b ⟨_, hblank, ⟨hadv, htale⟩ | ⟨hopen, htale⟩⟩ hstops
    · exact ⟨hblank, hadv, htale⟩
    · rw [decide_eq_false_iff_not] at hstops
      exact (hstops hopen.adv).elim

/-- Behind a tick of the connection: it is open or closed. -/
def ConnLoop (k : Nat) (alive : Bool) (log : List LoopAct) (s : Console) (b : Ble) : Prop :=
  Blank s ∧
    (alive = true ∧ Connected b ∧ Tale k true log ∨ alive = false ∧ Idle b ∧ Tale (k + 1) false log)

theorem connLoop_keeps (hw : Hw) (k : Nat) :
    LoopKeeps hw onConn (fun (env : ConnEnv) b => b.connTick hw env) (fun _ => false)
      (fun log s b => Blank s ∧ Connected b ∧ Tale k true log) (ConnLoop k) (fun _ _ => False) where
  tick := by
    rintro env log s b ⟨alive, b'⟩ ⟨hblank, hopen, htale⟩ hrun
    have hpackets : ∀ pdu ∈ transmissions (stackLog ((b.connTick hw env).log.map .act)),
        pdu = advPacket := by
      rw [stackLog_act, connTick_transmissions]
      exact List.forall_mem_nil _
    refine ⟨hblank, (connTick_step hw hopen env hrun).imp ?_ ?_⟩
    · rintro ⟨halive, hopen', hlinks⟩
      refine ⟨halive, hopen', htale.extend ?_ hpackets⟩
      rw [stackLog_act, hlinks, List.append_nil]
    · rintro ⟨halive, hidle, hlinks⟩
      refine ⟨halive, hidle, htale.extend ?_ hpackets⟩
      rw [stackLog_act, hlinks]
      exact story_closes k
  popped := fun h =>
    ⟨h.1, h.2.imp (fun h => ⟨h.1, h.2.1.popped, h.2.2⟩) (fun h => ⟨h.1, h.2.1.popped, h.2.2⟩)⟩
  deliver := by
    rintro evt a log s b ⟨hblank, ⟨halive, hopen, htale⟩ | ⟨halive, hidle, htale⟩⟩
    · have hdata : ∀ n ∈ b.conn.map Conn.rxDataLen, n = 0 := by
        rw [hopen.conn]
        rintro n ⟨⟩
        rfl
      obtain ⟨s', conn, hrun, hblank', hconn⟩ := onConn_run hw s evt hdata
      rw [hrun]
      refine .done ?_
      rw [List.map_nil, List.append_nil]
      exact ⟨hblank' hblank, .inl ⟨halive, hopen.with_conn hconn, htale.deliver evt⟩⟩
    · have hdata : ∀ n ∈ b.conn.map Conn.rxDataLen, n = 0 := by
        rw [hidle.conn]
        rintro n ⟨⟩
      obtain ⟨s', conn, hrun, hblank', hconn⟩ := onConn_run hw s evt hdata
      rw [hrun]
      refine .done ?_
      rw [List.map_nil, List.append_nil]
      exact ⟨hblank' hblank, .inr ⟨halive, hidle.with_conn hconn, htale.deliver evt⟩⟩
  again := by
    rintro log s b ⟨hblank, ⟨_, hopen, htale⟩ | ⟨halive, _⟩⟩ _
    · exact ⟨hblank, hopen, htale⟩
    · cases halive

/-! ## The firmware -/

/-- **Where the firmware is found** `n` rounds behind `before`, a log with `k` connections: they are
    over, or one of them waits for a tick or was stopped by one. -/
inductive Stands (hw : Hw) (before : List LoopAct) (k n : Nat) : Logged LoopAct (LoopEnd Console) → Prop
  | done {log : List LoopAct} {s : Console} {b : Ble} (htale : Tale (k + n) false (before ++ log))
      (hidle : Idle b) (hblank : Blank s) (hqueue : Ble.Waiting 2 [] b)
      (horder : pushed (stackLog log) = handed log) : Stands hw before k n ⟨log, .ok (.returned s b)⟩
  | advertising {m : Nat} {log : List LoopAct} {s : Console} {b : Ble} (hm : m < n)
      (htale : Tale (k + m) false (before ++ log)) (hadv : Advertising b) (hblank : Blank s)
      (horder : pushed (stackLog log) = handed log) : Stands hw before k n ⟨log, .ok (.waiting s b)⟩
  | connected {m : Nat} {log : List LoopAct} {s : Console} {b : Ble} (hm : m < n)
      (htale : Tale (k + m) true (before ++ log)) (hopen : Connected b) (hblank : Blank s)
      (horder : pushed (stackLog log) = handed log) : Stands hw before k n ⟨log, .ok (.waiting s b)⟩
  | panicked {m : Nat} {front : List LoopAct} {waits : List BleEvent} {b : Ble} {env : ConnEnv}
    {p : Panic}
      (hm : m < n) (htale : Tale (k + m) true (before ++ front)) (hopen : Connected b)
      (hpanic : (b.connTick hw env).res = .error p)
      (horder : pushed (stackLog (front ++ (b.connTick hw env).log.map .act)) =
        handed (front ++ (b.connTick hw env).log.map .act) ++ waits) :
      Stands hw before k n ⟨front ++ (b.connTick hw env).log.map .act, .error p⟩

/-- More log in front. -/
theorem Stands.prepend {hw : Hw} {before log : List LoopAct} {k n : Nat}
    {x : Logged LoopAct (LoopEnd Console)} (h : Stands hw (before ++ log) k n x)
    (hlog : pushed (stackLog log) = handed log) : Stands hw before k n (x.prepend log) := by
  have hjoin : ∀ {more : List LoopAct} {waits : List BleEvent},
      pushed (stackLog more) = handed more ++ waits →
      pushed (stackLog (log ++ more)) = handed (log ++ more) ++ waits := by
    intro more waits hmore
    rw [stackLog_append, pushed_append, handed_append, hlog, hmore, List.append_assoc]
  have hjoin' : ∀ {more : List LoopAct}, pushed (stackLog more) = handed more →
      pushed (stackLog (log ++ more)) = handed (log ++ more) := by
    intro more hmore
    rw [stackLog_append, pushed_append, handed_append, hlog, hmore]
  cases h with
  | done htale hidle hblank hqueue horder =>
    rw [List.append_assoc] at htale
    exact .done htale hidle hblank hqueue (hjoin' horder)
  | advertising hm htale hadv hblank horder =>
    rw [List.append_assoc] at htale
    exact .advertising hm htale hadv hblank (hjoin' horder)
  | connected hm htale hopen hblank horder =>
    rw [List.append_assoc] at htale
    exact .connected hm htale hopen hblank (hjoin' horder)
  | panicked hm htale hopen hpanic horder =>
    rw [List.append_assoc] at htale
    have hall := hjoin horder
    rw [← List.append_assoc] at hall
    rw [Logged.prepend_mk, ← List.append_assoc]
    exact .panicked hm htale hopen hpanic hall

/-- Counted from one round earlier. -/
theorem Stands.later {hw : Hw} {before : List LoopAct} {k n : Nat}
    {x : Logged LoopAct (LoopEnd Console)} (h : Stands hw before (k + 1) n x) :
    Stands hw before k (n + 1) x := by
  have hcount : ∀ {m : Nat} {isOpen : Bool} {log : List LoopAct},
      Tale (k + 1 + m) isOpen log → Tale (k + (m + 1)) isOpen log := by
    intro m isOpen log htale
    rw [Nat.add_assoc, Nat.add_comm 1] at htale
    exact htale
  cases h with
  | done htale hidle hblank hqueue horder => exact .done (hcount htale) hidle hblank hqueue horder
  | advertising hm htale hadv hblank horder =>
    exact .advertising (Nat.succ_lt_succ hm) (hcount htale) hadv hblank horder
  | connected hm htale hopen hblank horder =>
    exact .connected (Nat.succ_lt_succ hm) (hcount htale) hopen hblank horder
  | panicked hm htale hopen hpanic horder =>
    exact .panicked (Nat.succ_lt_succ hm) (hcount htale) hopen hpanic horder

/-- The start of a round: the advertiser runs, and says so. -/
theorem start_waiting (hw : Hw) {b b' : Ble} {now : UInt32} (hqueue : Ble.Waiting 2 [] b)
    (hstart : b.gapAdvStart advParams now = ⟨[.push .advStarted], .ok (.ok (), b')⟩)
    (hbounds : b'.Bounds) : Ble.Waiting 2 [.advStarted] b' := by
  have hrun : BleOp.run hw (.call (.gapAdvStart advParams now)) b = ⟨[.push .advStarted], .ok b'⟩ := by
    show (b.gapAdvStart advParams now >>= fun r => pure r.2) = _
    rw [hstart]
    rfl
  obtain ⟨log, b₁, hrun', hspends⟩ :=
    ofApp_spends hw (show (BleOp.call (.gapAdvStart advParams now)).ofApp = true from rfl) b
  cases hrun.symm.trans hrun'
  exact hqueue.of_spends (by decide) hbounds hspends

/-- **Driving a connection.** -/
theorem drive_stands (hw : Hw) {fuel : Nat} (hfuel : 8 ≤ fuel) (envs : List ConnEnv)
    {before : List LoopAct} {k : Nat} {s : Console} {b : Ble} (htale : Tale k true before)
    (hopen : Connected b) (hblank : Blank s) (hqueue : Ble.Waiting 2 [] b) :
    Stands hw before k 1 (drive hw fuel envs s b) := by
  have hloop := (connLoop_keeps hw k).forever fuel envs (s := s ++ [.driving])
    ⟨hblank.line (by rintro _ ⟨⟩), hopen, htale⟩
  obtain ⟨waits, hgave, hnone⟩ := forever_delivers hw onConn hfuel (connTick_spec hw)
    (fun _ => false) envs
    (s := s ++ [.driving]) hqueue (fun _ => rfl)
  unfold drive Ble.connForever
  generalize Ble.forever hw onConn fuel (fun (env : ConnEnv) b => b.connTick hw env)
    (fun _ => false) envs
    (s ++ [.driving]) b = x at hloop hgave hnone ⊢
  have horder := hgave.order
  cases hloop with
  | draining => exact (hgave.ended _ rfl).elim
  | failed hfails => exact hfails.elim
  | @panicked front s' b' env p hgo hpanic =>
    obtain ⟨_, hopen', htale'⟩ := hgo
    exact .panicked (m := 0) (by decide) htale' hopen' hpanic horder
  | @waiting log s' b' hgo =>
    obtain ⟨hblank', hopen', htale'⟩ := hgo
    have hwaits : waits = [] := hnone _ rfl
    rw [hwaits, List.append_nil] at horder
    rw [Logged.mk_ok_bind]
    dsimp only
    rw [Logged.pure_eq_mk, Logged.prepend_mk, List.append_nil]
    exact .connected (m := 0) (by decide) htale' hopen' hblank' horder
  | @returned log alive s' b' hkept hstops =>
    have hwaits : waits = [] := hnone _ rfl
    have hqueue' : Ble.Waiting 2 waits b' := hgave.ended _ rfl
    rw [hwaits] at hqueue'
    rw [hwaits, List.append_nil] at horder
    rw [Logged.mk_ok_bind]
    dsimp only
    rw [Logged.pure_eq_mk, Logged.prepend_mk, List.append_nil]
    obtain ⟨hblank', ⟨halive, _⟩ | ⟨_, hidle, htale'⟩⟩ := hkept
    · rw [halive] at hstops
      cases hstops
    · exact .done htale' hidle (hblank'.line (by rintro _ ⟨⟩)) hqueue' horder

/-- **One round.** -/
theorem round_stands (hw : Hw) {fuel : Nat} (hfuel : 8 ≤ fuel) (r : Round) {before : List LoopAct}
    {k : Nat} {s : Console} {b : Ble} (htale : Tale k false before) (hidle : Idle b) (hblank : Blank s)
    (hqueue : Ble.Waiting 2 [] b) : Stands hw before k 1 (round hw fuel r s b) := by
  obtain ⟨b₁, hstart, hadv⟩ := gapAdvStart_step hidle r.start
  have hwait := start_waiting hw hqueue hstart hadv.bounds
  have htale₁ : Tale k false (before ++ [.act (.push .advStarted)]) :=
    htale.extend (List.append_nil _) (List.forall_mem_nil _)
  have hloop := (advLoop_keeps hw k).forever fuel (r.first :: r.adv) (s := s ++ [.advertising])
    ⟨hblank.line (by rintro _ ⟨⟩), hadv, htale₁⟩
  obtain ⟨waits, hgave, hnone⟩ := forever_delivers hw onAdv hfuel (advTick_spec hw)
    (fun b => b.advState = .idle)
    (r.first :: r.adv) (s := s ++ [.advertising]) hwait (by rintro ⟨⟩)
  have hwithin : (Logged.within LoopAct.act ⟨[.push .advStarted], .ok (.ok (), b₁)⟩ :
      Logged LoopAct (Except Error Unit × Ble)) = ⟨[.act (.push .advStarted)], .ok (.ok (), b₁)⟩ := rfl
  unfold round
  rw [hstart, hwithin, Logged.mk_ok_bind]
  dsimp only [unwrap]
  rw [Logged.lift_ok_bind]
  unfold Ble.advForever
  generalize Ble.forever hw onAdv fuel (fun (env : AdvEnv) b => do return (true, ← b.advTick env))
    (fun b => b.advState = .idle) (r.first :: r.adv) (s ++ [.advertising]) b₁ = x at hloop hgave hnone ⊢
  have horder := hgave.order
  cases hloop with
  | draining => exact (hgave.ended _ rfl).elim
  | failed hfails => exact hfails.elim
  | panicked hgo hpanic =>
    obtain ⟨acts, b', htick, _⟩ := advTick_step hgo.2.1 _
    rw [htick] at hpanic
    cases hpanic
  | @waiting log s' b' hgo =>
    obtain ⟨hblank', hadv', htale'⟩ := hgo
    have hwaits : waits = [] := hnone _ rfl
    rw [hwaits, List.append_nil] at horder
    rw [List.append_assoc] at htale'
    show Stands hw before k 1 ⟨[.act (.push .advStarted)] ++ (log ++ []), .ok (.waiting s' b')⟩
    rw [List.append_nil]
    exact .advertising (m := 0) (by decide) htale' hadv' hblank' horder
  | @returned log a s' b' hkept hstops =>
    have hwaits : waits = [] := hnone _ rfl
    have hqueue' : Ble.Waiting 2 waits b' := hgave.ended _ rfl
    rw [hwaits] at hqueue'
    rw [hwaits, List.append_nil] at horder
    obtain ⟨rfl, hblank', ⟨hadv', htale'⟩ | ⟨hopen, htale'⟩⟩ := hkept
    -- the loop does not return while the advertiser runs
    · rw [hadv'.adv] at hstops
      cases hstops
    · rw [List.append_assoc] at htale'
      show Stands hw before k 1 (((drive hw fuel r.conn s' b').prepend log).prepend
        [.act (.push .advStarted)])
      rw [Logged.prepend_prepend]
      exact (drive_stands hw hfuel r.conn htale' hopen hblank' hqueue').prepend horder

/-- **Any number of rounds.** -/
theorem rounds_stands (hw : Hw) {fuel : Nat} (hfuel : 8 ≤ fuel) (rs : List Round)
    {before : List LoopAct} {k : Nat} {s : Console} {b : Ble} (htale : Tale k false before)
    (hidle : Idle b) (hblank : Blank s) (hqueue : Ble.Waiting 2 [] b) :
    Stands hw before k rs.length (rounds hw fuel rs s b) := by
  induction rs generalizing before k s b with
  | nil =>
    refine .done ?_ hidle hblank hqueue rfl
    rw [List.append_nil]
    exact htale
  | cons r rs ih =>
    have hround := round_stands hw hfuel r htale hidle hblank hqueue
    rw [rounds]
    generalize round hw fuel r s b = x at hround
    have hmore : ∀ {m : Nat}, m < 1 → m < rs.length + 1 := by
      intro m hm
      omega
    cases hround with
    | @done log s' b' htale' hidle' hblank' hqueue' horder =>
      exact ((ih htale' hidle' hblank' hqueue').prepend horder).later
    | @advertising m log s' b' hm htale' hadv hblank' horder =>
      rw [Logged.mk_ok_bind]
      dsimp only
      rw [Logged.pure_eq_mk, Logged.prepend_mk, List.append_nil]
      exact .advertising (hmore hm) htale' hadv hblank' horder
    | @connected m log s' b' hm htale' hopen hblank' horder =>
      rw [Logged.mk_ok_bind]
      dsimp only
      rw [Logged.pure_eq_mk, Logged.prepend_mk, List.append_nil]
      exact .connected (hmore hm) htale' hopen hblank' horder
    | panicked hm htale' hopen hpanic horder =>
      exact .panicked (hmore hm) htale' hopen hpanic horder

/-- The stack as `main` sets it up. -/
theorem setup_idle : ∃ b, (Ble.new.gapAddressSet addr .randomStatic).gapAdvSetConfigure advData [] =
    ⟨[], .ok (.ok (), b)⟩ ∧ Idle b ∧ Ble.Waiting 2 [] b := by
  refine ⟨_, rfl, ⟨⟨?_, rfl, by decide, rfl⟩, rfl, rfl⟩, ?_⟩
  · exact { Ble.bounds_new with advDataLen := (by decide : (12 : Nat) ≤ 31) }
  · exact ⟨{ Ble.bounds_new with advDataLen := (by decide : (12 : Nat) ≤ 31) }, Ble.waiting_new.queue,
      Ble.waiting_new.room⟩

theorem main_stands (hw : Hw) {fuel : Nat} (hfuel : 8 ≤ fuel) (rs : List Round) :
    Stands hw [] 0 rs.length (main hw fuel rs) := by
  obtain ⟨b, hsetup, hidle, hqueue⟩ := setup_idle
  have htale : Tale 0 false [] := ⟨rfl, List.forall_mem_nil _⟩
  have hblank : Blank [.boot] := by
    intro data hmem
    cases List.mem_singleton.mp hmem
  have hrounds := rounds_stands hw hfuel rs htale hidle hblank hqueue
  unfold main
  dsimp only
  rw [hsetup]
  exact hrounds

/-- **What the firmware does, whatever the radio brings.**  It makes one connection after the other and
    transmits one and the same packet in between; its events are delivered in order; and it is found at
    a tick of the running advertiser or of an open connection, unless a connection event panicked. -/
theorem hwtest_serves (hw : Hw) {fuel : Nat} (hfuel : 8 ≤ fuel) (rs : List Round) :
    ∃ k isOpen waits,
      linkEvents (stackLog (main hw fuel rs).log) = story k isOpen ∧
      (∀ pdu ∈ transmissions (stackLog (main hw fuel rs).log), pdu = advPacket) ∧
      pushed (stackLog (main hw fuel rs).log) = handed (main hw fuel rs).log ++ waits ∧
      match (main hw fuel rs).res with
      | .ok (.returned s b) =>
        k = rs.length ∧ isOpen = false ∧ waits = [] ∧ b.conn = none ∧ ∀ data, .rx data ∈ s → data = []
      | .ok (.waiting s b) =>
        k < rs.length ∧ isOpen = b.conn.isSome ∧ (b.conn = none → b.advState = .running) ∧ waits = [] ∧
          ∀ data, .rx data ∈ s → data = []
      | .ok .draining => False
      | .error p => k < rs.length ∧ isOpen = true ∧ ∃ (front : List LoopAct) (b : Ble) (env : ConnEnv),
        (main hw fuel rs).log = front ++ (b.connTick hw env).log.map .act ∧ b.conn.isSome ∧
          (b.connTick hw env).res = .error p := by
  have hstands := main_stands hw hfuel rs
  generalize main hw fuel rs = x at hstands
  cases hstands with
  | @done log s b htale hidle hblank hqueue horder =>
    rw [Nat.zero_add] at htale
    exact ⟨_, _, [], htale.links, htale.packets, horder.trans (List.append_nil _).symm, rfl, rfl, rfl,
      hidle.conn, hblank⟩
  | @advertising m log s b hm htale hadv hblank horder =>
    rw [Nat.zero_add] at htale
    refine ⟨_, _, [], htale.links, htale.packets, horder.trans (List.append_nil _).symm, hm, ?_,
      fun _ => hadv.adv, rfl, hblank⟩
    rw [hadv.conn]
    rfl
  | @connected m log s b hm htale hopen hblank horder =>
    rw [Nat.zero_add] at htale
    refine ⟨_, _, [], htale.links, htale.packets, horder.trans (List.append_nil _).symm, hm,
      hopen.isSome.symm, ?_, rfl, hblank⟩
    intro hnone
    have hsome := hopen.isSome
    rw [hnone] at hsome
    cases hsome
  | @panicked m front waits b env p hm htale hopen hpanic horder =>
    rw [Nat.zero_add] at htale
    have hwhole : Tale m true (front ++ (b.connTick hw env).log.map .act) := by
      refine htale.extend ?_ ?_
      · rw [stackLog_act, connTick_panic hpanic, List.append_nil]
      · rw [stackLog_act, connTick_transmissions]
        exact List.forall_mem_nil _
    exact ⟨m, true, waits, hwhole.links, hwhole.packets, horder, hm, rfl, front, b, env, rfl,
      hopen.isSome,
      hpanic⟩

/-- A round with a `CONNECT_REQ` in it whose supervision timeout is zero. -/
def shortRound : Round :=
  { start := 0, first := ⟨0, 0, .of (.connectReq otherAddr addr (List.replicate 22 0)), 0, 0⟩, adv := []
    conn := [⟨0, [], 0⟩] }

/-- A loop's end that is no return. -/
def LoopEnd.isReturned : LoopEnd Console → Bool
  | .returned _ _ => true
  | _ => false

/-- The connection closes at its first event, and the round is over. -/
theorem hwtest_serves_short_round :
    linkEvents (stackLog (main Hw.standIn 8 [shortRound]).log) = [.connected, .disconnected] ∧
      pushed (stackLog (main Hw.standIn 8 [shortRound]).log) =
        handed (main Hw.standIn 8 [shortRound]).log := by
  have hserves := hwtest_serves Hw.standIn (Nat.le_refl 8) [shortRound]
  have hreturned : (main Hw.standIn 8 [shortRound]).res.toOption.any LoopEnd.isReturned = true := by
    decide +kernel
  generalize main Hw.standIn 8 [shortRound] = x at hserves hreturned ⊢
  obtain ⟨k, isOpen, waits, hlinks, _, horder, hend⟩ := hserves
  rcases hres : x.res with p | (⟨s, b⟩ | ⟨s, b⟩ | _)
  all_goals rw [hres] at hreturned hend
  · cases hreturned
  · obtain ⟨rfl, rfl, rfl, _⟩ := hend
    exact ⟨hlinks, horder.trans (List.append_nil _)⟩
  · cases hreturned
  · cases hreturned

end Hwtest

end NrfBle
