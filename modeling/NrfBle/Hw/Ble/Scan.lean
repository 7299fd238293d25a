/-
  Scanning and initiating (`src/hw/ble.rs`: `gap_connect`, `gap_scan_start`, `gap_scan_stop`,
  `scan_tick` and what it calls; the accept list).

  One `scan_tick` is one channel listen.  A synced periodic train is looked after first, whatever the
  scan's state but idle; then a pending stop is carried out, or, after the third channel, the compare
  is armed for the next cycle.  What is received on the channel is handled by `handleScanPdu`:

  * an `ADV_IND` or `ADV_SCAN_IND` from the connect target is answered with a `CONNECT_REQ` and makes
    this end the master of a new connection;
  * any other is reported, and with active scanning asked for its scan response;
  * an `ADV_EXT_IND` is followed to its auxiliary packet, which may establish a periodic sync.
-/
import Mathlib.Tactic
import NrfBle.Hw.Ble.State

namespace NrfBle

open Checked

/-- What a `scan_tick` reads: the clock at each place that asks for it, and the windows it listens
    in. -/
structure ScanEnv where
  /-- The due test of `periodic_tick`. -/
  periodicNow : UInt32
  /-- The window of `periodic_tick`. -/
  periodicAir : Air
  /-- The start of a cycle. -/
  cycleNow : UInt32
  /-- The start of the listening window. -/
  now : UInt32
  /-- The listening window. -/
  air : Air
  /-- When a connection is made. -/
  connNow : UInt32
  /-- In `follow_aux`. -/
  auxNow : UInt32
  /-- The window of `follow_aux`. -/
  auxAir : Air
  /-- In `handle_periodic_aux`. -/
  syncNow : UInt32
  /-- The window of `listen_for_scan_rsp`. -/
  rspAir : Air

/-- The sender of an `ADV_IND` or `ADV_SCAN_IND` a window brought. -/
def Air.advertiser (air : Air) : Option (Buf 6) :=
  match air.pdu with
  | some (.advInd addr _) => some addr
  | some (.advScanInd addr _) => some addr
  | _ => none

namespace Ble

/-! ## Configuration -/

/-- `Ble::gap_accept_list_add`. -/
def gapAcceptListAdd (b : Ble) (addr : Buf 6) (addrType : AddrType) : Bool × Ble :=
  let r := b.acceptList.add addr addrType
  (r.1, { b with acceptList := r.2 })

/-- `Ble::gap_accept_list_clear`. -/
def gapAcceptListClear (b : Ble) : Ble := { b with acceptList := b.acceptList.clear }

/-- `Ble::gap_scan_start`. -/
def gapScanStart (b : Ble) (params : ScanParams) (now : UInt32) :
    Logged BleAct (Except Error Unit × Ble) :=
  if b.scanState ≠ .idle then return (.error .alreadyRunning, b)
  else if params.interval < 4 ∨ params.interval > 16384 then return (.error .invalidParam, b)
  else if params.window < 4 ∨ params.window > 16384 then return (.error .invalidParam, b)
  else if params.window > params.interval then return (.error .invalidParam, b)
  else do
    let (ticks, accum) ← Logged.lift (IntervalAccum.new.next params.interval)
    let b ← { b with
      scanParams := params, ownAddrType := params.ownAddrType, scanChannelIdx := 0
      scanAccum := accum, compare := now + UInt32.ofNat ticks
      scanState := .running }.push .scanStarted
    return (.ok (), b)

/-- The parameters `gap_connect` scans with. -/
def connectScanParams : ScanParams := { active := false, interval := 100, window := 90 }

/-- `Ble::gap_connect`. -/
def gapConnect (b : Ble) (target : Buf 6) (targetType : AddrType) (now : UInt32) :
    Logged BleAct (Except Error Unit × Ble) :=
  if b.scanState ≠ .idle then return (.error .alreadyRunning, b)
  else
    { b with connectTarget := some target, connectTargetType := targetType }.gapScanStart
      connectScanParams now

/-- `Ble::gap_scan_stop`. -/
def gapScanStop (b : Ble) : Logged BleAct (Except Error Unit × Ble) :=
  match b.scanState with
  | .running => return (.ok (), { b with scanState := .stopPending })
  | .stopPending => return (.ok (), b)
  | .idle => return (.error .notRunning, b)

/-! ## Initiating -/

theorem allChannels_length : ([0xFF, 0xFF, 0xFF, 0xFF, 0x1F] : List UInt8).length = 5 := rfl

/-- The parameters every `CONNECT_REQ` of this stack carries. -/
def connectParams : ConnectReqData where
  accessAddr := 0x8E89BED6 ^^^ 0x12345678
  crcInit := 0x654321
  winSize := 1
  winOffset := 0
  interval := 24
  latency := 0
  timeout := 2000
  channelMap := ⟨[0xFF, 0xFF, 0xFF, 0xFF, 0x1F], allChannels_length⟩
  hop := 13
  sca := 2

/-- `Ble::send_connect_req`. -/
def sendConnectReq (b : Ble) (now : UInt32) : Logged BleAct Ble :=
  match b.connectTarget with
  | none => return b
  | some target => do
    let (answer, llData) ← Logged.lift (connectParams.encode (Buf.zero 22).bytes)
    match answer with
    | .error _ => return b
    | .ok _ =>
      let (answer, b) ← Logged.lift (b.encodeTx (.connectReq b.ownAddr target llData)
        b.ownAddrType.isRandom b.connectTargetType.isRandom)
      match answer with
      | .error _ => return b
      | .ok len =>
        b.transmit len
        let channel := b.lastRadioChannel.getD 37
        let conn := { Conn.new connectParams channel now .master with peerAddr := target }
        { b with connectTarget := none, conn := some conn, scanState := .idle }.push
          (.connected connectParams)

/-! ## Periodic trains -/

/-- `Ble::handle_periodic_aux`. -/
def handlePeriodicAux (b : Ble) (channel : UInt8) (payload : List UInt8) (now : UInt32) :
    Logged BleAct Ble :=
  if payload.length < 15 then return b
  else do
    let field ← Logged.lift (slice payload 10 15)
    match PeriodicAdvInfo.decode field with
    | none => return b
    | some info =>
      let (ticks, sync) ← Logged.lift (PeriodicSync.nextInterval ⟨channel, info.interval, 0, now⟩)
      { b with periodicSync := some { sync with nextEvent := now + UInt32.ofNat ticks } }.push
        (.periodicSynced channel info.interval)

/-- `Ble::periodic_tick`. -/
def periodicTick (b : Ble) (env : ScanEnv) : Logged BleAct Ble :=
  match b.periodicSync with
  | none => return b
  | some sync =>
    if !sync.due env.periodicNow then return b
    else do
      let (ticks, sync) ← Logged.lift sync.nextInterval
      let sync := { sync with nextEvent := sync.nextEvent + UInt32.ofNat ticks }
      let b := { b with periodicSync := some sync }
      let _ ← setChannel sync.channel
      let (got, b) ← Logged.lift (b.receivePdu env.periodicAir)
      match got with
      | some (_, .periodicAdv _ adi) => b.push (.periodicAdv adi env.periodicAir.rssi)
      | _ => return b

/-- The window of `follow_aux`: the address and the data (at most 40 bytes of it) of an auxiliary
    packet. -/
def auxReceive (b : Ble) (ptr : AuxPtr) (env : ScanEnv) :
    Logged BleAct (Option (Buf 6 × List UInt8) × Ble) := do
  let (got, b) ← Logged.lift (b.receivePdu env.auxAir)
  match got with
  | some (len, .auxAdvExtInd advAddr _ extType data) =>
    let raw ← Logged.lift (b.rxBuf.upto (min len 64))
    let b ←
      if extType = extAdPeriodic then b.handlePeriodicAux ptr.channel raw env.syncNow
      else pure b
    return (some (advAddr, data.take 40), b)
  | _ => return (none, b)

/-- `Ble::follow_aux`. -/
def followAux (b : Ble) (ptr : AuxPtr) (env : ScanEnv) :
    Logged BleAct (Option (Buf 6 × List UInt8) × Ble) := do
  match ← setChannel ptr.channel with
  | .error _ => return (none, b)
  | .ok () =>
    let b := { b with compare := env.auxNow + UInt32.ofNat (timeoutTicks 300) }
    let (found, b) ← b.auxReceive ptr env
    match found with
    | some r => return (some r, b)
    | none =>
      -- back to the first advertising channel, only when nothing was found
      let _ ← setChannel 37
      return (none, b)

/-! ## Scan responses -/

/-- The 31 bytes of a report: the data, cut or filled up with zeroes. -/
def reportData (data : List UInt8) : Buf 31 :=
  ⟨data.take 31 ++ List.replicate (31 - (data.take 31).length) 0, by simp⟩

/-- A `ScanReport` for what an advertiser sent. -/
def scanReport (addr : Buf 6) (advType : UInt8) (rssi : Int8) (data : List UInt8) : BleEvent :=
  .scanReport addr (addrTypeOf addr) advType rssi (reportData data) (min data.length 31)

/-- `Ble::listen_for_scan_rsp`. -/
def listenForScanRsp (b : Ble) (air : Air) : Logged BleAct Ble := do
  let (got, b) ← Logged.lift (b.receivePdu air)
  match got with
  | some (_, .scanRsp advAddr data) => b.push (scanReport advAddr pduScanRsp air.rssi data)
  | _ => return b

/-- `Ble::respond_scan_req`. -/
def respondScanReq (b : Ble) (env : ScanEnv) : Logged BleAct Ble := do
  let bytes ← Logged.lift (b.rxBuf.sub 2 8)
  match Buf.ofSlice 6 bytes with
  | none => return b
  | some advAddr =>
    let (answer, b) ← Logged.lift (b.encodeTx (.scanReq b.ownAddr advAddr) b.ownAddrType.isRandom
      (addrTypeOf advAddr).isRandom)
    match answer with
    | .error _ => return b
    | .ok len =>
      b.transmit len
      b.listenForScanRsp env.rspAir

/-! ## The tick -/

/-- An `ADV_IND` or `ADV_SCAN_IND` of type `advType`. -/
def handleScannable (b : Ble) (addr : Buf 6) (advType : UInt8) (data : List UInt8) (env : ScanEnv) :
    Logged BleAct Ble :=
  if b.connectTarget = some addr then b.sendConnectReq env.connNow
  else if b.scanParams.filterPolicy = .acceptList && !b.acceptList.contains addr (addrTypeOf addr) then
    return b
  else do
    let b ← b.push (scanReport addr advType env.air.rssi data)
    if b.scanParams.active then b.respondScanReq env else return b

/-- `Ble::handle_scan_pdu`. -/
def handleScanPdu (b : Ble) (env : ScanEnv) : Logged BleAct Ble := do
  match ← Logged.lift (b.decodeRx b.rxPduLen) with
  | some (.advInd advAddr data) => b.handleScannable advAddr pduAdvInd data env
  | some (.advScanInd advAddr data) => b.handleScannable advAddr pduAdvScanInd data env
  | some (.advExtInd advAddr _ _ auxPtr) =>
    let (found, b) ← b.followAux auxPtr env
    match found with
    | some (_, data) => b.push (scanReport advAddr pduAdvExtInd env.air.rssi data)
    | none => return b
  | _ => return b

/-- The listen of one channel. -/
def scanListen (b : Ble) (env : ScanEnv) : Logged BleAct Ble := do
  let b := if b.scanChannelIdx = 0 then { b with scanCycleStart := env.cycleNow } else b
  let channel ← Logged.lift (idx advChannels b.scanChannelIdx)
  let b := { b with scanChannelIdx := b.scanChannelIdx + 1, lastRadioChannel := some channel }
  let _ ← setChannel channel
  let perChannel := windowTicks b.scanParams.window / 3
  let b := { b with compare := env.now + UInt32.ofNat perChannel }
  let (got, b) ← Logged.lift (b.receive env.air)
  match got with
  | none => return b
  | some len =>
    let b := { b with rxPduLen := len }
    b.handleScanPdu env

/-- The part of `scan_tick` behind `periodic_tick`. -/
def scanStep (b : Ble) (env : ScanEnv) : Logged BleAct Ble :=
  if b.scanState = .stopPending then { b with scanState := .idle }.push .scanStopped
  else if b.scanChannelIdx ≥ 3 then do
    let (ticks, accum) ← Logged.lift (b.scanAccum.next b.scanParams.interval)
    return { b with
      scanChannelIdx := 0, scanAccum := accum, compare := b.scanCycleStart + UInt32.ofNat ticks }
  else b.scanListen env

/-- `Ble::scan_tick`. -/
def scanTick (b : Ble) (env : ScanEnv) : Logged BleAct Ble :=
  if b.scanState = .idle then return b
  else do
    let b ← b.periodicTick env
    b.scanStep env

/-! ## The background of a scan -/

/-- **What everything but initiating changes**: buffers, the compare, the periodic sync and the event
    queue; without a `CONNECT_REQ` and without an event of a connection. -/
structure Background (b : Ble) (log : List BleAct) (b' : Ble) : Prop where
  frame : b' = { b with
    compare := b'.compare, periodicSync := b'.periodicSync, txBuf := b'.txBuf, rxBuf := b'.rxBuf
    events := b'.events }
  quiet : Quiet log
  sync : SyncBounded b.periodicSync → SyncBounded b'.periodicSync

theorem Background.refl (b : Ble) : Background b [] b := ⟨rfl, Quiet.nil, id⟩

theorem Background.trans {b b' b'' : Ble} {log log' : List BleAct} (h : Background b log b')
    (h' : Background b' log' b'') : Background b (log ++ log') b'' where
  frame := by
    rw [h'.frame, h.frame]
  quiet := h.quiet.append h'.quiet
  sync := fun hs => h'.sync (h.sync hs)

/-- A program that runs in the background; `g` picks the state out of its result. -/
def RunsQuietly {α : Type} (b : Ble) (x : Logged BleAct α) (g : α → Ble) : Prop :=
  ∃ log a, x = ⟨log, .ok a⟩ ∧ Background b log (g a)

theorem RunsQuietly.pure {α : Type} {b : Ble} {a : α} {g : α → Ble} (h : Background b [] (g a)) :
    RunsQuietly b (pure a) g := ⟨[], a, rfl, h⟩

theorem RunsQuietly.bind {α β : Type} {b : Ble} {x : Logged BleAct α} {f : α → Logged BleAct β}
    {g : α → Ble} {k : β → Ble} (hx : RunsQuietly b x g) (hf : ∀ a, RunsQuietly (g a) (f a) k) :
    RunsQuietly b (x >>= f) k := by
  obtain ⟨log, a, rfl, hb⟩ := hx
  obtain ⟨log', a', hfa, hb'⟩ := hf a
  refine ⟨log ++ log', a', ?_, hb.trans hb'⟩
  rw [Logged.mk_ok_bind, hfa, Logged.prepend_mk]

/-- A change of the state in front of a program. -/
theorem RunsQuietly.after {α : Type} {b b' : Ble} {x : Logged BleAct α} {g : α → Ble}
    (h : Background b [] b') (hx : RunsQuietly b' x g) : RunsQuietly b x g := by
  obtain ⟨log, a, ha, hb⟩ := hx
  exact ⟨log, a, ha, h.trans hb⟩

/-- Reporting anything but a connection. -/
theorem push_quietly (b : Ble) {evt : BleEvent} (h : (BleAct.push evt).linkEvent = none) :
    RunsQuietly b (b.push evt) id :=
  ⟨_, _, rfl, rfl, .cons ⟨h, rfl⟩ .nil, id⟩

/-- A channel change. -/
theorem setChannel_quietly (b : Ble) (channel : UInt8) :
    RunsQuietly b (setChannel channel) (fun _ => b) := by
  unfold setChannel
  split
  · exact .pure (.refl b)
  · exact ⟨_, _, rfl, rfl, .cons ⟨rfl, rfl⟩ .nil, id⟩

/-- Listening. -/
theorem receivePdu_quietly (b : Ble) (air : Air) :
    RunsQuietly b (Logged.lift (b.receivePdu air)) Prod.snd :=
  ⟨[], _, by rw [b.receivePdu_eq]; rfl, rfl, .nil, id⟩

theorem handlePeriodicAux_quietly (b : Ble) (channel : UInt8) (payload : List UInt8) (now : UInt32) :
    RunsQuietly b (b.handlePeriodicAux channel payload now) id := by
  unfold handlePeriodicAux
  split
  · exact .pure (.refl b)
  · rename_i hlen
    rw [slice_of_le (by omega) (by omega), Logged.lift_ok_bind]
    split
    · exact .pure (.refl b)
    · rename_i info _
      rw [PeriodicSync.nextInterval_eq (show 0 < 32 by decide), Logged.lift_ok_bind]
      refine ⟨_, _, rfl, rfl, .cons ⟨rfl, rfl⟩ .nil, ?_⟩
      rintro - s ⟨⟩
      exact Nat.mod_lt _ (by decide)

theorem periodicTick_quietly {b : Ble} (hb : SyncBounded b.periodicSync) (env : ScanEnv) :
    RunsQuietly b (b.periodicTick env) id := by
  unfold periodicTick
  split
  · exact .pure (.refl b)
  · rename_i sync hsync
    split
    · exact .pure (.refl b)
    · rw [PeriodicSync.nextInterval_eq (hb sync hsync), Logged.lift_ok_bind]
      dsimp only
      generalize hsync' : ({ sync with
        frac := (sync.frac + sync.units.toNat * 2) % 32
        nextEvent := sync.nextEvent +
          UInt32.ofNat (PeriodicSync.interval sync.units sync.frac) } : PeriodicSync) = sync'
      have hb' : Background b [] { b with periodicSync := some sync' } := by
        refine ⟨rfl, .nil, ?_⟩
        rintro - s ⟨⟩
        rw [← hsync']
        exact Nat.mod_lt _ (by decide)
      refine .after hb' ((setChannel_quietly _ sync.channel).bind (fun _ => ?_))
      refine (receivePdu_quietly _ env.periodicAir).bind ?_
      rintro ⟨got, b'⟩
      dsimp only
      split
      · exact push_quietly b' rfl
      · exact .pure (.refl b')

theorem auxReceive_quietly (b : Ble) (ptr : AuxPtr) (env : ScanEnv) :
    RunsQuietly b (b.auxReceive ptr env) Prod.snd := by
  unfold auxReceive
  refine (receivePdu_quietly b env.auxAir).bind ?_
  rintro ⟨got, b'⟩
  dsimp only
  split
  · rename_i len _ _ _ _
    rw [b'.rxBuf.upto_of_le (show min len 64 ≤ 257 by omega), Logged.lift_ok_bind]
    split
    · refine (handlePeriodicAux_quietly b' _ _ _).bind ?_
      intro b''
      exact .pure (.refl b'')
    · exact ⟨[], _, rfl, .refl b'⟩
  · exact .pure (.refl b')

theorem followAux_quietly (b : Ble) (ptr : AuxPtr) (env : ScanEnv) :
    RunsQuietly b (b.followAux ptr env) Prod.snd := by
  unfold followAux
  refine (setChannel_quietly b ptr.channel).bind ?_
  intro answer
  split
  · exact .pure (.refl b)
  · have hb' : Background b []
        { b with compare := env.auxNow + UInt32.ofNat (timeoutTicks 300) } := ⟨rfl, .nil, id⟩
    refine .after hb' ((auxReceive_quietly _ ptr env).bind ?_)
    rintro ⟨found, b'⟩
    dsimp only
    split
    · exact .pure (.refl b')
    · exact (setChannel_quietly b' 37).bind (fun _ => .pure (.refl b'))

theorem listenForScanRsp_quietly (b : Ble) (air : Air) : RunsQuietly b (b.listenForScanRsp air) id := by
  unfold listenForScanRsp
  refine (receivePdu_quietly b air).bind ?_
  rintro ⟨got, b'⟩
  dsimp only
  split
  · exact push_quietly b' rfl
  · exact .pure (.refl b')

theorem respondScanReq_quietly (b : Ble) (env : ScanEnv) : RunsQuietly b (b.respondScanReq env) id := by
  unfold respondScanReq
  rw [b.rxBuf.sub_of_le (by decide) (by decide), Logged.lift_ok_bind]
  split
  · exact .pure (.refl b)
  · rename_i advAddr _
    have hlen : (AdvPdu.scanReq b.ownAddr advAddr).payload.length = 12 := by
      show (b.ownAddr.bytes ++ advAddr.bytes).length = 12
      rw [List.length_append, b.ownAddr.size, advAddr.size]
    obtain ⟨txBuf, henc, htake⟩ := b.encodeTx_eq
      (show (AdvPdu.scanReq b.ownAddr advAddr).Sized from trivial) (by rw [hlen]; decide)
      b.ownAddrType.isRandom (addrTypeOf advAddr).isRandom
    rw [henc, Logged.lift_ok_bind]
    dsimp only
    rw [transmit_eq _ (by rw [hlen]; decide), htake, Logged.mk_ok_bind]
    obtain ⟨log, b', hrsp, hback⟩ := listenForScanRsp_quietly { b with txBuf := txBuf } env.rspAir
    rw [hrsp]
    refine ⟨_, b', rfl, ?_⟩
    have htx : Background b [.transmit ((AdvPdu.scanReq b.ownAddr advAddr).bytes
        b.ownAddrType.isRandom (addrTypeOf advAddr).isRandom)] { b with txBuf := txBuf } := by
      refine ⟨rfl, .cons ⟨rfl, ?_⟩ .nil, id⟩
      rw [BleAct.isConnectReq_bytes]
      rfl
    exact htx.trans hback

/-! ## What a tick does -/

/-- The target the listen of one channel sends a `CONNECT_REQ` to. -/
def listenOpens (target : Option (Buf 6)) (air : Air) : Option (Buf 6) :=
  if target = air.advertiser then target else none

/-- The target a `scan_tick` sends a `CONNECT_REQ` to. -/
def scanOpens (b : Ble) (env : ScanEnv) : Option (Buf 6) :=
  if b.scanState = .running ∧ b.scanChannelIdx < 3 then listenOpens b.connectTarget env.air else none

theorem listenOpens_eq_some {target : Option (Buf 6)} {air : Air} {t : Buf 6} :
    listenOpens target air = some t ↔ target = some t ∧ air.advertiser = some t := by
  unfold listenOpens
  split
  · rename_i h; rw [← h]; exact ⟨fun ht => ⟨ht, ht⟩, And.left⟩
  · rename_i h
    constructor
    · intro hn; cases hn
    · rintro ⟨ht, ha⟩; exact absurd (ht.trans ha.symm) h

/-- A connection made by a `CONNECT_REQ` sent at the time `now`. -/
def MasterOf (now : UInt32) (target : Buf 6) (c : Conn) : Prop :=
  ∃ channel, c = { Conn.new connectParams channel now .master with peerAddr := target }

/-- What a tick makes of the scan's state: a pending stop is carried out. -/
def stopped : ScanState → ScanState
  | .stopPending => .idle
  | s => s

/-- **What a `scan_tick` can change**: nothing of the advertiser and of the configuration, and the
    connection only by initiating one, which uses up the target and ends the scan. -/
structure ScanEffect (opens : Option (Buf 6)) (now : UInt32) (b : Ble) (log : List BleAct)
    (b' : Ble) : Prop where
  frame : b' = { b with
    compare := b'.compare, scanAccum := b'.scanAccum, scanState := b'.scanState
    scanChannelIdx := b'.scanChannelIdx, scanCycleStart := b'.scanCycleStart, conn := b'.conn
    connectTarget := b'.connectTarget, lastRadioChannel := b'.lastRadioChannel
    periodicSync := b'.periodicSync, txBuf := b'.txBuf, rxBuf := b'.rxBuf, rxPduLen := b'.rxPduLen
    events := b'.events }
  link : Opened opens (MasterOf now) b.conn b'.conn log
  target : b'.connectTarget = if opens.isSome then none else b.connectTarget
  scan : b'.scanState = if opens.isSome then .idle else stopped b.scanState
  requests : opens = none → Quiet log

theorem sendConnectReq_eq {b : Ble} {target : Buf 6} (h : b.connectTarget = some target)
    (now : UInt32) :
    ∃ txBuf conn, MasterOf now target conn ∧ b.sendConnectReq now =
      ⟨[.transmit ((AdvPdu.connectReq b.ownAddr target connectParams.bytes).bytes
          b.ownAddrType.isRandom b.connectTargetType.isRandom), .push (.connected connectParams)],
        .ok { b with
          txBuf := txBuf, connectTarget := none, conn := some conn, scanState := .idle
          events := pushEvent b.events (.connected connectParams) }⟩ := by
  have hlen : (AdvPdu.connectReq b.ownAddr target connectParams.bytes).payload.length = 34 := by
    show (b.ownAddr.bytes ++ target.bytes ++ connectParams.bytes).length = 34
    rw [List.length_append, List.length_append, b.ownAddr.size, target.size]
    rfl
  obtain ⟨txBuf, henc, htake⟩ := b.encodeTx_eq
    (show (AdvPdu.connectReq b.ownAddr target connectParams.bytes).Sized from rfl)
    (by rw [hlen]; decide) b.ownAddrType.isRandom b.connectTargetType.isRandom
  refine ⟨txBuf, _, ⟨b.lastRadioChannel.getD 37, rfl⟩, ?_⟩
  have hparams : connectParams.encode (Buf.zero 22).bytes = .ok (.ok 22, connectParams.bytes) := by
    decide +kernel
  unfold sendConnectReq
  rw [h, hparams]
  dsimp only
  rw [Logged.lift_ok_bind]
  dsimp only
  rw [henc, Logged.lift_ok_bind]
  dsimp only
  rw [transmit_eq _ (by rw [hlen]; decide), htake, Logged.mk_ok_bind]
  rfl

/-- A packet of the target. -/
theorem handleScanPdu_target {b : Ble} {env : ScanEnv} {target : Buf 6} (hbuf : b.rxBuf = env.air.buf)
    (hlen : b.rxPduLen = env.air.len) (hadv : env.air.advertiser = some target)
    (htarget : b.connectTarget = some target) :
    b.handleScanPdu env = b.sendConnectReq env.connNow := by
  have hpdu : ∃ pdu, env.air.pdu = some pdu := by
    unfold Air.advertiser at hadv
    cases h : env.air.pdu with
    | none => rw [h] at hadv; cases hadv
    | some pdu => exact ⟨pdu, rfl⟩
  obtain ⟨pdu, hpdu⟩ := hpdu
  obtain ⟨bytes, hrx⟩ := Option.isSome_iff_exists.mp (Air.pdu_type hpdu).1
  unfold handleScanPdu
  rw [hlen, decodeRx_eq env.air hbuf hrx, Logged.lift_ok_bind]
  unfold Air.advertiser at hadv
  split
  · rename_i hp
    rw [hp] at hadv
    cases hadv
    exact if_pos htarget
  · rename_i hp
    rw [hp] at hadv
    cases hadv
    exact if_pos htarget
  · rename_i hp
    rw [hp] at hadv
    cases hadv
  · rename_i h1 h2 _
    split at hadv
    · rename_i hp; exact absurd hp (h1 _ _)
    · rename_i hp; exact absurd hp (h2 _ _)
    · cases hadv

theorem handleScannable_quietly {b : Ble} {addr : Buf 6} (h : b.connectTarget ≠ some addr)
    (advType : UInt8) (data : List UInt8) (env : ScanEnv) :
    RunsQuietly b (b.handleScannable addr advType data env) id := by
  unfold handleScannable
  rw [if_neg h]
  split
  · exact .pure (.refl b)
  · refine (push_quietly b rfl).bind ?_
    intro b'
    split
    · exact respondScanReq_quietly _ env
    · exact .pure (.refl _)

/-- Any other packet. -/
theorem handleScanPdu_quietly {b : Ble} {env : ScanEnv} {bytes : List UInt8}
    (hbuf : b.rxBuf = env.air.buf) (hlen : b.rxPduLen = env.air.len)
    (hrx : env.air.received = some bytes)
    (h : ∀ target, b.connectTarget = some target → env.air.advertiser ≠ some target) :
    RunsQuietly b (b.handleScanPdu env) id := by
  unfold handleScanPdu
  rw [hlen, decodeRx_eq env.air hbuf hrx, Logged.lift_ok_bind]
  unfold Air.advertiser at h
  split
  · rename_i addr data hp
    rw [hp] at h
    exact handleScannable_quietly (fun ht => h addr ht rfl) _ _ env
  · rename_i addr data hp
    rw [hp] at h
    exact handleScannable_quietly (fun ht => h addr ht rfl) _ _ env
  · refine (followAux_quietly b _ env).bind ?_
    rintro ⟨found, b'⟩
    dsimp only
    split
    · exact push_quietly b' rfl
    · exact .pure (.refl b')
  · exact .pure (.refl b)

/-- The effect of a part of a tick, on a running scan, is one of the tick. -/
theorem ScanEffect.of_background {b b₁ b' : Ble} {log log₁ : List BleAct} {now : UInt32}
    (hrun : b.scanState = .running) (hb₁ : b₁ = { b with
      compare := b₁.compare, scanChannelIdx := b₁.scanChannelIdx, scanCycleStart := b₁.scanCycleStart
      lastRadioChannel := b₁.lastRadioChannel, rxBuf := b₁.rxBuf, rxPduLen := b₁.rxPduLen })
    (hlog₁ : Quiet log₁) (h : Background b₁ log b') : ScanEffect none now b (log₁ ++ log) b' where
  frame := by rw [h.frame, hb₁]
  link := ⟨by rw [h.frame, hb₁], (hlog₁.append h.quiet).linkEvents⟩
  target := by rw [h.frame, hb₁]; rfl
  scan := by
    rw [h.frame, hb₁, hrun]
    rfl
  requests := fun _ => hlog₁.append h.quiet

/-- A part of a tick behind something quiet. -/
theorem ScanEffect.after_background {opens : Option (Buf 6)} {b b₁ b' : Ble} {log log₁ : List BleAct}
    {now : UInt32} (h : Background b log₁ b₁) (h' : ScanEffect opens now b₁ log b') :
    ScanEffect opens now b (log₁ ++ log) b' where
  frame := by rw [h'.frame, h.frame]
  link := by
    have hconn : b₁.conn = b.conn := by rw [h.frame]
    have hlink := h'.link
    rw [hconn] at hlink
    refine hlink.congr ?_
    rw [linkEvents_append, h.quiet.linkEvents, List.nil_append]
  target := by rw [h'.target, h.frame]
  scan := by rw [h'.scan, h.frame]
  requests := fun hnone => h.quiet.append (h'.requests hnone)

/-- **The listen of one channel**: the channel is set, and what came, if anything, is handled. -/
theorem scanListen_eq {b : Ble} (hidx : b.scanChannelIdx < 3) (env : ScanEnv) :
    ∃ start channel b₁, b₁ = { b with
        scanCycleStart := start, scanChannelIdx := b.scanChannelIdx + 1
        lastRadioChannel := some channel
        compare := env.now + UInt32.ofNat (windowTicks b.scanParams.window / 3)
        rxBuf := env.air.buf } ∧
      b.scanListen env = (match env.air.received with
        | none => pure b₁
        | some _ => { b₁ with rxPduLen := env.air.len }.handleScanPdu env).prepend
          [.setChannel channel] := by
  have hlt : b.scanChannelIdx < advChannels.length := hidx
  have hch : ∀ k : Fin 3, (advChannels[k.1]).toNat < 40 := by decide
  obtain ⟨start, hstart⟩ : ∃ start, (if b.scanChannelIdx = 0 then
      { b with scanCycleStart := env.cycleNow } else b) = { b with scanCycleStart := start } := by
    split
    · exact ⟨_, rfl⟩
    · exact ⟨b.scanCycleStart, rfl⟩
  refine ⟨start, advChannels[b.scanChannelIdx], _, rfl, ?_⟩
  unfold scanListen
  rw [hstart]
  dsimp only
  rw [idx_of_lt hlt, Logged.lift_ok_bind, setChannel_of_lt (hch ⟨b.scanChannelIdx, hidx⟩),
    Logged.mk_ok_bind, receive_eq, Logged.lift_ok_bind]
  cases env.air.received <;> rfl

/-- What the listen of one channel does. -/
theorem scanListen_effect {b : Ble} (hb : b.Bounds) (hrun : b.scanState = .running)
    (hidx : b.scanChannelIdx < 3) (env : ScanEnv) :
    ∃ log b', b.scanListen env = ⟨log, .ok b'⟩ ∧ b'.Bounds ∧
      ScanEffect (listenOpens b.connectTarget env.air) env.connNow b log b' := by
  obtain ⟨start, channel, b₁, hb₁, hlisten⟩ := scanListen_eq hidx env
  have hquiet : Quiet [.setChannel channel] := .cons ⟨rfl, rfl⟩ .nil
  rw [hlisten]
  cases hrx : env.air.received with
  | none =>
    have hnone : listenOpens b.connectTarget env.air = none := by
      rw [Option.eq_none_iff_forall_ne_some]
      intro t ht
      have hadv := (listenOpens_eq_some.mp ht).2
      unfold Air.advertiser Air.pdu at hadv
      rw [hrx] at hadv
      cases hadv
    rw [hnone, hb₁]
    refine ⟨_, _, rfl, ?_, ?_⟩
    · exact { hb with scanChannelIdx := hidx }
    · exact .of_background hrun rfl hquiet (.refl _)
  | some bytes =>
    dsimp only
    generalize hb₂ : ({ b₁ with rxPduLen := env.air.len } : Ble) = b₂
    rw [hb₁] at hb₂
    have hbounds : b₂.Bounds := by
      rw [← hb₂]
      exact { hb with scanChannelIdx := hidx }
    have htgt : b₂.connectTarget = b.connectTarget := by rw [← hb₂]
    have hbuf : b₂.rxBuf = env.air.buf := by rw [← hb₂]
    have hlen : b₂.rxPduLen = env.air.len := by rw [← hb₂]
    cases hopens : listenOpens b.connectTarget env.air with
    | none =>
      have hquietly : RunsQuietly b₂ (b₂.handleScanPdu env) id := by
        refine handleScanPdu_quietly hbuf hlen hrx ?_
        intro t ht hadv
        rw [listenOpens_eq_some.mpr ⟨htgt.symm.trans ht, hadv⟩] at hopens
        cases hopens
      obtain ⟨log, b', hx, hback⟩ := hquietly
      rw [hx]
      refine ⟨_, b', rfl, ?_, ?_⟩
      · have hframe : b' = _ := hback.frame
        rw [hframe]
        exact { hbounds with sync := hback.sync hbounds.sync }
      · refine .of_background hrun ?_ hquiet hback
        rw [← hb₂]
    | some t =>
      obtain ⟨htarget, hadv⟩ := listenOpens_eq_some.mp hopens
      obtain ⟨txBuf, conn, hmaster, hsend⟩ := sendConnectReq_eq (htgt.trans htarget) env.connNow
      rw [handleScanPdu_target hbuf hlen hadv (htgt.trans htarget), hsend]
      refine ⟨_, _, rfl, { hbounds with }, ?_⟩
      rw [← hb₂]
      exact ⟨rfl, ⟨⟨conn, rfl, hmaster⟩, rfl⟩, rfl, rfl, by intro h; cases h⟩

theorem scanStep_effect {b : Ble} (hb : b.Bounds) (hne : b.scanState ≠ .idle) (env : ScanEnv) :
    ∃ log b', b.scanStep env = ⟨log, .ok b'⟩ ∧ b'.Bounds ∧
      ScanEffect (b.scanOpens env) env.connNow b log b' := by
  unfold scanStep scanOpens
  split
  · rename_i hstop
    rw [if_neg (by rw [hstop]; rintro ⟨h, _⟩; cases h)]
    refine ⟨_, _, rfl, { hb with }, rfl, ⟨rfl, rfl⟩, rfl, ?_, fun _ => .cons ⟨rfl, rfl⟩ .nil⟩
    rw [hstop]; rfl
  · rename_i hstop
    have hrun : b.scanState = .running := by
      cases h : b.scanState with
      | running => rfl
      | idle => exact absurd h hne
      | stopPending => exact absurd h hstop
    split
    · rename_i hge
      obtain ⟨ticks, accum, hnext, hbounded⟩ := IntervalAccum.next_eq hb.scanAccum b.scanParams.interval
      rw [hnext, Logged.lift_ok_bind, if_neg (by rintro ⟨_, h⟩; omega)]
      refine ⟨_, _, rfl, { hb with scanChannelIdx := Nat.zero_le _, scanAccum := hbounded }, rfl,
        ⟨rfl, rfl⟩, rfl, ?_, fun _ => .nil⟩
      rw [hrun]; rfl
    · rw [if_pos ⟨hrun, by omega⟩]
      exact scanListen_effect hb hrun (by omega) env

/-- **One `scan_tick`**, from any state within bounds: it returns, within bounds, with its effect. -/
theorem scanTick_effect {b : Ble} (hb : b.Bounds) (env : ScanEnv) :
    ∃ log b', b.scanTick env = ⟨log, .ok b'⟩ ∧ b'.Bounds ∧
      ScanEffect (b.scanOpens env) env.connNow b log b' := by
  unfold scanTick
  split
  · rename_i hidle
    have hnone : b.scanOpens env = none := if_neg (by rw [hidle]; rintro ⟨h, _⟩; cases h)
    rw [hnone]
    refine ⟨[], b, rfl, hb, rfl, ⟨rfl, rfl⟩, rfl, ?_, fun _ => .nil⟩
    rw [hidle]; rfl
  · rename_i hne
    obtain ⟨log, b₁, hper, hback⟩ := periodicTick_quietly hb.sync env
    have hframe : b₁ = _ := hback.frame
    have hb₁ : b₁.Bounds := by
      rw [hframe]
      exact { hb with sync := hback.sync hb.sync }
    have hopens : b₁.scanOpens env = b.scanOpens env := by rw [hframe]; rfl
    obtain ⟨log', b', hstep, hbounds, heff⟩ := scanStep_effect hb₁ (by rw [hframe]; exact hne) env
    rw [hper, Logged.mk_ok_bind, hstep, ← hopens]
    exact ⟨_, b', rfl, hbounds, .after_background hback heff⟩

end Ble

end NrfBle
