/-
  An advertiser and a scanner in range of each other.

  Every packet goes through both stacks: it is built and encoded by one, measured by the radio's length
  rule and decoded by the other, and what the other transmits in answer comes back the same way.  `Meet`
  says that of one `adv_tick` and one `scan_tick`: each window hears what the other end transmits on the
  window's channel, and nothing else.

  What comes of it is a function of the two configurations, `encounter`: nothing, a report, a report and
  a scan response, or a connection (`meeting_outcome`).  When it is a connection for both, the two ends
  are on the same channel in every event of their runs, whatever happens in between
  (`connected_ends_hop_together`).  It can be one for the initiator only: an `ADV_SCAN_IND` of the
  target is answered with a `CONNECT_REQ` too, which its sender does not listen for.
-/
import Mathlib.Tactic
import NrfBle.Ll.ConnectReq
import NrfBle.Hw.Ble.Auxiliary
import NrfBle.Hw.Ble.OwnAddress
import NrfBle.Hw.Ble.Queue
import NrfBle.Hw.Conn.Hopping

namespace NrfBle

open Checked

/-! ## The air between two ends -/

/-- The window brings this packet, in front of whatever else is in the buffer, or none. -/
def Air.Hears (air : Air) : Option (List UInt8) → Prop
  | none => air.received = none
  | some packet => air.rx = .packet ∧ air.buf.bytes.take packet.length = packet

/-- The packets of a log, each with the channel the radio was on. -/
def onAir : Option UInt8 → List BleAct → List (Option UInt8 × List UInt8)
  | _, [] => []
  | _, .setChannel channel :: log => onAir (some channel) log
  | tuned, .transmit packet :: log => (tuned, packet) :: onAir tuned log
  | tuned, _ :: log => onAir tuned log

/-- The packets of a log on a channel. -/
def packetsOn (channel : UInt8) (log : List BleAct) : List (List UInt8) :=
  (onAir none log).filterMap fun x => if x.1 = some channel then some x.2 else none

/-- The transmissions of a log. -/
def transmissions (log : List BleAct) : List (List UInt8) :=
  log.filterMap fun a => match a with
    | .transmit packet => some packet
    | _ => none

/-- No channel change. -/
def Tuned (log : List BleAct) : Prop := ∀ channel, .setChannel channel ∉ log

/-- A log on one channel. -/
theorem packetsOn_tuned (channel tuned : UInt8) {log : List BleAct} (h : Tuned log) :
    packetsOn channel (.setChannel tuned :: log) =
      if tuned = channel then transmissions log else [] := by
  have hall : onAir (some tuned) log = (transmissions log).map fun packet => (some tuned, packet) := by
    induction log with
    | nil => rfl
    | cons a log ih =>
      have hlog : Tuned log := fun ch hch => h ch (List.mem_cons_of_mem _ hch)
      cases a with
      | setChannel ch => exact absurd List.mem_cons_self (h ch)
      | transmit packet => exact congrArg ((some tuned, packet) :: ·) (ih hlog)
      | push evt => exact ih hlog
      | conn act => exact ih hlog
  show (onAir (some tuned) log).filterMap _ = _
  rw [hall, List.filterMap_map]
  by_cases hch : tuned = channel
  · rw [if_pos hch, hch]
    refine (List.filterMap_congr ?_).trans List.filterMap_some
    exact fun packet _ => if_pos rfl
  · rw [if_neg hch]
    exact List.filterMap_eq_nil_iff.mpr fun packet _ => if_neg (fun h => hch (Option.some.inj h))

/-- **A packet goes through**: what the window brings is the PDU that was encoded. -/
theorem Air.Hears.pdu {air : Air} {pdu : AdvPdu} {txAdd rxAdd : Bool} (hlegacy : pdu.Legacy)
    (hlen : pdu.payload.length ≤ 63) (h : air.Hears (some (pdu.bytes txAdd rxAdd))) :
    air.received = some (pdu.bytes txAdd rxAdd) ∧ air.pdu = some pdu := by
  obtain ⟨hrx, htake⟩ := h
  obtain ⟨b0, b1, hdr, henc, hdec, -, hhdr, -⟩ := pdu.hdr_decode (pdu.headerBits txAdd rxAdd).1
    (pdu.headerBits txAdd rxAdd).2 hlen
  have hbytes : pdu.bytes txAdd rxAdd = b0 :: b1 :: pdu.payload := by
    unfold AdvPdu.bytes
    rw [henc]
    rfl
  -- the second byte of the buffer is that of the header
  have hsecond : air.buf.bytes.getD 1 0 = b1 := by
    have hget : (air.buf.bytes.take (pdu.bytes txAdd rxAdd).length).getD 1 0 = b1 := by
      rw [htake, hbytes]
      rfl
    rw [pdu.bytes_length, List.getD_eq_getElem?_getD, List.getElem?_take_of_lt (by omega),
      ← List.getD_eq_getElem?_getD] at hget
    exact hget
  have hmeasured : air.len = (pdu.bytes txAdd rxAdd).length := by
    have hb1 : ((b1 >>> 1) &&& 0x3F).toNat = pdu.payload.length := by
      unfold AdvHdr.decode at hdec
      split at hdec
      · cases hdec
      · cases hdec
        exact hhdr
    rw [Air.len, hsecond, hb1, pdu.bytes_length]
  have hreceived : air.received = some (pdu.bytes txAdd rxAdd) := by
    unfold Air.received
    rw [hrx, hmeasured, htake]
  exact ⟨hreceived, air.pdu_of_received hlen hreceived (AdvPdu.decodePayload_payload hlegacy)⟩

theorem Air.Hears.silent {air : Air} (h : air.Hears none) :
    air.pdu = none ∧ air.connectReq = none ∧ air.scanReq = none ∧
      ∀ mask, Ble.accepts mask air = false := by
  have hrx : air.received = none := h
  have hpdu : air.pdu = none := by unfold Air.pdu; rw [hrx]
  refine ⟨hpdu, ?_, ?_, ?_⟩
  · exact Air.connectReq_of_ne (by rw [hpdu]; intro _ _ _ h; cases h)
  · exact Air.scanReq_of_ne (by rw [hpdu]; intro _ _ h; cases h)
  · intro mask
    unfold Ble.accepts
    rw [hrx]
    rfl

namespace Ble

/-! ## The advertiser -/

/-- The channel of the next advertising event. -/
def advChannel (b : Ble) : UInt8 :=
  match pickChannel b.advParams.channelMap 3 b.advChannelIdx (advChannels.getD b.advChannelIdx 0) with
  | .ok (_, channel) => channel
  | .error _ => 0

/-- The PDU of legacy advertising. -/
def legacyPdu (b : Ble) : AdvPdu :=
  match b.advParams.advType with
  | .connectableDirected => .advDirectInd b.ownAddr (b.advParams.peerAddr.getD (Buf.zero 6))
  | .connectableUndirected => .advInd b.ownAddr b.advDataBytes
  | .scannableUndirected => .advScanInd b.ownAddr b.advDataBytes
  | .nonConnectableUndirected => .advNonconnInd b.ownAddr b.advDataBytes

/-- The scan response data in force. -/
def scanRspBytes (b : Ble) : List UInt8 := b.scanRsp.bytes.take b.scanRspLen

/-- What the listening part of a legacy event does about a window. -/
def serveLog (b : Ble) (air : Air) : List BleAct :=
  match b.advParams.advType with
  | .nonConnectableUndirected => []
  | .scannableUndirected => if accepts scanReqMask air then b.scanRspLog b.ownAddr else []
  | .connectableUndirected | .connectableDirected =>
    match air.connectReq with
    | some (initAddr, _, params) =>
      [.push (.connected params), .push (.connectReqReceived initAddr params)]
    | none =>
      match air.scanReq with
      | some (_, advAddr) => b.scanRspLog advAddr
      | none => []

/-- The connection after a legacy event. -/
def servedConn (b : Ble) (channel : UInt8) (env : AdvEnv) : Option Conn :=
  match serveOpens b.advParams env.air with
  | some params => some (Conn.new params channel env.connNow .slave)
  | none => b.conn

/-- The advertiser's state after a legacy event: a connection ends the advertising. -/
def servedState (b : Ble) (air : Air) : AdvState :=
  match serveOpens b.advParams air with
  | some _ => .idle
  | none => b.advState

theorem legacyPdu_legacy (b : Ble) : b.legacyPdu.Legacy := by
  unfold legacyPdu
  split <;> exact trivial

theorem legacyPdu_length {b : Ble} (hb : b.Bounds) : b.legacyPdu.payload.length ≤ 63 := by
  have hdata := advDataBytes_length hb.advDataLen
  have h31 : b.advDataLen ≤ 31 := hb.advDataLen
  have haddr : (b.ownAddr.bytes ++ b.advDataBytes).length ≤ 63 := by
    rw [List.length_append, b.ownAddr.size]; omega
  unfold legacyPdu
  split
  · show (b.ownAddr.bytes ++ (b.advParams.peerAddr.getD (Buf.zero 6)).bytes).length ≤ 63
    rw [List.length_append, Buf.size, Buf.size]
    decide
  all_goals exact haddr

theorem primaryPdu_legacy {b : Ble} (hb : b.Bounds) (hext : b.advParams.extended = false) :
    b.primaryPdu = .ok b.legacyPdu := by
  have hdata : b.advData.upto b.advDataLen = .ok b.advDataBytes := b.advData.upto_of_le hb.advDataLen
  unfold primaryPdu
  rw [if_neg (by rw [hext]; exact Bool.false_ne_true)]
  unfold advPdu legacyPdu
  cases htype : b.advParams.advType with
  | connectableDirected =>
    obtain ⟨peer, hpeer⟩ := Option.isSome_iff_exists.mp (hb.directed htype)
    rw [hpeer]
    rfl
  | connectableUndirected | scannableUndirected | nonConnectableUndirected =>
    rw [hdata]
    rfl

theorem advServe_legacy {b : Ble} (hb : b.Bounds) (hext : b.advParams.extended = false)
    (channel : UInt8) (env : AdvEnv) :
    ∃ b', b.advServe channel env = ⟨b.serveLog env.air, .ok b'⟩ ∧ b'.conn = b.servedConn channel env ∧
      b'.advAccum = b.advAccum ∧ b'.advParams = b.advParams ∧ b'.advState = b.servedState env.air := by
  unfold advServe serveLog servedConn servedState serveOpens
  rw [if_neg (by rw [hext]; exact Bool.false_ne_true), hext]
  have hconnectable : ∃ b', b.listenForScanAndConnect channel env.air env.connNow =
      ⟨match env.air.connectReq with
        | some (initAddr, _, params) =>
          [.push (.connected params), .push (.connectReqReceived initAddr params)]
        | none =>
          match env.air.scanReq with
          | some (_, advAddr) => b.scanRspLog advAddr
          | none => [], .ok b'⟩ ∧
      b'.conn = (match env.air.connectReq.map (fun r => r.2.2) with
        | some params => some (Conn.new params channel env.connNow .slave)
        | none => b.conn) ∧ b'.advAccum = b.advAccum ∧ b'.advParams = b.advParams ∧
      b'.advState = (match env.air.connectReq.map (fun r => r.2.2) with
        | some _ => .idle
        | none => b.advState) := by
    obtain ⟨txBuf, rxPduLen, h⟩ := listenForScanAndConnect_eq hb.scanRspLen channel env.air env.connNow
    rw [h]
    cases env.air.connectReq with
    | some req => exact ⟨_, rfl, rfl, rfl, rfl, rfl⟩
    | none => exact ⟨_, rfl, rfl, rfl, rfl, rfl⟩
  split
  · rename_i htype
    rw [htype]
    exact hconnectable
  · rename_i htype
    rw [htype]
    exact hconnectable
  · rename_i htype
    obtain ⟨txBuf, rxPduLen, h⟩ := listenForScanReq_eq hb.scanRspLen env.air
    rw [h, htype]
    exact ⟨_, rfl, rfl, rfl, rfl, rfl⟩
  · rename_i htype
    rw [htype]
    exact ⟨_, rfl, rfl, rfl, rfl, rfl⟩

/-- **A legacy advertising event**, and what it does to the connection. -/
theorem advTick_legacy {b : Ble} (hb : b.Bounds) (hrun : b.advState = .running)
    (hext : b.advParams.extended = false) (env : AdvEnv) :
    ∃ b', b.advTick env = ⟨.setChannel b.advChannel ::
        .transmit (b.legacyPdu.bytes b.ownAddrType.isRandom false) :: b.serveLog env.air, .ok b'⟩ ∧
      b'.conn = b.servedConn b.advChannel env ∧ b'.advState = b.servedState env.air := by
  have hidx : b.advChannelIdx < advChannels.length := hb.advChannelIdx
  have hch : ∀ k : Fin 3, (advChannels.getD k.1 0).toNat < 40 := by decide
  obtain ⟨i, channel, hpick, hchannel⟩ := pickChannel_eq b.advParams.channelMap 3 b.advChannelIdx
    hb.advChannelIdx (hch ⟨b.advChannelIdx, hidx⟩)
  have hadv : b.advChannel = channel := by unfold advChannel; rw [hpick]
  have hfirst : idx advChannels b.advChannelIdx = .ok (advChannels.getD b.advChannelIdx 0) := by
    rw [idx_of_lt hidx, List.getD_eq_getElem?_getD, List.getElem?_eq_getElem hidx]
    rfl
  have hb₁ : Bounds { b with advChannelIdx := (i + 1) % 3 } :=
    { hb with advChannelIdx := Nat.mod_lt _ (by decide) }
  obtain ⟨pdu, txBuf, hpdu, hlen, hbuild, htake⟩ := buildPrimary_eq hb₁
  obtain rfl : b.legacyPdu = pdu := Except.ok.inj ((primaryPdu_legacy hb hext).symm.trans hpdu)
  have hb₂ : Bounds { b with
    advChannelIdx := (i + 1) % 3, txBuf := txBuf, txPduLen := 2 + b.legacyPdu.payload.length } :=
    { hb₁ with }
  obtain ⟨b₃, hserve, hconn, haccum, hparams, hstate⟩ := advServe_legacy hb₂ hext channel env
  obtain ⟨ticks, accum, hnext, -⟩ := IntervalAccum.next_eq hb.advAccum b.advParams.intervalMin
  refine ⟨{ b₃ with advAccum := accum, compare := env.now + UInt32.ofNat ticks }, ?_, ?_⟩
  · unfold advTick
    rw [hrun]
    dsimp only
    unfold advEvent
    rw [hfirst, Logged.lift_ok_bind, hpick, Logged.lift_ok_bind]
    dsimp only
    rw [setChannel_of_lt hchannel, Logged.mk_ok_bind, hbuild, Logged.lift_ok_bind,
      transmit_eq _ (by dsimp only; omega), Logged.mk_ok_bind, hserve, Logged.mk_ok_bind, haccum,
        hparams,
      hnext, Logged.lift_ok_bind, htake, hadv]
    simp only [Logged.pure_eq_mk, Logged.prepend_mk, List.append_nil]
    rfl
  · rw [hadv]
    exact ⟨hconn, hstate⟩

/-! ## The scanner -/

/-- The channel of the next listen of a scan. -/
def scanChannel (b : Ble) : UInt8 := advChannels.getD b.scanChannelIdx 0

/-- The address is let through by the filter. -/
def admits (b : Ble) (addr : Buf 6) : Bool :=
  b.scanParams.filterPolicy != .acceptList || b.acceptList.contains addr (addrTypeOf addr)

/-- The `SCAN_REQ` to an advertiser. -/
def scanRequestTo (b : Ble) (addr : Buf 6) : List UInt8 :=
  (AdvPdu.scanReq b.ownAddr addr).bytes b.ownAddrType.isRandom (addrTypeOf addr).isRandom

/-- The report of the scan response a window brought. -/
def scanRspReport (air : Air) : List BleAct :=
  match air.pdu with
  | some (.scanRsp addr data) => [.push (scanReport addr pduScanRsp air.rssi data)]
  | _ => []

/-- What a scanner that does not connect does about a packet. -/
def reportLog (b : Ble) (addr : Buf 6) (advType : UInt8) (data : List UInt8) (env : ScanEnv) :
    List BleAct :=
  if b.admits addr then
    .push (scanReport addr advType env.air.rssi data) ::
      (if b.scanParams.active then .transmit (b.scanRequestTo addr) :: scanRspReport env.rspAir else [])
  else []

/-- What a scanner does about an `ADV_IND` or `ADV_SCAN_IND`. -/
def scannableLog (b : Ble) (addr : Buf 6) (advType : UInt8) (data : List UInt8) (env : ScanEnv) :
    List BleAct :=
  if b.connectTarget = some addr then
    [.transmit (b.requestTo addr), .push (.connected connectParams)]
  else b.reportLog addr advType data env

/-- What a scanner does about a window. -/
def heardLog (b : Ble) (env : ScanEnv) : List BleAct :=
  match env.air.pdu with
  | some (.advInd addr data) => b.scannableLog addr pduAdvInd data env
  | some (.advScanInd addr data) => b.scannableLog addr pduAdvScanInd data env
  | _ => []

/-- The connection after the listen of a channel. -/
def initiated (b : Ble) (channel : UInt8) (env : ScanEnv) : Option Conn :=
  match listenOpens b.connectTarget env.air with
  | some target => some { Conn.new connectParams channel env.connNow .master with peerAddr := target }
  | none => b.conn

theorem sendConnectReq_link {b : Ble} {target : Buf 6} (h : b.connectTarget = some target)
    (now : UInt32) : ∃ b', b.sendConnectReq now =
      ⟨[.transmit (b.requestTo target), .push (.connected connectParams)], .ok b'⟩ ∧
      b'.conn = some { Conn.new connectParams (b.lastRadioChannel.getD 37) now .master with
        peerAddr := target } := by
  have hlen : (AdvPdu.connectReq b.ownAddr target connectParams.bytes).payload.length = 34 := by
    show (b.ownAddr.bytes ++ target.bytes ++ connectParams.bytes).length = 34
    rw [List.length_append, List.length_append, Buf.size, Buf.size]
    rfl
  obtain ⟨txBuf, henc, htake⟩ := b.encodeTx_eq
    (show (AdvPdu.connectReq b.ownAddr target connectParams.bytes).Sized from rfl)
    (by rw [hlen]; decide) b.ownAddrType.isRandom b.connectTargetType.isRandom
  have hparams : connectParams.encode (Buf.zero 22).bytes = .ok (.ok 22, connectParams.bytes) :=
    ConnectReqData.encodeAt_eq connectParams _ ▸ ConnectReqData.encodeAt_of_le connectParams (by decide)
  unfold sendConnectReq
  rw [h, hparams]
  dsimp only
  rw [Logged.lift_ok_bind]
  dsimp only
  rw [henc, Logged.lift_ok_bind]
  dsimp only
  rw [transmit_eq _ (by rw [hlen]; decide), htake, Logged.mk_ok_bind]
  exact ⟨_, rfl, rfl⟩

theorem respondScanReq_log {b : Ble} {addr : Buf 6} (haddr : b.rxBuf.sub 2 8 = .ok addr.bytes)
    (env : ScanEnv) : ∃ b', b.respondScanReq env =
      ⟨.transmit (b.scanRequestTo addr) :: scanRspReport env.rspAir, .ok b'⟩ ∧ b'.conn = b.conn := by
  have hlen : (AdvPdu.scanReq b.ownAddr addr).payload.length = 12 := by
    show (b.ownAddr.bytes ++ addr.bytes).length = 12
    rw [List.length_append, Buf.size, Buf.size]
  obtain ⟨txBuf, henc, htake⟩ := b.encodeTx_eq (show (AdvPdu.scanReq b.ownAddr addr).Sized from trivial)
    (by omega) b.ownAddrType.isRandom (addrTypeOf addr).isRandom
  unfold respondScanReq
  rw [haddr, Logged.lift_ok_bind, Buf.ofSlice_bytes]
  dsimp only
  rw [henc, Logged.lift_ok_bind]
  dsimp only
  rw [transmit_eq _ (by omega), htake, Logged.mk_ok_bind]
  unfold listenForScanRsp scanRspReport
  rw [receivePdu_eq, Logged.lift_ok_bind]
  cases env.rspAir.pdu with
  | none => exact ⟨_, rfl, rfl⟩
  | some pdu =>
    cases pdu <;> exact ⟨_, rfl, rfl⟩

theorem handleScannable_log {b : Ble} {addr : Buf 6} (haddr : b.rxBuf.sub 2 8 = .ok addr.bytes)
    (advType : UInt8) (data : List UInt8) (env : ScanEnv) :
    ∃ b', b.handleScannable addr advType data env = ⟨b.scannableLog addr advType data env, .ok b'⟩ ∧
      b'.conn = if b.connectTarget = some addr then
        some { Conn.new connectParams (b.lastRadioChannel.getD 37) env.connNow .master with
          peerAddr := addr }
      else b.conn := by
  unfold handleScannable scannableLog
  by_cases htarget : b.connectTarget = some addr
  · rw [if_pos htarget, if_pos htarget, if_pos htarget]
    exact sendConnectReq_link htarget env.connNow
  · rw [if_neg htarget, if_neg htarget, if_neg htarget]
    unfold reportLog admits
    by_cases hfilter : b.scanParams.filterPolicy = .acceptList && !b.acceptList.contains addr
        (addrTypeOf addr)
    · rw [if_pos hfilter, if_neg (by
        rw [Bool.and_eq_true, decide_eq_true_eq, Bool.not_eq_true'] at hfilter
        rw [hfilter.1, hfilter.2]
        decide)]
      exact ⟨b, rfl, rfl⟩
    · rw [if_neg hfilter, if_pos (by
        rw [Bool.and_eq_true, decide_eq_true_eq, Bool.not_eq_true'] at hfilter
        rw [Bool.or_eq_true, bne_iff_ne]
        by_cases hpolicy : b.scanParams.filterPolicy = .acceptList
        · exact .inr (Bool.eq_true_of_not_eq_false fun h => hfilter ⟨hpolicy, h⟩)
        · exact .inl hpolicy)]
      have hpush : b.push (scanReport addr advType env.air.rssi data) =
          ⟨[.push (scanReport addr advType env.air.rssi data)], .ok { b with
            events := pushEvent b.events (scanReport addr advType env.air.rssi data) }⟩ := rfl
      rw [hpush, Logged.mk_ok_bind]
      dsimp only
      split
      · obtain ⟨b', hresp, hconn⟩ := respondScanReq_log (b := { b with
          events := pushEvent b.events (scanReport addr advType env.air.rssi data) }) haddr env
        rw [hresp]
        exact ⟨b', rfl, hconn⟩
      · exact ⟨_, rfl, rfl⟩

theorem initiated_none {b : Ble} {env : ScanEnv} (h : env.air.advertiser = none) (channel : UInt8) :
    b.initiated channel env = b.conn := by
  unfold initiated listenOpens
  rw [h]
  by_cases htarget : b.connectTarget = none
  · rw [if_pos htarget, htarget]
  · rw [if_neg htarget]

/-- The sender of the packet in a window is in the buffer where the answer to it looks. -/
def SenderAt (air : Air) : Prop := ∀ addr, air.advertiser = some addr → air.buf.sub 2 8 = .ok addr.bytes

theorem handleScanPdu_log {b : Ble} {env : ScanEnv} {bytes : List UInt8} (hbuf : b.rxBuf = env.air.buf)
    (hlen : b.rxPduLen = env.air.len) (hrx : env.air.received = some bytes) (hsender : SenderAt env.air)
    (hext : ∀ addr mode adi ptr, env.air.pdu ≠ some (.advExtInd addr mode adi ptr)) :
    ∃ b', b.handleScanPdu env = ⟨b.heardLog env, .ok b'⟩ ∧
      b'.conn = b.initiated (b.lastRadioChannel.getD 37) env := by
  have hscannable : ∀ addr advType data, env.air.advertiser = some addr → ∃ b',
      b.handleScannable addr advType data env = ⟨b.scannableLog addr advType data env, .ok b'⟩ ∧
      b'.conn = b.initiated (b.lastRadioChannel.getD 37) env := by
    intro addr advType data hadv
    obtain ⟨b', hrun, hconn⟩ := handleScannable_log (hbuf ▸ hsender addr hadv) advType data env
    refine ⟨b', hrun, hconn.trans ?_⟩
    unfold initiated listenOpens
    rw [hadv]
    by_cases htarget : b.connectTarget = some addr
    · rw [if_pos htarget, if_pos htarget, htarget]
    · rw [if_neg htarget, if_neg htarget]
  unfold handleScanPdu heardLog
  rw [hlen, decodeRx_eq env.air hbuf hrx, Logged.lift_ok_bind]
  split
  · rename_i addr data hpdu
    rw [hpdu]
    exact hscannable addr pduAdvInd data (by unfold Air.advertiser; rw [hpdu])
  · rename_i addr data hpdu
    rw [hpdu]
    exact hscannable addr pduAdvScanInd data (by unfold Air.advertiser; rw [hpdu])
  · rename_i hpdu
    exact absurd hpdu (hext _ _ _ _)
  · rename_i h1 h2 _
    have hadv : env.air.advertiser = none := by
      unfold Air.advertiser
      split
      · rename_i hpdu; exact absurd hpdu (h1 _ _)
      · rename_i hpdu; exact absurd hpdu (h2 _ _)
      · rfl
    refine ⟨b, ?_, (initiated_none hadv _).symm⟩
    split
    · rename_i hpdu; exact absurd hpdu (h1 _ _)
    · rename_i hpdu; exact absurd hpdu (h2 _ _)
    · rfl

/-- **The listen of one channel**, and what it does to the connection. -/
theorem scanTick_log {b : Ble} (hrun : b.scanState = .running) (hidx : b.scanChannelIdx < 3)
    (hsync : b.periodicSync = none) {env : ScanEnv} (hsender : SenderAt env.air)
    (hext : ∀ addr mode adi ptr, env.air.pdu ≠ some (.advExtInd addr mode adi ptr)) :
    ∃ b', b.scanTick env = ⟨.setChannel b.scanChannel :: b.heardLog env, .ok b'⟩ ∧
      b'.conn = b.initiated b.scanChannel env := by
  have hlt : b.scanChannelIdx < advChannels.length := hidx
  have hch : ∀ k : Fin 3, (advChannels.getD k.1 0).toNat < 40 := by decide
  have hchannel : b.scanChannel.toNat < 40 := hch ⟨b.scanChannelIdx, hidx⟩
  have hfirst : idx advChannels b.scanChannelIdx = .ok b.scanChannel := by
    unfold scanChannel
    rw [idx_of_lt hlt, List.getD_eq_getElem?_getD, List.getElem?_eq_getElem hlt]
    rfl
  have hper : b.periodicTick env = pure b := by
    unfold periodicTick
    rw [hsync]
  obtain ⟨start, hstart⟩ : ∃ start, (if b.scanChannelIdx = 0 then
      { b with scanCycleStart := env.cycleNow } else b) = { b with scanCycleStart := start } := by
    split
    · exact ⟨_, rfl⟩
    · exact ⟨b.scanCycleStart, rfl⟩
  unfold scanTick
  rw [if_neg (by rw [hrun]; decide), hper, Logged.pure_bind]
  unfold scanStep
  rw [if_neg (by rw [hrun]; decide), if_neg (by omega)]
  unfold scanListen
  rw [hstart]
  dsimp only
  rw [hfirst, Logged.lift_ok_bind, setChannel_of_lt hchannel, Logged.mk_ok_bind, receive_eq,
    Logged.lift_ok_bind]
  cases hrx : env.air.received with
  | none =>
    have hpdu : env.air.pdu = none := by unfold Air.pdu; rw [hrx]
    have hlog : b.heardLog env = [] := by unfold heardLog; rw [hpdu]
    rw [hlog, initiated_none (by unfold Air.advertiser; rw [hpdu])]
    exact ⟨_, rfl, rfl⟩
  | some bytes =>
    obtain ⟨b', hhandle, hconn⟩ := handleScanPdu_log (b := { b with
      scanCycleStart := start, scanChannelIdx := b.scanChannelIdx + 1
      lastRadioChannel := some b.scanChannel
      compare := env.now + UInt32.ofNat (windowTicks b.scanParams.window / 3)
      rxBuf := env.air.buf, rxPduLen := env.air.len }) rfl rfl hrx hsender hext
    refine ⟨b', ?_, hconn⟩
    show Logged.prepend _ (handleScanPdu _ env) = _
    rw [hhandle]
    rfl

/-! ## What each does about the other's packets -/

theorem serveLog_silent {b : Ble} {air : Air} (h : air.Hears none) :
    b.serveLog air = [] ∧ serveOpens b.advParams air = none := by
  obtain ⟨-, hconnect, hscan, hmask⟩ := h.silent
  unfold serveLog serveOpens
  rw [hconnect, hscan, hmask scanReqMask]
  refine ⟨?_, by split <;> rfl⟩
  cases b.advParams.advType <;> rfl

/-- The types a scanner answers. -/
def scannable : AdvType → Bool
  | .connectableUndirected | .scannableUndirected => true
  | _ => false

theorem accepts_of_pdu {air : Air} {pdu : AdvPdu} (h : air.pdu = some pdu) (mask : UInt32) :
    accepts mask air = (mask &&& ((1 : UInt32) <<< pdu.pduType.toUInt32) != 0) := by
  obtain ⟨hrx, htype, -⟩ := air.pdu_type h
  unfold accepts
  rw [hrx, htype, Bool.true_and]

theorem serveLog_scanReq {b : Ble} {air : Air} (htype : scannable b.advParams.advType = true)
    {scanAddr : Buf 6} {txAdd rxAdd : Bool}
    (h : air.Hears (some ((AdvPdu.scanReq scanAddr b.ownAddr).bytes txAdd rxAdd))) :
    b.serveLog air = b.scanRspLog b.ownAddr ∧ serveOpens b.advParams air = none := by
  have hlen : (AdvPdu.scanReq scanAddr b.ownAddr).payload.length ≤ 63 := by
    show (scanAddr.bytes ++ b.ownAddr.bytes).length ≤ 63
    rw [List.length_append, Buf.size, Buf.size]
    decide
  obtain ⟨-, hpdu⟩ := h.pdu (show (AdvPdu.scanReq scanAddr b.ownAddr).Legacy from trivial) hlen
  have hconnect : air.connectReq = none := Air.connectReq_of_ne (by rw [hpdu]; intro _ _ _ h; cases h)
  have hscan : air.scanReq = some (scanAddr, b.ownAddr) := by unfold Air.scanReq; rw [hpdu]
  have hmask : accepts scanReqMask air = true := by
    rw [accepts_of_pdu hpdu]
    exact show (scanReqMask &&& (1 : UInt32) <<< pduScanReq.toUInt32 != 0) = true by decide
  unfold serveLog serveOpens
  rw [hconnect, hscan, hmask]
  refine ⟨?_, by split <;> rfl⟩
  cases ht : b.advParams.advType <;> rw [ht] at htype <;> first | rfl | cases htype

theorem connectParams_inRange : connectParams.InRange := ⟨by decide, by decide, by decide⟩

/-- A `CONNECT_REQ` of this stack, as the advertiser's window brings it. -/
theorem connectReq_heard {air : Air} {initAddr advAddr : Buf 6} {txAdd rxAdd : Bool}
    (h : air.Hears
      (some ((AdvPdu.connectReq initAddr advAddr connectParams.bytes).bytes txAdd rxAdd))) :
    air.connectReq = some (initAddr, advAddr, connectParams) ∧ accepts scanReqMask air = false := by
  have hlen : (AdvPdu.connectReq initAddr advAddr connectParams.bytes).payload.length ≤ 63 := by
    show (initAddr.bytes ++ advAddr.bytes ++ connectParams.bytes).length ≤ 63
    rw [List.length_append, List.length_append, Buf.size, Buf.size, connectParams.length_bytes]
    decide
  obtain ⟨-, hpdu⟩ := h.pdu (show (AdvPdu.connectReq initAddr advAddr connectParams.bytes).Legacy
    from connectParams.length_bytes) hlen
  refine ⟨?_, ?_⟩
  · unfold Air.connectReq
    rw [hpdu]
    dsimp only
    rw [ConnectReqData.decode_bytes connectParams_inRange]
  · rw [accepts_of_pdu hpdu]
    exact show (scanReqMask &&& (1 : UInt32) <<< pduConnectReq.toUInt32 != 0) = false by decide

/-- The scan response, heard by the scanner. -/
theorem scanRspReport_heard {adv : Ble} (hb : adv.Bounds) {air : Air}
    (h : air.Hears (transmissions (adv.scanRspLog adv.ownAddr))[0]?) :
    pushed (scanRspReport air) = (if adv.scanRspLen > 0 then
      [scanReport adv.ownAddr pduScanRsp air.rssi adv.scanRspBytes] else []) := by
  unfold scanRspLog at h
  unfold scanRspReport
  by_cases hpos : adv.scanRspLen > 0
  · rw [if_pos hpos] at h
    rw [if_pos hpos]
    have hlen : (AdvPdu.scanRsp adv.ownAddr adv.scanRspBytes).payload.length ≤ 63 := by
      have h31 : adv.scanRspLen ≤ 31 := hb.scanRspLen
      show (adv.ownAddr.bytes ++ adv.scanRsp.bytes.take adv.scanRspLen).length ≤ 63
      rw [List.length_append, Buf.size, List.length_take]
      omega
    have h' : air.Hears (some ((AdvPdu.scanRsp adv.ownAddr adv.scanRspBytes).bytes
      adv.ownAddrType.isRandom false)) := h
    rw [(h'.pdu (show (AdvPdu.scanRsp adv.ownAddr adv.scanRspBytes).Legacy from trivial) hlen).2]
    rfl
  · rw [if_neg hpos] at h
    rw [if_neg hpos]
    have h' : air.Hears none := h
    rw [h'.silent.1]
    rfl

end Ble

/-! ## The meeting -/

/-- An advertising event and the listen of a scan, in range of each other and of nobody else: each
    window hears what the other transmits on its channel at that point. -/
structure Meet (adv scan : Ble) (advEnv : AdvEnv) (scanEnv : ScanEnv) (advLog scanLog : List BleAct)
    (adv' scan' : Ble) : Prop where
  advTick : adv.advTick advEnv = ⟨advLog, .ok adv'⟩
  scanTick : scan.scanTick scanEnv = ⟨scanLog, .ok scan'⟩
  /-- The scanner hears the first packet of the event. -/
  primary : scanEnv.air.Hears (packetsOn scan.scanChannel advLog)[0]?
  /-- The advertiser hears the scanner's request. -/
  request : advEnv.air.Hears (packetsOn adv.advChannel scanLog)[0]?
  /-- The scanner hears the response to it. -/
  response : scanEnv.rspAir.Hears (packetsOn scan.scanChannel advLog)[1]?

/-- A legacy advertiser at its event, and a scanner at a listen. -/
structure AtEvent (adv scan : Ble) : Prop where
  advBounds : adv.Bounds
  advRunning : adv.advState = .running
  legacy : adv.advParams.extended = false
  scanRunning : scan.scanState = .running
  listening : scan.scanChannelIdx < 3
  unsynced : scan.periodicSync = none

/-- The reports of an active or passive scan of this advertiser. -/
def scanReports (adv scan : Ble) (advType : UInt8) (rssi rspRssi : Int8) : List BleEvent :=
  if scan.admits adv.ownAddr then
    Ble.scanReport adv.ownAddr advType rssi adv.advDataBytes ::
      if scan.scanParams.active ∧ adv.scanRspLen > 0 then
        [Ble.scanReport adv.ownAddr pduScanRsp rspRssi adv.scanRspBytes]
      else []
  else []

/-- **What comes of a meeting**: the events of the advertiser and of the scanner, given the signal
    strengths of the two packets the scanner may hear. -/
def encounter (adv scan : Ble) (rssi rspRssi : Int8) : List BleEvent × List BleEvent :=
  if adv.advChannel ≠ scan.scanChannel then ([], [])
  else
    match adv.advParams.advType with
    | .connectableUndirected =>
      if scan.connectTarget = some adv.ownAddr then
        ([.connected Ble.connectParams, .connectReqReceived scan.ownAddr Ble.connectParams],
          [.connected Ble.connectParams])
      else ([], scanReports adv scan pduAdvInd rssi rspRssi)
    | .scannableUndirected =>
      -- the request is sent, and nobody listens for it
      if scan.connectTarget = some adv.ownAddr then ([], [.connected Ble.connectParams])
      else ([], scanReports adv scan pduAdvScanInd rssi rspRssi)
    -- neither is anything to `handle_scan_pdu`
    | .connectableDirected | .nonConnectableUndirected => ([], [])

/-! ### The two logs -/

theorem Tuned.nil : Tuned [] := fun _ h => by cases h

theorem Tuned.cons {a : BleAct} {log : List BleAct} (ha : ∀ channel, a ≠ .setChannel channel)
    (h : Tuned log) : Tuned (a :: log) := by
  intro channel hmem
  cases hmem with
  | head => exact ha channel rfl
  | tail _ hmem => exact h channel hmem

theorem tuned_scanRspLog (b : Ble) (addr : Buf 6) : Tuned (b.scanRspLog addr) := by
  unfold Ble.scanRspLog
  split
  · exact .cons (by intro _ h; cases h) .nil
  · exact .nil

theorem tuned_serveLog (b : Ble) (air : Air) : Tuned (b.serveLog air) := by
  have hpush : ∀ evt channel, BleAct.push evt ≠ .setChannel channel := by intro _ _ h; cases h
  have hconnectable : Tuned (match air.connectReq with
      | some (initAddr, _, params) =>
        [.push (.connected params), .push (.connectReqReceived initAddr params)]
      | none =>
        match air.scanReq with
        | some (_, advAddr) => b.scanRspLog advAddr
        | none => []) := by
    split
    · exact .cons (hpush _) (.cons (hpush _) .nil)
    · split
      · exact tuned_scanRspLog b _
      · exact .nil
  unfold Ble.serveLog
  split
  · exact .nil
  · split
    · exact tuned_scanRspLog b _
    · exact .nil
  · exact hconnectable
  · exact hconnectable

theorem tuned_heardLog (b : Ble) (env : ScanEnv) : Tuned (b.heardLog env) := by
  have hpush : ∀ evt channel, BleAct.push evt ≠ .setChannel channel := by intro _ _ h; cases h
  have hsend : ∀ packet channel, BleAct.transmit packet ≠ .setChannel channel := by intro _ _ h; cases h
  have hrsp : Tuned (Ble.scanRspReport env.rspAir) := by
    unfold Ble.scanRspReport
    split
    · exact .cons (hpush _) .nil
    · exact .nil
  have hscannable : ∀ addr advType data, Tuned (b.scannableLog addr advType data env) := by
    intro addr advType data
    unfold Ble.scannableLog
    split
    · exact .cons (hsend _) (.cons (hpush _) .nil)
    · unfold Ble.reportLog
      split
      · refine .cons (hpush _) ?_
        split
        · exact .cons (hsend _) hrsp
        · exact .nil
      · exact .nil
  unfold Ble.heardLog
  split
  · exact hscannable _ _ _
  · exact hscannable _ _ _
  · exact .nil

/-- What the two ends log and what they hear. -/
structure Heard (adv scan : Ble) (advEnv : AdvEnv) (scanEnv : ScanEnv) (advLog scanLog : List BleAct)
    (adv' scan' : Ble) : Prop where
  advLog : advLog = .setChannel adv.advChannel ::
    .transmit (adv.legacyPdu.bytes adv.ownAddrType.isRandom false) :: adv.serveLog advEnv.air
  advConn : adv'.conn = adv.servedConn adv.advChannel advEnv
  scanLog : scanLog = .setChannel scan.scanChannel :: scan.heardLog scanEnv
  scanConn : scan'.conn = scan.initiated scan.scanChannel scanEnv
  same : adv.advChannel = scan.scanChannel → scanEnv.air.pdu = some adv.legacyPdu ∧
    advEnv.air.Hears (transmissions (scan.heardLog scanEnv))[0]? ∧
    scanEnv.rspAir.Hears (transmissions (adv.serveLog advEnv.air))[0]?
  other : adv.advChannel ≠ scan.scanChannel → scanEnv.air.Hears none ∧ advEnv.air.Hears none

/-- The address in front of the payload is where the answer looks for it. -/
theorem Air.Hears.sender {air : Air} (adv : Ble) {addr : Buf 6} {txAdd rxAdd : Bool}
    (h : air.Hears (some (adv.legacyPdu.bytes txAdd rxAdd)))
    (haddr : (match some adv.legacyPdu with
      | some (.advInd addr _) => some addr
      | some (.advScanInd addr _) => some addr
      | _ => none) = some addr) : air.buf.sub 2 8 = .ok addr.bytes := by
  obtain ⟨rest, hpayload⟩ : ∃ rest, adv.legacyPdu.payload = addr.bytes ++ rest := by
    generalize adv.legacyPdu = pdu at haddr
    cases pdu <;> cases haddr <;> exact ⟨_, rfl⟩
  obtain ⟨-, htake⟩ := h
  have hbytes : ∃ b0 b1, adv.legacyPdu.bytes txAdd rxAdd = b0 :: b1 :: (addr.bytes ++ rest) := by
    unfold AdvPdu.bytes
    rw [hpayload]
    exact ⟨_, _, rfl⟩
  obtain ⟨b0, b1, hbytes⟩ := hbytes
  have hlen : (adv.legacyPdu.bytes txAdd rxAdd).length = 8 + rest.length := by
    rw [hbytes, List.length_cons, List.length_cons, List.length_append, addr.size]
    omega
  rw [air.buf.sub_of_le (by omega) (by decide)]
  have hfirst : air.buf.bytes.take 8 = b0 :: b1 :: addr.bytes := by
    have htake8 := congrArg (List.take 8) htake
    rw [List.take_take, hlen, Nat.min_eq_left (by omega), hbytes, List.take_succ_cons,
      List.take_succ_cons, List.take_left' addr.size] at htake8
    exact htake8
  rw [hfirst]
  rfl

/-- What the scanner's window brings: the legacy PDU, or nothing on another channel. -/
structure Primary (adv scan : Ble) (air : Air) : Prop where
  same : adv.advChannel = scan.scanChannel → air.pdu = some adv.legacyPdu
  other : adv.advChannel ≠ scan.scanChannel → air.Hears none
  sender : Ble.SenderAt air
  legacy : ∀ addr mode adi ptr, air.pdu ≠ some (.advExtInd addr mode adi ptr)

theorem Primary.of_hears {adv scan : Ble} (hb : adv.Bounds) {air : Air}
    (h : air.Hears (if adv.advChannel = scan.scanChannel then
      some (adv.legacyPdu.bytes adv.ownAddrType.isRandom false) else none)) : Primary adv scan air := by
  by_cases hch : adv.advChannel = scan.scanChannel
  · rw [if_pos hch] at h
    obtain ⟨-, hpdu⟩ := h.pdu adv.legacyPdu_legacy (Ble.legacyPdu_length hb)
    refine ⟨fun _ => hpdu, fun hne => absurd hch hne, ?_, ?_⟩
    · intro addr haddr
      unfold Air.advertiser at haddr
      rw [hpdu] at haddr
      exact h.sender adv haddr
    · intro addr mode adi ptr hext
      have hlegacy := adv.legacyPdu_legacy
      rw [Option.some.inj (hpdu.symm.trans hext)] at hlegacy
      exact hlegacy
  · rw [if_neg hch] at h
    refine ⟨fun heq => absurd heq hch, fun _ => h, ?_, ?_⟩
    · intro addr haddr
      unfold Air.advertiser at haddr
      rw [h.silent.1] at haddr
      cases haddr
    · rw [h.silent.1]
      intro _ _ _ _ hext
      cases hext

/-- The packets of an advertising event, as heard on a channel. -/
theorem packetsOn_adv (adv : Ble) (air : Air) (channel : UInt8) :
    packetsOn channel (.setChannel adv.advChannel ::
        .transmit (adv.legacyPdu.bytes adv.ownAddrType.isRandom false) :: adv.serveLog air) =
      if adv.advChannel = channel then adv.legacyPdu.bytes adv.ownAddrType.isRandom false ::
        transmissions (adv.serveLog air) else [] :=
  packetsOn_tuned _ _ (.cons (by intro _ h; cases h) (tuned_serveLog adv air))

theorem Meet.heard {adv scan : Ble} {advEnv : AdvEnv} {scanEnv : ScanEnv} {advLog scanLog : List BleAct}
    {adv' scan' : Ble} (h : Meet adv scan advEnv scanEnv advLog scanLog adv' scan')
    (hevent : AtEvent adv scan) : Heard adv scan advEnv scanEnv advLog scanLog adv' scan' := by
  obtain ⟨b₁, hadv, hadvConn, -⟩ := Ble.advTick_legacy hevent.advBounds hevent.advRunning hevent.legacy
    advEnv
  obtain ⟨rfl, rfl⟩ : advLog = _ ∧ adv' = b₁ := by
    have heq := h.advTick.symm.trans hadv
    exact ⟨congrArg Logged.log heq, Except.ok.inj (congrArg Logged.res heq)⟩
  have hprimary := h.primary
  have hresponse := h.response
  rw [packetsOn_adv] at hprimary hresponse
  have hair : Primary adv scan scanEnv.air := by
    refine .of_hears hevent.advBounds ?_
    split
    · rename_i hch
      rw [if_pos hch] at hprimary
      exact hprimary
    · rename_i hch
      rw [if_neg hch] at hprimary
      exact hprimary
  obtain ⟨b₂, hscan, hscanConn⟩ := Ble.scanTick_log hevent.scanRunning hevent.listening hevent.unsynced
    hair.sender hair.legacy
  obtain ⟨rfl, rfl⟩ : scanLog = _ ∧ scan' = b₂ := by
    have heq := h.scanTick.symm.trans hscan
    exact ⟨congrArg Logged.log heq, Except.ok.inj (congrArg Logged.res heq)⟩
  have hrequest := h.request
  rw [packetsOn_tuned _ _ (tuned_heardLog scan scanEnv)] at hrequest
  refine ⟨rfl, hadvConn, rfl, hscanConn, ?_, ?_⟩
  · intro hch
    rw [if_pos hch] at hresponse
    rw [if_pos hch.symm] at hrequest
    exact ⟨hair.same hch, hrequest, hresponse⟩
  · intro hch
    rw [if_neg (fun heq => hch heq.symm)] at hrequest
    exact ⟨hair.other hch, hrequest⟩

/-- Windows that bring what is sent in them make a meeting. -/
theorem Meet.of_hears {adv scan : Ble} (hevent : AtEvent adv scan)
    (hch : adv.advChannel = scan.scanChannel) (advEnv : AdvEnv) (scanEnv : ScanEnv)
    (hprimary : scanEnv.air.Hears (some (adv.legacyPdu.bytes adv.ownAddrType.isRandom false)))
    (hrequest : advEnv.air.Hears (transmissions (scan.heardLog scanEnv))[0]?)
    (hresponse : scanEnv.rspAir.Hears (transmissions (adv.serveLog advEnv.air))[0]?) :
    ∃ advLog scanLog adv' scan', Meet adv scan advEnv scanEnv advLog scanLog adv' scan' := by
  obtain ⟨b₁, hadv, -⟩ := Ble.advTick_legacy hevent.advBounds hevent.advRunning hevent.legacy advEnv
  have hair : Primary adv scan scanEnv.air := .of_hears hevent.advBounds
    (by rw [if_pos hch]; exact hprimary)
  obtain ⟨b₂, hscan, -⟩ := Ble.scanTick_log hevent.scanRunning hevent.listening hevent.unsynced
    hair.sender hair.legacy
  refine ⟨_, _, b₁, b₂, hadv, hscan, ?_, ?_, ?_⟩
  · rw [packetsOn_adv, if_pos hch]
    exact hprimary
  · rw [packetsOn_tuned _ _ (tuned_heardLog scan scanEnv), if_pos hch.symm]
    exact hrequest
  · rw [packetsOn_adv, if_pos hch]
    exact hresponse

/-! ### What comes of it -/

/-- Nothing was heard: the two channels differ. -/
theorem Heard.apart {adv scan : Ble} {advEnv : AdvEnv} {scanEnv : ScanEnv}
    {advLog scanLog : List BleAct} {adv' scan' : Ble}
    (h : Heard adv scan advEnv scanEnv advLog scanLog adv' scan')
    (hch : adv.advChannel ≠ scan.scanChannel) :
    adv.serveLog advEnv.air = [] ∧ Ble.serveOpens adv.advParams advEnv.air = none ∧
      scan.heardLog scanEnv = [] ∧ scanEnv.air.advertiser = none := by
  obtain ⟨hscan, hadv⟩ := h.other hch
  obtain ⟨hserve, hopens⟩ := Ble.serveLog_silent (b := adv) hadv
  refine ⟨hserve, hopens, ?_, ?_⟩
  · unfold Ble.heardLog
    rw [hscan.silent.1]
  · unfold Air.advertiser
    rw [hscan.silent.1]

/-- What a scanner answers to an advertiser of a type. -/
def answered (adv scan : Ble) (scanEnv : ScanEnv) (advType : UInt8) : List BleAct :=
  scan.scannableLog adv.ownAddr advType adv.advDataBytes scanEnv

/-- A scannable advertiser and a scanner that is not looking for it. -/
theorem Heard.reports {adv scan : Ble} {advEnv : AdvEnv} {scanEnv : ScanEnv}
    {advLog scanLog : List BleAct} {adv' scan' : Ble}
    (h : Heard adv scan advEnv scanEnv advLog scanLog adv' scan') (hb : adv.Bounds)
    (hch : adv.advChannel = scan.scanChannel) (htype : Ble.scannable adv.advParams.advType = true)
    (htarget : scan.connectTarget ≠ some adv.ownAddr) (advType : UInt8)
    (hheard : scan.heardLog scanEnv = answered adv scan scanEnv advType) :
    pushed (adv.serveLog advEnv.air) = [] ∧
      pushed (scan.heardLog scanEnv) = scanReports adv scan advType scanEnv.air.rssi
        scanEnv.rspAir.rssi ∧
      Ble.serveOpens adv.advParams advEnv.air = none := by
  have hscannable : answered adv scan scanEnv advType =
      scan.reportLog adv.ownAddr advType adv.advDataBytes scanEnv := if_neg htarget
  rw [hscannable] at hheard
  obtain ⟨-, hrequest, hresponse⟩ := h.same hch
  rw [hheard] at hrequest ⊢
  have hnone : pushed (adv.scanRspLog adv.ownAddr) = [] := by
    unfold Ble.scanRspLog
    split <;> rfl
  unfold Ble.reportLog at hrequest ⊢
  unfold scanReports
  by_cases hadmits : scan.admits adv.ownAddr = true
  · rw [if_pos hadmits] at hrequest
    rw [if_pos hadmits, if_pos hadmits]
    by_cases hactive : scan.scanParams.active = true
    · rw [if_pos hactive] at hrequest
      rw [if_pos hactive]
      obtain ⟨hserve, hopens⟩ := Ble.serveLog_scanReq htype hrequest
      rw [hserve] at hresponse ⊢
      refine ⟨hnone, ?_, hopens⟩
      show Ble.scanReport adv.ownAddr advType scanEnv.air.rssi adv.advDataBytes ::
        pushed (Ble.scanRspReport scanEnv.rspAir) = _
      rw [Ble.scanRspReport_heard hb hresponse]
      simp only [hactive, true_and]
    · rw [if_neg hactive] at hrequest
      rw [if_neg hactive]
      obtain ⟨hserve, hopens⟩ := Ble.serveLog_silent (b := adv) hrequest
      rw [hserve]
      refine ⟨rfl, ?_, hopens⟩
      rw [if_neg (fun h => hactive h.1)]
      rfl
  · rw [if_neg hadmits] at hrequest
    rw [if_neg hadmits, if_neg hadmits]
    obtain ⟨hserve, hopens⟩ := Ble.serveLog_silent (b := adv) hrequest
    rw [hserve]
    exact ⟨rfl, rfl, hopens⟩

/-- A scanner that is looking for the advertiser it hears. -/
theorem Heard.requests {adv scan : Ble} {advEnv : AdvEnv} {scanEnv : ScanEnv}
    {advLog scanLog : List BleAct} {adv' scan' : Ble}
    (h : Heard adv scan advEnv scanEnv advLog scanLog adv' scan')
    (hch : adv.advChannel = scan.scanChannel) (htarget : scan.connectTarget = some adv.ownAddr)
    {advType : UInt8} (hheard : scan.heardLog scanEnv = answered adv scan scanEnv advType) :
    pushed (scan.heardLog scanEnv) = [.connected Ble.connectParams] ∧
      advEnv.air.connectReq = some (scan.ownAddr, adv.ownAddr, Ble.connectParams) ∧
      Ble.accepts Ble.scanReqMask advEnv.air = false := by
  have hscannable : answered adv scan scanEnv advType =
      [.transmit (scan.requestTo adv.ownAddr), .push (.connected Ble.connectParams)] := if_pos htarget
  rw [hscannable] at hheard
  obtain ⟨-, hrequest, -⟩ := h.same hch
  rw [hheard] at hrequest ⊢
  obtain ⟨hconnect, hmask⟩ := Ble.connectReq_heard hrequest
  exact ⟨rfl, hconnect, hmask⟩

/-- **A meeting comes to what `encounter` says**: in every configuration of a legacy advertiser and a
    scanner in range of each other, these are the events of both, and no packet is lost on the way. -/
theorem meeting_outcome {adv scan : Ble} {advEnv : AdvEnv} {scanEnv : ScanEnv}
    {advLog scanLog : List BleAct} {adv' scan' : Ble} (hevent : AtEvent adv scan)
    (h : Meet adv scan advEnv scanEnv advLog scanLog adv' scan') :
    (pushed advLog, pushed scanLog) = encounter adv scan scanEnv.air.rssi scanEnv.rspAir.rssi := by
  have hheard := h.heard hevent
  have hadvLog : pushed advLog = pushed (adv.serveLog advEnv.air) := by rw [hheard.advLog]; rfl
  have hscanLog : pushed scanLog = pushed (scan.heardLog scanEnv) := by rw [hheard.scanLog]; rfl
  rw [hadvLog, hscanLog]
  unfold encounter
  by_cases hch : adv.advChannel = scan.scanChannel
  · rw [if_neg (not_not.mpr hch)]
    obtain ⟨hpdu, hrequest, -⟩ := hheard.same hch
    cases htype : adv.advParams.advType with
    | connectableUndirected =>
      have hlog : scan.heardLog scanEnv = answered adv scan scanEnv pduAdvInd := by
        unfold Ble.heardLog
        rw [hpdu, Ble.legacyPdu, htype]
        rfl
      dsimp only
      by_cases htarget : scan.connectTarget = some adv.ownAddr
      · obtain ⟨hscan, hconnect, -⟩ := hheard.requests hch htarget hlog
        have hserve : pushed (adv.serveLog advEnv.air) = [.connected Ble.connectParams,
            .connectReqReceived scan.ownAddr Ble.connectParams] := by
          unfold Ble.serveLog
          rw [htype, hconnect]
          rfl
        rw [if_pos htarget, hscan, hserve]
      · obtain ⟨hadv, hscan, -⟩ := hheard.reports hevent.advBounds hch
          (by rw [htype]; rfl) htarget _ hlog
        rw [if_neg htarget, hadv, hscan]
    | scannableUndirected =>
      have hlog : scan.heardLog scanEnv = answered adv scan scanEnv pduAdvScanInd := by
        unfold Ble.heardLog
        rw [hpdu, Ble.legacyPdu, htype]
        rfl
      dsimp only
      by_cases htarget : scan.connectTarget = some adv.ownAddr
      · obtain ⟨hscan, -, hmask⟩ := hheard.requests hch htarget hlog
        have hserve : adv.serveLog advEnv.air = [] := by
          unfold Ble.serveLog
          rw [htype]
          exact if_neg (by rw [hmask]; exact Bool.false_ne_true)
        rw [if_pos htarget, hscan, hserve]
        rfl
      · obtain ⟨hadv, hscan, -⟩ := hheard.reports hevent.advBounds hch
          (by rw [htype]; rfl) htarget _ hlog
        rw [if_neg htarget, hadv, hscan]
    | connectableDirected | nonConnectableUndirected =>
      have hlog : scan.heardLog scanEnv = [] := by
        unfold Ble.heardLog
        rw [hpdu, Ble.legacyPdu, htype]
      rw [hlog] at hrequest ⊢
      rw [(Ble.serveLog_silent (b := adv) hrequest).1]
      rfl
  · rw [if_pos hch]
    obtain ⟨hserve, -, hscan, -⟩ := hheard.apart hch
    rw [hserve, hscan]
    rfl

/-! ## The two connections -/

/-- Both ends open a connection: the scanner looks for this advertiser, which takes requests. -/
structure Connects (adv scan : Ble) : Prop where
  channel : adv.advChannel = scan.scanChannel
  target : scan.connectTarget = some adv.ownAddr
  type : adv.advParams.advType = .connectableUndirected

theorem meeting_connects {adv scan : Ble} {advEnv : AdvEnv} {scanEnv : ScanEnv}
    {advLog scanLog : List BleAct} {adv' scan' : Ble} (hevent : AtEvent adv scan)
    (h : Meet adv scan advEnv scanEnv advLog scanLog adv' scan') (hconnects : Connects adv scan) :
    adv'.conn = some (Conn.new Ble.connectParams adv.advChannel advEnv.connNow .slave) ∧
      scan'.conn = some { Conn.new Ble.connectParams adv.advChannel scanEnv.connNow .master with
        peerAddr := adv.ownAddr } := by
  have hheard := h.heard hevent
  obtain ⟨hpdu, -, -⟩ := hheard.same hconnects.channel
  have hlog : scan.heardLog scanEnv = answered adv scan scanEnv pduAdvInd := by
    unfold Ble.heardLog
    rw [hpdu, Ble.legacyPdu, hconnects.type]
    rfl
  obtain ⟨-, hconnect, -⟩ := hheard.requests hconnects.channel hconnects.target hlog
  rw [hheard.advConn, hheard.scanConn]
  constructor
  · unfold Ble.servedConn Ble.serveOpens
    rw [hevent.legacy, hconnects.type, hconnect]
    rfl
  · have hadv : scanEnv.air.advertiser = some adv.ownAddr := by
      unfold Air.advertiser
      rw [hpdu, Ble.legacyPdu, hconnects.type]
    unfold Ble.initiated
    rw [Ble.listenOpens_eq_some.mpr ⟨hconnects.target, hadv⟩, hconnects.channel]

/-- **The two ends of a connection agree on it**, and are on the same channel in every event of their
    runs, whatever each of them hears, sends or is asked to do in between. -/
theorem connected_ends_hop_together (hw : Hw) {adv scan : Ble} {advEnv : AdvEnv} {scanEnv : ScanEnv}
    {advLog scanLog : List BleAct} {adv' scan' : Ble} (hevent : AtEvent adv scan)
    (h : Meet adv scan advEnv scanEnv advLog scanLog adv' scan') (hconnects : Connects adv scan) :
    ∃ master slave, scan'.conn = some master ∧ adv'.conn = some slave ∧
      master.role = .master ∧ slave.role = .slave ∧ master.accessAddr = slave.accessAddr ∧
      master.crcInit = slave.crcInit ∧ master.interval = slave.interval ∧
      master.timeout = slave.timeout ∧
      ∀ (ops ops' : List Op) (n : Nat) (ch ch' : UInt8),
        (hops (master.runOps hw ops).log)[n]? = some ch →
        (hops (slave.runOps hw ops').log)[n]? = some ch' → ch = ch' := by
  obtain ⟨hslave, hmaster⟩ := meeting_connects hevent h hconnects
  have hchannel : adv.advChannel.toNat ≤ 39 := by
    have hch : ∀ k : Fin 3, (advChannels.getD k.1 0).toNat ≤ 39 := by decide
    rw [hconnects.channel]
    exact hch ⟨scan.scanChannelIdx, hevent.listening⟩
  refine ⟨_, _, hmaster, hslave, rfl, rfl, rfl, rfl, rfl, rfl, ?_⟩
  intro ops ops' n ch ch' hn hn'
  refine Conn.hop_together hw ?_ ?_ ?_ ops ops' hn hn'
  · exact show (13 : UInt8).toNat ≤ 31 by decide
  · exact hchannel
  · exact ⟨rfl, rfl, rfl⟩

/-- A connectable advertiser with data and a response. -/
def openAdvertiser : Ble :=
  { Ble.new with advState := .running, ownAddr := otherAddr, advDataLen := 3, scanRspLen := 2 }

/-- A scanner, with or without a target. -/
def scanningFor (target : Option (Buf 6)) : Ble :=
  { Ble.new with scanState := .running, scanParams := { active := true }, connectTarget := target }

theorem openAdvertiser_atEvent (target : Option (Buf 6)) :
    AtEvent openAdvertiser (scanningFor target) :=
  ⟨{ Ble.bounds_new with advDataLen := by decide, scanRspLen := by decide }, rfl, rfl, rfl,
    show 0 < 3 by decide, rfl⟩

theorem packet_fits (packet : List UInt8) : 0 + (packet.take rxPduMax).length ≤ rxPduMax := by
  rw [List.length_take, Nat.zero_add]
  exact Nat.min_le_left _ _

/-- A window that brings this packet. -/
def Air.bringing (packet : List UInt8) : Air :=
  ⟨.packet, (Buf.zero rxPduMax).splice 0 (packet.take rxPduMax) (packet_fits packet), 0⟩

theorem Air.bringing_hears {packet : List UInt8} (h : packet.length ≤ rxPduMax) :
    (Air.bringing packet).Hears (some packet) := by
  refine ⟨rfl, ?_⟩
  show (List.take 0 _ ++ packet.take rxPduMax ++ _).take _ = _
  rw [List.take_of_length_le h, List.take_zero, List.nil_append, List.take_left]

/-- The environment of a scanner that hears these two packets. -/
def hearing (packet rsp : List UInt8) : ScanEnv :=
  ⟨0, .silent, 0, 0, .bringing packet, 0, 0, .silent, 0, .bringing rsp⟩

/-- The packets of `openAdvertiser`. -/
def openAdvertisement : List UInt8 := openAdvertiser.legacyPdu.bytes false false

def openResponse : List UInt8 := (AdvPdu.scanRsp otherAddr [0, 0]).bytes false false

/-- An active scanner reports the advertising data and the response to its request. -/
theorem meeting_outcome_active :
    ∃ advEnv scanEnv advLog scanLog adv' scan',
      Meet openAdvertiser (scanningFor none) advEnv scanEnv advLog scanLog adv' scan' ∧
        (pushed advLog, pushed scanLog) =
          ([], [Ble.scanReport otherAddr pduAdvInd 0 [0, 0, 0],
            Ble.scanReport otherAddr pduScanRsp 0 [0, 0]]) := by
  have hrequest : (transmissions ((scanningFor none).heardLog
      (hearing openAdvertisement openResponse)))[0]? =
      some ((scanningFor none).scanRequestTo otherAddr) := by decide +kernel
  have hresponse : (transmissions (openAdvertiser.serveLog
      (.bringing ((scanningFor none).scanRequestTo otherAddr))))[0]? = some openResponse := by
    decide +kernel
  obtain ⟨advLog, scanLog, adv', scan', h⟩ := Meet.of_hears (openAdvertiser_atEvent none) rfl
    ⟨0, 0, .bringing ((scanningFor none).scanRequestTo otherAddr), 0, 0⟩
    (hearing openAdvertisement openResponse) (Air.bringing_hears (by decide))
    (by rw [hrequest]; exact Air.bringing_hears (by decide))
    (by rw [hresponse]; exact Air.bringing_hears (by decide))
  exact ⟨_, _, _, _, _, _, h, (meeting_outcome (openAdvertiser_atEvent none) h).trans rfl⟩

/-- An initiator and its target, and a run of three events at each end. -/
theorem connected_ends_hop_together_sample :
    ∃ advEnv scanEnv advLog scanLog adv' scan',
      Meet openAdvertiser (scanningFor (some otherAddr)) advEnv scanEnv advLog scanLog adv' scan' ∧
        ∃ master slave, scan'.conn = some master ∧ adv'.conn = some slave ∧
          ∀ ch ch',
            (hops (master.runOps Hw.standIn [.event [], .event [], .event []]).log)[2]? = some ch →
            (hops (slave.runOps Hw.standIn [.event [], .event [], .event []]).log)[2]? = some ch' →
            ch = ch' := by
  have hrequest : (transmissions ((scanningFor (some otherAddr)).heardLog
      (hearing openAdvertisement openResponse)))[0]? =
      some ((scanningFor (some otherAddr)).requestTo otherAddr) := by decide +kernel
  have hresponse : (transmissions (openAdvertiser.serveLog
      (.bringing ((scanningFor (some otherAddr)).requestTo otherAddr))))[0]? = none := by decide +kernel
  obtain ⟨advLog, scanLog, adv', scan', h⟩ := Meet.of_hears
    (openAdvertiser_atEvent (some otherAddr)) rfl
    ⟨0, 0, .bringing ((scanningFor (some otherAddr)).requestTo otherAddr), 0, 0⟩
    { hearing openAdvertisement openResponse with rspAir := .silent }
    (Air.bringing_hears (by decide)) (by
      show Air.Hears _ (transmissions ((scanningFor (some otherAddr)).heardLog
        (hearing openAdvertisement openResponse)))[0]?
      rw [hrequest]
      exact Air.bringing_hears (by decide))
    (by rw [hresponse]; rfl)
  obtain ⟨master, slave, hmaster, hslave, -, -, -, -, -, -, hhop⟩ :=
    connected_ends_hop_together Hw.standIn (openAdvertiser_atEvent (some otherAddr)) h ⟨rfl, rfl, rfl⟩
  exact ⟨_, _, _, _, _, _, h, master, slave, hmaster, hslave, hhop _ _ 2⟩

end NrfBle
