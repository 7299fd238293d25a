/-
  Advertising (`src/hw/ble.rs`: `gap_address_set` to `gap_adv_stop`, `adv_tick` and what it calls).

  One `adv_tick` is one channel event: stop if a stop is pending, else pick the next channel of the
  map, transmit the PDU of the advertising type, serve whoever answers, and arm the compare for the
  next event.  Serving depends on the type: a connectable advertiser waits 90 ms for a `SCAN_REQ` or a
  `CONNECT_REQ`, a scannable one 300 us for a `SCAN_REQ`; an extended one sends an auxiliary packet
  instead (and a periodic one after it).

  The two listeners differ.  `listenForScanAndConnect` decodes what it received and answers a scan
  request with the address found IN THE REQUEST; `listenForScanReq` answers on the type nibble alone,
  with its own address.
-/
import Mathlib.Tactic
import NrfBle.Hw.Ble.State

namespace NrfBle

open Checked

/-- What an `adv_tick` reads: the clock at each place that asks for it, and the window it listens
    in. -/
structure AdvEnv where
  /-- In `transmit_aux_adv`. -/
  auxNow : UInt32
  /-- In `transmit_periodic_adv`. -/
  periodicNow : UInt32
  /-- In the listening window. -/
  air : Air
  /-- When a connection is made. -/
  connNow : UInt32
  /-- When the next event is scheduled. -/
  now : UInt32

/-- The advertising data id the stack sends, `[0, 0]`. -/
def zeroAdi : Buf 2 := Buf.zero 2

namespace Ble

/-! ## Configuration -/

/-- `Ble::gap_address_set`. -/
def gapAddressSet (b : Ble) (addr : Buf 6) (addrType : AddrType) : Ble :=
  { b with ownAddr := addr, ownAddrType := addrType }

/-- `Ble::gap_privacy_set`. -/
def gapPrivacySet (b : Ble) (irk : Buf 16) : Ble := { b with irk := some irk }

/-- `Ble::gap_rotate_rpa`. -/
def gapRotateRpa (hw : Hw) (b : Ble) (now : UInt32) : Bool × Ble :=
  match b.irk with
  | none => (false, b)
  | some irk =>
    (true, { b with
      ownAddr := generateRpa hw irk (now &&& 0x00FFFFFF)
      ownAddrType := .randomPrivateResolvable })

/-- `Ble::gap_adv_set_configure`. -/
def gapAdvSetConfigure (b : Ble) (advData scanRspData : List UInt8) :
    Logged BleAct (Except Error Unit × Ble) :=
  if advData.length > legacyAdDataMaxLen ∨ scanRspData.length > legacyAdDataMaxLen then
    return (.error .invalidLength, b)
  else do
    let advBuf ← Logged.lift (b.advData.write 0 advData)
    let rspBuf ← Logged.lift (b.scanRsp.write 0 scanRspData)
    return (.ok (), { b with
      advData := advBuf, advDataLen := advData.length
      scanRsp := rspBuf, scanRspLen := scanRspData.length })

/-- `Ble::gap_adv_start`. -/
def gapAdvStart (b : Ble) (params : AdvParams) (now : UInt32) :
    Logged BleAct (Except Error Unit × Ble) :=
  if b.advState ≠ .idle then return (.error .alreadyRunning, b)
  else if params.intervalMin < 32 ∨ params.intervalMin > 16384 then
    return (.error .invalidParam, b)
  else if params.intervalMax < params.intervalMin then return (.error .invalidParam, b)
  else if params.channelMap &&& 0b111 = 0 then return (.error .invalidParam, b)
  else if params.advType = .connectableDirected ∧ params.peerAddr.isNone then
    return (.error .invalidParam, b)
  else do
    let (ticks, accum) ← Logged.lift (IntervalAccum.new.next params.intervalMin)
    let b ← { b with
      advParams := params, ownAddrType := params.ownAddrType, advChannelIdx := 0
      advAccum := accum, compare := now + UInt32.ofNat ticks, advState := .running }.push .advStarted
    return (.ok (), b)

/-- `Ble::gap_adv_stop`. -/
def gapAdvStop (b : Ble) : Logged BleAct (Except Error Unit × Ble) :=
  match b.advState with
  | .running => return (.ok (), { b with advState := .stopPending })
  | .stopPending => return (.ok (), b)
  | .idle => return (.error .notRunning, b)

/-! ## The PDUs -/

/-- The legacy PDU of the advertising type. -/
def advPdu (b : Ble) : Except Panic AdvPdu :=
  match b.advParams.advType with
  | .connectableDirected =>
    match b.advParams.peerAddr with
    | some peer => return .advDirectInd b.ownAddr peer
    | none => .error .unwrap
  | .connectableUndirected => do
    let data ← b.advData.upto b.advDataLen
    return .advInd b.ownAddr data
  | .scannableUndirected => do
    let data ← b.advData.upto b.advDataLen
    return .advScanInd b.ownAddr data
  | .nonConnectableUndirected => do
    let data ← b.advData.upto b.advDataLen
    return .advNonconnInd b.ownAddr data

/-- `Ble::build_adv_pdu`. -/
def buildAdvPdu (b : Ble) : Except Panic Ble := do
  let pdu ← b.advPdu
  let (len, b) ← b.encodeUnwrap pdu b.ownAddrType.isRandom false
  return { b with txPduLen := len }

/-- The AdvMode bits of the advertising type. -/
def advMode : AdvType → UInt8
  | .connectableUndirected => 0b001
  | .scannableUndirected => 0b010
  | _ => 0

/-- The primary PDU of extended advertising; its pointer names channel 0. -/
def extAdvPdu (b : Ble) : AdvPdu :=
  .advExtInd b.ownAddr (advMode b.advParams.advType) zeroAdi ⟨0, 5, 0⟩

/-- `Ble::build_ext_adv_pdu`. -/
def buildExtAdvPdu (b : Ble) : Except Panic Ble := do
  let (len, b) ← b.encodeUnwrap b.extAdvPdu b.ownAddrType.isRandom false
  return { b with txPduLen := len }

/-- The auxiliary PDU: the advertising data behind a plain or a periodic extended header. -/
def auxPdu (b : Ble) : Except Panic AdvPdu := do
  let data ← b.advData.upto (min b.advDataLen 36)
  if b.advParams.periodic then
    let info : PeriodicAdvInfo :=
      ⟨zeroAdi, b.advParams.periodicInterval, if b.ownAddrType.isRandom then 1 else 0⟩
    return .auxAdvExtIndWithEh b.ownAddr zeroAdi ([0, extAdPeriodic] ++ info.encode.bytes) data
  else return .auxAdvExtInd b.ownAddr zeroAdi 0x00 data

/-- Encode, wait 200 us on the compare, transmit on channel 0, and go back to channel 37. -/
def transmitOnAux (b : Ble) (pdu : AdvPdu) (now : UInt32) : Logged BleAct Ble := do
  let (len, b) ← Logged.lift (b.encodeUnwrap pdu b.ownAddrType.isRandom false)
  let b := { b with compare := now + UInt32.ofNat (timeoutTicks 200) }
  let _ ← setChannel 0
  b.transmit len
  let _ ← setChannel 37
  return b

/-- `Ble::transmit_aux_adv`. -/
def transmitAuxAdv (b : Ble) (now : UInt32) : Logged BleAct Ble := do
  let pdu ← Logged.lift b.auxPdu
  b.transmitOnAux pdu now

/-- `Ble::transmit_periodic_adv`. -/
def transmitPeriodicAdv (b : Ble) (now : UInt32) : Logged BleAct Ble :=
  b.transmitOnAux (.periodicAdv 0 zeroAdi) now

/-! ## Listening -/

/-- The packet types `listen_for_scan_req` accepts, as a mask. -/
def scanReqMask : UInt32 := (1 : UInt32) <<< pduScanReq.toUInt32

/-- The packet types `listen_for_scan_and_connect` accepts, as a mask. -/
def requestMask : UInt32 :=
  ((1 : UInt32) <<< pduScanReq.toUInt32) ||| ((1 : UInt32) <<< pduConnectReq.toUInt32)

/-- `Ble::radio_window`: listen, and tell whether a packet of an accepted type came. -/
def radioWindow (b : Ble) (acceptMask : UInt32) (air : Air) : Except Panic (Bool × Ble) := do
  let (got, b) ← b.receive air
  match got with
  | none => return (false, b)
  | some len =>
    let b := { b with rxPduLen := len }
    if b.rxPduLen ≥ 2 then
      let b0 ← idx b.rxBuf.bytes 0
      return (acceptMask &&& ((1 : UInt32) <<< (b0 &&& 0x0F).toUInt32) != 0, b)
    else return (false, b)

/-- Transmit a `SCAN_RSP` with the responder address `addr`, if there is response data. -/
def sendScanRsp (b : Ble) (addr : Buf 6) : Logged BleAct Ble :=
  if b.scanRspLen > 0 then do
    let data ← Logged.lift (b.scanRsp.upto b.scanRspLen)
    let (len, b) ← Logged.lift (b.encodeUnwrap (.scanRsp addr data) b.ownAddrType.isRandom false)
    b.transmit len
    return b
  else return b

/-- `Ble::listen_for_scan_req`. -/
def listenForScanReq (b : Ble) (air : Air) : Logged BleAct Ble := do
  let (accepted, b) ← Logged.lift (b.radioWindow scanReqMask air)
  if accepted then b.sendScanRsp b.ownAddr else return b

/-- `Ble::listen_for_scan_and_connect`. -/
def listenForScanAndConnect (b : Ble) (channel : UInt8) (air : Air) (now : UInt32) :
    Logged BleAct Ble := do
  let (accepted, b) ← Logged.lift (b.radioWindow requestMask air)
  if !accepted then return b
  else
    match ← Logged.lift (b.decodeRx b.rxPduLen) with
    | some (.scanReq _ advAddr) => b.sendScanRsp advAddr
    | some (.connectReq initAddr _ llData) =>
      let params ← Logged.lift (ConnectReqData.decode llData)
      match params with
      | .ok params =>
        let b ← { b with
          conn := some (Conn.new params channel now .slave)
          advState := .idle }.push (.connected params)
        b.push (.connectReqReceived initAddr params)
      | .error _ => return b
    | _ => return b

/-! ## The tick -/

/-- The channel search of `adv_tick`: at most `guard` steps to a channel of the map. -/
def pickChannel (map : UInt8) : Nat → Nat → UInt8 → Except Panic (Nat × UInt8)
  | 0, i, channel => return (i, channel)
  | guard + 1, i, channel =>
    if map &&& ((1 : UInt8) <<< UInt8.ofNat i) ≠ 0 then return (i, channel)
    else do
      let channel ← idx advChannels ((i + 1) % 3)
      pickChannel map guard ((i + 1) % 3) channel

/-- What follows the primary PDU. -/
def advServe (b : Ble) (channel : UInt8) (env : AdvEnv) : Logged BleAct Ble :=
  if b.advParams.extended then do
    let b ← b.transmitAuxAdv env.auxNow
    if b.advParams.periodic then b.transmitPeriodicAdv env.periodicNow else return b
  else
    match b.advParams.advType with
    | .connectableUndirected | .connectableDirected =>
      b.listenForScanAndConnect channel env.air env.connNow
    | .scannableUndirected => b.listenForScanReq env.air
    | .nonConnectableUndirected => return b

/-- A channel event: the part of `adv_tick` behind its two state checks. -/
def advEvent (b : Ble) (env : AdvEnv) : Logged BleAct Ble := do
  let channel ← Logged.lift (idx advChannels b.advChannelIdx)
  let (i, channel) ← Logged.lift (pickChannel b.advParams.channelMap 3 b.advChannelIdx channel)
  let b := { b with advChannelIdx := (i + 1) % 3 }
  let _ ← setChannel channel
  let b ← Logged.lift (if b.advParams.extended then b.buildExtAdvPdu else b.buildAdvPdu)
  b.transmit b.txPduLen
  let b ← b.advServe channel env
  let (ticks, accum) ← Logged.lift (b.advAccum.next b.advParams.intervalMin)
  return { b with advAccum := accum, compare := env.now + UInt32.ofNat ticks }

/-- `Ble::adv_tick`. -/
def advTick (b : Ble) (env : AdvEnv) : Logged BleAct Ble :=
  match b.advState with
  | .idle => return b
  | .stopPending => { b with advState := .idle }.push .advStopped
  | .running => b.advEvent env

/-! ## What the PDUs are -/

theorem advPdu_eq {b : Ble} (hb : b.Bounds) :
    ∃ pdu, b.advPdu = .ok pdu ∧ pdu.Sized ∧ pdu.payload.length ≤ 63 := by
  have hdata : b.advData.upto b.advDataLen = .ok (b.advData.bytes.take b.advDataLen) :=
    b.advData.upto_of_le hb.advDataLen
  have hlen : (b.ownAddr.bytes ++ b.advData.bytes.take b.advDataLen).length ≤ 63 := by
    have h31 : b.advDataLen ≤ 31 := hb.advDataLen
    rw [List.length_append, b.ownAddr.size, List.length_take]
    omega
  unfold advPdu
  split
  · rename_i hdir
    obtain ⟨peer, hpeer⟩ := Option.isSome_iff_exists.mp (hb.directed hdir)
    rw [hpeer]
    refine ⟨_, rfl, trivial, ?_⟩
    show (b.ownAddr.bytes ++ peer.bytes).length ≤ 63
    rw [List.length_append, b.ownAddr.size, peer.size]
    decide
  all_goals
    rw [hdata]
    exact ⟨_, rfl, trivial, hlen⟩

/-- The primary PDU, legacy or extended. -/
def primaryPdu (b : Ble) : Except Panic AdvPdu :=
  if b.advParams.extended then .ok b.extAdvPdu else b.advPdu

/-- Building the primary PDU: the transmit buffer starts with it. -/
theorem buildPrimary_eq {b : Ble} (hb : b.Bounds) :
    ∃ pdu txBuf, b.primaryPdu = .ok pdu ∧ pdu.payload.length ≤ 63 ∧
      (if b.advParams.extended then b.buildExtAdvPdu else b.buildAdvPdu) =
        .ok { b with txBuf := txBuf, txPduLen := 2 + pdu.payload.length } ∧
      txBuf.bytes.take (2 + pdu.payload.length) = pdu.bytes b.ownAddrType.isRandom false := by
  unfold primaryPdu
  split
  · have hlen : b.extAdvPdu.payload.length ≤ 63 := by
      simp [extAdvPdu, AdvPdu.payload, b.ownAddr.size, zeroAdi, Buf.zero, AuxPtr.encode]
    obtain ⟨txBuf, henc, htake⟩ := b.encodeUnwrap_eq (show b.extAdvPdu.Sized from trivial) hlen
      b.ownAddrType.isRandom false
    refine ⟨b.extAdvPdu, txBuf, rfl, hlen, ?_, htake⟩
    unfold buildExtAdvPdu
    rw [henc]
    rfl
  · obtain ⟨pdu, hpdu, hsized, hlen⟩ := advPdu_eq hb
    obtain ⟨txBuf, henc, htake⟩ := b.encodeUnwrap_eq hsized hlen b.ownAddrType.isRandom false
    refine ⟨pdu, txBuf, hpdu, hlen, ?_, htake⟩
    unfold buildAdvPdu
    rw [hpdu, ok_bind, henc]
    rfl

theorem auxPdu_eq {b : Ble} (hb : b.Bounds) :
    ∃ pdu, b.auxPdu = .ok pdu ∧ pdu.Sized ∧ pdu.payload.length ≤ 63 := by
  have h31 : b.advDataLen ≤ 31 := hb.advDataLen
  have hdata : b.advData.upto (min b.advDataLen 36) = .ok (b.advData.bytes.take (min b.advDataLen 36)) :=
    b.advData.upto_of_le (show min b.advDataLen 36 ≤ 31 by omega)
  have htake : (b.advData.bytes.take (min b.advDataLen 36)).length ≤ 31 := by
    rw [List.length_take]; omega
  unfold auxPdu
  rw [hdata, ok_bind]
  split
  · refine ⟨_, rfl, by simp [AdvPdu.Sized], ?_⟩
    simp only [AdvPdu.payload, List.length_append, b.ownAddr.size, zeroAdi, Buf.size,
      List.length_cons, List.length_nil]
    omega
  · refine ⟨_, rfl, trivial, ?_⟩
    simp only [AdvPdu.payload, List.length_append, b.ownAddr.size, zeroAdi, Buf.size,
      List.length_cons, List.length_nil]
    omega

theorem transmitOnAux_eq (b : Ble) {pdu : AdvPdu} (hsized : pdu.Sized)
    (hlen : pdu.payload.length ≤ 63) (now : UInt32) :
    ∃ txBuf, b.transmitOnAux pdu now =
      ⟨[.setChannel 0, .transmit (pdu.bytes b.ownAddrType.isRandom false), .setChannel 37],
        .ok { b with txBuf := txBuf, compare := now + UInt32.ofNat (timeoutTicks 200) }⟩ := by
  obtain ⟨txBuf, henc, htake⟩ := b.encodeUnwrap_eq hsized hlen b.ownAddrType.isRandom false
  refine ⟨txBuf, ?_⟩
  unfold transmitOnAux
  rw [henc, Logged.lift_ok_bind]
  dsimp only
  rw [setChannel_of_lt (by decide), Logged.mk_ok_bind, transmit_eq _ (by omega), Logged.mk_ok_bind,
    setChannel_of_lt (by decide), Logged.mk_ok_bind, htake]
  rfl

/-! ## What the listeners do -/

/-- `radio_window` accepts the packet of this window. -/
def accepts (acceptMask : UInt32) (air : Air) : Bool :=
  air.received.isSome && acceptMask &&& ((1 : UInt32) <<< air.type.toUInt32) != 0

theorem radioWindow_eq (b : Ble) (acceptMask : UInt32) (air : Air) :
    ∃ rxPduLen, b.radioWindow acceptMask air =
        .ok (accepts acceptMask air, { b with rxBuf := air.buf, rxPduLen := rxPduLen }) ∧
      (air.received.isSome → rxPduLen = air.len) := by
  unfold radioWindow accepts
  rw [b.receive_eq, ok_bind]
  cases hrx : air.received with
  | none => exact ⟨b.rxPduLen, rfl, by intro h; cases h⟩
  | some bytes =>
    refine ⟨air.len, ?_, fun _ => rfl⟩
    have h2 : air.len ≥ 2 := by unfold Air.len; omega
    have h0 : 0 < air.buf.bytes.length := by rw [air.buf.size]; decide
    dsimp only [Option.map]
    rw [if_pos h2, idx_of_lt h0, ok_bind, Air.type, List.getD_eq_getElem?_getD,
      List.getElem?_eq_getElem h0]
    rfl

/-- The `SCAN_RSP` with the responder address `addr`, if there is response data. -/
def scanRspLog (b : Ble) (addr : Buf 6) : List BleAct :=
  if b.scanRspLen > 0 then
    [.transmit ((AdvPdu.scanRsp addr (b.scanRsp.bytes.take b.scanRspLen)).bytes
      b.ownAddrType.isRandom false)]
  else []

theorem sendScanRsp_eq {b : Ble} (hb : b.scanRspLen ≤ legacyAdDataMaxLen) (addr : Buf 6) :
    ∃ txBuf, b.sendScanRsp addr = ⟨b.scanRspLog addr, .ok { b with txBuf := txBuf }⟩ := by
  unfold sendScanRsp scanRspLog
  split
  · have hlen : (AdvPdu.scanRsp addr (b.scanRsp.bytes.take b.scanRspLen)).payload.length ≤ 63 := by
      have h31 : b.scanRspLen ≤ 31 := hb
      show (addr.bytes ++ b.scanRsp.bytes.take b.scanRspLen).length ≤ 63
      rw [List.length_append, addr.size, List.length_take]
      omega
    obtain ⟨txBuf, henc, htake⟩ := b.encodeUnwrap_eq
      (show (AdvPdu.scanRsp addr (b.scanRsp.bytes.take b.scanRspLen)).Sized from trivial) hlen
      b.ownAddrType.isRandom false
    refine ⟨txBuf, ?_⟩
    rw [b.scanRsp.upto_of_le hb, Logged.lift_ok_bind, henc, Logged.lift_ok_bind]
    dsimp only
    rw [transmit_eq _ (by omega), Logged.mk_ok_bind, htake]
    rfl
  · exact ⟨b.txBuf, rfl⟩

theorem listenForScanReq_eq {b : Ble} (hb : b.scanRspLen ≤ legacyAdDataMaxLen) (air : Air) :
    ∃ txBuf rxPduLen, b.listenForScanReq air =
      ⟨if accepts scanReqMask air then b.scanRspLog b.ownAddr else [],
        .ok { b with txBuf := txBuf, rxBuf := air.buf, rxPduLen := rxPduLen }⟩ := by
  obtain ⟨rxPduLen, hwin, _⟩ := b.radioWindow_eq scanReqMask air
  unfold listenForScanReq
  rw [hwin, Logged.lift_ok_bind]
  dsimp only
  split
  · obtain ⟨txBuf, hsend⟩ := sendScanRsp_eq
      (b := { b with rxBuf := air.buf, rxPduLen := rxPduLen }) hb b.ownAddr
    exact ⟨txBuf, rxPduLen, hsend⟩
  · exact ⟨b.txBuf, rxPduLen, rfl⟩

/-- A request is accepted by the window of a connectable advertiser. -/
theorem accepts_request {air : Air} {pdu : AdvPdu} (h : air.pdu = some pdu)
    (ht : pdu.pduType = pduScanReq ∨ pdu.pduType = pduConnectReq) :
    accepts requestMask air = true := by
  obtain ⟨hrx, htype, _⟩ := air.pdu_type h
  unfold accepts
  rw [hrx, htype]
  rcases ht with ht | ht <;> rw [ht] <;> decide

/-- **The connectable listener.**  A `CONNECT_REQ` opens a connection, a `SCAN_REQ` is answered with
    the advertiser address it carries, and nothing else has an effect. -/
theorem listenForScanAndConnect_eq {b : Ble} (hb : b.scanRspLen ≤ legacyAdDataMaxLen)
    (channel : UInt8) (air : Air) (now : UInt32) :
    ∃ txBuf rxPduLen, b.listenForScanAndConnect channel air now =
      match air.connectReq with
      | some (initAddr, _, params) =>
        ⟨[.push (.connected params), .push (.connectReqReceived initAddr params)],
          .ok { b with
            rxBuf := air.buf, rxPduLen := rxPduLen, advState := .idle
            conn := some (Conn.new params channel now .slave)
            events := pushEvent (pushEvent b.events (.connected params))
              (.connectReqReceived initAddr params) }⟩
      | none =>
        ⟨match air.scanReq with
          | some (_, advAddr) => b.scanRspLog advAddr
          | none => [],
          .ok { b with txBuf := txBuf, rxBuf := air.buf, rxPduLen := rxPduLen }⟩ := by
  obtain ⟨rxPduLen, hwin, hlen⟩ := b.radioWindow_eq requestMask air
  unfold listenForScanAndConnect
  rw [hwin, Logged.lift_ok_bind]
  dsimp only
  cases hacc : accepts requestMask air with
  | false =>
    -- a request would have been accepted
    have hcr : air.connectReq = none := Air.connectReq_of_ne (fun a c llData hpdu => by
      rw [accepts_request hpdu (.inr rfl)] at hacc; cases hacc)
    have hsr : air.scanReq = none := Air.scanReq_of_ne (fun a c hpdu => by
      rw [accepts_request hpdu (.inl rfl)] at hacc; cases hacc)
    rw [hcr, hsr]
    exact ⟨b.txBuf, rxPduLen, rfl⟩
  | true =>
    have hrx : air.received.isSome := by
      unfold accepts at hacc
      exact (Bool.and_eq_true_iff.mp hacc).1
    obtain ⟨bytes, hbytes⟩ := Option.isSome_iff_exists.mp hrx
    obtain rfl := hlen hrx
    have hdec := decodeRx_eq (b := { b with rxBuf := air.buf, rxPduLen := air.len }) air rfl hbytes
    rw [if_neg (by decide), hdec, Logged.lift_ok_bind]
    split
    · rename_i scanAddr advAddr hpdu
      obtain ⟨txBuf, hsend⟩ := sendScanRsp_eq
        (b := { b with rxBuf := air.buf, rxPduLen := air.len }) hb advAddr
      refine ⟨txBuf, air.len, ?_⟩
      rw [hsend, Air.connectReq, Air.scanReq, hpdu]
      rfl
    · rename_i initAddr advAddr llData hpdu
      obtain ⟨params, hp, hreq⟩ := air.connectReq_eq hpdu
      refine ⟨b.txBuf, air.len, ?_⟩
      rw [hp, Logged.lift_ok_bind, hreq]
      rfl
    · rename_i hns hnc
      refine ⟨b.txBuf, air.len, ?_⟩
      have hcr : air.connectReq = none := Air.connectReq_of_ne hnc
      have hsr : air.scanReq = none := Air.scanReq_of_ne hns
      rw [hcr, hsr]
      rfl

/-! ## What a tick does -/

/-- The types whose advertiser takes a `CONNECT_REQ`. -/
def connectable : AdvType → Bool
  | .connectableUndirected | .connectableDirected => true
  | _ => false

/-- The `CONNECT_REQ` parameters with which the listening part of a channel event opens a
    connection. -/
def serveOpens (params : AdvParams) (air : Air) : Option ConnectReqData :=
  if !params.extended && connectable params.advType then air.connectReq.map (fun r => r.2.2) else none

/-- The `CONNECT_REQ` parameters with which an `adv_tick` opens a connection. -/
def advOpens (b : Ble) (env : AdvEnv) : Option ConnectReqData :=
  if b.advState = .running then serveOpens b.advParams env.air else none

/-- A connection made by a `CONNECT_REQ` received at the time `now`. -/
def SlaveOf (now : UInt32) (params : ConnectReqData) (c : Conn) : Prop :=
  ∃ channel, c = Conn.new params channel now .slave

/-- **What an `adv_tick` can change**: nothing of the scanner and of the configuration, and the
    connection only by opening one. -/
structure AdvEffect (opens : Option ConnectReqData) (now : UInt32) (b : Ble) (log : List BleAct)
    (b' : Ble) : Prop where
  frame : b' = { b with
    compare := b'.compare, advAccum := b'.advAccum, advState := b'.advState
    advChannelIdx := b'.advChannelIdx, conn := b'.conn, txBuf := b'.txBuf, txPduLen := b'.txPduLen
    rxBuf := b'.rxBuf, rxPduLen := b'.rxPduLen, events := b'.events }
  link : Opened opens (SlaveOf now) b.conn b'.conn log

theorem linkEvents_scanRspLog (b : Ble) (addr : Buf 6) : linkEvents (b.scanRspLog addr) = [] := by
  unfold scanRspLog
  split <;> rfl

theorem transmitAuxAdv_eq {b : Ble} (hb : b.Bounds) (now : UInt32) :
    ∃ log txBuf, b.transmitAuxAdv now =
      ⟨log, .ok { b with txBuf := txBuf, compare := now + UInt32.ofNat (timeoutTicks 200) }⟩ ∧
      linkEvents log = [] := by
  obtain ⟨pdu, hpdu, hsized, hlen⟩ := auxPdu_eq hb
  obtain ⟨txBuf, h⟩ := b.transmitOnAux_eq hsized hlen now
  unfold transmitAuxAdv
  rw [hpdu, Logged.lift_ok_bind]
  exact ⟨_, txBuf, h, rfl⟩

theorem transmitPeriodicAdv_eq (b : Ble) (now : UInt32) :
    ∃ log txBuf, b.transmitPeriodicAdv now =
      ⟨log, .ok { b with txBuf := txBuf, compare := now + UInt32.ofNat (timeoutTicks 200) }⟩ ∧
      linkEvents log = [] := by
  obtain ⟨txBuf, h⟩ := b.transmitOnAux_eq (show (AdvPdu.periodicAdv 0 zeroAdi).Sized from trivial)
    (show (AdvPdu.periodicAdv 0 zeroAdi).payload.length ≤ 63 by decide) now
  exact ⟨_, txBuf, h, rfl⟩

/-- The serving part of a channel event. -/
theorem advServe_effect {b : Ble} (hb : b.Bounds) (channel : UInt8) (env : AdvEnv) :
    ∃ log b', b.advServe channel env = ⟨log, .ok b'⟩ ∧
      AdvEffect (serveOpens b.advParams env.air) env.connNow b log b' ∧
      b'.advAccum = b.advAccum ∧ b'.advChannelIdx = b.advChannelIdx ∧
      (serveOpens b.advParams env.air = none → b'.advState = b.advState) := by
  unfold advServe serveOpens
  cases hext : b.advParams.extended with
  | true =>
    obtain ⟨log, txBuf, haux, hlog⟩ := transmitAuxAdv_eq hb env.auxNow
    rw [if_pos rfl, haux, Logged.mk_ok_bind]
    dsimp only
    split
    · obtain ⟨log', txBuf', hper, hlog'⟩ := transmitPeriodicAdv_eq
        { b with txBuf := txBuf, compare := env.auxNow + UInt32.ofNat (timeoutTicks 200) }
        env.periodicNow
      rw [hper]
      refine ⟨_, _, rfl, ⟨rfl, rfl, ?_⟩, rfl, rfl, fun _ => rfl⟩
      rw [linkEvents_append, hlog, hlog']
      rfl
    · refine ⟨_, _, rfl, ⟨rfl, rfl, ?_⟩, rfl, rfl, fun _ => rfl⟩
      rw [linkEvents_append, hlog]
      rfl
  | false =>
    rw [if_neg (by decide)]
    have hconnectable : ∃ log b', b.listenForScanAndConnect channel env.air env.connNow = ⟨log, .ok b'⟩ ∧
        AdvEffect (env.air.connectReq.map (fun r => r.2.2)) env.connNow b log b' ∧
        b'.advAccum = b.advAccum ∧ b'.advChannelIdx = b.advChannelIdx ∧
        (env.air.connectReq.map (fun r => r.2.2) = none → b'.advState = b.advState) := by
      obtain ⟨txBuf, rxPduLen, h⟩ := listenForScanAndConnect_eq hb.scanRspLen channel env.air env.connNow
      rw [h]
      cases hreq : env.air.connectReq with
      | some req => exact ⟨_, _, rfl, ⟨rfl, ⟨_, rfl, _, rfl⟩, rfl⟩, rfl, rfl, by rintro ⟨⟩⟩
      | none =>
        refine ⟨_, _, rfl, ⟨rfl, rfl, ?_⟩, rfl, rfl, fun _ => rfl⟩
        split
        · exact linkEvents_scanRspLog b _
        · rfl
    split
    · rename_i htype
      rw [htype]
      exact hconnectable
    · rename_i htype
      rw [htype]
      exact hconnectable
    · rename_i htype
      obtain ⟨txBuf, rxPduLen, h⟩ := listenForScanReq_eq hb.scanRspLen env.air
      rw [h, htype]
      refine ⟨_, _, rfl, ⟨rfl, rfl, ?_⟩, rfl, rfl, fun _ => rfl⟩
      split
      · exact linkEvents_scanRspLog b _
      · rfl
    · rename_i htype
      rw [htype]
      exact ⟨_, _, rfl, ⟨rfl, rfl, rfl⟩, rfl, rfl, fun _ => rfl⟩

/-- The channel search ends on one of the three channels. -/
theorem pickChannel_eq (map : UInt8) (guard i : Nat) (hi : i < 3) {channel : UInt8}
    (hc : channel.toNat < 40) :
    ∃ i' channel', pickChannel map guard i channel = .ok (i', channel') ∧ channel'.toNat < 40 := by
  induction guard generalizing i channel with
  | zero => exact ⟨i, channel, rfl, hc⟩
  | succ guard ih =>
    rw [pickChannel]
    split
    · exact ⟨i, channel, rfl, hc⟩
    · have hmod : (i + 1) % 3 < advChannels.length := Nat.mod_lt _ (by decide)
      have hch : ∀ k : Fin 3, (advChannels[k.1]).toNat < 40 := by decide
      rw [idx_of_lt hmod, ok_bind]
      exact ih _ hmod (hch ⟨(i + 1) % 3, hmod⟩)

/-- **A channel event**: a channel, the primary PDU, and what follows it. -/
theorem advEvent_eq {b : Ble} (hb : b.Bounds) (env : AdvEnv) :
    ∃ channel pdu log b', b.primaryPdu = .ok pdu ∧ pdu.payload.length ≤ 63 ∧
      b.advEvent env = ⟨.setChannel channel ::
        .transmit (pdu.bytes b.ownAddrType.isRandom false) :: log, .ok b'⟩ ∧ b'.Bounds ∧
      AdvEffect (serveOpens b.advParams env.air) env.connNow b log b' ∧
      (serveOpens b.advParams env.air = none → b'.advState = b.advState) := by
  have hidx : b.advChannelIdx < advChannels.length := hb.advChannelIdx
  have hch : ∀ k : Fin 3, (advChannels[k.1]).toNat < 40 := by decide
  obtain ⟨i, channel, hpick, hchannel⟩ := pickChannel_eq b.advParams.channelMap 3 b.advChannelIdx
    hb.advChannelIdx (hch ⟨b.advChannelIdx, hidx⟩)
  have hb₁ : Bounds { b with advChannelIdx := (i + 1) % 3 } :=
    { hb with advChannelIdx := Nat.mod_lt _ (by decide) }
  obtain ⟨pdu, txBuf, hpdu, hlen, hbuild, htake⟩ := buildPrimary_eq hb₁
  generalize hlen₂ : 2 + pdu.payload.length = len at hbuild htake
  have hb₂ : Bounds { b with advChannelIdx := (i + 1) % 3, txBuf := txBuf, txPduLen := len } :=
    { hb₁ with }
  obtain ⟨log, b₃, hserve, heff, haccum, hchan, hstate⟩ := advServe_effect hb₂ channel env
  obtain ⟨ticks, accum, hnext, hbounded⟩ := IntervalAccum.next_eq hb.advAccum b.advParams.intervalMin
  have hparams : b₃.advParams = b.advParams := by rw [heff.frame]
  refine ⟨channel, pdu, log, { b₃ with advAccum := accum, compare := env.now + UInt32.ofNat ticks },
    hpdu, hlen, ?_, ?_, ⟨?_, heff.link⟩, hstate⟩
  · unfold advEvent
    rw [idx_of_lt hidx, Logged.lift_ok_bind, hpick, Logged.lift_ok_bind]
    dsimp only
    rw [setChannel_of_lt hchannel, Logged.mk_ok_bind, hbuild, Logged.lift_ok_bind,
      transmit_eq _ (by dsimp only; omega), Logged.mk_ok_bind, hserve, Logged.mk_ok_bind, haccum, hparams,
      hnext, Logged.lift_ok_bind, htake]
    simp
  · rw [heff.frame]
    exact { hb with advChannelIdx := by rw [hchan]; exact hb₁.advChannelIdx, advAccum := hbounded }
  · rw [heff.frame]

/-- What a tick makes of the advertiser's state: a pending stop is carried out. -/
def advStopped : AdvState → AdvState
  | .stopPending => .idle
  | s => s

/-- **One `adv_tick`**, from any state within bounds: it returns, within bounds, with its effect; and
    without a connection the state is as it was, a pending stop apart. -/
theorem advTick_done {b : Ble} (hb : b.Bounds) (env : AdvEnv) :
    ∃ log b', b.advTick env = ⟨log, .ok b'⟩ ∧ b'.Bounds ∧
      AdvEffect (b.advOpens env) env.connNow b log b' ∧
      (b.advOpens env = none → b'.advState = advStopped b.advState) := by
  unfold advTick advOpens
  split
  · rename_i hstate
    rw [hstate]
    exact ⟨[], b, rfl, hb, ⟨rfl, rfl, rfl⟩, fun _ => hstate⟩
  · rename_i hstate
    rw [hstate]
    exact ⟨_, _, rfl, { hb with }, ⟨rfl, rfl, rfl⟩, fun _ => rfl⟩
  · rename_i hstate
    rw [hstate, if_pos rfl]
    obtain ⟨channel, pdu, log, b', _, _, hrun, hbounds, heff, hkept⟩ := advEvent_eq hb env
    refine ⟨_, b', hrun, hbounds, ⟨heff.frame, heff.link.congr rfl⟩, ?_⟩
    exact fun hnone => (hkept hnone).trans hstate

/-- The effect of an `adv_tick`. -/
theorem advTick_effect {b : Ble} (hb : b.Bounds) (env : AdvEnv) :
    ∃ log b', b.advTick env = ⟨log, .ok b'⟩ ∧ b'.Bounds ∧
      AdvEffect (b.advOpens env) env.connNow b log b' := by
  obtain ⟨log, b', hrun, hbounds, heff, _⟩ := advTick_done hb env
  exact ⟨log, b', hrun, hbounds, heff⟩

end Ble

end NrfBle
