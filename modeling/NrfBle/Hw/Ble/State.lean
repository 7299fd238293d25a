/-
  The host-side stack (`src/hw/ble.rs`): parameters, the `Ble` record with its constructor, and the
  small operations everything else is made of — pushing an event, encoding into the transmit buffer,
  transmitting, listening.

  1. **The record** — every field of `Ble` but the peripheral handles.  Of TIMER0 the armed compare
     value is kept (`compare`, the CC0 register); the counter itself is the environment's, and each
     `now()` is a reading handed in.

  2. **The air** — a listening window is handed in as its outcome, `Air`: how the loop ended, and the
     255 + 2 bytes of the receive buffer when it was over.  That such a loop ends at all is the matter
     of `NrfBle.Hw.Timer`.

  3. **The log** — what the stack does to the outside (channel changes, transmissions) and which
     events it pushes, as `BleAct`.  Pushes are logged because the queue itself drops old events.
-/
import Mathlib.Tactic
import NrfBle.Lib.Logged
import NrfBle.Ll.Advertising
import NrfBle.Ll.Addr
import NrfBle.Hw.Timer
import NrfBle.Hw.Conn.Run

namespace NrfBle

open Checked

/-! ## Parameters -/

/-- `AdvType`. -/
inductive AdvType
  | connectableUndirected
  | connectableDirected
  | scannableUndirected
  | nonConnectableUndirected
  deriving DecidableEq, Repr

/-- `FilterPolicy`. -/
inductive FilterPolicy
  | acceptAll
  | acceptList
  deriving DecidableEq, Repr

/-- `AdvParams`. -/
structure AdvParams where
  intervalMin : UInt16 := 160
  intervalMax : UInt16 := 160
  advType : AdvType := .connectableUndirected
  ownAddrType : AddrType := .«public»
  peerAddr : Option (Buf 6) := none
  channelMap : UInt8 := 0b111
  extended : Bool := false
  periodic : Bool := false
  periodicInterval : UInt16 := 100
  deriving DecidableEq

/-- `ScanParams`. -/
structure ScanParams where
  active : Bool := false
  interval : UInt16 := 80
  window : UInt16 := 40
  ownAddrType : AddrType := .«public»
  filterPolicy : FilterPolicy := .acceptAll
  deriving DecidableEq

/-- `AdvState`. -/
inductive AdvState
  | idle
  | running
  | stopPending
  deriving DecidableEq, Repr

/-- `ScanState`. -/
inductive ScanState
  | idle
  | running
  | stopPending
  deriving DecidableEq, Repr

/-- `LEGACY_AD_DATA_MAX_LEN`. -/
abbrev legacyAdDataMaxLen : Nat := 31
/-- `RX_PDU_MAX`. -/
abbrev rxPduMax : Nat := 257

/-- `ADV_CHANNELS`. -/
def advChannels : List UInt8 := [37, 38, 39]

/-! ## The record -/

/-- `Ble`. -/
structure Ble where
  /-- The CC0 register of TIMER0. -/
  compare : UInt32
  advAccum : IntervalAccum
  scanAccum : IntervalAccum
  advState : AdvState
  scanState : ScanState
  advParams : AdvParams
  scanParams : ScanParams
  advData : Buf legacyAdDataMaxLen
  advDataLen : Nat
  scanRsp : Buf legacyAdDataMaxLen
  scanRspLen : Nat
  ownAddr : Buf 6
  ownAddrType : AddrType
  advChannelIdx : Nat
  scanChannelIdx : Nat
  scanCycleStart : UInt32
  conn : Option Conn
  connectTarget : Option (Buf 6)
  connectTargetType : AddrType
  lastRadioChannel : Option UInt8
  acceptList : AcceptList
  irk : Option (Buf 16)
  periodicSync : Option PeriodicSync
  txBuf : Buf rxPduMax
  txPduLen : Nat
  rxBuf : Buf rxPduMax
  rxPduLen : Nat
  events : Ble.Events

/-- What the stack does, and the events it pushes. -/
inductive BleAct
  | setChannel (channel : UInt8)
  | transmit (pdu : List UInt8)
  | push (evt : BleEvent)
  /-- An action of the open connection. -/
  | conn (act : Act)

/-- The beginning or the end of a connection, as the application sees it. -/
inductive LinkEvent
  | connected
  | disconnected
  deriving DecidableEq, Repr

/-- The `Connected` and `Disconnected` events among the actions. -/
def BleAct.linkEvent : BleAct → Option LinkEvent
  | .push (.connected _) => some .connected
  | .push (.disconnected _) => some .disconnected
  | _ => none

/-- The action transmits a `CONNECT_REQ`. -/
def BleAct.isConnectReq : BleAct → Bool
  | .transmit pdu => pdu.getD 0 0 &&& 0x0F = pduConnectReq
  | _ => false

/-- Transmitting the bytes of a PDU. -/
theorem BleAct.isConnectReq_bytes (pdu : AdvPdu) (txAdd rxAdd : Bool) :
    (BleAct.transmit (pdu.bytes txAdd rxAdd)).isConnectReq = decide (pdu.pduType = pduConnectReq) := by
  show decide ((pdu.bytes txAdd rxAdd).getD 0 0 &&& 0x0F = pduConnectReq) = _
  rw [AdvPdu.bytes_type]

/-- The `Connected` and `Disconnected` events of a log, in order. -/
def linkEvents (log : List BleAct) : List LinkEvent := log.filterMap BleAct.linkEvent

@[simp] theorem linkEvents_setChannel (channel : UInt8) (log : List BleAct) :
    linkEvents (.setChannel channel :: log) = linkEvents log := rfl

@[simp] theorem linkEvents_transmit (pdu : List UInt8) (log : List BleAct) :
    linkEvents (.transmit pdu :: log) = linkEvents log := rfl

@[simp] theorem linkEvents_append (xs ys : List BleAct) :
    linkEvents (xs ++ ys) = linkEvents xs ++ linkEvents ys := List.filterMap_append

/-- The actions of a connection are none of its host's events. -/
@[simp] theorem linkEvents_conn (acts : List Act) : linkEvents (acts.map BleAct.conn) = [] := by
  rw [linkEvents, List.filterMap_map]
  exact List.filterMap_eq_nil_iff.mpr (fun _ _ => rfl)

/-! ## The air -/

/-- How a listening loop ended. -/
inductive AirEnd
  | timeout
  | crcError
  | packet
  deriving DecidableEq, Repr

/-- A listening window: how it ended, the receive buffer then, and the signal strength. -/
structure Air where
  rx : AirEnd
  buf : Buf rxPduMax
  rssi : Int8

theorem pdu_fits (pdu : AdvPdu) : 0 + ((pdu.bytes false false).take rxPduMax).length ≤ rxPduMax := by
  rw [List.length_take, Nat.zero_add]
  exact Nat.min_le_left _ _

/-- A window in which this PDU is received. -/
def Air.of (pdu : AdvPdu) : Air :=
  ⟨.packet, (Buf.zero rxPduMax).splice 0 ((pdu.bytes false false).take rxPduMax) (pdu_fits pdu), 0⟩

/-- The address of some other device. -/
def otherAddr : Buf 6 := ⟨[1, 2, 3, 4, 5, 6], rfl⟩

/-- A window in which nothing is received. -/
def Air.silent : Air := ⟨.timeout, Buf.zero rxPduMax, 0⟩

/-- The length the radio reads off the buffer. -/
def Air.len (air : Air) : Nat := 2 + ((air.buf.bytes.getD 1 0 >>> 1) &&& 0x3F).toNat

/-- The packet a window brought, if any. -/
def Air.received (air : Air) : Option (List UInt8) :=
  match air.rx with
  | .packet => some (air.buf.bytes.take air.len)
  | _ => none

/-- The PDU a window brought, if it is a well-formed one. -/
def Air.pdu (air : Air) : Option AdvPdu :=
  match air.received with
  | none => none
  | some bytes =>
    match AdvPdu.decode bytes with
    | .ok (.ok pdu) => some pdu
    | _ => none

/-- The `CONNECT_REQ` a window brought: initiator, advertiser and parameters. -/
def Air.connectReq (air : Air) : Option (Buf 6 × Buf 6 × ConnectReqData) :=
  match air.pdu with
  | some (.connectReq initAddr advAddr llData) =>
    match ConnectReqData.decode llData with
    | .ok (.ok params) => some (initAddr, advAddr, params)
    | _ => none
  | _ => none

/-- The `SCAN_REQ` a window brought: scanner and advertiser. -/
def Air.scanReq (air : Air) : Option (Buf 6 × Buf 6) :=
  match air.pdu with
  | some (.scanReq scanAddr advAddr) => some (scanAddr, advAddr)
  | _ => none

/-- The type nibble of a packet. -/
def Air.type (air : Air) : UInt8 := air.buf.bytes.getD 0 0 &&& 0x0F

/-- A PDU is only there when a packet was received, and has the type in the packet's header. -/
theorem Air.pdu_type {air : Air} {pdu : AdvPdu} (h : air.pdu = some pdu) :
    air.received.isSome ∧ air.type = pdu.pduType ∧
      ∀ a b llData, pdu = .connectReq a b llData → llData.length = connectLlDataLen := by
  unfold Air.pdu at h
  split at h
  · cases h
  · rename_i bytes hrx
    split at h
    · rename_i pdu' hdec
      cases h
      obtain ⟨h2, htype, hll⟩ := AdvPdu.decode_ok hdec
      refine ⟨by rw [hrx]; rfl, ?_, hll⟩
      unfold Air.received at hrx
      split at hrx
      · cases hrx
        rw [← htype, Air.type]
        congr 1
        cases hb : air.buf.bytes with
        | nil => rw [hb] at h2; simp at h2
        | cons b0 rest =>
          rw [Air.len, Nat.add_comm, List.take_succ_cons]
          rfl
      · cases hrx
    · cases h

theorem Air.connectReq_of_ne {air : Air}
    (h : ∀ a b llData, air.pdu ≠ some (.connectReq a b llData)) : air.connectReq = none := by
  unfold Air.connectReq
  split
  · rename_i hpdu; exact absurd hpdu (h _ _ _)
  · rfl

theorem Air.scanReq_of_ne {air : Air} (h : ∀ a b, air.pdu ≠ some (.scanReq a b)) :
    air.scanReq = none := by
  unfold Air.scanReq
  split
  · rename_i hpdu; exact absurd hpdu (h _ _)
  · rfl

/-- A packet is no `SCAN_REQ` and `CONNECT_REQ` at once. -/
theorem Air.scanReq_of_connectReq {air : Air} {req : Buf 6 × Buf 6 × ConnectReqData}
    (h : air.connectReq = some req) : air.scanReq = none := by
  unfold Air.connectReq at h
  split at h
  · rename_i hpdu
    unfold Air.scanReq
    rw [hpdu]
  · cases h

/-- A well-formed `CONNECT_REQ` always has parameters. -/
theorem Air.connectReq_eq {air : Air} {initAddr advAddr : Buf 6} {llData : List UInt8}
    (h : air.pdu = some (.connectReq initAddr advAddr llData)) :
    ∃ params, ConnectReqData.decode llData = .ok (.ok params) ∧
      air.connectReq = some (initAddr, advAddr, params) := by
  obtain ⟨_, _, hll⟩ := air.pdu_type h
  obtain ⟨params, hp⟩ := ConnectReqData.decode_of_length (hll _ _ _ rfl)
  refine ⟨params, hp, ?_⟩
  unfold Air.connectReq
  rw [h]
  dsimp only
  rw [hp]

theorem Air.len_le (air : Air) : air.len ≤ 65 := by
  have hmask : ∀ x : UInt8, (x &&& 0x3F).toNat ≤ 63 := by
    rintro ⟨x⟩
    revert x
    decide +kernel
  have := hmask (air.buf.bytes.getD 1 0 >>> 1)
  unfold Air.len
  omega

theorem Air.pduLen_eq (air : Air) : Radio.pduLen air.buf.bytes = .ok air.len := by
  have hlt : 1 < air.buf.bytes.length := by rw [air.buf.size]; decide
  unfold Radio.pduLen
  rw [idx_of_lt hlt, ok_bind, Air.len, List.getD_eq_getElem?_getD, List.getElem?_eq_getElem hlt]
  rfl

namespace Ble

/-! ## Small operations -/

/-- `Ble::new`. -/
def new : Ble where
  compare := 0
  advAccum := IntervalAccum.new
  scanAccum := IntervalAccum.new
  advState := .idle
  scanState := .idle
  advParams := {}
  scanParams := {}
  advData := Buf.zero _
  advDataLen := 0
  scanRsp := Buf.zero _
  scanRspLen := 0
  ownAddr := Buf.zero 6
  ownAddrType := .«public»
  advChannelIdx := 0
  scanChannelIdx := 0
  scanCycleStart := 0
  conn := none
  connectTarget := none
  connectTargetType := .«public»
  lastRadioChannel := none
  acceptList := AcceptList.new
  irk := none
  periodicSync := none
  txBuf := Buf.zero _
  txPduLen := 0
  rxBuf := Buf.zero _
  rxPduLen := 0
  events := Events.new

/-- `push_event`, logged. -/
def push (b : Ble) (evt : BleEvent) : Logged BleAct Ble := do
  Logged.emit (.push evt)
  return { b with events := pushEvent b.events evt }

/-- `Radio::set_channel`. -/
def setChannel (channel : UInt8) : Logged BleAct (Except Error Unit) :=
  match channelFrequency channel with
  | .error e => return .error e
  | .ok _ => do
    Logged.emit (.setChannel channel)
    return .ok ()

/-- `pdu.encode_typed(&mut self.tx_buf, ..)`. -/
def encodeTx (b : Ble) (pdu : AdvPdu) (txAdd rxAdd : Bool) :
    Except Panic (Except Error Nat × Ble) := do
  let (answer, txBuf) ← pdu.encodeInto b.txBuf txAdd rxAdd
  return (answer, { b with txBuf := txBuf })

/-- `pdu.encode_typed(&mut self.tx_buf, ..).unwrap()`. -/
def encodeUnwrap (b : Ble) (pdu : AdvPdu) (txAdd rxAdd : Bool) : Except Panic (Nat × Ble) := do
  let (answer, b) ← b.encodeTx pdu txAdd rxAdd
  match answer with
  | .ok len => return (len, b)
  | .error _ => .error .unwrap

/-- `self.radio.transmit(&self.tx_buf[..len])`. -/
def transmit (b : Ble) (len : Nat) : Logged BleAct Unit := do
  let pdu ← Logged.lift (b.txBuf.upto len)
  Logged.emit (.transmit pdu)

/-- Listen: the length of the packet that came, if one did. -/
def receive (b : Ble) (air : Air) : Except Panic (Option Nat × Ble) := do
  let b := { b with rxBuf := air.buf }
  match air.rx with
  | .packet =>
    let len ← Radio.pduLen b.rxBuf.bytes
    return (some len, b)
  | _ => return (none, b)

/-- `AdvPdu::decode(&self.rx_buf[..len])`, with every error as `none`. -/
def decodeRx (b : Ble) (len : Nat) : Except Panic (Option AdvPdu) := do
  let bytes ← b.rxBuf.upto len
  match ← AdvPdu.decode bytes with
  | .ok pdu => return some pdu
  | .error _ => return none

/-- Listen, and decode what came: its length and the PDU. -/
def receivePdu (b : Ble) (air : Air) : Except Panic (Option (Nat × AdvPdu) × Ble) := do
  let (got, b) ← b.receive air
  match got with
  | none => return (none, b)
  | some len =>
    match ← b.decodeRx len with
    | some pdu => return (some (len, pdu), b)
    | none => return (none, b)

/-! ## What they do -/

/-- Writing back the connection as it is. -/
theorem conn_self {b : Ble} {c : Conn} (h : b.conn = some c) : { b with conn := some c } = b := by
  cases b
  cases h
  rfl

theorem setChannel_of_lt {channel : UInt8} (h : channel.toNat < 40) :
    setChannel channel = ⟨[.setChannel channel], .ok (.ok ())⟩ := by
  have : ∃ f, channelFrequency channel = .ok f := by
    unfold channelFrequency
    by_cases h36 : channel.toNat ≤ 36
    · exact ⟨_, if_pos h36⟩
    · rw [if_neg h36]
      have hcases : channel.toNat = 37 ∨ channel.toNat = 38 ∨ channel.toNat = 39 := by omega
      rcases hcases with hc | hc | hc
      · exact ⟨2402, if_pos (UInt8.toNat.inj hc)⟩
      · obtain rfl : channel = 38 := UInt8.toNat.inj hc
        exact ⟨2426, rfl⟩
      · obtain rfl : channel = 39 := UInt8.toNat.inj hc
        exact ⟨2480, rfl⟩
  obtain ⟨f, hf⟩ := this
  unfold setChannel
  rw [hf]
  rfl

/-- Encoding a PDU that fits: the buffer starts with it. -/
theorem encodeTx_eq (b : Ble) {pdu : AdvPdu} (hsized : pdu.Sized) (hlen : pdu.payload.length ≤ 63)
    (txAdd rxAdd : Bool) :
    ∃ txBuf : Buf rxPduMax, b.encodeTx pdu txAdd rxAdd =
        .ok (.ok (2 + pdu.payload.length), { b with txBuf := txBuf }) ∧
      txBuf.bytes.take (2 + pdu.payload.length) = pdu.bytes txAdd rxAdd := by
  obtain ⟨txBuf, henc, htake⟩ := AdvPdu.encodeInto_eq hsized b.txBuf txAdd rxAdd hlen
    (show 2 + pdu.payload.length ≤ 257 by omega)
  refine ⟨txBuf, ?_, htake⟩
  unfold encodeTx
  rw [henc]
  rfl

theorem encodeUnwrap_eq (b : Ble) {pdu : AdvPdu} (hsized : pdu.Sized)
    (hlen : pdu.payload.length ≤ 63) (txAdd rxAdd : Bool) :
    ∃ txBuf : Buf rxPduMax, b.encodeUnwrap pdu txAdd rxAdd =
        .ok (2 + pdu.payload.length, { b with txBuf := txBuf }) ∧
      txBuf.bytes.take (2 + pdu.payload.length) = pdu.bytes txAdd rxAdd := by
  obtain ⟨txBuf, henc, htake⟩ := b.encodeTx_eq hsized hlen txAdd rxAdd
  refine ⟨txBuf, ?_, htake⟩
  unfold encodeUnwrap
  rw [henc]
  rfl

theorem transmit_eq (b : Ble) {len : Nat} (h : len ≤ 257) :
    b.transmit len = ⟨[.transmit (b.txBuf.bytes.take len)], .ok ()⟩ := by
  unfold transmit
  rw [b.txBuf.upto_of_le h]
  rfl

theorem receive_eq (b : Ble) (air : Air) :
    b.receive air = .ok (air.received.map (fun _ => air.len), { b with rxBuf := air.buf }) := by
  unfold receive Air.received
  cases air.rx with
  | packet => dsimp only; rw [air.pduLen_eq]; rfl
  | timeout => rfl
  | crcError => rfl

/-- Decoding what a window brought. -/
theorem decodeRx_eq {b : Ble} (air : Air) {bytes : List UInt8} (hbuf : b.rxBuf = air.buf)
    (hrx : air.received = some bytes) : b.decodeRx air.len = .ok air.pdu := by
  have hlen := air.len_le
  have hbytes : air.buf.bytes.take air.len = bytes := by
    unfold Air.received at hrx
    split at hrx
    · exact Option.some.inj hrx
    · cases hrx
  obtain ⟨r, hr⟩ := AdvPdu.returns_decode bytes
  unfold decodeRx Air.pdu
  rw [hbuf, air.buf.upto_of_le (show air.len ≤ 257 by omega), ok_bind, hbytes, hrx]
  dsimp only
  rw [hr]
  cases r <;> rfl

theorem receivePdu_eq (b : Ble) (air : Air) :
    b.receivePdu air =
      .ok (air.pdu.map (fun pdu => (air.len, pdu)), { b with rxBuf := air.buf }) := by
  unfold receivePdu
  rw [b.receive_eq, ok_bind]
  cases hrx : air.received with
  | none =>
    have hpdu : air.pdu = none := by unfold Air.pdu; rw [hrx]
    rw [hpdu]
    rfl
  | some bytes =>
    dsimp only [Option.map]
    rw [decodeRx_eq air rfl hrx, ok_bind]
    cases air.pdu <;> rfl

/-! ## Effects -/

/-- Nothing of the connection's beginning or end, and no `CONNECT_REQ`. -/
def Quiet (log : List BleAct) : Prop := ∀ a ∈ log, a.linkEvent = none ∧ a.isConnectReq = false

theorem Quiet.nil : Quiet [] := fun a ha => by cases ha

theorem Quiet.append {xs ys : List BleAct} (hx : Quiet xs) (hy : Quiet ys) : Quiet (xs ++ ys) :=
  fun a ha => (List.mem_append.mp ha).elim (hx a) (hy a)

theorem Quiet.cons {a : BleAct} {log : List BleAct} (ha : a.linkEvent = none ∧ a.isConnectReq = false)
    (h : Quiet log) : Quiet (a :: log) :=
  List.forall_mem_cons.mpr ⟨ha, h⟩

theorem Quiet.linkEvents {log : List BleAct} (h : Quiet log) : linkEvents log = [] :=
  List.filterMap_eq_nil_iff.mpr (fun a ha => (h a ha).1)

/-- The connection and the link events after a step that opens a connection in one case only. -/
def Opened {α : Type} (opens : Option α) (new : α → Conn → Prop) (conn conn' : Option Conn)
    (log : List BleAct) : Prop :=
  match opens with
  | some a => (∃ c, conn' = some c ∧ new a c) ∧ linkEvents log = [.connected]
  | none => conn' = conn ∧ linkEvents log = []

theorem Opened.congr {α : Type} {opens : Option α} {new : α → Conn → Prop}
    {conn conn' : Option Conn} {log log' : List BleAct} (h : Opened opens new conn conn' log)
    (hlog : linkEvents log' = linkEvents log) : Opened opens new conn conn' log' := by
  unfold Opened at h ⊢
  rw [hlog]
  exact h

/-! ## The bounds -/

/-- The fraction of a periodic sync is one. -/
def SyncBounded (sync : Option PeriodicSync) : Prop := ∀ s, sync = some s → s.frac < 32

/-- The bounds the stack's indexing and arithmetic rely on, kept by every operation. -/
structure Bounds (b : Ble) : Prop where
  advDataLen : b.advDataLen ≤ legacyAdDataMaxLen
  scanRspLen : b.scanRspLen ≤ legacyAdDataMaxLen
  directed : b.advParams.advType = .connectableDirected → b.advParams.peerAddr.isSome
  advChannelIdx : b.advChannelIdx < 3
  scanChannelIdx : b.scanChannelIdx ≤ 3
  advAccum : b.advAccum.Bounded
  scanAccum : b.scanAccum.Bounded
  sync : SyncBounded b.periodicSync

theorem bounds_new : new.Bounds where
  advDataLen := by decide
  scanRspLen := by decide
  directed := by intro h; cases h
  advChannelIdx := by decide
  scanChannelIdx := by decide
  advAccum := IntervalAccum.bounded_new
  scanAccum := IntervalAccum.bounded_new
  sync := by intro sync h; cases h

end Ble

end NrfBle
