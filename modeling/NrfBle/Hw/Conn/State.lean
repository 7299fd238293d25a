/-
  The connection state (`src/hw/conn.rs`): constants, the credit-based channel, the bond store,
  the `Conn` record with its constructor, and the vocabulary of what a connection DOES.

  Machine integers are `UIntN`; a `usize` is a `Nat` (every subtraction on one is checked); a
  fixed array is a `Buf n`.  Fields that no function reads or writes (the CoC transmit SDU) are
  left out.

  `Act` is ghost: the functions below hand back, besides their answer, the list of actions they
  took — a PDU handed to the radio, a handler entered — each with the connection state at that
  moment.  Nothing in the code reads it; the properties of whole runs are stated on it.
-/
import Mathlib.Tactic
import NrfBle.Hw.Radio
import NrfBle.Hw.Smp

namespace NrfBle

open Checked

/-! ## Constants -/

@[match_pattern] abbrev llControlConnectionUpdateReq : UInt8 := 0x00
@[match_pattern] abbrev llControlTerminateInd : UInt8 := 0x02
@[match_pattern] abbrev llControlEncryptReq : UInt8 := 0x03
@[match_pattern] abbrev llControlEncryptRsp : UInt8 := 0x04
@[match_pattern] abbrev llControlStartEncReq : UInt8 := 0x05
@[match_pattern] abbrev llControlStartEncRsp : UInt8 := 0x06
@[match_pattern] abbrev llControlUnknownRsp : UInt8 := 0x07
@[match_pattern] abbrev llControlFeatureReq : UInt8 := 0x08
@[match_pattern] abbrev llControlFeatureRsp : UInt8 := 0x09
@[match_pattern] abbrev llControlVersionInd : UInt8 := 0x0C
@[match_pattern] abbrev llControlPingReq : UInt8 := 0x12
@[match_pattern] abbrev llControlPingRsp : UInt8 := 0x13
@[match_pattern] abbrev llControlLengthReq : UInt8 := 0x14
@[match_pattern] abbrev llControlLengthRsp : UInt8 := 0x15
@[match_pattern] abbrev llControlPhyReq : UInt8 := 0x16
@[match_pattern] abbrev llControlPhyRsp : UInt8 := 0x17

abbrev l2capAttCid : UInt16 := 0x0004
abbrev l2capSignalingCid : UInt16 := 0x0005
abbrev l2capSmpCidLocal : UInt16 := 0x0006

@[match_pattern] abbrev leCreditBasedConnectionReq : UInt8 := 0x14
@[match_pattern] abbrev leCreditBasedConnectionRsp : UInt8 := 0x15
@[match_pattern] abbrev leFlowControlCredit : UInt8 := 0x16
@[match_pattern] abbrev leCreditBasedConnectionEnd : UInt8 := 0x17

abbrev cocLocalCid : UInt16 := 0x0040
abbrev cocCredits : UInt16 := 8
abbrev cocMtu : UInt16 := 247
abbrev cocMps : UInt16 := 251

abbrev attMtuDefault : Nat := 23
/-- `ATT_PAYLOAD_MAX = ATT_MTU_MAX - 3`, where `ATT_MTU_MAX` is 247. -/
abbrev attPayloadMax : Nat := 244
/-- `L2CAP_PAYLOAD_MAX = ATT_MTU_MAX + 4`: the size of the transmit slot. -/
abbrev l2capPayloadMax : Nat := 251
abbrev llPduPayloadDefault : Nat := 27
abbrev llPduPayloadMax : Nat := 251

/-! ## Roles, outcomes, bonds, channels -/

/-- `ConnRole`. -/
inductive ConnRole
  | master
  | slave
  deriving DecidableEq, Repr

/-- `DisconnectReason`. -/
inductive DisconnectReason
  | remoteTerminate
  | hostTerminate
  | supervisionTimeout
  | localError
  deriving DecidableEq, Repr

/-- `ConnEvent`: the outcome of one connection event. -/
inductive ConnEvent
  | idle
  | data
  | control (op : UInt8)
  | l2cap (cid : UInt16)
  | disconnected (reason : DisconnectReason)
  deriving DecidableEq, Repr

/-- `BondInfo`. -/
structure BondInfo where
  addr : Buf 6
  ltk : Buf 16
  irk : Option (Buf 16)
  deriving DecidableEq

/-- `RamBondStore`: eight slots. -/
structure RamBondStore where
  bonds : List (Option BondInfo)
  size : bonds.length = 8

/-- `RamBondStore::new`. -/
def RamBondStore.new : RamBondStore := ⟨List.replicate 8 none, rfl⟩

/-- `RamBondStore::save`: replace the first slot of that peer, else take the first empty one. -/
def RamBondStore.save (st : RamBondStore) (peer : Buf 6) (ltk : Buf 16) (irk : Option (Buf 16)) :
    RamBondStore :=
  let info : BondInfo := ⟨peer, ltk, irk⟩
  match st.bonds.findIdx? (fun slot => slot.any (fun b => b.addr = peer)) with
  | some i => ⟨st.bonds.set i (some info), by rw [List.length_set]; exact st.size⟩
  | none =>
    match st.bonds.findIdx? (fun slot => slot.isNone) with
    | some i => ⟨st.bonds.set i (some info), by rw [List.length_set]; exact st.size⟩
    | none => st

/-- `RamBondStore::find`. -/
def RamBondStore.find (st : RamBondStore) (peer : Buf 6) : Option BondInfo :=
  st.bonds.reduceOption.find? (fun b => b.addr = peer)

/-- `Coc`: a credit-based channel. -/
structure Coc where
  psm : UInt16
  localCid : UInt16
  peerCid : UInt16
  credits : UInt16
  peerCredits : UInt16
  mtu : UInt16
  mps : UInt16
  rxSdu : Buf 256
  rxSduLen : Nat
  rxSduTotal : Nat

/-- `Coc::new`. -/
def Coc.new (psm : UInt16) : Coc :=
  ⟨psm, cocLocalCid, 0, 0, 0, cocMtu, cocMps, Buf.zero 256, 0, 0⟩

/-! ## The connection -/

/-- `Conn`. -/
structure Conn where
  role : ConnRole
  accessAddr : UInt32
  crcInit : UInt32
  interval : UInt16
  timeout : UInt16
  channelMap : Buf 5
  hop : UInt8
  channel : UInt8
  sn : Bool
  nesn : Bool
  anchor : UInt32
  accum : IntervalAccum
  rxL2cap : Buf 256
  rxL2capLen : Nat
  rxL2capMsgLen : Nat
  rxL2capCid : UInt16
  txAtt : Buf 251
  txAttLen : Nat
  txFragOffset : Nat
  txPending : Bool
  txCid : UInt16
  attMtu : UInt16
  txPduMax : Nat
  rxPduMax : Nat
  coc : Option Coc
  bondStore : RamBondStore
  peerAddr : Buf 6
  peerVersionOk : Bool
  lastRx : UInt32
  terminatePending : Bool
  nusCccd : UInt8
  rxData : Buf 244
  rxDataLen : Nat
  txBuf : Buf 64
  rxBuf : Buf 64
  eventCounter : UInt16
  pendingUpdate : Option (UInt16 × UInt16)
  pendingUpdateInstant : UInt16
  pendingRequest : Bool
  smp : Smp
  encrypted : Bool
  packetCounter : UInt64
  ccm : Ccm
  wantEncrypt : Bool
  pairingInProgress : Bool
  pendingControl : Option (Buf 19)
  gattResult : Buf 64
  gattResultLen : Nat

/-- `Conn::new`. -/
def Conn.new (params : ConnectReqData) (firstChannel : UInt8) (now : UInt32) (role : ConnRole) :
    Conn where
  role := role
  accessAddr := params.accessAddr
  crcInit := params.crcInit
  interval := params.interval
  timeout := params.timeout
  channelMap := params.channelMap
  hop := params.hop
  channel := firstChannel
  sn := false
  nesn := false
  anchor :=
    match role with
    | .master => now + UInt32.ofNat (timeoutTicks 200)
    | .slave => now
  accum := IntervalAccum.new125ms
  rxL2cap := Buf.zero 256
  rxL2capLen := 0
  rxL2capMsgLen := 0
  rxL2capCid := l2capAttCid
  txAtt := Buf.zero 251
  txAttLen := 0
  txFragOffset := 0
  txPending := false
  txCid := l2capAttCid
  attMtu := UInt16.ofNat attMtuDefault
  txPduMax := llPduPayloadDefault
  rxPduMax := llPduPayloadDefault
  coc := none
  bondStore := RamBondStore.new
  peerAddr := Buf.zero 6
  peerVersionOk := false
  lastRx := now
  terminatePending := false
  nusCccd := 0
  rxData := Buf.zero 244
  rxDataLen := 0
  txBuf := Buf.zero 64
  rxBuf := Buf.zero 64
  eventCounter := 0
  pendingUpdate := none
  pendingUpdateInstant := 0
  pendingRequest := false
  smp := Smp.new
  encrypted := false
  packetCounter := 0
  ccm := Ccm.new
  wantEncrypt := false
  pairingInProgress := false
  pendingControl := none
  gattResult := Buf.zero 64
  gattResultLen := 0

/-! ## The parts of a connection -/

/-- The link layer's part: every field no L2CAP handler writes. -/
structure Link where
  role : ConnRole
  accessAddr : UInt32
  crcInit : UInt32
  interval : UInt16
  timeout : UInt16
  channelMap : Buf 5
  hop : UInt8
  channel : UInt8
  sn : Bool
  nesn : Bool
  anchor : UInt32
  accum : IntervalAccum
  txPduMax : Nat
  rxPduMax : Nat
  bondStore : RamBondStore
  peerAddr : Buf 6
  peerVersionOk : Bool
  lastRx : UInt32
  terminatePending : Bool
  txBuf : Buf 64
  rxBuf : Buf 64
  eventCounter : UInt16
  pendingUpdate : Option (UInt16 × UInt16)
  pendingUpdateInstant : UInt16
  encrypted : Bool
  packetCounter : UInt64
  ccm : Ccm

/-- The security part: what, above the link layer, only pairing writes. -/
structure Keys where
  smp : Smp
  pairingInProgress : Bool
  pendingControl : Option (Buf 19)
  wantEncrypt : Bool

/-- The link layer's part of a connection. -/
def Conn.link (c : Conn) : Link :=
  ⟨c.role, c.accessAddr, c.crcInit, c.interval, c.timeout, c.channelMap, c.hop, c.channel, c.sn,
    c.nesn, c.anchor, c.accum, c.txPduMax, c.rxPduMax, c.bondStore, c.peerAddr, c.peerVersionOk,
    c.lastRx, c.terminatePending, c.txBuf, c.rxBuf, c.eventCounter, c.pendingUpdate,
    c.pendingUpdateInstant, c.encrypted, c.packetCounter, c.ccm⟩

/-- The security part of a connection. -/
def Conn.keys (c : Conn) : Keys := ⟨c.smp, c.pairingInProgress, c.pendingControl, c.wantEncrypt⟩

/-! ## What a connection does -/

/-- Which of the transmit sites a PDU came from. -/
inductive TxKind
  | fragment
  | empty
  | pendingControl
  | control
  | terminate
  deriving DecidableEq, Repr

/-- One PDU handed to the radio, or stopped by the cipher on its way there. -/
structure TxRec where
  kind : TxKind
  /-- `encrypted` at that moment. -/
  encrypted : Bool
  /-- The PDU as built in `tx_buf`. -/
  plain : List UInt8
  /-- Packet counter and direction, when the CCM step processed the PDU. -/
  nonce : Option (UInt64 × UInt8)
  /-- What went on the air; `none` when the CCM step reported an error. -/
  air : Option (List UInt8)
  deriving DecidableEq, Repr

/-- The sequence number in the header of the PDU. -/
def TxRec.sn (t : TxRec) : Bool := (t.plain.getD 0 0 &&& 0b1000) != 0

/-- An action of a connection, with the state it was taken in. -/
inductive Act
  /-- A connection event began. -/
  | tick (c : Conn)
  /-- A received packet passed the radio, the cipher and the decoder; `tag` names the packet. -/
  | accept (c : Conn) (tag : Nat) (pdu : DataPdu)
  /-- `handle_ll_control` was entered. -/
  | ctrl (c : Conn) (payload : List UInt8)
  /-- `handle_l2cap` was entered, for the packet `tag` if from a connection event. -/
  | l2cap (c : Conn) (tag : Option Nat) (llid : UInt8) (payload : List UInt8)
  /-- An `LL_TERMINATE_IND` was due. -/
  | terminate (c : Conn)
  /-- The session key was taken from a stored bond. -/
  | bondKey
  /-- A PDU was handed to the radio. -/
  | tx (t : TxRec)

end NrfBle
