/-
  The Link Layer PDU codecs (`src/ll/pdu.rs`): the advertising header and the eleven advertising
  PDU variants with their typed encoder, and the data channel PDU with both directions.

  Slices are `List UInt8`, fixed arrays are `Buf n`.  An encoder gets its output buffer and gives
  back the answer TOGETHER WITH the buffer as it leaves it; indexing and copying go through the
  checked primitives, so a PDU whose slices do not have the lengths the encoder relies on (an
  `ll_data` that is not 22 bytes, an empty `ehs`) panics here where the source panics.

  The one fact later modules need from the advertising side is `encodeTyped_length_byte`: whatever
  the variant, byte 1 of a successful encoding carries the payload length in bits 1..6.
-/
import Mathlib.Tactic
import NrfBle.Lib.Checked

namespace NrfBle

open Checked

/-- `Error` (`src/error.rs`). -/
inductive Error
  | bufferTooSmall
  | invalidPdu
  | invalidLength
  | invalidChannel
  | invalidAddress
  | invalidParam
  | alreadyRunning
  | notRunning
  | crcMismatch
  | invalidAd
  deriving DecidableEq, Repr

/-! ## PDU types and LLIDs -/

abbrev pduAdvInd : UInt8 := 0b0000
abbrev pduAdvDirectInd : UInt8 := 0b0001
abbrev pduAdvNonconnInd : UInt8 := 0b0010
abbrev pduScanReq : UInt8 := 0b0011
abbrev pduScanRsp : UInt8 := 0b0100
abbrev pduConnectReq : UInt8 := 0b0101
abbrev pduAdvScanInd : UInt8 := 0b0110
abbrev pduAdvExtInd : UInt8 := 0b0111

/-- LL data PDU, start of a new L2CAP PDU. -/
abbrev llidDataStart : UInt8 := 0b01
/-- LL data PDU, continuation (the source's name adds "or complete"). -/
abbrev llidDataContinuationOrComplete : UInt8 := 0b00
/-- LL data PDU, complete L2CAP PDU. -/
abbrev llidDataComplete : UInt8 := 0b11
/-- LL control PDU. -/
abbrev llidControl : UInt8 := 0b10

/-- `(b as u8) << k`. -/
def bit (b : Bool) (k : UInt8) : UInt8 := b.toUInt8 <<< k

/-! ## Advertising PDUs -/

/-- The two-byte advertising header. -/
structure AdvHdr where
  pduType : UInt8
  chSel : Bool
  txAdd : Bool
  rxAdd : Bool
  len : UInt8
  deriving DecidableEq, Repr

/-- `AdvHdr::encode`. -/
def AdvHdr.encode (h : AdvHdr) : List UInt8 :=
  [(h.pduType &&& 0x0F) ||| bit h.chSel 6 ||| bit h.txAdd 7,
   bit h.rxAdd 0 ||| (h.len &&& 0x3F) <<< (1 : UInt8)]

/-- An auxiliary packet pointer. -/
structure AuxPtr where
  channel : UInt8
  offset : UInt16
  phy : UInt8
  deriving DecidableEq, Repr

/-- `AuxPtr::encode`. -/
def AuxPtr.encode (p : AuxPtr) : List UInt8 :=
  [(p.channel &&& 0x3F) ||| (p.offset &&& 0x03).toUInt8 <<< (6 : UInt8),
   ((p.offset >>> 2) &&& 0xFF).toUInt8,
   p.phy &&& 0x03]

/-- A decoded advertising channel PDU. -/
inductive AdvPdu
  | advInd (advAddr : Buf 6) (data : List UInt8)
  | advDirectInd (advAddr initAddr : Buf 6)
  | advNonconnInd (advAddr : Buf 6) (data : List UInt8)
  | scanReq (scanAddr advAddr : Buf 6)
  | scanRsp (advAddr : Buf 6) (data : List UInt8)
  | connectReq (initAddr advAddr : Buf 6) (llData : List UInt8)
  | advScanInd (advAddr : Buf 6) (data : List UInt8)
  | advExtInd (advAddr : Buf 6) (advMode : UInt8) (adi : Buf 2) (auxPtr : AuxPtr)
  | auxAdvExtInd (advAddr : Buf 6) (adi : Buf 2) (extType : UInt8) (data : List UInt8)
  | auxAdvExtIndWithEh (advAddr : Buf 6) (adi : Buf 2) (ehs data : List UInt8)
  | periodicAdv (advMode : UInt8) (adi : Buf 2)

namespace AdvPdu

/-- `AdvPdu::encode_with`: the length and space checks, the header, then the variant's own
    writer on `out[2..total]`. -/
def encodeWith (out : List UInt8) (pduType : UInt8) (txAdd rxAdd : Bool) (payloadLen : Nat)
    (writePayload : List UInt8 → Except Panic (List UInt8)) :
    Except Panic (Except Error Nat × List UInt8) := do
  if payloadLen > 0x3F then return (.error .invalidLength, out)
  let total := 2 + payloadLen
  if out.length < total then return (.error .bufferTooSmall, out)
  let header : AdvHdr := ⟨pduType, false, txAdd, rxAdd, UInt8.ofNat payloadLen⟩
  let out ← copyInto out 0 2 header.encode
  let body ← slice out 2 total
  let body ← writePayload body
  return (.ok total, out.take 2 ++ body ++ out.drop total)

/-- An address followed by free data: the payload of `ADV_IND`, `ADV_SCAN_IND`,
    `ADV_NONCONN_IND` and `SCAN_RSP`. -/
def addrThenData (addr : Buf 6) (data : List UInt8) (o : List UInt8) :
    Except Panic (List UInt8) := do
  let o ← copyInto o 0 6 addr.bytes
  copyInto o 6 o.length data

/-- Two addresses: the payload of `ADV_DIRECT_IND` and `SCAN_REQ`. -/
def twoAddrs (a b : Buf 6) (o : List UInt8) : Except Panic (List UInt8) := do
  let o ← copyInto o 0 6 a.bytes
  copyInto o 6 12 b.bytes

/-- `AdvPdu::encode_typed`. -/
def encodeTyped (pdu : AdvPdu) (out : List UInt8) (txAdd rxAdd : Bool) :
    Except Panic (Except Error Nat × List UInt8) :=
  if out.length < 2 then .ok (.error .bufferTooSmall, out)
  else
    match pdu with
    | .advInd advAddr data =>
      encodeWith out pduAdvInd txAdd false (6 + data.length) (addrThenData advAddr data)
    | .advScanInd advAddr data =>
      encodeWith out pduAdvScanInd txAdd false (6 + data.length) (addrThenData advAddr data)
    | .advNonconnInd advAddr data =>
      -- the source passes `false` for TxAdd here
      encodeWith out pduAdvNonconnInd false false (6 + data.length) (addrThenData advAddr data)
    | .scanRsp advAddr data =>
      encodeWith out pduScanRsp txAdd false (6 + data.length) (addrThenData advAddr data)
    | .advDirectInd advAddr initAddr =>
      encodeWith out pduAdvDirectInd txAdd false 12 (twoAddrs advAddr initAddr)
    | .scanReq scanAddr advAddr =>
      encodeWith out pduScanReq txAdd rxAdd 12 (twoAddrs scanAddr advAddr)
    | .connectReq initAddr advAddr llData =>
      encodeWith out pduConnectReq txAdd rxAdd 34 fun o => do
        let o ← twoAddrs initAddr advAddr o
        copyInto o 12 34 llData
    | .advExtInd advAddr advMode adi auxPtr =>
      encodeWith out pduAdvExtInd txAdd false 12 fun o => do
        let o ← copyInto o 0 6 advAddr.bytes
        let o ← copyInto o 6 7 [advMode]
        let o ← copyInto o 7 9 adi.bytes
        copyInto o 9 12 auxPtr.encode
    | .auxAdvExtInd advAddr adi extType data =>
      encodeWith out pduAdvExtInd txAdd false (10 + data.length) fun o => do
        let o ← copyInto o 0 6 advAddr.bytes
        let o ← copyInto o 6 8 adi.bytes
        let o ← copyInto o 8 10 [1, extType]
        copyInto o 10 o.length data
    | .auxAdvExtIndWithEh advAddr adi ehs data =>
      encodeWith out pduAdvExtInd txAdd false (8 + ehs.length + data.length) fun o => do
        let o ← copyInto o 0 6 advAddr.bytes
        let o ← copyInto o 6 8 adi.bytes
        let eh0 ← idx ehs 0
        let o ← copyInto o 8 9 [eh0]
        let ehTail ← slice ehs 1 ehs.length
        let o ← copyInto o 9 (9 + ehs.length - 1) ehTail
        copyInto o (9 + ehs.length - 1) (9 + ehs.length - 1 + data.length) data
    | .periodicAdv advMode adi =>
      encodeWith out pduAdvExtInd txAdd false 3 fun o => do
        let o ← copyInto o 0 1 [advMode]
        copyInto o 1 3 adi.bytes

/-- The length field of an encoded header: bits 1..6 of byte 1. -/
theorem hdr_length_bits (len : UInt8) (rxAdd : Bool) :
    ((bit rxAdd 0 ||| (len &&& 0x3F) <<< (1 : UInt8)) >>> 1) &&& 0x3F = len &&& 0x3F := by
  obtain ⟨len⟩ := len
  revert len rxAdd
  decide +kernel

/-- What a successful `encodeWith` leaves in the buffer: the header, then whatever the writer
    made of the payload area, then the untouched rest. -/
theorem encodeWith_ok {out out' : List UInt8} {pduType : UInt8} {txAdd rxAdd : Bool}
    {payloadLen n : Nat} {writePayload : List UInt8 → Except Panic (List UInt8)}
    (h : encodeWith out pduType txAdd rxAdd payloadLen writePayload = .ok (.ok n, out')) :
    n = 2 + payloadLen ∧ payloadLen ≤ 63 ∧ n ≤ out.length ∧
      ∃ b0 body, out' = b0 ::
        (bit rxAdd 0 ||| (UInt8.ofNat payloadLen &&& 0x3F) <<< (1 : UInt8)) :: body := by
  unfold encodeWith at h
  split at h
  · cases h
  · rename_i hlen
    dsimp only at h
    split at h
    · cases h
    · rename_i hsp
      obtain ⟨out₁, hc, h⟩ := bind_eq_ok.mp h
      obtain ⟨body, hs, h⟩ := bind_eq_ok.mp h
      obtain ⟨body', hw, h⟩ := bind_eq_ok.mp h
      obtain ⟨_, _, _, rfl⟩ := copyInto_eq_ok.mp hc
      cases h
      exact ⟨rfl, by omega, by omega, _, _, rfl⟩

/-- **The length byte.**  Byte 1 of every successful encoding carries the payload length in its
    bits 1..6, whatever the variant and the address-type bits. -/
theorem encodeTyped_length_byte {pdu : AdvPdu} {out out' : List UInt8} {txAdd rxAdd : Bool}
    {n : Nat} (h : pdu.encodeTyped out txAdd rxAdd = .ok (.ok n, out')) :
    2 ≤ n ∧ n ≤ 65 ∧ n ≤ out.length ∧
      ∃ b0 b1 body, out' = b0 :: b1 :: body ∧ 2 + ((b1 >>> 1) &&& 0x3F).toNat = n := by
  have key : ∀ {pduType : UInt8} {txAdd rxAdd : Bool} {payloadLen : Nat} {w},
      encodeWith out pduType txAdd rxAdd payloadLen w = .ok (.ok n, out') →
      2 ≤ n ∧ n ≤ 65 ∧ n ≤ out.length ∧
        ∃ b0 b1 body, out' = b0 :: b1 :: body ∧ 2 + ((b1 >>> 1) &&& 0x3F).toNat = n := by
    intro pduType txAdd rxAdd payloadLen w hw
    obtain ⟨rfl, hle, hsp, b0, body, rfl⟩ := encodeWith_ok hw
    refine ⟨by omega, by omega, hsp, b0, _, body, rfl, ?_⟩
    have hmask : (UInt8.ofNat payloadLen &&& 0x3F).toNat = payloadLen := by
      rw [UInt8.toNat_and, UInt8.toNat_ofNat',
        show (0x3F : UInt8).toNat = 2 ^ 6 - 1 from rfl, Nat.and_two_pow_sub_one_eq_mod]
      omega
    rw [hdr_length_bits, hmask]
  unfold encodeTyped at h
  split at h
  · cases h
  -- every variant goes through `encodeWith`
  · cases pdu <;> exact key h

end AdvPdu

/-! ## Data channel PDUs -/

/-- A decoded data channel PDU. -/
structure DataPdu where
  llid : UInt8
  nesn : Bool
  sn : Bool
  md : Bool
  payload : List UInt8
  deriving DecidableEq, Repr

namespace DataPdu

/-- The first header byte: LLID, NESN, SN and MD. -/
def header (llid : UInt8) (nesn sn md : Bool) : UInt8 :=
  (llid &&& 0b11) ||| bit nesn 2 ||| bit sn 3 ||| bit md 4

/-- `DataPdu::decode`. -/
def decode (bytes : List UInt8) : Except Panic (Except Error DataPdu) := do
  if bytes.length < 2 then return .error .invalidPdu
  let b0 ← idx bytes 0
  let b1 ← idx bytes 1
  let len := (b1 &&& 0b111111).toNat
  let payload ← slice bytes 2 bytes.length
  if payload.length ≠ len then return .error .invalidLength
  return .ok
    { llid := b0 &&& 0b11
      nesn := (b0 &&& 0b100) != 0
      sn := (b0 &&& 0b1000) != 0
      md := (b0 &&& 0b10000) != 0
      payload := payload }

/-- `DataPdu::encode`. -/
def encode (pdu : DataPdu) (out : List UInt8) : Except Panic (Except Error Nat × List UInt8) := do
  if pdu.payload.length > 0x3F then return (.error .invalidLength, out)
  let total := 2 + pdu.payload.length
  if out.length < total then return (.error .bufferTooSmall, out)
  let out ← copyInto out 0 2
    [header pdu.llid pdu.nesn pdu.sn pdu.md, UInt8.ofNat pdu.payload.length &&& (0b111111 : UInt8)]
  let out ← copyInto out 2 total pdu.payload
  return (.ok total, out)

/-- The PDU a two-byte header and a payload stand for. -/
def ofBytes (b0 : UInt8) (payload : List UInt8) : DataPdu :=
  { llid := b0 &&& 0b11
    nesn := (b0 &&& 0b100) != 0
    sn := (b0 &&& 0b1000) != 0
    md := (b0 &&& 0b10000) != 0
    payload := payload }

/-- The decoder on a slice that has a header: it compares the length field with what is there. -/
theorem decode_cons (b0 b1 : UInt8) (payload : List UInt8) :
    decode (b0 :: b1 :: payload) =
      .ok (if payload.length = (b1 &&& 0b111111).toNat then .ok (ofBytes b0 payload)
           else .error .invalidLength) := by
  unfold decode
  rw [if_neg (by simp)]
  have hs : slice (b0 :: b1 :: payload) 2 (b0 :: b1 :: payload).length = .ok payload := by
    rw [slice_of_le (by simp) (Nat.le_refl _), List.take_length]; rfl
  simp only [idx_cons_zero, ok_bind, show idx (b0 :: b1 :: payload) 1 = .ok b1 from rfl, hs]
  by_cases h : payload.length = (b1 &&& 0b111111).toNat
  · rw [if_neg (by simpa using h), if_pos h]; rfl
  · rw [if_pos h, if_neg h]; rfl

/-- Decoding never panics. -/
theorem returns_decode (bytes : List UInt8) : Returns (decode bytes) := by
  match bytes with
  | [] => exact ⟨_, rfl⟩
  | [_] => exact ⟨_, rfl⟩
  | b0 :: b1 :: payload => exact ⟨_, decode_cons b0 b1 payload⟩

/-- What a successful encoding leaves in the buffer. -/
theorem encode_ok {pdu : DataPdu} {out out' : List UInt8} {n : Nat}
    (h : pdu.encode out = .ok (.ok n, out')) :
    n = 2 + pdu.payload.length ∧ pdu.payload.length ≤ 63 ∧ n ≤ out.length ∧
      out' = header pdu.llid pdu.nesn pdu.sn pdu.md ::
        (UInt8.ofNat pdu.payload.length &&& 0b111111) :: (pdu.payload ++ out.drop n) := by
  unfold encode at h
  split at h
  · cases h
  · rename_i hlen
    dsimp only at h
    split at h
    · cases h
    · rename_i hsp
      obtain ⟨out₁, hc, h⟩ := bind_eq_ok.mp h
      obtain ⟨out₂, hc', h⟩ := bind_eq_ok.mp h
      obtain ⟨_, _, _, rfl⟩ := copyInto_eq_ok.mp hc
      obtain ⟨_, _, _, rfl⟩ := copyInto_eq_ok.mp hc'
      cases h
      refine ⟨rfl, by omega, by omega, ?_⟩
      rw [Nat.add_comm 2 pdu.payload.length]
      simp [Nat.add_comm]

/-- Two bits of a byte are one of four numbers. -/
theorem and_three (x : UInt8) : ∃ low : Fin 4, x &&& 0b11 = UInt8.ofNat low.1 := by
  refine ⟨⟨x.toNat % 4, Nat.mod_lt _ (by decide)⟩, ?_⟩
  apply UInt8.toNat.inj
  rw [UInt8.toNat_and, UInt8.toNat_ofNat', show UInt8.toNat 0b11 = 2 ^ 2 - 1 from rfl,
    Nat.and_two_pow_sub_one_eq_mod]
  exact (Nat.mod_eq_of_lt (by omega)).symm

/-- The bits of a header byte, read one by one. -/
theorem header_bits (llid : UInt8) (nesn sn md : Bool) :
    header llid nesn sn md &&& 0b11 = llid &&& 0b11 ∧
      ((header llid nesn sn md &&& 0b100) != 0) = nesn ∧
      ((header llid nesn sn md &&& 0b1000) != 0) = sn ∧
      ((header llid nesn sn md &&& 0b10000) != 0) = md := by
  obtain ⟨low, hlow⟩ := and_three llid
  unfold header
  rw [hlow]
  clear hlow
  revert low nesn sn md
  decide +kernel

/-- The header byte of an encoded PDU decodes to the PDU's own bits. -/
theorem ofBytes_header (pdu : DataPdu) :
    ofBytes (header pdu.llid pdu.nesn pdu.sn pdu.md) pdu.payload =
      { pdu with llid := pdu.llid &&& 0b11 } := by
  obtain ⟨h1, h2, h3, h4⟩ := header_bits pdu.llid pdu.nesn pdu.sn pdu.md
  simp only [ofBytes, h1, h2, h3, h4]

/-! ### Both directions -/

/-- When the encoder succeeds. -/
theorem encode_iff (pdu : DataPdu) (out : List UInt8) :
    (∃ n out', pdu.encode out = .ok (.ok n, out')) ↔
      pdu.payload.length ≤ 63 ∧ 2 + pdu.payload.length ≤ out.length := by
  constructor
  · rintro ⟨n, out', h⟩
    obtain ⟨rfl, hlen, hspace, _⟩ := encode_ok h
    exact ⟨hlen, hspace⟩
  · rintro ⟨hlen, hspace⟩
    unfold encode
    rw [if_neg (by omega)]
    dsimp only
    rw [if_neg (by omega)]
    rw [copyInto_of_length (by omega) (by omega) rfl, ok_bind,
      copyInto_of_length (by omega) (by simp; omega) (by omega), ok_bind]
    exact ⟨_, _, rfl⟩

/-- The encoder never panics. -/
theorem returns_encode (pdu : DataPdu) (out : List UInt8) : Returns (pdu.encode out) := by
  by_cases h : pdu.payload.length ≤ 63 ∧ 2 + pdu.payload.length ≤ out.length
  · obtain ⟨n, out', hok⟩ := (encode_iff pdu out).mpr h
    exact ⟨_, hok⟩
  · unfold encode
    split
    · exact returns_pure _
    · rename_i hlen
      dsimp only
      rw [if_pos (by omega)]
      exact returns_pure _

/-- The bytes of a PDU without what the header leaves reserved. -/
def clearReserved : List UInt8 → List UInt8
  | b0 :: b1 :: payload => (b0 &&& 0x1F) :: (b1 &&& 0x3F) :: payload
  | bytes => bytes

/-- The five bits of the first byte, read one by one and put together. -/
theorem header_ofBytes (b0 : UInt8) (payload : List UInt8) :
    header (ofBytes b0 payload).llid (ofBytes b0 payload).nesn (ofBytes b0 payload).sn
      (ofBytes b0 payload).md = b0 &&& 0x1F := by
  show header (b0 &&& 0b11) ((b0 &&& 0b100) != 0) ((b0 &&& 0b1000) != 0) ((b0 &&& 0b10000) != 0) = _
  obtain ⟨b0⟩ := b0
  revert b0
  decide +kernel

/-- What the decoder accepts. -/
theorem decode_ok {bytes : List UInt8} {pdu : DataPdu} (h : decode bytes = .ok (.ok pdu)) :
    ∃ b0 b1 payload, bytes = b0 :: b1 :: payload ∧ payload.length = (b1 &&& 0b111111).toNat ∧
      pdu = ofBytes b0 payload := by
  match bytes, h with
  | [], h => cases h
  | [_], h => cases h
  | b0 :: b1 :: payload, h =>
    rw [decode_cons] at h
    split at h
    · rename_i hlen
      cases h
      exact ⟨b0, b1, payload, rfl, hlen, rfl⟩
    · cases h

/-- A length of six bits, written and masked. -/
theorem length_byte {n : Nat} {b1 : UInt8} (h : n = (b1 &&& 0b111111).toNat) :
    UInt8.ofNat n &&& 0b111111 = b1 &&& 0x3F := by
  rw [h, UInt8.ofNat_toNat, UInt8.and_assoc]
  rfl

/-- **Data PDUs round-trip in both directions.**  `encode` succeeds iff the payload has at most 63
    bytes and the buffer room for it and the header, and what it wrote decodes to the PDU; and bytes
    that decode are written again, but for the bits that are reserved. -/
theorem dataPdu_roundtrip :
    (∀ (pdu : DataPdu) (out : List UInt8), pdu.llid.toNat < 4 →
      Returns (pdu.encode out) ∧ ((∃ n out', pdu.encode out = .ok (.ok n, out')) ↔
        pdu.payload.length ≤ 63 ∧ 2 + pdu.payload.length ≤ out.length) ∧
      ∀ n out', pdu.encode out = .ok (.ok n, out') → decode (out'.take n) = .ok (.ok pdu)) ∧
    ∀ (bytes out : List UInt8) (pdu : DataPdu), decode bytes = .ok (.ok pdu) →
      bytes.length ≤ out.length →
      ∃ out', pdu.encode out = .ok (.ok bytes.length, out') ∧
        out'.take bytes.length = clearReserved bytes := by
  constructor
  · intro pdu out hllid
    refine ⟨returns_encode pdu out, encode_iff pdu out, fun n out' h => ?_⟩
    obtain ⟨rfl, hlen, hspace, rfl⟩ := encode_ok h
    have hmask : (UInt8.ofNat pdu.payload.length &&& 0b111111 &&& 0b111111).toNat =
        pdu.payload.length := by
      rw [UInt8.and_assoc, UInt8.toNat_and, UInt8.toNat_ofNat', show
        ((0b111111 : UInt8) &&& 0b111111).toNat = 2 ^ 6 - 1 from rfl, Nat.and_two_pow_sub_one_eq_mod]
      omega
    have hlow : pdu.llid &&& 0b11 = pdu.llid := by
      apply UInt8.toNat.inj
      rw [UInt8.toNat_and, show UInt8.toNat 0b11 = 2 ^ 2 - 1 from rfl, Nat.and_two_pow_sub_one_eq_mod,
        Nat.mod_eq_of_lt hllid]
    rw [Nat.add_comm 2, List.take_succ_cons, List.take_succ_cons, List.take_left, decode_cons,
      if_pos hmask.symm, ofBytes_header, hlow]
  · intro bytes out pdu hdec hspace
    obtain ⟨b0, b1, payload, rfl, hlen, rfl⟩ := decode_ok hdec
    have h63 : payload.length ≤ 63 := by
      rw [hlen, UInt8.toNat_and]
      exact Nat.and_le_right
    have hroom : 2 + payload.length ≤ out.length := by
      rw [List.length_cons, List.length_cons] at hspace
      omega
    obtain ⟨n, out', henc⟩ := (encode_iff (ofBytes b0 payload) out).mpr ⟨h63, hroom⟩
    obtain ⟨rfl, _, _, rfl⟩ := encode_ok henc
    have hn : (b0 :: b1 :: payload).length = 2 + payload.length := by
      rw [List.length_cons, List.length_cons, Nat.add_comm 2]
    refine ⟨_, henc.trans (by rw [hn]; rfl), ?_⟩
    rw [List.length_cons, List.length_cons, List.take_succ_cons, List.take_succ_cons]
    show header _ _ _ _ :: (UInt8.ofNat payload.length &&& _) ::
      (payload ++ out.drop (2 + payload.length)).take payload.length = _
    rw [List.take_left, header_ofBytes, length_byte hlen]
    rfl

/-- The PDU of the repository's test, and five bytes with every reserved bit set. -/
theorem dataPdu_roundtrip_sample :
    (Returns ((⟨llidControl, true, false, true, [1, 2, 3]⟩ : DataPdu).encode (List.replicate 64 0)) ∧
      ((∃ n out', (⟨llidControl, true, false, true, [1, 2, 3]⟩ : DataPdu).encode
        (List.replicate 64 0) = .ok (.ok n, out')) ↔ 3 ≤ 63 ∧ 2 + 3 ≤ 64) ∧
      ∀ n out', (⟨llidControl, true, false, true, [1, 2, 3]⟩ : DataPdu).encode
        (List.replicate 64 0) = .ok (.ok n, out') →
          decode (out'.take n) = .ok (.ok ⟨llidControl, true, false, true, [1, 2, 3]⟩)) ∧
    ∃ out', (⟨llidControl, true, false, true, [1, 2, 3]⟩ : DataPdu).encode (List.replicate 5 0) =
        .ok (.ok 5, out') ∧ out'.take 5 = [0x16, 0x03, 1, 2, 3] :=
  ⟨dataPdu_roundtrip.1 ⟨llidControl, true, false, true, [1, 2, 3]⟩ (List.replicate 64 0) (by decide),
    dataPdu_roundtrip.2 [0xF6, 0xC3, 1, 2, 3] (List.replicate 5 0) _ rfl (by decide)⟩

end DataPdu

/-! ## CONNECT_REQ parameters -/

/-- `ConnectReqData`: the connection parameters a `CONNECT_REQ` carries. -/
structure ConnectReqData where
  accessAddr : UInt32
  crcInit : UInt32
  winSize : UInt8
  winOffset : UInt16
  interval : UInt16
  latency : UInt16
  timeout : UInt16
  channelMap : Buf 5
  hop : UInt8
  sca : UInt8
  deriving DecidableEq

end NrfBle
