/-
  The advertising decoder (`src/ll/pdu.rs`, `AdvHdr::decode`, `AdvPdu::decode`) against the encoder.

  A PDU is two header bytes and a payload.  `AdvPdu.payload` is what each of the eleven variants puts
  behind its header, in one table; `encodeTyped_eq` says that `encode_typed` writes the header of that
  length and the table's bytes, or refuses and leaves the buffer alone.  The decoder reads the type
  and the length out of the header, compares the length with what is there, and takes the payload
  apart by type.  So a round trip is a fact about payloads: for each variant, `decodePayload` of the
  table's entry is the variant itself.

  The seven LEGACY variants have one payload shape each and come back unchanged.
-/
import Mathlib.Tactic
import NrfBle.Ll.Pdu

namespace NrfBle

open Checked

deriving instance DecidableEq for AdvPdu

/-- `CONNECT_LL_DATA_LEN`. -/
abbrev connectLlDataLen : Nat := 22

/-! ## The decoder -/

/-- `AdvHdr::decode`. -/
def AdvHdr.decode (b0 b1 : UInt8) : Except Error AdvHdr :=
  if (b0 &&& 0x0F) > 0b0111 then .error .invalidPdu
  else .ok
    { pduType := b0 &&& 0x0F
      chSel := (b0 &&& 0x40) != 0
      txAdd := (b0 &&& 0x80) != 0
      rxAdd := (b1 &&& 0x01) != 0
      len := (b1 >>> 1) &&& 0x3F }

/-- `AuxPtr::decode`. -/
def AuxPtr.decode (b0 b1 b2 : UInt8) : AuxPtr :=
  { channel := b0 &&& 0x3F
    offset := (b0 >>> 6).toUInt16 ||| b1.toUInt16 <<< 2
    phy := b2 &&& 0x03 }

namespace AdvPdu

/-- `split6`: the address in front, and the rest. -/
def split6 (payload : List UInt8) : Except Panic (Except Error (Buf 6 × List UInt8)) := do
  if payload.length < 6 then return .error .invalidLength
  let front ← slice payload 0 6
  let rest ← slice payload 6 payload.length
  match Buf.ofSlice 6 front with
  | none => return .error .invalidLength
  | some addr => return .ok (addr, rest)

/-- An address and free data: `ADV_IND`, `ADV_NONCONN_IND`, `SCAN_RSP`, `ADV_SCAN_IND`. -/
def decodeAddrData (mk : Buf 6 → List UInt8 → AdvPdu) (payload : List UInt8) :
    Except Panic (Except Error AdvPdu) := do
  match ← split6 payload with
  | .error e => return .error e
  | .ok (addr, data) => return .ok (mk addr data)

/-- Two addresses and nothing else: `ADV_DIRECT_IND`, `SCAN_REQ`. -/
def decodeTwoAddrs (mk : Buf 6 → Buf 6 → AdvPdu) (payload : List UInt8) :
    Except Panic (Except Error AdvPdu) := do
  match ← split6 payload with
  | .error e => return .error e
  | .ok (a, b) =>
    if b.length ≠ 6 then return .error .invalidLength
    match Buf.ofSlice 6 b with
    | none => return .error .invalidLength
    | some b => return .ok (mk a b)

/-- `CONNECT_REQ`: two addresses and 22 bytes. -/
def decodeConnectReq (payload : List UInt8) : Except Panic (Except Error AdvPdu) := do
  match ← split6 payload with
  | .error e => return .error e
  | .ok (a, b) =>
    if b.length ≠ 28 then return .error .invalidLength
    let adv ← slice b 0 6
    let llData ← slice b 6 b.length
    match Buf.ofSlice 6 adv with
    | none => return .error .invalidLength
    | some adv => return .ok (.connectReq a adv llData)

/-- `ADV_EXT_IND`: the payload's length tells the three kinds apart. -/
def decodeExt (payload : List UInt8) : Except Panic (Except Error AdvPdu) := do
  if payload.length = 12 then
    let front ← slice payload 0 6
    let mode ← idx payload 6
    let adi ← slice payload 7 9
    let a0 ← idx payload 9
    let a1 ← idx payload 10
    let a2 ← idx payload 11
    match Buf.ofSlice 6 front, Buf.ofSlice 2 adi with
    | some addr, some adi => return .ok (.advExtInd addr mode adi (AuxPtr.decode a0 a1 a2))
    | _, _ => return .error .invalidLength
  else if payload.length ≥ 10 then
    let front ← slice payload 0 6
    let adi ← slice payload 6 8
    let ehsLen ← idx payload 8
    let ehsEnd := 9 + ehsLen.toNat
    if payload.length ≥ ehsEnd then
      let extType ← idx payload 9
      let data ← slice payload ehsEnd payload.length
      match Buf.ofSlice 6 front, Buf.ofSlice 2 adi with
      | some addr, some adi => return .ok (.auxAdvExtInd addr adi extType data)
      | _, _ => return .error .invalidLength
    else return .error .invalidLength
  else if payload.length = 3 then
    let mode ← idx payload 0
    let adi ← slice payload 1 3
    match Buf.ofSlice 2 adi with
    | some adi => return .ok (.periodicAdv mode adi)
    | none => return .error .invalidLength
  else return .error .invalidLength

/-- The payload, by type. -/
def decodePayload (pduType : UInt8) (payload : List UInt8) : Except Panic (Except Error AdvPdu) :=
  if pduType = pduAdvInd then decodeAddrData .advInd payload
  else if pduType = pduAdvDirectInd then decodeTwoAddrs .advDirectInd payload
  else if pduType = pduAdvNonconnInd then decodeAddrData .advNonconnInd payload
  else if pduType = pduScanReq then decodeTwoAddrs .scanReq payload
  else if pduType = pduScanRsp then decodeAddrData .scanRsp payload
  else if pduType = pduConnectReq then decodeConnectReq payload
  else if pduType = pduAdvScanInd then decodeAddrData .advScanInd payload
  else if pduType = pduAdvExtInd then decodeExt payload
  else return .error .invalidPdu

/-- `AdvPdu::decode`. -/
def decode (bytes : List UInt8) : Except Panic (Except Error AdvPdu) := do
  if bytes.length < 2 then return .error .invalidPdu
  let b0 ← idx bytes 0
  let b1 ← idx bytes 1
  match AdvHdr.decode b0 b1 with
  | .error e => return .error e
  | .ok header =>
    let payload ← slice bytes 2 bytes.length
    if payload.length ≠ header.len.toNat then return .error .invalidLength
    decodePayload header.pduType payload

/-- `AdvPdu::pdu_type`. -/
def pduType : AdvPdu → UInt8
  | .advInd .. => pduAdvInd
  | .advDirectInd .. => pduAdvDirectInd
  | .advNonconnInd .. => pduAdvNonconnInd
  | .scanReq .. => pduScanReq
  | .scanRsp .. => pduScanRsp
  | .connectReq .. => pduConnectReq
  | .advScanInd .. => pduAdvScanInd
  | .advExtInd .. => pduAdvExtInd
  | .auxAdvExtInd .. => pduAdvExtInd
  | .auxAdvExtIndWithEh .. => pduAdvExtInd
  | .periodicAdv .. => pduAdvExtInd

/-! ## What the encoder writes -/

/-- The payload of each variant. -/
def payload : AdvPdu → List UInt8
  | .advInd addr data => addr.bytes ++ data
  | .advDirectInd adv init => adv.bytes ++ init.bytes
  | .advNonconnInd addr data => addr.bytes ++ data
  | .scanReq scan adv => scan.bytes ++ adv.bytes
  | .scanRsp addr data => addr.bytes ++ data
  | .connectReq init adv llData => init.bytes ++ adv.bytes ++ llData
  | .advScanInd addr data => addr.bytes ++ data
  | .advExtInd addr mode adi aux => addr.bytes ++ [mode] ++ adi.bytes ++ aux.encode
  | .auxAdvExtInd addr adi extType data => addr.bytes ++ adi.bytes ++ [1, extType] ++ data
  | .auxAdvExtIndWithEh addr adi ehs data => addr.bytes ++ adi.bytes ++ ehs ++ data
  | .periodicAdv mode adi => mode :: adi.bytes

/-- The slices have the lengths the encoder relies on. -/
def Sized : AdvPdu → Prop
  | .connectReq _ _ llData => llData.length = 22
  | .auxAdvExtIndWithEh _ _ ehs _ => ehs ≠ []
  | _ => True

/-- The address-type bits that get into the header: each variant passes on what it has room for. -/
def headerBits (txAdd rxAdd : Bool) : AdvPdu → Bool × Bool
  | .advNonconnInd .. => (false, false)
  | .scanReq .. => (txAdd, rxAdd)
  | .connectReq .. => (txAdd, rxAdd)
  | _ => (txAdd, false)

/-- The bytes of a PDU: header and payload. -/
def bytes (pdu : AdvPdu) (txAdd rxAdd : Bool) : List UInt8 :=
  AdvHdr.encode ⟨pdu.pduType, false, (pdu.headerBits txAdd rxAdd).1, (pdu.headerBits txAdd rxAdd).2,
    UInt8.ofNat pdu.payload.length⟩ ++ pdu.payload

theorem bytes_length (pdu : AdvPdu) (txAdd rxAdd : Bool) :
    (pdu.bytes txAdd rxAdd).length = 2 + pdu.payload.length := by
  rw [bytes, List.length_append]
  rfl

theorem encodeWith_eq {out payload : List UInt8} {pduType : UInt8} {txAdd rxAdd : Bool} {k : Nat}
    {writePayload : List UInt8 → Except Panic (List UInt8)} (hk : k = payload.length)
    (hwrite : ∀ o : List UInt8, o.length = k → writePayload o = .ok payload) :
    encodeWith out pduType txAdd rxAdd k writePayload = .ok
      (if k > 63 then (.error .invalidLength, out)
      else if out.length < 2 + k then (.error .bufferTooSmall, out)
      else (.ok (2 + k), AdvHdr.encode ⟨pduType, false, txAdd, rxAdd, UInt8.ofNat k⟩ ++ payload ++
        out.drop (2 + k))) := by
  unfold encodeWith
  by_cases hlong : k > 63
  · rw [if_pos hlong, if_pos hlong]
    rfl
  · rw [if_neg hlong, if_neg hlong]
    dsimp only
    by_cases hspace : out.length < 2 + k
    · rw [if_pos hspace, if_pos hspace]
      rfl
    · rw [if_neg hspace, if_neg hspace]
      generalize hhdr : AdvHdr.encode ⟨pduType, false, txAdd, rxAdd, UInt8.ofNat k⟩ = hdr
      have htwo : hdr.length = 2 := by rw [← hhdr]; rfl
      rw [copyInto_front htwo.symm (by omega), ok_bind, htwo]
      have hbody : slice (hdr ++ out.drop 2) 2 (2 + k) = .ok ((out.drop 2).take k) := by
        have hle : 2 + k ≤ (hdr ++ out.drop 2).length := by
          rw [List.length_append, List.length_drop]; omega
        rw [slice_of_le (by omega) hle, List.drop_take, List.drop_append_of_le_length (by omega),
          List.drop_eq_nil_of_le (by omega), List.nil_append]
        congr 2
        omega
      have hlen : ((out.drop 2).take k).length = k := by
        rw [List.length_take, List.length_drop]; omega
      have hrest : (hdr ++ out.drop 2).drop (2 + k) = out.drop (2 + k) := by
        rw [List.drop_append, List.drop_eq_nil_of_le (by omega), List.nil_append, List.drop_drop]
        congr 1
        omega
      rw [hbody, ok_bind, hwrite _ hlen, ok_bind, hrest, List.take_append_of_le_length (by omega),
        List.take_of_length_le (by omega)]
      rfl

theorem addrThenData_eq (addr : Buf 6) (data : List UInt8) {o : List UInt8}
    (h : o.length = 6 + data.length) : addrThenData addr data o = .ok (addr.bytes ++ data) := by
  unfold addrThenData
  rw [copyInto_front addr.size.symm (by omega), ok_bind]
  have hlen : (addr.bytes ++ o.drop addr.bytes.length).length = 6 + data.length := by
    rw [List.length_append, List.length_drop, addr.size]; omega
  rw [copyInto_append addr.size.symm (by rw [hlen, addr.size]) (Nat.le_refl _), List.drop_drop,
    List.drop_eq_nil_of_le (by rw [addr.size]; omega), List.append_nil]

theorem addrData_length (addr : Buf 6) (data : List UInt8) :
    6 + data.length = (addr.bytes ++ data).length := by rw [List.length_append, addr.size]

theorem twoAddrs_eq (a b : Buf 6) {o : List UInt8} (h : 12 ≤ o.length) :
    twoAddrs a b o = .ok (a.bytes ++ b.bytes ++ o.drop 12) := by
  unfold twoAddrs
  rw [copyInto_front a.size.symm (by omega), ok_bind]
  have hlen : 12 ≤ (a.bytes ++ o.drop a.bytes.length).length := by
    rw [List.length_append, List.length_drop, a.size]; omega
  rw [copyInto_append a.size.symm (by rw [a.size, b.size]) hlen, List.drop_drop, a.size, b.size]

theorem twoAddrs_length (a b : Buf 6) : 12 = (a.bytes ++ b.bytes).length := by
  rw [List.length_append, a.size, b.size]

theorem twoAddrs_all (a b : Buf 6) {o : List UInt8} (h : o.length = 12) :
    twoAddrs a b o = .ok (a.bytes ++ b.bytes) := by
  rw [twoAddrs_eq a b (by omega), List.drop_eq_nil_of_le (by omega), List.append_nil]

/-- What `encode_typed` does with a payload of the right shape: it refuses, or the PDU is in the
    buffer. -/
def written (pdu : AdvPdu) (out : List UInt8) (txAdd rxAdd : Bool) :
    Except Error Nat × List UInt8 :=
  if out.length < 2 then (.error .bufferTooSmall, out)
  else if pdu.payload.length > 63 then (.error .invalidLength, out)
  else if out.length < 2 + pdu.payload.length then (.error .bufferTooSmall, out)
  else (.ok (2 + pdu.payload.length),
    pdu.bytes txAdd rxAdd ++ out.drop (2 + pdu.payload.length))

/-- A variant whose writer makes the table's payload of an area of that length. -/
theorem encodeWith_written (pdu : AdvPdu) {out : List UInt8} {txAdd rxAdd : Bool} {k : Nat}
    {writePayload : List UInt8 → Except Panic (List UInt8)} (hout : ¬ out.length < 2)
    (hk : k = pdu.payload.length)
    (hwrite : ∀ o : List UInt8, o.length = k → writePayload o = .ok pdu.payload) :
    encodeWith out pdu.pduType (pdu.headerBits txAdd rxAdd).1 (pdu.headerBits txAdd rxAdd).2 k
      writePayload = .ok (pdu.written out txAdd rxAdd) := by
  rw [encodeWith_eq hk hwrite, written, if_neg hout, hk]
  rfl

/-- **What the encoder writes**, for every variant whose slices have the lengths it relies on. -/
theorem encodeTyped_eq {pdu : AdvPdu} (hsized : pdu.Sized) (out : List UInt8) (txAdd rxAdd : Bool) :
    pdu.encodeTyped out txAdd rxAdd = .ok (pdu.written out txAdd rxAdd) := by
  unfold encodeTyped
  by_cases hout : out.length < 2
  · rw [if_pos hout, written, if_pos hout]
  rw [if_neg hout]
  cases pdu with
  | advInd addr data =>
    exact encodeWith_written (.advInd addr data) hout (addrData_length addr data)
      (fun o ho => addrThenData_eq addr data ho)
  | advScanInd addr data =>
    exact encodeWith_written (.advScanInd addr data) hout (addrData_length addr data)
      (fun o ho => addrThenData_eq addr data ho)
  | advNonconnInd addr data =>
    exact encodeWith_written (.advNonconnInd addr data) hout (addrData_length addr data)
      (fun o ho => addrThenData_eq addr data ho)
  | scanRsp addr data =>
    exact encodeWith_written (.scanRsp addr data) hout (addrData_length addr data)
      (fun o ho => addrThenData_eq addr data ho)
  | advDirectInd a b =>
    exact encodeWith_written (.advDirectInd a b) hout (twoAddrs_length a b) (fun o ho => twoAddrs_all a b ho)
  | scanReq a b =>
    exact encodeWith_written (.scanReq a b) hout (twoAddrs_length a b) (fun o ho => twoAddrs_all a b ho)
  | connectReq a b llData =>
    have hll : llData.length = 22 := hsized
    have hab := (twoAddrs_length a b).symm
    have hk : 34 = (a.bytes ++ b.bytes ++ llData).length := by rw [List.length_append, hab, hll]
    refine encodeWith_written (.connectReq a b llData) hout hk ?_
    intro o ho
    have hlen : 34 ≤ (a.bytes ++ b.bytes ++ o.drop 12).length := by
      rw [List.length_append, hab, List.length_drop]; omega
    rw [twoAddrs_eq a b (by omega), ok_bind, copyInto_append hab.symm (by omega) hlen, List.drop_drop,
      List.drop_eq_nil_of_le (by omega), List.append_nil]
    rfl
  | advExtInd addr mode adi aux =>
    refine encodeWith_written (.advExtInd addr mode adi aux) hout ?_ ?_
    · simp [payload, addr.size, adi.size, AuxPtr.encode]
    · intro o ho
      have h6 := addr.size
      have h2 := adi.size
      rw [copyInto_front h6.symm (by omega), ok_bind,
        copyInto_append h6.symm (by simp [h6]) (by simp [h6]; omega), ok_bind,
        copyInto_append (by simp [h6]) (by simp [h6, h2]) (by simp [h6]; omega), ok_bind,
        copyInto_append (by simp [h6, h2]) (by simp [h6, h2, AuxPtr.encode])
          (by simp [h6, h2]; omega)]
      simp [payload, h6, h2, AuxPtr.encode, ho]
  | auxAdvExtInd addr adi extType data =>
    refine encodeWith_written (.auxAdvExtInd addr adi extType data) hout ?_ ?_
    · simp [payload, addr.size, adi.size]; omega
    · intro o ho
      have h6 := addr.size
      have h2 := adi.size
      rw [copyInto_front h6.symm (by omega), ok_bind,
        copyInto_append h6.symm (by simp [h6, h2]) (by simp [h6]; omega), ok_bind,
        copyInto_append (by simp [h6, h2]) (by simp [h6, h2]) (by simp [h6, h2]; omega), ok_bind,
        copyInto_append (by simp [h6, h2]) (by simp [h6, h2, ho]; omega) (Nat.le_refl _)]
      simp [payload, h6, h2, ho]
  | auxAdvExtIndWithEh addr adi ehs data =>
    obtain ⟨eh0, ehTail, rfl⟩ := List.exists_cons_of_ne_nil hsized
    refine encodeWith_written (.auxAdvExtIndWithEh addr adi (eh0 :: ehTail) data) hout ?_ ?_
    · simp [payload, addr.size, adi.size]; omega
    · intro o ho
      have h6 := addr.size
      have h2 := adi.size
      have htail : slice (eh0 :: ehTail) 1 (eh0 :: ehTail).length = .ok ehTail := by
        rw [slice_of_le (by simp) (Nat.le_refl _), List.take_length]; rfl
      simp only [List.length_cons] at ho
      rw [copyInto_front h6.symm (by omega), ok_bind,
        copyInto_append h6.symm (by simp [h6, h2]) (by simp [h6]; omega), ok_bind, idx_cons_zero,
        ok_bind, copyInto_append (by simp [h6, h2]) (by simp [h6, h2]) (by simp [h6, h2]; omega),
        ok_bind, htail, ok_bind,
        copyInto_append (by simp [h6, h2]) (by simp [h6, h2]) (by simp [h6, h2]; omega), ok_bind,
        copyInto_append (by simp [h6, h2]; omega) (by simp [h6, h2]; omega)
          (by simp [h6, h2]; omega)]
      simp [payload, h6, h2, ho]
      omega
  | periodicAdv mode adi =>
    refine encodeWith_written (.periodicAdv mode adi) hout ?_ ?_
    · simp [payload, adi.size]
    · intro o ho
      have h2 := adi.size
      rw [copyInto_front (by simp) (by omega), ok_bind,
        copyInto_append (by simp) (by simp [h2]) (by simp; omega)]
      simp [payload, h2, ho]

/-! ## Reading it back -/

/-- The type of a PDU is a number below 8. -/
theorem pduType_eq (pdu : AdvPdu) : ∃ t : Fin 8, pdu.pduType = UInt8.ofNat t.1 := by
  cases pdu
  · exact ⟨0, rfl⟩
  · exact ⟨1, rfl⟩
  · exact ⟨2, rfl⟩
  · exact ⟨3, rfl⟩
  · exact ⟨4, rfl⟩
  · exact ⟨5, rfl⟩
  · exact ⟨6, rfl⟩
  all_goals exact ⟨7, rfl⟩

/-- The first byte of an encoded header: a type below 8, and TxAdd. -/
theorem headerByte (t : Fin 8) (tx : Bool) :
    let b0 := (UInt8.ofNat t.1 &&& 0x0F) ||| bit false 6 ||| bit tx 7
    ¬ (b0 &&& 0x0F) > 0b0111 ∧ b0 &&& 0x0F = UInt8.ofNat t.1 ∧ ((b0 &&& 0x80) != 0) = tx := by
  revert t tx
  decide +kernel

/-- The type nibble of a PDU's bytes. -/
theorem bytes_type (pdu : AdvPdu) (txAdd rxAdd : Bool) :
    (pdu.bytes txAdd rxAdd).getD 0 0 &&& 0x0F = pdu.pduType := by
  obtain ⟨t, ht⟩ := pdu.pduType_eq
  unfold bytes
  rw [ht]
  exact (headerByte t _).2.1

/-- The type and the length of an encoded header. -/
theorem hdr_decode (pdu : AdvPdu) (txAdd rxAdd : Bool) {len : Nat} (hlen : len ≤ 63) :
    ∃ b0 b1 hdr, AdvHdr.encode ⟨pdu.pduType, false, txAdd, rxAdd, UInt8.ofNat len⟩ = [b0, b1] ∧
      AdvHdr.decode b0 b1 = .ok hdr ∧ hdr.pduType = pdu.pduType ∧ hdr.len.toNat = len ∧
      hdr.txAdd = txAdd ∧ hdr.rxAdd = rxAdd := by
  have hrx : ∀ (l : UInt8) (rx : Bool),
      (((bit rx 0 ||| (l &&& 0x3F) <<< (1 : UInt8)) &&& 0x01) != 0) = rx := by
    rintro ⟨l⟩ rx
    revert l rx
    decide +kernel
  have hmask : (UInt8.ofNat len &&& 0x3F).toNat = len := by
    rw [UInt8.toNat_and, UInt8.toNat_ofNat',
      show (0x3F : UInt8).toNat = 2 ^ 6 - 1 from rfl, Nat.and_two_pow_sub_one_eq_mod]
    omega
  obtain ⟨t, ht⟩ := pdu.pduType_eq
  obtain ⟨hle, hsame, htx⟩ := headerByte t txAdd
  rw [ht]
  refine ⟨_, _, _, rfl, if_neg hle, hsame, ?_, htx, hrx _ rxAdd⟩
  show (((bit rxAdd 0 ||| (UInt8.ofNat len &&& 0x3F) <<< (1 : UInt8)) >>> 1) &&& 0x3F).toNat = len
  rw [hdr_length_bits, hmask]

/-- **Decoding what was encoded** is taking the payload apart. -/
theorem decode_bytes (pdu : AdvPdu) (txAdd rxAdd : Bool) (h : pdu.payload.length ≤ 63) :
    decode (pdu.bytes txAdd rxAdd) = decodePayload pdu.pduType pdu.payload := by
  obtain ⟨b0, b1, hdr, henc, hdec, htype, hlen, _⟩ := pdu.hdr_decode
    (pdu.headerBits txAdd rxAdd).1 (pdu.headerBits txAdd rxAdd).2 h
  unfold bytes
  rw [henc]
  show decode (b0 :: b1 :: pdu.payload) = _
  unfold decode
  have hs : slice (b0 :: b1 :: pdu.payload) 2 (b0 :: b1 :: pdu.payload).length = .ok pdu.payload := by
    rw [slice_of_le (by simp) (Nat.le_refl _), List.take_length]; rfl
  rw [if_neg (by simp), idx_cons_zero, ok_bind, show idx (b0 :: b1 :: pdu.payload) 1 = .ok b1 from rfl,
    ok_bind, hdec]
  dsimp only
  rw [hs, ok_bind, if_neg (by rw [hlen]; simp), htype]

theorem split6_append (addr : Buf 6) (rest : List UInt8) :
    split6 (addr.bytes ++ rest) = .ok (.ok (addr, rest)) := by
  have hlen : (addr.bytes ++ rest).length = 6 + rest.length := by rw [List.length_append, addr.size]
  unfold split6
  rw [if_neg (by omega), slice_of_le (by omega) (by omega), ok_bind,
    slice_of_le (by omega) (Nat.le_refl _), ok_bind, List.take_length,
    List.take_append_of_le_length (by rw [addr.size]), List.take_of_length_le (by rw [addr.size]),
    List.drop_zero, List.drop_append_of_le_length (by rw [addr.size]),
    List.drop_eq_nil_of_le (by rw [addr.size]), Buf.ofSlice_bytes]
  rfl

theorem decodeAddrData_append (mk : Buf 6 → List UInt8 → AdvPdu) (addr : Buf 6) (data : List UInt8) :
    decodeAddrData mk (addr.bytes ++ data) = .ok (.ok (mk addr data)) := by
  unfold decodeAddrData
  rw [split6_append]
  rfl

theorem decodeTwoAddrs_append (mk : Buf 6 → Buf 6 → AdvPdu) (a b : Buf 6) :
    decodeTwoAddrs mk (a.bytes ++ b.bytes) = .ok (.ok (mk a b)) := by
  unfold decodeTwoAddrs
  rw [split6_append, ok_bind]
  dsimp only
  rw [if_neg (by rw [b.size]; simp), Buf.ofSlice_bytes]
  rfl

theorem decodeConnectReq_append (a b : Buf 6) {llData : List UInt8} (h : llData.length = 22) :
    decodeConnectReq (a.bytes ++ b.bytes ++ llData) = .ok (.ok (.connectReq a b llData)) := by
  have hb := b.size
  have hlen : (b.bytes ++ llData).length = 28 := by rw [List.length_append, hb, h]
  unfold decodeConnectReq
  rw [List.append_assoc, split6_append, ok_bind]
  dsimp only
  rw [if_neg (by rw [hlen]; simp), slice_of_le (by omega) (by omega), ok_bind,
    slice_of_le (by omega) (Nat.le_refl _), ok_bind, List.take_length,
    List.take_append_of_le_length (by omega), List.take_of_length_le (by omega), List.drop_zero,
    List.drop_append_of_le_length (by omega), List.drop_eq_nil_of_le (by omega), Buf.ofSlice_bytes]
  rfl

/-- The seven PDUs of legacy advertising. -/
def Legacy : AdvPdu → Prop
  | .advInd .. | .advDirectInd .. | .advNonconnInd .. | .scanReq .. | .scanRsp .. | .advScanInd .. =>
    True
  | .connectReq _ _ llData => llData.length = 22
  | _ => False

theorem Legacy.sized {pdu : AdvPdu} (h : pdu.Legacy) : pdu.Sized := by
  cases pdu <;> first | exact trivial | exact h | exact h.elim

/-- A legacy payload, read by its type, is the PDU. -/
theorem decodePayload_payload {pdu : AdvPdu} (h : pdu.Legacy) :
    decodePayload pdu.pduType pdu.payload = .ok (.ok pdu) := by
  cases pdu with
  | advInd addr data => exact decodeAddrData_append .advInd addr data
  | advDirectInd a b => exact decodeTwoAddrs_append .advDirectInd a b
  | advNonconnInd addr data => exact decodeAddrData_append .advNonconnInd addr data
  | scanReq a b => exact decodeTwoAddrs_append .scanReq a b
  | scanRsp addr data => exact decodeAddrData_append .scanRsp addr data
  | connectReq a b llData => exact decodeConnectReq_append a b h
  | advScanInd addr data => exact decodeAddrData_append .advScanInd addr data
  | _ => exact h.elim

/-- When the encoder succeeds, and what it leaves. -/
theorem written_eq_ok {pdu : AdvPdu} {out out' : List UInt8} {txAdd rxAdd : Bool} {n : Nat} :
    pdu.written out txAdd rxAdd = (.ok n, out') ↔
      pdu.payload.length ≤ 63 ∧ 2 + pdu.payload.length ≤ out.length ∧
        n = 2 + pdu.payload.length ∧ out' = pdu.bytes txAdd rxAdd ++ out.drop n := by
  unfold written
  constructor
  · intro h
    split at h
    · cases h
    · split at h
      · cases h
      · split at h
        · cases h
        · cases h
          exact ⟨by omega, by omega, rfl, rfl⟩
  · rintro ⟨hlen, hspace, rfl, rfl⟩
    rw [if_neg (by omega), if_neg (by omega), if_neg (by omega)]

/-- **Legacy PDUs round-trip.**  `encode_typed` succeeds iff the payload has at most 63 bytes and the
    buffer room for it and the header; what it then wrote decodes to the PDU. -/
theorem legacy_roundtrip (pdu : AdvPdu) (h : pdu.Legacy) (out : List UInt8) (txAdd rxAdd : Bool) :
    ((∃ n out', pdu.encodeTyped out txAdd rxAdd = .ok (.ok n, out')) ↔
      pdu.payload.length ≤ 63 ∧ 2 + pdu.payload.length ≤ out.length) ∧
    ∀ n out', pdu.encodeTyped out txAdd rxAdd = .ok (.ok n, out') →
      decode (out'.take n) = .ok (.ok pdu) := by
  rw [encodeTyped_eq h.sized]
  refine ⟨?_, ?_⟩
  · constructor
    · rintro ⟨n, out', hok⟩
      obtain ⟨hlen, hspace, _⟩ := written_eq_ok.mp (Except.ok.inj hok)
      exact ⟨hlen, hspace⟩
    · rintro ⟨hlen, hspace⟩
      exact ⟨_, _, congrArg _ (written_eq_ok.mpr ⟨hlen, hspace, rfl, rfl⟩)⟩
  · intro n out' hok
    obtain ⟨hlen, _, rfl, rfl⟩ := written_eq_ok.mp (Except.ok.inj hok)
    rw [← pdu.bytes_length txAdd rxAdd, List.take_left, pdu.decode_bytes txAdd rxAdd hlen]
    exact decodePayload_payload h

/-- An `ADV_SCAN_IND` with three data bytes fits a buffer of eleven bytes exactly. -/
theorem legacy_roundtrip_scan_ind :
    ∃ n out', (AdvPdu.advScanInd ⟨[1, 2, 3, 4, 5, 6], rfl⟩ [7, 8, 9]).encodeTyped
        (List.replicate 11 0) true false = .ok (.ok n, out') ∧
      decode (out'.take n) = .ok (.ok (.advScanInd ⟨[1, 2, 3, 4, 5, 6], rfl⟩ [7, 8, 9])) := by
  have h := legacy_roundtrip (.advScanInd ⟨[1, 2, 3, 4, 5, 6], rfl⟩ [7, 8, 9]) trivial
    (List.replicate 11 0) true false
  obtain ⟨n, out', hok⟩ := h.1.mpr (by decide)
  exact ⟨n, out', hok, h.2 n out' hok⟩

/-! ## Encoding into an array -/

/-- `encode_typed` into an array.  An array keeps its length, so the last branch is never taken
    (`encodeInto_eq`). -/
def encodeInto {n : Nat} (pdu : AdvPdu) (buf : Buf n) (txAdd rxAdd : Bool) :
    Except Panic (Except Error Nat × Buf n) := do
  let (answer, out) ← pdu.encodeTyped buf.bytes txAdd rxAdd
  match Buf.ofSlice n out with
  | some buf => return (answer, buf)
  | none => .error .length

/-- A PDU with room enough is written in front of the array. -/
theorem encodeInto_eq {n : Nat} {pdu : AdvPdu} (hsized : pdu.Sized) (buf : Buf n) (txAdd rxAdd : Bool)
    (hlen : pdu.payload.length ≤ 63) (hroom : 2 + pdu.payload.length ≤ n) :
    ∃ buf' : Buf n, pdu.encodeInto buf txAdd rxAdd = .ok (.ok (2 + pdu.payload.length), buf') ∧
      buf'.bytes.take (2 + pdu.payload.length) = pdu.bytes txAdd rxAdd := by
  have hw : pdu.written buf.bytes txAdd rxAdd = (.ok (2 + pdu.payload.length),
      pdu.bytes txAdd rxAdd ++ buf.bytes.drop (2 + pdu.payload.length)) :=
    written_eq_ok.mpr ⟨hlen, by rw [buf.size]; exact hroom, rfl, rfl⟩
  have hsize : (pdu.bytes txAdd rxAdd ++ buf.bytes.drop (2 + pdu.payload.length)).length = n := by
    rw [List.length_append, bytes_length, List.length_drop, buf.size]; omega
  refine ⟨⟨_, hsize⟩, ?_, ?_⟩
  · unfold encodeInto
    rw [encodeTyped_eq hsized, hw, ok_bind]
    dsimp only
    rw [Buf.ofSlice_of_length hsize]
    rfl
  · show (pdu.bytes txAdd rxAdd ++ buf.bytes.drop (2 + pdu.payload.length)).take _ = _
    rw [← pdu.bytes_length txAdd rxAdd, List.take_left]

/-! ## Decoding never panics -/

theorem returns_split6 (payload : List UInt8) : Returns (split6 payload) := by
  unfold split6
  split
  · exact returns_pure _
  · rename_i h
    rw [slice_of_le (by omega) (by omega), ok_bind, slice_of_le (by omega) (Nat.le_refl _), ok_bind]
    split <;> exact returns_pure _

theorem returns_decodeAddrData (mk : Buf 6 → List UInt8 → AdvPdu) (payload : List UInt8) :
    Returns (decodeAddrData mk payload) := by
  obtain ⟨r, hr⟩ := returns_split6 payload
  unfold decodeAddrData
  rw [hr, ok_bind]
  split <;> exact returns_pure _

theorem returns_decodeTwoAddrs (mk : Buf 6 → Buf 6 → AdvPdu) (payload : List UInt8) :
    Returns (decodeTwoAddrs mk payload) := by
  obtain ⟨r, hr⟩ := returns_split6 payload
  unfold decodeTwoAddrs
  rw [hr, ok_bind]
  split
  · exact returns_pure _
  · split
    · exact returns_pure _
    · split <;> exact returns_pure _

theorem returns_decodeConnectReq (payload : List UInt8) : Returns (decodeConnectReq payload) := by
  obtain ⟨r, hr⟩ := returns_split6 payload
  unfold decodeConnectReq
  rw [hr, ok_bind]
  split
  · exact returns_pure _
  · split
    · exact returns_pure _
    · rename_i h
      rw [slice_of_le (by omega) (by omega), ok_bind, slice_of_le (by omega) (Nat.le_refl _), ok_bind]
      split <;> exact returns_pure _

theorem returns_decodeExt (payload : List UInt8) : Returns (decodeExt payload) := by
  unfold decodeExt
  split
  · rename_i h
    rw [slice_of_le (by omega) (by omega), ok_bind, idx_of_lt (by omega), ok_bind,
      slice_of_le (by omega) (by omega), ok_bind, idx_of_lt (by omega), ok_bind,
      idx_of_lt (by omega), ok_bind, idx_of_lt (by omega), ok_bind]
    split <;> exact returns_pure _
  · split
    · rw [slice_of_le (by omega) (by omega), ok_bind, slice_of_le (by omega) (by omega), ok_bind,
        idx_of_lt (by omega), ok_bind]
      dsimp only
      split
      · rename_i hend
        rw [idx_of_lt (by omega), ok_bind, slice_of_le hend (Nat.le_refl _), ok_bind]
        split <;> exact returns_pure _
      · exact returns_pure _
    · split
      · rw [idx_of_lt (by omega), ok_bind, slice_of_le (by omega) (by omega), ok_bind]
        split <;> exact returns_pure _
      · exact returns_pure _

/-- **Decoding never panics**, whatever the bytes. -/
theorem returns_decode (bytes : List UInt8) : Returns (decode bytes) := by
  unfold decode
  split
  · exact returns_pure _
  · rename_i h
    rw [idx_of_lt (by omega), ok_bind, idx_of_lt (by omega), ok_bind]
    split
    · exact returns_pure _
    · rw [slice_of_le (by omega) (Nat.le_refl _), ok_bind]
      split
      · exact returns_pure _
      · unfold decodePayload
        repeat' split
        all_goals first
          | exact returns_decodeAddrData _ _
          | exact returns_decodeTwoAddrs _ _
          | exact returns_decodeConnectReq _
          | exact returns_decodeExt _
          | exact returns_pure _

/-! ## What the decoder accepts -/

theorem decodeAddrData_ok {mk : Buf 6 → List UInt8 → AdvPdu} {payload : List UInt8} {pdu : AdvPdu}
    (h : decodeAddrData mk payload = .ok (.ok pdu)) : ∃ addr data, pdu = mk addr data := by
  obtain ⟨r, _, h⟩ := bind_eq_ok.mp h
  split at h
  · cases h
  · cases h; exact ⟨_, _, rfl⟩

theorem decodeTwoAddrs_ok {mk : Buf 6 → Buf 6 → AdvPdu} {payload : List UInt8} {pdu : AdvPdu}
    (h : decodeTwoAddrs mk payload = .ok (.ok pdu)) : ∃ a b, pdu = mk a b := by
  obtain ⟨r, _, h⟩ := bind_eq_ok.mp h
  split at h
  · cases h
  · split at h
    · cases h
    · split at h
      · cases h
      · cases h; exact ⟨_, _, rfl⟩

theorem decodeConnectReq_ok {payload : List UInt8} {pdu : AdvPdu}
    (h : decodeConnectReq payload = .ok (.ok pdu)) :
    ∃ a b llData, pdu = .connectReq a b llData ∧ llData.length = connectLlDataLen := by
  obtain ⟨r, _, h⟩ := bind_eq_ok.mp h
  split at h
  · cases h
  · split at h
    · cases h
    · rename_i rest _ hlen
      have h28 : rest.length = 28 := by simpa using hlen
      rw [slice_of_le (by omega) (by omega), ok_bind, slice_of_le (by omega) (Nat.le_refl _),
        ok_bind] at h
      split at h
      · cases h
      · cases h
        exact ⟨_, _, _, rfl, by rw [List.length_drop, List.length_take, h28]; rfl⟩

theorem decodeExt_ok {payload : List UInt8} {pdu : AdvPdu} (h : decodeExt payload = .ok (.ok pdu)) :
    pdu.pduType = pduAdvExtInd := by
  unfold decodeExt at h
  split at h
  · obtain ⟨_, _, h⟩ := bind_eq_ok.mp h
    obtain ⟨_, _, h⟩ := bind_eq_ok.mp h
    obtain ⟨_, _, h⟩ := bind_eq_ok.mp h
    obtain ⟨_, _, h⟩ := bind_eq_ok.mp h
    obtain ⟨_, _, h⟩ := bind_eq_ok.mp h
    obtain ⟨_, _, h⟩ := bind_eq_ok.mp h
    split at h <;> cases h
    rfl
  · split at h
    · obtain ⟨_, _, h⟩ := bind_eq_ok.mp h
      obtain ⟨_, _, h⟩ := bind_eq_ok.mp h
      obtain ⟨_, _, h⟩ := bind_eq_ok.mp h
      dsimp only at h
      split at h
      · obtain ⟨_, _, h⟩ := bind_eq_ok.mp h
        obtain ⟨_, _, h⟩ := bind_eq_ok.mp h
        split at h <;> cases h
        rfl
      · cases h
    · split at h
      · obtain ⟨_, _, h⟩ := bind_eq_ok.mp h
        obtain ⟨_, _, h⟩ := bind_eq_ok.mp h
        split at h <;> cases h
        rfl
      · cases h

/-- The type of a decoded PDU is the one in the header, and a `CONNECT_REQ` has its 22 bytes. -/
theorem decodePayload_ok {pduType : UInt8} {payload : List UInt8} {pdu : AdvPdu}
    (h : decodePayload pduType payload = .ok (.ok pdu)) :
    pdu.pduType = pduType ∧
      ∀ a b llData, pdu = .connectReq a b llData → llData.length = connectLlDataLen := by
  unfold decodePayload at h
  split at h
  · rename_i ht; obtain ⟨_, _, rfl⟩ := decodeAddrData_ok h
    exact ⟨ht.symm, by rintro a b llData ⟨⟩⟩
  split at h
  · rename_i ht; obtain ⟨_, _, rfl⟩ := decodeTwoAddrs_ok h
    exact ⟨ht.symm, by rintro a b llData ⟨⟩⟩
  split at h
  · rename_i ht; obtain ⟨_, _, rfl⟩ := decodeAddrData_ok h
    exact ⟨ht.symm, by rintro a b llData ⟨⟩⟩
  split at h
  · rename_i ht; obtain ⟨_, _, rfl⟩ := decodeTwoAddrs_ok h
    exact ⟨ht.symm, by rintro a b llData ⟨⟩⟩
  split at h
  · rename_i ht; obtain ⟨_, _, rfl⟩ := decodeAddrData_ok h
    exact ⟨ht.symm, by rintro a b llData ⟨⟩⟩
  split at h
  · rename_i ht; obtain ⟨_, _, _, rfl, hlen⟩ := decodeConnectReq_ok h
    exact ⟨ht.symm, by rintro a b llData ⟨⟩; exact hlen⟩
  split at h
  · rename_i ht; obtain ⟨_, _, rfl⟩ := decodeAddrData_ok h
    exact ⟨ht.symm, by rintro a b llData ⟨⟩⟩
  split at h
  · rename_i ht
    have htype := decodeExt_ok h
    refine ⟨htype.trans ht.symm, ?_⟩
    rintro a b llData rfl
    cases htype
  · cases h

/-- What an accepted packet looks like: a header with the PDU's type, and a `CONNECT_REQ` has its 22
    bytes. -/
theorem decode_ok {bytes : List UInt8} {pdu : AdvPdu} (h : decode bytes = .ok (.ok pdu)) :
    2 ≤ bytes.length ∧ bytes.getD 0 0 &&& 0x0F = pdu.pduType ∧
      ∀ a b llData, pdu = .connectReq a b llData → llData.length = connectLlDataLen := by
  match bytes with
  | [] => cases h
  | [_] => cases h
  | b0 :: b1 :: payload =>
    unfold decode at h
    rw [if_neg (by simp), idx_cons_zero, ok_bind, show idx (b0 :: b1 :: payload) 1 = .ok b1 from rfl,
      ok_bind] at h
    unfold AdvHdr.decode at h
    split at h
    · cases h
    · rename_i hdr hd
      split at hd
      · cases hd
      · cases hd
        rw [slice_of_le (by simp) (Nat.le_refl _), ok_bind] at h
        split at h
        · cases h
        · obtain ⟨htype, hll⟩ := decodePayload_ok h
          exact ⟨by simp, htype.symm, hll⟩

end AdvPdu

/-! ## CONNECT_REQ parameters -/

namespace ConnectReqData

/-- `ConnectReqData::decode`. -/
def decode (llData : List UInt8) : Except Panic (Except Error ConnectReqData) := do
  if llData.length ≠ connectLlDataLen then return .error .invalidLength
  let aaLo ← rd16 llData 0
  let aaHi ← rd16 llData 2
  let crcLo ← rd16 llData 4
  let crcHi ← idx llData 6
  let winSize ← idx llData 7
  let winOffset ← rd16 llData 8
  let interval ← rd16 llData 10
  let latency ← rd16 llData 12
  let timeout ← rd16 llData 14
  let map ← slice llData 16 21
  let last ← idx llData 21
  match Buf.ofSlice 5 map with
  | none => .error .length
  | some channelMap =>
    return .ok
      { accessAddr := aaLo.toUInt32 ||| aaHi.toUInt32 <<< 16
        crcInit := crcLo.toUInt32 ||| crcHi.toUInt32 <<< 16
        winSize := winSize
        winOffset := winOffset
        interval := interval
        latency := latency
        timeout := timeout
        channelMap := channelMap
        hop := last &&& 0x1F
        sca := (last >>> 5) &&& 0x07 }

/-- The 22 bytes of a parameter set. -/
def bytes (d : ConnectReqData) : List UInt8 :=
  leBytes 4 d.accessAddr.toNat ++ leBytes 3 d.crcInit.toNat ++ [d.winSize] ++ le16 d.winOffset ++
    le16 d.interval ++ le16 d.latency ++ le16 d.timeout ++ d.channelMap.bytes ++
    [(d.hop &&& 0x1F) ||| (d.sca &&& 0x07) <<< (5 : UInt8)]

/-- `ConnectReqData::encode`: every field has its own place in the first 22 bytes. -/
def encode (d : ConnectReqData) (out : List UInt8) : Except Panic (Except Error Nat × List UInt8) := do
  if out.length < connectLlDataLen then return (.error .bufferTooSmall, out)
  let out ← copyInto out 0 connectLlDataLen d.bytes
  return (.ok connectLlDataLen, out)

/-- Decoding never panics, and succeeds on 22 bytes. -/
theorem decode_of_length {llData : List UInt8} (h : llData.length = connectLlDataLen) :
    ∃ d, decode llData = .ok (.ok d) := by
  unfold decode
  have h22 : llData.length = 22 := h
  have hmap : ((llData.take 21).drop 16).length = 5 := by
    rw [List.length_drop, List.length_take, h22]; rfl
  rw [if_neg (by simpa using h)]
  simp (disch := omega) only [rd16_of_lt, idx_of_lt, slice_of_le, ok_bind, Buf.ofSlice_of_length hmap]
  exact ⟨_, rfl⟩

theorem returns_decode (llData : List UInt8) : Returns (decode llData) := by
  by_cases h : llData.length = connectLlDataLen
  · obtain ⟨d, hd⟩ := decode_of_length h
    exact ⟨_, hd⟩
  · unfold decode
    rw [if_pos h]
    exact returns_pure _

end ConnectReqData

/-! ## Periodic advertising info -/

/-- `EXT_AD_PERIODIC`. -/
abbrev extAdPeriodic : UInt8 := 0x20

/-- `PeriodicAdvInfo`. -/
structure PeriodicAdvInfo where
  adi : Buf 2
  interval : UInt16
  advaType : UInt8
  deriving DecidableEq

/-- `PeriodicAdvInfo::encode`. -/
def PeriodicAdvInfo.encode (info : PeriodicAdvInfo) : Buf 5 :=
  ⟨info.adi.bytes ++ le16 info.interval ++ [info.advaType], by simp [info.adi.size]⟩

/-- `PeriodicAdvInfo::decode`. -/
def PeriodicAdvInfo.decode : List UInt8 → Option PeriodicAdvInfo
  | a0 :: a1 :: i0 :: i1 :: t :: _ => some ⟨⟨[a0, a1], rfl⟩, ofLe16 i0 i1, t⟩
  | _ => none

end NrfBle
