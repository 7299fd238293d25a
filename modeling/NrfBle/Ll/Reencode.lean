/-
  Re-encoding what was decoded (`src/ll/pdu.rs`, `AdvPdu::decode` and `AdvPdu::encode_typed`).

  An accepted legacy PDU is two header bytes and exactly the payload its variant stands for
  (`decode_parts`, `decodePayload_legacy`).  So encoding it again gives the bytes back iff it gives the
  header back, and of the header only the two address-type bits are the caller's.  Two variants do not
  pass on the bit they are given: `ADV_NONCONN_IND` clears TxAdd, and `ADV_DIRECT_IND`, although it
  carries a target address, clears RxAdd.
-/
import Mathlib.Tactic
import NrfBle.Ll.Advertising

namespace NrfBle

open Checked

namespace AdvPdu

/-! ## What is accepted -/

theorem split6_eq_ok {payload rest : List UInt8} {addr : Buf 6}
    (h : split6 payload = .ok (.ok (addr, rest))) : payload = addr.bytes ++ rest := by
  unfold split6 at h
  split at h
  · cases h
  · rename_i hlen
    have hfront : (payload.take 6).length = 6 := by rw [List.length_take]; omega
    rw [slice_of_le (by omega) (by omega), ok_bind, slice_of_le (by omega) (Nat.le_refl _), ok_bind,
      List.drop_zero, List.take_length, Buf.ofSlice_of_length hfront] at h
    cases h
    exact (List.take_append_drop 6 payload).symm

theorem decodeAddrData_eq_ok {mk : Buf 6 → List UInt8 → AdvPdu} {payload : List UInt8} {pdu : AdvPdu}
    (h : decodeAddrData mk payload = .ok (.ok pdu)) :
    ∃ addr data, pdu = mk addr data ∧ payload = addr.bytes ++ data := by
  obtain ⟨r, hsplit, h⟩ := bind_eq_ok.mp h
  split at h
  · cases h
  · cases h
    exact ⟨_, _, rfl, split6_eq_ok hsplit⟩

theorem decodeTwoAddrs_eq_ok {mk : Buf 6 → Buf 6 → AdvPdu} {payload : List UInt8} {pdu : AdvPdu}
    (h : decodeTwoAddrs mk payload = .ok (.ok pdu)) :
    ∃ a b, pdu = mk a b ∧ payload = a.bytes ++ b.bytes := by
  obtain ⟨r, hsplit, h⟩ := bind_eq_ok.mp h
  split at h
  · cases h
  · split at h
    · cases h
    · rename_i _ _ rest hlen
      have h6 : rest.length = 6 := by simpa using hlen
      rw [Buf.ofSlice_of_length h6] at h
      cases h
      exact ⟨_, _, rfl, split6_eq_ok hsplit⟩

theorem decodeConnectReq_eq_ok {payload : List UInt8} {pdu : AdvPdu}
    (h : decodeConnectReq payload = .ok (.ok pdu)) :
    ∃ a b llData, pdu = .connectReq a b llData ∧ payload = a.bytes ++ b.bytes ++ llData := by
  obtain ⟨r, hsplit, h⟩ := bind_eq_ok.mp h
  split at h
  · cases h
  · split at h
    · cases h
    · rename_i _ _ rest hlen
      have h28 : rest.length = 28 := by simpa using hlen
      have hfront : (rest.take 6).length = 6 := by rw [List.length_take]; omega
      rw [slice_of_le (by omega) (by omega), ok_bind, slice_of_le (by omega) (Nat.le_refl _), ok_bind,
        List.drop_zero, List.take_length, Buf.ofSlice_of_length hfront] at h
      cases h
      refine ⟨_, _, _, rfl, ?_⟩
      rw [List.append_assoc, split6_eq_ok hsplit]
      exact congrArg _ (List.take_append_drop 6 rest).symm

/-- A legacy PDU was read off the payload it is encoded with. -/
theorem decodePayload_legacy {pduType : UInt8} {bytes : List UInt8} {pdu : AdvPdu}
    (h : decodePayload pduType bytes = .ok (.ok pdu)) (hlegacy : pdu.Legacy) : bytes = pdu.payload := by
  unfold decodePayload at h
  split at h
  · obtain ⟨_, _, rfl, hpayload⟩ := decodeAddrData_eq_ok h
    exact hpayload
  split at h
  · obtain ⟨_, _, rfl, hpayload⟩ := decodeTwoAddrs_eq_ok h
    exact hpayload
  split at h
  · obtain ⟨_, _, rfl, hpayload⟩ := decodeAddrData_eq_ok h
    exact hpayload
  split at h
  · obtain ⟨_, _, rfl, hpayload⟩ := decodeTwoAddrs_eq_ok h
    exact hpayload
  split at h
  · obtain ⟨_, _, rfl, hpayload⟩ := decodeAddrData_eq_ok h
    exact hpayload
  split at h
  · obtain ⟨_, _, _, rfl, hpayload⟩ := decodeConnectReq_eq_ok h
    exact hpayload
  split at h
  · obtain ⟨_, _, rfl, hpayload⟩ := decodeAddrData_eq_ok h
    exact hpayload
  split at h
  -- no extended PDU is a legacy one
  · have htype := decodeExt_ok h
    cases pdu <;> first | exact hlegacy.elim | cases htype
  · cases h

/-- The parts of an accepted packet: its header has the PDU's type and the payload's length. -/
theorem decode_parts {bytes : List UInt8} {pdu : AdvPdu} (h : decode bytes = .ok (.ok pdu)) :
    ∃ b0 b1 payload, bytes = b0 :: b1 :: payload ∧ b0 &&& 0x0F = pdu.pduType ∧
      payload.length = ((b1 >>> 1) &&& 0x3F).toNat ∧
      decodePayload pdu.pduType payload = .ok (.ok pdu) := by
  match bytes with
  | [] => cases h
  | [_] => cases h
  | b0 :: b1 :: payload =>
    refine ⟨b0, b1, payload, rfl, ?_⟩
    unfold decode at h
    have hrest : slice (b0 :: b1 :: payload) 2 (b0 :: b1 :: payload).length = .ok payload := by
      rw [slice_of_le (by simp) (Nat.le_refl _), List.take_length]; rfl
    rw [if_neg (by simp), idx_cons_zero, ok_bind, show idx (b0 :: b1 :: payload) 1 = .ok b1 from rfl,
      ok_bind] at h
    split at h
    · cases h
    · rename_i hdr hdec
      rw [hrest, ok_bind] at h
      split at h
      · cases h
      · rename_i hlen
        have htype := (decodePayload_ok h).1
        unfold AdvHdr.decode at hdec
        split at hdec
        · cases hdec
        · cases hdec
          refine ⟨htype.symm, by simpa using hlen, ?_⟩
          rw [htype]
          exact h

/-! ## The header again -/

/-- The length field has six bits. -/
theorem lengthBits_le (x : UInt8) : (x &&& 0x3F).toNat ≤ 63 := by
  obtain ⟨x⟩ := x
  revert x
  decide +kernel

/-- The TxAdd bit of a packet. -/
def txAddOf (bytes : List UInt8) : Bool := (bytes.getD 0 0 &&& 0x80) != 0

/-- The RxAdd bit of a packet. -/
def rxAddOf (bytes : List UInt8) : Bool := (bytes.getD 1 0 &&& 0x01) != 0

/-- The PDU carries the address of the device it is meant for. -/
def HasTarget : AdvPdu → Prop
  | .advDirectInd .. | .scanReq .. | .connectReq .. => True
  | _ => False

/-- ChSel and the unused header bits are zero, and so is RxAdd where there is no target address. -/
structure CleanHeader (bytes : List UInt8) (pdu : AdvPdu) : Prop where
  first : bytes.getD 0 0 &&& 0x70 = 0
  second : bytes.getD 1 0 &&& 0x80 = 0
  rxAdd : ¬ pdu.HasTarget → rxAddOf bytes = false

/-- Encoding the PDU with the packet's own address-type bits writes the packet. -/
def Reencodes (bytes : List UInt8) (pdu : AdvPdu) (out : List UInt8) : Prop :=
  ∃ out', pdu.encodeTyped out (txAddOf bytes) (rxAddOf bytes) = .ok (.ok bytes.length, out') ∧
    out'.take bytes.length = bytes

/-- The packet has neither of the two bits that get lost: TxAdd of an `ADV_NONCONN_IND`, and RxAdd of
    an `ADV_DIRECT_IND`. -/
def NoLostBit (bytes : List UInt8) : AdvPdu → Prop
  | .advNonconnInd .. => txAddOf bytes = false
  | .advDirectInd .. => rxAddOf bytes = false
  | _ => True

/-- The first header byte, from its type and TxAdd. -/
theorem header_first (b0 : UInt8) (h : b0 &&& 0x70 = 0) :
    ((b0 &&& 0x0F) &&& 0x0F) ||| bit false 6 ||| bit ((b0 &&& 0x80) != 0) 7 = b0 := by
  obtain ⟨b0⟩ := b0
  revert b0
  decide +kernel

/-- The second header byte, from RxAdd and its length. -/
theorem header_second (b1 : UInt8) (h : b1 &&& 0x80 = 0) :
    bit ((b1 &&& 0x01) != 0) 0 |||
      (UInt8.ofNat ((b1 >>> 1) &&& 0x3F).toNat &&& 0x3F) <<< (1 : UInt8) = b1 := by
  obtain ⟨b1⟩ := b1
  revert b1
  decide +kernel

/-- Both bits get into the header iff neither gets lost. -/
theorem headerBits_eq_iff {bytes : List UInt8} {pdu : AdvPdu} (hlegacy : pdu.Legacy)
    (hclean : CleanHeader bytes pdu) :
    pdu.headerBits (txAddOf bytes) (rxAddOf bytes) = (txAddOf bytes, rxAddOf bytes) ↔
      NoLostBit bytes pdu := by
  have hrx := hclean.rxAdd
  cases pdu with
  | advDirectInd a b => simp [headerBits, NoLostBit]
  | advNonconnInd a data => simp [headerBits, NoLostBit, hrx (by rintro ⟨⟩)]
  | scanReq a b => simp [headerBits, NoLostBit]
  | connectReq a b llData => simp [headerBits, NoLostBit]
  | advInd a data => simp [headerBits, NoLostBit, hrx (by rintro ⟨⟩)]
  | scanRsp a data => simp [headerBits, NoLostBit, hrx (by rintro ⟨⟩)]
  | advScanInd a data => simp [headerBits, NoLostBit, hrx (by rintro ⟨⟩)]
  | _ => exact hlegacy.elim

/-- The bytes of the PDU are the packet iff both bits get into the header. -/
theorem bytes_eq_iff {bytes : List UInt8} {pdu : AdvPdu} (hdec : decode bytes = .ok (.ok pdu))
    (hlegacy : pdu.Legacy) (hclean : CleanHeader bytes pdu) :
    pdu.bytes (txAddOf bytes) (rxAddOf bytes) = bytes ↔
      pdu.headerBits (txAddOf bytes) (rxAddOf bytes) = (txAddOf bytes, rxAddOf bytes) := by
  obtain ⟨b0, b1, payload, rfl, htype, hlen, hpayload⟩ := decode_parts hdec
  obtain rfl := decodePayload_legacy hpayload hlegacy
  have h63 : pdu.payload.length ≤ 63 := hlen ▸ lengthBits_le _
  constructor
  · intro heq
    obtain ⟨c0, c1, hdr, henc, hhdr, _, _, htx, hrx⟩ := pdu.hdr_decode
      (pdu.headerBits (txAddOf (b0 :: b1 :: pdu.payload)) (rxAddOf (b0 :: b1 :: pdu.payload))).1
      (pdu.headerBits (txAddOf (b0 :: b1 :: pdu.payload)) (rxAddOf (b0 :: b1 :: pdu.payload))).2 h63
    rw [bytes, henc] at heq
    -- the header written is the header read
    obtain ⟨rfl, h⟩ := List.cons.inj heq
    obtain ⟨rfl, _⟩ := List.cons.inj h
    unfold AdvHdr.decode at hhdr
    split at hhdr
    · cases hhdr
    · cases hhdr
      exact Prod.ext htx.symm hrx.symm
  · intro hbits
    have hfirst : (pdu.pduType &&& 0x0F) ||| bit false 6 ||| bit ((b0 &&& 0x80) != 0) 7 = b0 := by
      rw [← htype]
      exact header_first b0 hclean.first
    have hsecond : bit ((b1 &&& 0x01) != 0) 0 |||
        (UInt8.ofNat pdu.payload.length &&& 0x3F) <<< (1 : UInt8) = b1 := by
      rw [hlen]
      exact header_second b1 hclean.second
    have hhdr : AdvHdr.encode ⟨pdu.pduType, false, (b0 &&& 0x80) != 0, (b1 &&& 0x01) != 0,
        UInt8.ofNat pdu.payload.length⟩ = [b0, b1] := by
      unfold AdvHdr.encode
      dsimp only
      rw [hfirst, hsecond]
    rw [bytes, hbits]
    show AdvHdr.encode ⟨pdu.pduType, false, (b0 &&& 0x80) != 0, (b1 &&& 0x01) != 0,
      UInt8.ofNat pdu.payload.length⟩ ++ pdu.payload = _
    rw [hhdr]
    rfl

/-- **Re-encoding an accepted legacy PDU** with its own address-type bits writes it again iff it does
    not have one of the two bits that get lost. -/
theorem reencodes_iff {bytes : List UInt8} {pdu : AdvPdu} (hdec : decode bytes = .ok (.ok pdu))
    (hlegacy : pdu.Legacy) (hclean : CleanHeader bytes pdu) (out : List UInt8)
    (hroom : bytes.length ≤ out.length) : Reencodes bytes pdu out ↔ NoLostBit bytes pdu := by
  rw [← headerBits_eq_iff hlegacy hclean, ← bytes_eq_iff hdec hlegacy hclean]
  obtain ⟨b0, b1, payload, hbytes, _, hlen, hpayload⟩ := decode_parts hdec
  obtain rfl := decodePayload_legacy hpayload hlegacy
  have htotal : bytes.length = 2 + pdu.payload.length := by rw [hbytes]; simp; omega
  have htake : (pdu.bytes (txAddOf bytes) (rxAddOf bytes) ++ out.drop bytes.length).take bytes.length =
      pdu.bytes (txAddOf bytes) (rxAddOf bytes) := by
    rw [htotal, ← pdu.bytes_length (txAddOf bytes) (rxAddOf bytes), List.take_left]
  unfold Reencodes
  rw [encodeTyped_eq hlegacy.sized]
  constructor
  · rintro ⟨out', hok, hwritten⟩
    obtain ⟨_, _, _, rfl⟩ := written_eq_ok.mp (Except.ok.inj hok)
    rw [← htake, hwritten]
  · intro heq
    have h63 : pdu.payload.length ≤ 63 := hlen ▸ lengthBits_le _
    refine ⟨_, congrArg _ (written_eq_ok.mpr ⟨h63, by omega, htotal, rfl⟩), ?_⟩
    rw [htake, heq]

/-- A `SCAN_REQ` from a random address to a random address. -/
theorem scanReq_reencodes :
    Reencodes [0x83, 0x19, 1, 2, 3, 4, 5, 6, 7, 8, 9, 10, 11, 12]
      (.scanReq ⟨[1, 2, 3, 4, 5, 6], rfl⟩ ⟨[7, 8, 9, 10, 11, 12], rfl⟩) (List.replicate 14 0) := by
  refine (reencodes_iff (by decide +kernel) (show AdvPdu.Legacy (.scanReq _ _) from trivial)
    ⟨by decide, by decide, ?_⟩ _ (by decide)).mpr trivial
  intro h
  exact absurd trivial h

/-- An `ADV_NONCONN_IND` from a random address is written as one from a public address. -/
theorem random_nonconn_reencoded_public :
    decode [0x82, 0x0C, 1, 2, 3, 4, 5, 6] = .ok (.ok (.advNonconnInd ⟨[1, 2, 3, 4, 5, 6], rfl⟩ [])) ∧
      CleanHeader [0x82, 0x0C, 1, 2, 3, 4, 5, 6] (.advNonconnInd ⟨[1, 2, 3, 4, 5, 6], rfl⟩ []) ∧
      (AdvPdu.advNonconnInd ⟨[1, 2, 3, 4, 5, 6], rfl⟩ []).encodeTyped (List.replicate 8 0) true false =
        .ok (.ok 8, [0x02, 0x0C, 1, 2, 3, 4, 5, 6]) ∧
      ¬ Reencodes [0x82, 0x0C, 1, 2, 3, 4, 5, 6] (.advNonconnInd ⟨[1, 2, 3, 4, 5, 6], rfl⟩ [])
        (List.replicate 8 0) := by
  have henc : (AdvPdu.advNonconnInd ⟨[1, 2, 3, 4, 5, 6], rfl⟩ []).encodeTyped (List.replicate 8 0) true
      false = .ok (.ok 8, [0x02, 0x0C, 1, 2, 3, 4, 5, 6]) := by decide +kernel
  refine ⟨by decide +kernel, ⟨by decide, by decide, fun _ => by decide⟩, henc, ?_⟩
  rintro ⟨out', hok, htake⟩
  cases henc.symm.trans hok
  revert htake
  decide

end AdvPdu

end NrfBle
