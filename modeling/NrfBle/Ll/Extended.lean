/-
  The extended advertising PDUs (`src/ll/pdu.rs`, the `PDU_ADV_EXT_IND` branch of `AdvPdu::decode`).

  Four formats share the type, and nothing in the payload says which one it is: the decoder takes a
  payload of 12 bytes for a primary packet, one of 3 for a periodic one, and any other of at least 10
  for an auxiliary one, whose header length octet then tells where the data begins.

  A primary and a periodic packet have these lengths always.  An auxiliary packet has whatever length
  its data gives it, 12 included, and is then read as a primary packet (`extended_roundtrip_iff`).
-/
import Mathlib.Tactic
import NrfBle.Ll.Advertising

namespace NrfBle

open Checked

/-! ## The auxiliary pointer -/

/-- Every field fits the bits it is given. -/
structure AuxPtr.InRange (p : AuxPtr) : Prop where
  channel : p.channel < 64
  offset : p.offset < 1024
  phy : p.phy < 4

/-- The first byte of a pointer: the channel, and the low two bits of the offset. -/
theorem auxPtr_first (channel : Fin 64) (low : Fin 4) :
    let b0 := (UInt8.ofNat channel.1 &&& 0x3F) ||| UInt8.ofNat low.1 <<< (6 : UInt8)
    b0 &&& 0x3F = UInt8.ofNat channel.1 ∧ b0 >>> 6 = UInt8.ofNat low.1 := by
  revert channel low
  decide +kernel

/-- The offset, cut after its low two bits. -/
theorem auxPtr_offset (offset : Fin 1024) :
    (UInt16.ofNat offset.1 &&& 0x03).toUInt8 = UInt8.ofNat (offset.1 % 4) ∧
      (UInt8.ofNat (offset.1 % 4)).toUInt16 |||
        ((UInt16.ofNat offset.1 >>> 2) &&& 0xFF).toUInt8.toUInt16 <<< 2 = UInt16.ofNat offset.1 := by
  have ho := offset.2
  have hoffset : (UInt16.ofNat offset.1).toNat = offset.1 := by
    rw [UInt16.toNat_ofNat']
    exact Nat.mod_eq_of_lt (by omega)
  have hlow : offset.1 &&& 3 = offset.1 % 4 := Nat.and_two_pow_sub_one_eq_mod _ 2
  have hhigh : offset.1 / 4 &&& 255 = offset.1 / 4 := by
    rw [show 255 = 2 ^ 8 - 1 from rfl, Nat.and_two_pow_sub_one_eq_mod]
    exact Nat.mod_eq_of_lt (by omega)
  constructor
  · apply UInt8.toNat.inj
    rw [UInt16.toNat_toUInt8, UInt16.toNat_and, hoffset, UInt8.toNat_ofNat',
      show UInt16.toNat 3 = 3 from rfl, hlow]
  · apply UInt16.toNat.inj
    have hle : offset.1 % 4 < 2 ^ 2 := Nat.mod_lt _ (by decide)
    rw [UInt16.toNat_or, UInt16.toNat_shiftLeft, UInt8.toNat_toUInt16, UInt8.toNat_toUInt16,
      UInt8.toNat_ofNat', UInt16.toNat_toUInt8, UInt16.toNat_and, UInt16.toNat_shiftRight, hoffset,
      show UInt16.toNat 2 % 16 = 2 from rfl, show UInt16.toNat 0xFF = 255 from rfl,
      Nat.shiftRight_eq_div_pow, show 2 ^ 2 = 4 from rfl, hhigh,
      Nat.mod_eq_of_lt (show offset.1 / 4 < 2 ^ 8 by omega),
      Nat.mod_eq_of_lt (show offset.1 % 4 < 2 ^ 8 by omega), Nat.shiftLeft_eq,
      Nat.mod_eq_of_lt (show offset.1 / 4 * 2 ^ 2 < 2 ^ 16 by omega), Nat.or_comm, ← Nat.shiftLeft_eq,
      ← Nat.shiftLeft_add_eq_or_of_lt hle, Nat.shiftLeft_eq]
    omega

theorem auxPtr_phy (phy : Fin 4) : (UInt8.ofNat phy.1 &&& 0x03) &&& 0x03 = UInt8.ofNat phy.1 := by
  revert phy
  decide +kernel

/-- The pointer comes back out of its three bytes. -/
theorem AuxPtr.decode_encode {p : AuxPtr} (h : p.InRange) :
    ∃ b0 b1 b2, p.encode = [b0, b1, b2] ∧ AuxPtr.decode b0 b1 b2 = p := by
  obtain ⟨channel, offset, phy⟩ := p
  obtain ⟨hchannel, hoffset, hphy⟩ := h
  have hc : channel.toNat < 64 := hchannel
  have ho : offset.toNat < 1024 := hoffset
  have hp : phy.toNat < 4 := hphy
  obtain ⟨hlow, hwhole⟩ := auxPtr_offset ⟨offset.toNat, ho⟩
  obtain ⟨hch, htop⟩ := auxPtr_first ⟨channel.toNat, hc⟩ ⟨offset.toNat % 4, Nat.mod_lt _ (by decide)⟩
  have hph := auxPtr_phy ⟨phy.toNat, hp⟩
  simp only [UInt8.ofNat_toNat, UInt16.ofNat_toNat] at hlow hwhole hch htop hph
  refine ⟨_, _, _, rfl, ?_⟩
  unfold AuxPtr.decode
  rw [AuxPtr.mk.injEq]
  refine ⟨?_, ?_, hph⟩
  · rw [hlow]
    exact hch
  · rw [hlow, htop]
    exact hwhole

namespace AdvPdu

/-! ## Payloads by their length -/

/-- Twelve bytes are a primary packet, whatever they are. -/
theorem decodeExt_twelve {payload : List UInt8} (h : payload.length = 12) :
    ∃ addr mode adi aux, decodeExt payload = .ok (.ok (.advExtInd addr mode adi aux)) := by
  have haddr : ((payload.take 6).drop 0).length = 6 := by simp [h]
  have hadi : ((payload.take 9).drop 7).length = 2 := by simp [h]
  unfold decodeExt
  rw [if_pos h]
  simp (disch := omega) only [idx_of_lt, slice_of_le, ok_bind, Buf.ofSlice_of_length haddr,
    Buf.ofSlice_of_length hadi]
  exact ⟨_, _, _, _, rfl⟩

/-- A primary packet comes back. -/
theorem decodeExt_primary (addr : Buf 6) (mode : UInt8) (adi : Buf 2) {aux : AuxPtr}
    (h : aux.InRange) : decodeExt (addr.bytes ++ [mode] ++ adi.bytes ++ aux.encode) =
      .ok (.ok (.advExtInd addr mode adi aux)) := by
  obtain ⟨b0, b1, b2, henc, hdec⟩ := AuxPtr.decode_encode h
  rw [henc, ← hdec]
  obtain ⟨addr, haddr⟩ := addr
  obtain ⟨adi, hadi⟩ := adi
  match addr, haddr, adi, hadi with
  | [_, _, _, _, _, _], _, [_, _], _ => rfl

/-- Any other payload of at least ten bytes is an auxiliary packet: its ninth byte says where the
    data begins, its tenth is the type. -/
theorem decodeExt_aux (addr : Buf 6) (adi : Buf 2) {len extType : UInt8} {rest : List UInt8}
    (htwelve : rest.length ≠ 2) (hlen : len.toNat ≤ (extType :: rest).length) :
    decodeExt (addr.bytes ++ adi.bytes ++ len :: extType :: rest) =
      .ok (.ok (.auxAdvExtInd addr adi extType ((extType :: rest).drop len.toNat))) := by
  obtain ⟨addr, haddr⟩ := addr
  obtain ⟨adi, hadi⟩ := adi
  match addr, haddr, adi, hadi with
  | [a0, a1, a2, a3, a4, a5], _, [d0, d1], _ =>
    have hsize : (a0 :: a1 :: a2 :: a3 :: a4 :: a5 :: d0 :: d1 :: len :: extType :: rest).length =
        10 + rest.length := by simp only [List.length_cons]; omega
    have hdata : (a0 :: a1 :: a2 :: a3 :: a4 :: a5 :: d0 :: d1 :: len :: extType :: rest).drop
        (9 + len.toNat) = (extType :: rest).drop len.toNat := by
      rw [← List.drop_drop]; rfl
    rw [List.length_cons] at hlen
    show decodeExt (a0 :: a1 :: a2 :: a3 :: a4 :: a5 :: d0 :: d1 :: len :: extType :: rest) = _
    unfold decodeExt
    rw [if_neg (by omega), if_pos (by omega), slice_of_le (by omega) (by omega), ok_bind,
      slice_of_le (by omega) (by omega), ok_bind, idx_of_lt (by omega), ok_bind]
    dsimp only [List.getElem_cons_succ, List.getElem_cons_zero]
    rw [if_pos (by omega), idx_of_lt (by omega), ok_bind,
      slice_of_le (by omega) (Nat.le_refl _), ok_bind, List.take_length, hdata]
    rfl

/-- Three bytes are a periodic packet. -/
theorem decodeExt_periodic (mode : UInt8) (adi : Buf 2) :
    decodeExt (mode :: adi.bytes) = .ok (.ok (.periodicAdv mode adi)) := by
  obtain ⟨adi, hadi⟩ := adi
  match adi, hadi with
  | [_, _], _ => rfl

/-! ## The round trip -/

/-- The extended PDUs: a pointer whose fields fit, and a header that begins with its own length. -/
def Extended : AdvPdu → Prop
  | .advExtInd _ _ _ aux => aux.InRange
  | .auxAdvExtIndWithEh _ _ ehs _ => 2 ≤ ehs.length ∧ (ehs.getD 0 0).toNat = ehs.length - 1
  | .auxAdvExtInd .. | .periodicAdv .. => True
  | _ => False

/-- What a PDU is to be read as: a header is cut down to its type. -/
def readBack : AdvPdu → AdvPdu
  | .auxAdvExtIndWithEh addr adi ehs data => .auxAdvExtInd addr adi (ehs.getD 1 0) data
  | pdu => pdu

/-- An auxiliary packet does not have the length of a primary one. -/
def Unambiguous : AdvPdu → Prop
  | .auxAdvExtInd _ _ _ data => data.length ≠ 2
  | .auxAdvExtIndWithEh _ _ ehs data => ehs.length + data.length ≠ 4
  | _ => True

theorem Extended.sized {pdu : AdvPdu} (h : pdu.Extended) : pdu.Sized := by
  cases pdu with
  | auxAdvExtIndWithEh addr adi ehs data =>
    rintro rfl
    exact absurd h.1 (by decide)
  | connectReq a b llData => exact h.elim
  | _ => trivial

theorem Extended.pduType {pdu : AdvPdu} (h : pdu.Extended) : pdu.pduType = pduAdvExtInd := by
  cases pdu <;> first | rfl | exact h.elim

/-- A payload of twelve bytes is not read as an auxiliary packet. -/
theorem decodeExt_ne_aux {payload : List UInt8} (h : payload.length = 12) (addr : Buf 6) (adi : Buf 2)
    (extType : UInt8) (data : List UInt8) :
    decodeExt payload ≠ .ok (.ok (.auxAdvExtInd addr adi extType data)) := by
  obtain ⟨_, _, _, _, hdec⟩ := decodeExt_twelve h
  rw [hdec]
  rintro ⟨⟩

/-- The payload of an extended PDU is read as the PDU iff it is unambiguous. -/
theorem decodeExt_payload_iff {pdu : AdvPdu} (h : pdu.Extended) :
    decodeExt pdu.payload = .ok (.ok pdu.readBack) ↔ pdu.Unambiguous := by
  cases pdu with
  | advExtInd addr mode adi aux => exact iff_of_true (decodeExt_primary addr mode adi h) trivial
  | periodicAdv mode adi => exact iff_of_true (decodeExt_periodic mode adi) trivial
  | auxAdvExtInd addr adi extType data =>
    constructor
    · intro hdec htwo
      refine decodeExt_ne_aux ?_ _ _ _ _ hdec
      simp [payload, addr.size, adi.size, htwo]
    · intro hne
      show decodeExt (addr.bytes ++ adi.bytes ++ [1, extType] ++ data) = _
      rw [List.append_assoc _ [1, extType]]
      exact decodeExt_aux addr adi hne (by simp)
  | auxAdvExtIndWithEh addr adi ehs data =>
    obtain ⟨htwo, hoctet⟩ := h
    rcases ehs with _ | ⟨len, _ | ⟨extType, tail⟩⟩
    · cases htwo
    · simp at htwo
    · have hlen : len.toNat = tail.length + 1 := by simpa using hoctet
      constructor
      · intro hdec hfour
        refine decodeExt_ne_aux ?_ _ _ _ _ hdec
        simp only [List.length_cons] at hfour
        simp only [payload, List.length_append, List.length_cons, addr.size, adi.size]
        omega
      · intro hne
        have hne' : (tail ++ data).length ≠ 2 := by
          intro hcollide
          rw [List.length_append] at hcollide
          apply hne
          simp only [List.length_cons]
          omega
        show decodeExt (addr.bytes ++ adi.bytes ++ len :: extType :: tail ++ data) = _
        rw [List.append_assoc _ (len :: extType :: tail)]
        refine (decodeExt_aux addr adi hne' (by simp [hlen])).trans ?_
        rw [hlen, List.drop_succ_cons, List.drop_left]
        rfl
  | _ => exact h.elim

/-- **Extended PDUs round-trip** iff no auxiliary packet among them is twelve bytes long. -/
theorem extended_roundtrip_iff (pdu : AdvPdu) (h : pdu.Extended) (out : List UInt8)
    (txAdd rxAdd : Bool) {n : Nat} {out' : List UInt8}
    (hok : pdu.encodeTyped out txAdd rxAdd = .ok (.ok n, out')) :
    decode (out'.take n) = .ok (.ok pdu.readBack) ↔ pdu.Unambiguous := by
  rw [encodeTyped_eq h.sized] at hok
  obtain ⟨hlen, _, rfl, rfl⟩ := written_eq_ok.mp (Except.ok.inj hok)
  rw [← pdu.bytes_length txAdd rxAdd, List.take_left, pdu.decode_bytes txAdd rxAdd hlen, h.pduType]
  exact decodeExt_payload_iff h

/-- An auxiliary packet with a six-byte header and one byte of data. -/
theorem extended_roundtrip_header :
    decode [0x07, 0x1E, 1, 2, 3, 4, 5, 6, 7, 8, 5, 32, 9, 9, 9, 9, 77] =
      .ok (.ok (.auxAdvExtInd ⟨[1, 2, 3, 4, 5, 6], rfl⟩ ⟨[7, 8], rfl⟩ 32 [77])) := by
  have hok : (AdvPdu.auxAdvExtIndWithEh ⟨[1, 2, 3, 4, 5, 6], rfl⟩ ⟨[7, 8], rfl⟩ [5, 32, 9, 9, 9, 9]
      [77]).encodeTyped (List.replicate 17 0) false false =
        .ok (.ok 17, [0x07, 0x1E, 1, 2, 3, 4, 5, 6, 7, 8, 5, 32, 9, 9, 9, 9, 77]) := by decide +kernel
  have hheader : (AdvPdu.auxAdvExtIndWithEh ⟨[1, 2, 3, 4, 5, 6], rfl⟩ ⟨[7, 8], rfl⟩
      [5, 32, 9, 9, 9, 9] [77]).Extended := ⟨by decide, by decide⟩
  exact (extended_roundtrip_iff _ hheader _ false false hok).mpr (show 6 + 1 ≠ 4 by decide)

/-- An auxiliary packet with two bytes of data is read as a primary one: its header becomes part of
    an advertising mode and an auxiliary pointer. -/
theorem two_byte_aux_read_as_primary :
    (AdvPdu.auxAdvExtInd ⟨[1, 2, 3, 4, 5, 6], rfl⟩ ⟨[7, 8], rfl⟩ 0 [21, 22]).Extended ∧
      (AdvPdu.auxAdvExtInd ⟨[1, 2, 3, 4, 5, 6], rfl⟩ ⟨[7, 8], rfl⟩ 0 [21, 22]).encodeTyped
        (List.replicate 14 0) false false =
        .ok (.ok 14, [0x07, 0x18, 1, 2, 3, 4, 5, 6, 7, 8, 1, 0, 21, 22]) ∧
      decode [0x07, 0x18, 1, 2, 3, 4, 5, 6, 7, 8, 1, 0, 21, 22] =
        .ok (.ok (.advExtInd ⟨[1, 2, 3, 4, 5, 6], rfl⟩ 7 ⟨[8, 1], rfl⟩ ⟨0, 84, 2⟩)) ∧
      decode [0x07, 0x18, 1, 2, 3, 4, 5, 6, 7, 8, 1, 0, 21, 22] ≠
        .ok (.ok (AdvPdu.auxAdvExtInd ⟨[1, 2, 3, 4, 5, 6], rfl⟩ ⟨[7, 8], rfl⟩ 0 [21, 22]).readBack) :=
  ⟨trivial, by decide +kernel, by decide +kernel, by decide +kernel⟩

end AdvPdu

end NrfBle
