/-
  The radio driver's length rule (`src/hw/radio.rs`, `Radio::receive_poll`) against the two codecs.

  After a reception the driver tells its caller how many bytes of the buffer are the PDU:
  `2 + ((buf[1] >> 1) & 0x3F)`.  That is the ADVERTISING header's layout (length in bits 1..6 of
  byte 1, `AdvHdr::encode`), and for advertising PDUs the rule is exact.  The DATA header keeps its
  length in bits 0..5, so on the data channel the rule reads half the length, rounded down
  (`poll_data`): it is right only for the empty PDU.  For the same reason it can ask for 65 bytes
  of a 64-byte buffer.  `receivePoll_length_iff` states all three facts with their exact conditions.
-/
import Mathlib.Tactic
import NrfBle.Ll.Pdu

namespace NrfBle

open Checked

namespace Radio

/-- The driver's length rule. -/
def pduLen (buf : List UInt8) : Except Panic Nat := do
  let b1 ← idx buf 1
  return 2 + ((b1 >>> 1) &&& 0x3F).toNat

/-- `Radio::receive_poll`, given the two event registers it reads: `ended` (END is set) and
    `crcOk` (CRCERROR is clear). -/
def receivePoll (ended crcOk : Bool) (buf : List UInt8) :
    Except Panic (Except Error (Option Nat)) := do
  if !ended then return .ok none
  let len ← pduLen buf
  if !crcOk then return .error .crcMismatch
  return .ok (some len)

theorem receivePoll_cons (b0 b1 : UInt8) (rest : List UInt8) :
    receivePoll true true (b0 :: b1 :: rest) =
      .ok (.ok (some (2 + ((b1 >>> 1) &&& 0x3F).toNat))) := rfl

/-- On an encoded data header the rule reads half the payload length. -/
theorem half_length (len : Nat) (h : len ≤ 63) :
    (((UInt8.ofNat len &&& 0b111111) >>> 1) &&& 0x3F).toNat = len / 2 := by
  revert h
  have : ∀ k : Fin 64, (((UInt8.ofNat k.1 &&& 0b111111) >>> 1) &&& 0x3F).toNat = k.1 / 2 := by
    decide +kernel
  intro h
  exact this ⟨len, by omega⟩

/-- The radio's answer on a buffer that holds an encoded advertising PDU. -/
theorem poll_adv {pdu : AdvPdu} {out out' : List UInt8} {txAdd rxAdd : Bool} {n : Nat}
    (h : pdu.encodeTyped out txAdd rxAdd = .ok (.ok n, out')) (rest : List UInt8) :
    receivePoll true true (out'.take n ++ rest) = .ok (.ok (some n)) := by
  obtain ⟨h2, _, _, b0, b1, body, rfl, hlen⟩ := AdvPdu.encodeTyped_length_byte h
  obtain ⟨k, rfl⟩ : ∃ k, n = k + 2 := ⟨n - 2, by omega⟩
  rw [List.take_succ_cons, List.take_succ_cons, List.cons_append, List.cons_append,
    receivePoll_cons, hlen]

/-- The radio's answer on a buffer that holds an encoded data PDU. -/
theorem poll_data {pdu : DataPdu} {out out' : List UInt8} {n : Nat}
    (h : pdu.encode out = .ok (.ok n, out')) (rest : List UInt8) :
    receivePoll true true (out'.take n ++ rest) =
      .ok (.ok (some (2 + pdu.payload.length / 2))) := by
  obtain ⟨rfl, hle, _, rfl⟩ := DataPdu.encode_ok h
  rw [show 2 + pdu.payload.length = pdu.payload.length + 1 + 1 by omega,
    List.take_succ_cons, List.take_succ_cons, List.cons_append, List.cons_append,
    receivePoll_cons, half_length _ hle]

/-- Decoding the whole of an encoded data PDU gives the PDU back (the two LLID bits the header
    has room for). -/
theorem decode_encoded {pdu : DataPdu} {out out' : List UInt8} {n : Nat}
    (h : pdu.encode out = .ok (.ok n, out')) :
    DataPdu.decode (out'.take n) = .ok (.ok { pdu with llid := pdu.llid &&& 0b11 }) := by
  obtain ⟨rfl, hle, _, rfl⟩ := DataPdu.encode_ok h
  rw [show 2 + pdu.payload.length = pdu.payload.length + 1 + 1 by omega,
    List.take_succ_cons, List.take_succ_cons, List.take_left, DataPdu.decode_cons]
  have hlen : pdu.payload.length =
      (UInt8.ofNat pdu.payload.length &&& 0b111111 &&& 0b111111).toNat := by
    rw [UInt8.toNat_and, UInt8.toNat_and, UInt8.toNat_ofNat',
      show (0b111111 : UInt8).toNat = 2 ^ 6 - 1 from rfl, Nat.and_two_pow_sub_one_eq_mod,
      Nat.and_two_pow_sub_one_eq_mod]
    omega
  rw [if_pos hlen, DataPdu.ofBytes_header]

/-- The rule asks for more than 64 bytes exactly when all six length bits are set. -/
theorem rule_le_64 (b1 : UInt8) : 2 + ((b1 >>> 1) &&& 0x3F).toNat ≤ 64 ↔ b1 &&& 0x7E ≠ 0x7E := by
  obtain ⟨b1⟩ := b1
  revert b1
  decide +kernel

/-- **The length rule, with its exact conditions.**
    (1) Every successful encoding of an advertising PDU is measured exactly.
    (2) A successfully encoded data PDU is measured exactly, and the measured prefix decodes to
        it, iff its payload is empty.
    (3) On a 64-byte receive buffer the measured length stays inside the buffer iff bits 1..6 of
        byte 1 are not all set. -/
theorem receivePoll_length_iff (adv : AdvPdu) (txAdd rxAdd : Bool) (pdu : DataPdu)
    (out rest : List UInt8) (buf : Buf 64) :
    (∀ n out', adv.encodeTyped out txAdd rxAdd = .ok (.ok n, out') →
      receivePoll true true (out'.take n ++ rest) = .ok (.ok (some n))) ∧
    (∀ n out', pdu.encode out = .ok (.ok n, out') →
      ((∃ len, receivePoll true true (out'.take n ++ rest) = .ok (.ok (some len)) ∧ len = n ∧
          DataPdu.decode ((out'.take n ++ rest).take len) =
            .ok (.ok { pdu with llid := pdu.llid &&& 0b11 })) ↔
        pdu.payload = [])) ∧
    ((∃ len, receivePoll true true buf.bytes = .ok (.ok (some len)) ∧ len ≤ 64) ↔
      buf.bytes.getD 1 0 &&& 0x7E ≠ 0x7E) := by
  refine ⟨fun n out' h => poll_adv h rest, ?_, ?_⟩
  · intro n out' h
    obtain ⟨hn, _, hspace, hout⟩ := DataPdu.encode_ok h
    constructor
    · rintro ⟨len, hlen, rfl, _⟩
      rw [poll_data h rest] at hlen
      have hhalf : 2 + pdu.payload.length / 2 = len := by simpa using hlen
      exact List.length_eq_zero_iff.mp (by omega)
    · intro hnil
      have htake : (out'.take n).length = n := by
        rw [hout, hn]; simp; omega
      refine ⟨n, ?_, rfl, ?_⟩
      · rw [poll_data h rest, hn, hnil]; rfl
      · rw [List.take_append_of_le_length (by omega), List.take_take, Nat.min_self]
        exact decode_encoded h
  · obtain ⟨bytes, size⟩ := buf
    match bytes with
    | [] => simp at size
    | [_] => simp at size
    | b0 :: b1 :: body =>
      show (∃ len, receivePoll true true (b0 :: b1 :: body) = .ok (.ok (some len)) ∧ len ≤ 64) ↔
        b1 &&& 0x7E ≠ 0x7E
      rw [receivePoll_cons, ← rule_le_64]
      constructor
      · rintro ⟨len, hlen, hle⟩
        have : 2 + ((b1 >>> 1) &&& 0x3F).toNat = len := by simpa using hlen
        omega
      · intro hle
        exact ⟨_, rfl, hle⟩

/-- The conditions at work: an `ADV_IND` with two data bytes is measured as its 10 bytes, an
    empty data PDU as its 2. -/
theorem receivePoll_length_instances :
    receivePoll true true
        ([0x80, 0x10, 1, 2, 3, 4, 5, 6, 0xAA, 0xBB, 0, 0].take 10 ++ []) = .ok (.ok (some 10)) ∧
    (∃ len, receivePoll true true ([3, 0].take 2 ++ []) = .ok (.ok (some len)) ∧ len = 2 ∧
      DataPdu.decode (([3, 0].take 2 ++ ([] : List UInt8)).take len) =
        .ok (.ok ⟨3, false, false, false, []⟩)) := by
  have h := fun out => receivePoll_length_iff (.advInd ⟨[1, 2, 3, 4, 5, 6], rfl⟩ [0xAA, 0xBB]) true
    false ⟨3, false, false, false, []⟩ out [] (Buf.zero 64)
  refine ⟨?_, ?_⟩
  · exact (h (List.replicate 12 0)).1 10 [0x80, 0x10, 1, 2, 3, 4, 5, 6, 0xAA, 0xBB, 0, 0]
      (by decide +kernel)
  · exact ((h [0, 0]).2.1 2 [3, 0] (by decide +kernel)).mpr rfl

/-- A data PDU with two payload bytes is encoded in 4 bytes, measured as 3, and the measured
    prefix is rejected by the decoder; and a receive buffer whose byte 1 is `0x7E` is measured
    as 65 bytes. -/
theorem data_pdu_measured_short :
    (DataPdu.mk 3 false false false [0xAA, 0xBB]).encode [0, 0, 0, 0] =
        .ok (.ok 4, [3, 2, 0xAA, 0xBB]) ∧
      receivePoll true true [3, 2, 0xAA, 0xBB] = .ok (.ok (some 3)) ∧
      DataPdu.decode ([3, 2, 0xAA, 0xBB].take 3) = .ok (.error .invalidLength) ∧
      receivePoll true true ((Buf.zero 64).set 1 0x7E).bytes = .ok (.ok (some 65)) := by
  decide +kernel

end Radio

end NrfBle
