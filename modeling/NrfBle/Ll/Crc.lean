/-
  The BLE CRC-24 (`src/ll/crc.rs`).

  The source keeps the 24-bit register in a `u32`, adds a whole byte to it and shifts eight times.
  `foldl_crcByte` says that this is feeding the byte's bits, lowest first, to a register of 24 bits with
  the reflected polynomial (`ShiftRegister.feed`); `bitsOf_crcBytes` that the three bytes appended to a
  packet are the register's own bits.  So a packet passes the check iff its bits leave nothing
  (`check_iff`), and one followed by its CRC does (`check_append`).  The register the standard draws runs
  the other way, with the polynomial as it is written; the two are reversals of each other
  (`crc24WithInit_eq_reverse`).
-/
import Mathlib.Tactic
import NrfBle.Ll.Pdu
import NrfBle.Lib.ShiftRegister

namespace NrfBle

open Checked ShiftRegister

namespace Crc

/-- `CRC_INIT`. -/
abbrev crcInit : UInt32 := 0x555555

/-- `CRC_POLY`. -/
abbrev crcPoly : UInt32 := 0x00065B

/-- `CRC_REFLECTED_POLY`. -/
abbrev crcReflectedPoly : UInt32 := 0xDA6000

/-- The loop of `reflect`. -/
def reflectLoop : Nat → UInt32 → UInt32 → UInt32
  | 0, _, r => r
  | n + 1, v, r => reflectLoop n (v >>> 1) (r <<< 1 ||| (v &&& 1))

/-- `reflect`. -/
def reflect (value : UInt32) (bits : Nat) : UInt32 := reflectLoop bits value 0

/-- One bit of `crc24_with_init`. -/
def crcBit (crc : UInt32) : UInt32 :=
  if crc &&& 1 ≠ 0 then (crc >>> 1) ^^^ crcReflectedPoly else crc >>> 1

/-- One byte of `crc24_with_init`. -/
def crcByte (crc : UInt32) (b : UInt8) : UInt32 := crcBit^[8] (crc ^^^ b.toUInt32) &&& 0xFFFFFF

/-- `crc24_with_init`. -/
def crc24WithInit (data : List UInt8) (init : UInt32) : UInt32 :=
  data.foldl crcByte (reflect (init &&& 0xFFFFFF) 24)

/-- `crc24`. -/
def crc24 (data : List UInt8) : UInt32 := crc24WithInit data crcInit

/-- `append_crc`: the output as it leaves it. -/
def appendCrc (pdu out : List UInt8) : Except Error (List UInt8) :=
  if out.length < 3 then .error .bufferTooSmall
  else
    let crc := crc24 pdu
    .ok (((out.set 0 crc.toUInt8).set 1 (crc >>> 8).toUInt8).set 2 (crc >>> 16).toUInt8)

/-- `check`. -/
def check (pduWithCrc : List UInt8) : Bool :=
  if pduWithCrc.length < 3 then false else crc24 pduWithCrc == 0

/-! ## As a register of 24 bits -/

/-- The polynomial. -/
def poly : BitVec 24 := 0xDA6000

/-- The register a packet starts with. -/
def start : BitVec 24 := 0xAAAAAA

/-- A register in a `u32`. -/
def embed (r : BitVec 24) : UInt32 := UInt32.ofBitVec (r.setWidth 32)

@[simp] theorem toBitVec_embed (r : BitVec 24) : (embed r).toBitVec = r.setWidth 32 := rfl

theorem embed_injective : Function.Injective embed := by
  intro r s h
  have hbits : r.setWidth 32 = s.setWidth 32 := congrArg UInt32.toBitVec h
  apply BitVec.eq_of_getLsbD_eq
  intro i hi
  have := congrArg (fun x => x.getLsbD i) hbits
  simpa [BitVec.getLsbD_setWidth, show i < 32 by omega] using this

/-- The test of the lowest bit. -/
theorem low_bit (r : BitVec 24) : embed r &&& 1 ≠ 0 ↔ r.getLsbD 0 = true := by
  have hbit : (embed r &&& 1).toBitVec = (BitVec.ofBool (r.getLsbD 0)).setWidth 32 := by
    rw [UInt32.toBitVec_and]
    exact BitVec.and_one_eq_setWidth_ofBool_getLsbD.trans (by rw [toBitVec_embed]; simp)
  rw [ne_eq, ← UInt32.toBitVec_inj, hbit]
  cases r.getLsbD 0 <;> decide

theorem embed_xor (r s : BitVec 24) : embed (r ^^^ s) = embed r ^^^ embed s := by
  apply UInt32.toBitVec_inj.mp
  rw [UInt32.toBitVec_xor, toBitVec_embed, toBitVec_embed, toBitVec_embed, BitVec.setWidth_xor]

theorem embed_shift (r : BitVec 24) : embed r >>> 1 = embed (r >>> 1) := by
  apply UInt32.toBitVec_inj.mp
  apply BitVec.eq_of_getLsbD_eq
  intro i hi
  simp [BitVec.getLsbD_setWidth, hi]

theorem crcBit_embed (r : BitVec 24) : crcBit (embed r) = embed (step poly r) := by
  unfold crcBit step
  rw [embed_shift, embed_xor]
  by_cases hlow : r.getLsbD 0 = true
  · rw [if_pos ((low_bit r).mpr hlow), if_pos hlow]
    rfl
  · rw [if_neg (mt (low_bit r).mp hlow), if_neg hlow]
    exact UInt32.xor_zero.symm

theorem iterate_crcBit (n : Nat) (r : BitVec 24) :
    crcBit^[n] (embed r) = embed ((step poly)^[n] r) := by
  induction n generalizing r with
  | zero => rfl
  | succ n ih => rw [Function.iterate_succ_apply, crcBit_embed, ih, Function.iterate_succ_apply]

/-- A byte in a `u32`. -/
theorem toUInt32_eq_embed (b : UInt8) : b.toUInt32 = embed (ofBits (toBits b.toBitVec)) := by
  apply UInt32.toBitVec_inj.mp
  apply BitVec.eq_of_toNat_eq
  rw [toBitVec_embed, ofBits_toBits]
  simp

/-- The register has no more than 24 bits. -/
theorem embed_mask (r : BitVec 24) : embed r &&& 0xFFFFFF = embed r := by
  apply UInt32.toNat.inj
  have h : (embed r).toNat < 2 ^ 24 := by
    show (r.setWidth 32).toNat < 2 ^ 24
    rw [BitVec.toNat_setWidth_of_le (by decide)]
    exact r.isLt
  rw [UInt32.toNat_and, show (0xFFFFFF : UInt32).toNat = 2 ^ 24 - 1 from rfl,
    Nat.and_two_pow_sub_one_eq_mod, Nat.mod_eq_of_lt h]

/-- A byte is fed bit by bit. -/
theorem crcByte_embed (r : BitVec 24) (b : UInt8) :
    crcByte (embed r) b = embed (feed poly r (toBits b.toBitVec)) := by
  unfold crcByte
  rw [toUInt32_eq_embed, ← embed_xor, iterate_crcBit, embed_mask, feed_eq_steps (by simp), length_toBits]

theorem foldl_crcByte (data : List UInt8) (r : BitVec 24) :
    data.foldl crcByte (embed r) = embed (feed poly r (bitsOf data)) := by
  induction data generalizing r with
  | nil => rfl
  | cons b data ih => rw [List.foldl_cons, crcByte_embed, ih, bitsOf_cons, feed_append]

/-- **The CRC** is what the packet's bits leave in the register. -/
theorem crc24_eq (data : List UInt8) : crc24 data = embed (feed poly start (bitsOf data)) := by
  rw [← foldl_crcByte]
  rfl

/-! ## As the register in normal form -/

/-- A `u32` as a word of 24 bits. -/
def low24 (x : UInt32) : BitVec 24 := x.toBitVec.setWidth 24

/-- After `n` rounds the lowest bits of the value stand in reverse below what was there before. -/
theorem getLsbD_reflectLoop (n : Nat) (v r : UInt32) (i : Nat) (hi : i < 32) :
    (reflectLoop n v r).toBitVec.getLsbD i =
      if i < n then v.toBitVec.getLsbD (n - 1 - i) else r.toBitVec.getLsbD (i - n) := by
  induction n generalizing v r with
  | zero => simp [reflectLoop]
  | succ n ih =>
    have hv : ∀ j, (v >>> 1).toBitVec.getLsbD j = v.toBitVec.getLsbD (j + 1) := by
      intro j
      simp [Nat.add_comm]
    have hr : ∀ j < 32, (r <<< 1 ||| (v &&& 1)).toBitVec.getLsbD j =
        if j = 0 then v.toBitVec.getLsbD 0 else r.toBitVec.getLsbD (j - 1) := by
      intro j hj
      cases j with
      | zero => simp
      | succ j => simp [hj, BitVec.getLsbD_eq_getElem (show j < 32 by omega)]
    rw [reflectLoop, ih, hv, hr _ (by omega)]
    by_cases hlt : i < n
    · rw [if_pos hlt, if_pos (by omega), show n - 1 - i + 1 = n + 1 - 1 - i by omega]
    · rw [if_neg hlt]
      by_cases heq : i = n
      · subst heq
        simp
      · rw [if_neg (by omega), if_neg (by omega), show i - n - 1 = i - (n + 1) by omega]

theorem reflect_eq (x : UInt32) : reflect (x &&& 0xFFFFFF) 24 = embed (low24 x).reverse := by
  apply UInt32.toBitVec_inj.mp
  apply BitVec.eq_of_getLsbD_eq
  intro i hi
  have hmask : ∀ j < 24, (x &&& 0xFFFFFF).toBitVec.getLsbD j = x.toBitVec.getLsbD j := by
    intro j hj
    have hone : (0xFFFFFF : BitVec 32).getLsbD j = true := by
      interval_cases j <;> rfl
    rw [UInt32.toBitVec_and, BitVec.getLsbD_and]
    exact (congrArg _ hone).trans (Bool.and_true _)
  unfold reflect
  rw [getLsbD_reflectLoop _ _ _ _ hi, toBitVec_embed, BitVec.getLsbD_setWidth, BitVec.getLsbD_reverse,
    BitVec.getMsbD_eq_getLsbD]
  by_cases hlt : i < 24
  · rw [if_pos hlt, hmask _ (by omega)]
    simp [low24, hi, hlt, show 24 - 1 - i < 24 by omega]
  · rw [if_neg hlt]
    simp [hlt]

/-- The two polynomials. -/
theorem poly_eq : poly = (low24 crcPoly).reverse := by decide +kernel

/-- **The reflected CRC.**  For every message and every initial value the result is the reversal of
    what the message leaves in the register in normal form, with polynomial `CRC_POLY` and started
    with the lowest 24 bits of that value. -/
theorem crc24WithInit_eq_reverse (data : List UInt8) (init : UInt32) :
    crc24WithInit data init = embed (feedUp (low24 crcPoly) (low24 init) (bitsOf data)).reverse := by
  unfold crc24WithInit
  rw [reflect_eq, foldl_crcByte, poly_eq, reverse_feedUp (by decide)]

/-- The check value of the repository's tests. -/
example : crc24 [0x31, 0x32, 0x33, 0x34, 0x35, 0x36, 0x37, 0x38, 0x39] = 0xC25A56 := by
  decide +kernel

/-! ## The check -/

/-- A packet passes iff its bits leave nothing. -/
theorem check_iff (data : List UInt8) :
    check data = true ↔ 3 ≤ data.length ∧ feed poly start (bitsOf data) = 0 := by
  unfold check
  rw [crc24_eq]
  split
  · constructor
    · intro h
      cases h
    · rintro ⟨h, _⟩
      omega
  · rw [beq_iff_eq]
    constructor
    · exact fun h => ⟨by omega, embed_injective h⟩
    · rintro ⟨_, h⟩
      rw [h]
      rfl

/-- The bytes of a CRC. -/
def crcBytes (crc : UInt32) : List UInt8 := [crc.toUInt8, (crc >>> 8).toUInt8, (crc >>> 16).toUInt8]

theorem appendCrc_eq (pdu : List UInt8) {out : List UInt8} (h : 3 ≤ out.length) :
    appendCrc pdu out = .ok (crcBytes (crc24 pdu) ++ out.drop 3) := by
  unfold appendCrc
  rw [if_neg (by omega)]
  match out, h with
  | _ :: _ :: _ :: rest, _ => rfl

/-- They are the register's bits, in order. -/
theorem bitsOf_crcBytes (r : BitVec 24) : bitsOf (crcBytes (embed r)) = toBits r := by
  simp [bitsOf, crcBytes, toBits, List.range_succ]

/-- **A packet and its CRC** pass. -/
theorem check_append (pdu : List UInt8) : feed poly start (bitsOf (pdu ++ crcBytes (crc24 pdu))) = 0 := by
  rw [bitsOf_append, crc24_eq, bitsOf_crcBytes]
  exact feed_self _ _

end Crc

end NrfBle
