/-
  What a keystream leaves in the CRC register (`src/ll/whiten.rs` and `src/ll/crc.rs`).

  A packet received on another channel than it was sent on has the keystream of the difference of the
  two whitening registers added to it.  That is no burst and of no particular weight; that it leaves
  something in the CRC register, for each of the 63 differences and each length a packet can have, is a
  finite fact about the two registers, and `nonzero_run` is the run that finds it.

  The 64 differences are run side by side, one in each lane of a number (`ShiftRegister.Lanes`), so that
  the run has as many steps as the longest packet has bits.
-/
import Mathlib.Tactic
import NrfBle.Ll.Crc
import NrfBle.Ll.Whiten

namespace NrfBle

open ShiftRegister

namespace Keystream

/-! ## The run -/

/-- The places of the polynomial's ones. -/
def polyOnes : List Nat := [13, 14, 17, 19, 20, 22, 23]

-- The kernel does the run, and knows the operations of `Nat` under their own names.

/-- The keystream registers after one bit. -/
def nextLanes (K : Nat) : Nat :=
  Nat.xor (Nat.mod (Nat.shiftLeft K 64) (2 ^ 448))
    (Nat.xor (Nat.shiftRight K 384) (Nat.mod (Nat.shiftRight K 192) (2 ^ 64)))

/-- The remainder registers after one bit of the keystreams. -/
def remLanes (K R : Nat) : Nat := clockLanes 64 polyOnes (Nat.shiftRight K 384) R

/-- Slice `k` of a number and those above it, added to slice 0 and those above it. -/
def fold (k R : Nat) : Nat := Nat.lor R (Nat.shiftRight R (Nat.mul 64 k))

/-- No remainder but that of lane 0 is zero. -/
def nonzero (R : Nat) : Bool :=
  Nat.beq (Nat.mod (fold 1 (fold 2 (fold 3 (fold 6 (fold 12 R))))) (2 ^ 64)) (2 ^ 64 - 2)

/-- The same now and after each of `n` more bits. -/
def nonzeroFor : Nat → Nat → Nat → Bool
  | 0, _, R => nonzero R
  | n + 1, K, R => nonzero R && nonzeroFor n (nextLanes K) (remLanes K R)

/-- The same from `n` bits on, for `m` more. -/
def nonzeroAfter (m : Nat) : Nat → Nat → Nat → Bool
  | 0, K, R => nonzeroFor m K R
  | n + 1, K, R => nonzeroAfter m n (nextLanes K) (remLanes K R)

/-- The differences 0 to 63 as keystream registers. -/
def differences : Nat :=
  [0xAAAAAAAAAAAAAAAA, 0xCCCCCCCCCCCCCCCC, 0xF0F0F0F0F0F0F0F0, 0xFF00FF00FF00FF00, 0xFFFF0000FFFF0000,
    0xFFFFFFFF00000000, 0].foldr (fun slice above => slice + above * 2 ^ 64) 0

/-- The run: from three bytes to 260. -/
theorem nonzero_run : nonzeroAfter (8 * 257) (8 * 3) differences 0 = true := by decide +kernel

/-! ## What it says -/

theorem poly_ones (j : Nat) : Crc.poly.getLsbD j = decide (j ∈ polyOnes) := by
  by_cases hj : j < 24
  · have hlow : ∀ j : Fin 24, Crc.poly.getLsbD j.1 = decide (j.1 ∈ polyOnes) := by decide
    exact hlow ⟨j, hj⟩
  · rw [BitVec.getLsbD_of_ge _ _ (by omega)]
    simp [polyOnes]
    omega

theorem lanes_differences : Lanes 64 differences (fun d => BitVec.ofNat 7 d) := by
  intro d hd j
  by_cases hj : j < 7
  · have hlow : ∀ (d : Fin 64) (j : Fin 7),
        differences.testBit (64 * j.1 + d.1) = (BitVec.ofNat 7 d.1).getLsbD j.1 := by decide +kernel
    exact hlow ⟨d, hd⟩ ⟨j, hj⟩
  · rw [BitVec.getLsbD_of_ge _ _ (by omega)]
    have hbeyond : differences >>> 448 = 0 := by decide +kernel
    rw [show 64 * j + d = 448 + (64 * (j - 7) + d) by omega, ← Nat.testBit_shiftRight, hbeyond,
      Nat.zero_testBit]

theorem lanes_zero : Lanes 64 0 (fun _ => (0 : BitVec 24)) := by
  intro d _ j
  rw [Nat.zero_testBit]
  exact BitVec.getLsbD_zero.symm

/-- The keystream registers stay in their lanes. -/
theorem lanes_next {K : Nat} {s : Nat → BitVec 7} (hK : Lanes 64 K s) :
    Lanes 64 (nextLanes K) (fun d => Whiten.next (s d)) := by
  intro d hd j
  have hK6 := hK d hd (6 + j)
  have hK3 := hK d hd (3 + j)
  show (((K <<< 64) % 2 ^ 448) ^^^ ((K >>> 384) ^^^ ((K >>> 192) % 2 ^ 64))).testBit (64 * j + d) = _
  rw [Nat.testBit_xor, Nat.testBit_xor, Nat.testBit_mod_two_pow, Nat.testBit_mod_two_pow,
    Nat.testBit_shiftLeft, Nat.testBit_shiftRight, Nat.testBit_shiftRight,
    show 384 + (64 * j + d) = 64 * (6 + j) + d by omega,
    show 192 + (64 * j + d) = 64 * (3 + j) + d by omega, hK6, hK3]
  cases j with
  | zero =>
    rw [Whiten.getLsbD_next _ (by decide), if_pos rfl]
    simp [hd, show ¬ 64 ≤ d by omega]
  | succ j =>
    have hbelow := hK d hd j
    rw [BitVec.getLsbD_of_ge (s d) (6 + (j + 1)) (by omega),
      show 64 * (j + 1) + d - 64 = 64 * j + d by omega, hbelow]
    by_cases hj : j + 1 < 7
    · rw [Whiten.getLsbD_next _ hj, if_neg (by omega)]
      simp [show 64 * (j + 1) + d < 448 by omega, show 64 ≤ 64 * (j + 1) + d by omega,
        show ¬ 64 * (j + 1) + d < 64 by omega]
    · rw [BitVec.getLsbD_of_ge _ (j + 1) (by omega)]
      simp [show ¬ 64 * (j + 1) + d < 448 by omega, show ¬ 64 * (j + 1) + d < 64 by omega]

/-- The highest slice holds the bits put out. -/
theorem testBit_key {K : Nat} {s : Nat → BitVec 7} (hK : Lanes 64 K s) {d : Nat} (hd : d < 64) :
    (Nat.shiftRight K 384).testBit d = Whiten.key (s d) := by
  show (K >>> 384).testBit d = _
  rw [Nat.testBit_shiftRight]
  exact hK d hd 6

theorem key_lt {K : Nat} {s : Nat → BitVec 7} (hK : Lanes 64 K s) : Nat.shiftRight K 384 < 2 ^ 64 := by
  apply Nat.lt_pow_two_of_testBit
  intro i hi
  show (K >>> 384).testBit i = false
  have hdiv : i = 64 * (i / 64) + i % 64 := by omega
  rw [Nat.testBit_shiftRight, show 384 + i = 64 * (6 + i / 64) + i % 64 by omega,
    hK (i % 64) (by omega), BitVec.getLsbD_of_ge _ _ (by omega)]

/-- The remainder registers stay in their lanes. -/
theorem lanes_rem {K R : Nat} {s : Nat → BitVec 7} {r : Nat → BitVec 24} (hK : Lanes 64 K s)
    (hR : Lanes 64 R r) :
    Lanes 64 (remLanes K R) (fun d => clock Crc.poly (r d) (Whiten.key (s d))) :=
  hR.clock (by decide) (key_lt hK) (fun _ hd => testBit_key hK hd) (by decide) poly_ones

/-- A lane of a folded number has a one only if one of its slices does. -/
theorem testBit_fold {k R d i : Nat} (h : (fold k R).testBit (64 * i + d) = true) :
    ∃ j, R.testBit (64 * j + d) = true := by
  change (R ||| R >>> (64 * k)).testBit (64 * i + d) = true at h
  rw [Nat.testBit_or, Nat.testBit_shiftRight, Bool.or_eq_true] at h
  rcases h with h | h
  · exact ⟨i, h⟩
  · exact ⟨k + i, by rwa [Nat.mul_add, Nat.add_assoc]⟩

theorem nonzero_lanes {R : Nat} {r : Nat → BitVec 24} (hR : Lanes 64 R r) (h : nonzero R = true)
    {d : Nat} (hd : d < 64) (hpos : 0 < d) : r d ≠ 0 := by
  have hones : fold 1 (fold 2 (fold 3 (fold 6 (fold 12 R)))) % 2 ^ 64 = 2 ^ 64 - 2 := Nat.eq_of_beq_eq_true h
  have hbit : ∀ d : Fin 64, 0 < d.1 → (2 ^ 64 - 2).testBit d.1 = true := by decide +kernel
  have hlane : (fold 1 (fold 2 (fold 3 (fold 6 (fold 12 R))))).testBit (64 * 0 + d) = true := by
    have := hbit ⟨d, hd⟩ hpos
    rw [← hones, Nat.testBit_mod_two_pow, decide_eq_true hd, Bool.true_and] at this
    rwa [Nat.mul_zero, Nat.zero_add]
  obtain ⟨_, h1⟩ := testBit_fold hlane
  obtain ⟨_, h2⟩ := testBit_fold h1
  obtain ⟨_, h3⟩ := testBit_fold h2
  obtain ⟨_, h6⟩ := testBit_fold h3
  obtain ⟨j, h12⟩ := testBit_fold h6
  intro hzero
  rw [hR d hd, hzero] at h12
  simp at h12

/-- The check, read lane by lane. -/
theorem feed_of_nonzeroFor {n K R : Nat} {s : Nat → BitVec 7} {r : Nat → BitVec 24}
    (hK : Lanes 64 K s) (hR : Lanes 64 R r) (h : nonzeroFor n K R = true) {m : Nat} (hm : m ≤ n)
    {d : Nat} (hd : d < 64) (hpos : 0 < d) :
    feed Crc.poly (r d) (stream Whiten.next Whiten.key m (s d)) ≠ 0 := by
  induction n generalizing K R s r m with
  | zero =>
    obtain rfl : m = 0 := by omega
    exact nonzero_lanes hR h hd hpos
  | succ n ih =>
    obtain ⟨hnow, hrest⟩ := Bool.and_eq_true_iff.mp h
    cases m with
    | zero => exact nonzero_lanes hR hnow hd hpos
    | succ m => exact ih (lanes_next hK) (lanes_rem hK hR) hrest (by omega)

theorem feed_of_nonzeroAfter {m n K R : Nat} {s : Nat → BitVec 7} {r : Nat → BitVec 24}
    (hK : Lanes 64 K s) (hR : Lanes 64 R r) (h : nonzeroAfter m n K R = true) {k : Nat} (hk : n ≤ k)
    (hkm : k ≤ n + m) {d : Nat} (hd : d < 64) (hpos : 0 < d) :
    feed Crc.poly (r d) (stream Whiten.next Whiten.key k (s d)) ≠ 0 := by
  induction n generalizing K R s r k with
  | zero => exact feed_of_nonzeroFor hK hR h (by omega) hd hpos
  | succ n ih =>
    cases k with
    | zero => omega
    | succ k => exact ih (lanes_next hK) (lanes_rem hK hR) h (by omega) (by omega)

/-- **A keystream is seen by the CRC**: from a register that differs from zero in its low six bits
    only, over the length of a packet, it leaves something. -/
theorem feed_stream_ne_zero {d : BitVec 7} (hne : d ≠ 0) (hlow : d.toNat < 64) {n : Nat} (h3 : 3 ≤ n)
    (hmax : n ≤ 260) : feed Crc.poly 0 (stream Whiten.next Whiten.key (8 * n) d) ≠ 0 := by
  have hpos : 0 < d.toNat := Nat.pos_of_ne_zero fun h => hne (BitVec.eq_of_toNat_eq h)
  have hrun := feed_of_nonzeroAfter lanes_differences lanes_zero nonzero_run
    (show 8 * 3 ≤ 8 * n by omega) (by omega) hlow hpos
  rwa [BitVec.ofNat_toNat, BitVec.setWidth_eq] at hrun

end Keystream

end NrfBle
