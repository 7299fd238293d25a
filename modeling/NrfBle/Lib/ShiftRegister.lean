/-
  Shift registers over bits: the remainder register of a cyclic redundancy check, and the register
  that generates a keystream.

  A word holds its bits lowest first.  A remainder register of `w` bits is shifted down; the bit that
  goes out decides whether the polynomial comes in (`step`).  A message is fed bit by bit, each bit
  added to the one that is about to go out (`feed`).  What the detection of errors rests on:

  * everything is linear (`feed_xor`), so a message with an error added has the remainder of the
    message with the remainder of the error added;
  * up to `w` bits fed one by one are as good as added at once (`feed_eq_steps`); so a message
    followed by its own remainder leaves nothing (`feed_self`);
  * with a polynomial that has its top bit a shift loses nothing (`step_eq_zero`), so no error within
    `w` positions leaves nothing (`feed_burst_ne_zero`);
  * with a polynomial of odd weight a shift keeps the parity (`parity_step`), so no error of odd
    weight does (`feed_odd_ne_zero`).

  A keystream is what an autonomous linear register puts out; the sum of two keystreams is that of the
  sum of the two states (`stream_xor`).
-/
import Mathlib.Data.List.GetD
import Mathlib.Data.ZMod.Basic
import Mathlib.Tactic

namespace ShiftRegister

/-! ## Words and their bits -/

section Bits

variable {w : Nat}

/-- The word with these bits, lowest first; what does not fit is cut off. -/
def ofBits (bs : List Bool) : BitVec w := (BitVec.ofBoolListLE bs).setWidth w

/-- The bits of a word, lowest first. -/
def toBits (x : BitVec w) : List Bool := (List.range w).map x.getLsbD

@[simp] theorem length_toBits (x : BitVec w) : (toBits x).length = w := by
  rw [toBits, List.length_map, List.length_range]

theorem getLsbD_ofBits (bs : List Bool) (i : Nat) :
    (ofBits bs : BitVec w).getLsbD i = (decide (i < w) && bs.getD i false) := by
  rw [ofBits, BitVec.getLsbD_setWidth, BitVec.getLsbD_ofBoolListLE]

theorem getD_toBits (x : BitVec w) (i : Nat) : (toBits x).getD i false = x.getLsbD i := by
  unfold toBits
  by_cases h : i < w
  · simp [h]
  · simp [h, BitVec.getLsbD_of_ge x i (by omega)]

theorem getElem_toBits (x : BitVec w) {i : Nat} (h : i < (toBits x).length) :
    (toBits x)[i] = x.getLsbD i := by
  simp [toBits]

/-- The bits of a word make it, in a word at least as wide too. -/
theorem ofBits_toBits {v : Nat} (x : BitVec v) : (ofBits (toBits x) : BitVec w) = x.setWidth w := by
  apply BitVec.eq_of_getLsbD_eq
  intro i hi
  rw [getLsbD_ofBits, getD_toBits, BitVec.getLsbD_setWidth]

@[simp] theorem ofBits_nil : (ofBits [] : BitVec w) = 0 := by
  apply BitVec.eq_of_getLsbD_eq
  intro i hi
  simp [getLsbD_ofBits]

/-- Bits that fit are not lost. -/
theorem ofBits_ne_zero {bs : List Bool} (hlen : bs.length ≤ w) (h : true ∈ bs) :
    (ofBits bs : BitVec w) ≠ 0 := by
  intro hzero
  obtain ⟨i, hi, hbit⟩ := List.getElem_of_mem h
  have hget : (ofBits bs : BitVec w).getLsbD i = true := by
    rw [getLsbD_ofBits, List.getD_eq_getElem _ _ hi, hbit]
    simp only [Bool.and_true, decide_eq_true_eq]
    omega
  rw [hzero] at hget
  simp at hget

end Bits

/-! ## Sums of messages -/

section Sums

theorem zipWith_xor_assoc (xs ys zs : List Bool) :
    List.zipWith (· ^^ ·) (List.zipWith (· ^^ ·) xs ys) zs =
      List.zipWith (· ^^ ·) xs (List.zipWith (· ^^ ·) ys zs) := by
  induction xs generalizing ys zs with
  | nil => rfl
  | cons x xs ih =>
    match ys, zs with
    | [], _ => rfl
    | _ :: _, [] => rfl
    | y :: ys, z :: zs => simp only [List.zipWith_cons_cons, ih, Bool.xor_assoc]

theorem zipWith_xor_right_comm (xs ys zs : List Bool) :
    List.zipWith (· ^^ ·) (List.zipWith (· ^^ ·) xs ys) zs =
      List.zipWith (· ^^ ·) (List.zipWith (· ^^ ·) xs zs) ys := by
  rw [zipWith_xor_assoc, zipWith_xor_assoc]
  exact congrArg _ (List.zipWith_comm_of_comm Bool.xor_comm)

/-- Added twice, a message is gone. -/
theorem zipWith_xor_cancel {xs ys : List Bool} (h : xs.length = ys.length) :
    List.zipWith (· ^^ ·) (List.zipWith (· ^^ ·) xs ys) ys = xs := by
  induction xs generalizing ys with
  | nil => rfl
  | cons x xs ih =>
    match ys, h with
    | y :: ys, h =>
      rw [List.zipWith_cons_cons, List.zipWith_cons_cons, ih (Nat.succ.inj h), Bool.xor_assoc,
        Bool.xor_self, Bool.xor_false]

/-- Two sums with the same keystream differ as the messages do. -/
theorem zipWith_xor_both {ys ks : List Bool} (xs : List Bool) (h : ys.length = ks.length) :
    List.zipWith (· ^^ ·) (List.zipWith (· ^^ ·) xs ks) (List.zipWith (· ^^ ·) ys ks) =
      List.zipWith (· ^^ ·) xs ys := by
  rw [zipWith_xor_right_comm, zipWith_xor_assoc, zipWith_xor_cancel h]

/-- The keystream is what was added. -/
theorem zipWith_xor_left_inj {xs ks ks' : List Bool} (hk : xs.length = ks.length)
    (hk' : xs.length = ks'.length)
    (h : List.zipWith (· ^^ ·) xs ks = List.zipWith (· ^^ ·) xs ks') : ks = ks' := by
  have hcomm : ∀ xs ys : List Bool, List.zipWith (· ^^ ·) xs ys = List.zipWith (· ^^ ·) ys xs :=
    fun _ _ => List.zipWith_comm_of_comm Bool.xor_comm
  have hsame := congrArg (fun zs => List.zipWith (· ^^ ·) zs xs) h
  rwa [hcomm xs ks, hcomm xs ks', zipWith_xor_cancel hk.symm, zipWith_xor_cancel hk'.symm] at hsame

end Sums

/-! ## The remainder register -/

section Register

variable {w : Nat} (poly : BitVec w)

/-- One shift: the lowest bit goes out, and if it was set the polynomial comes in. -/
def step (r : BitVec w) : BitVec w := (r >>> 1) ^^^ (if r.getLsbD 0 then poly else 0)

/-- Feed one bit. -/
def clock (r : BitVec w) (b : Bool) : BitVec w := step poly (r ^^^ ofBits [b])

/-- Feed a message. -/
def feed (r : BitVec w) (bs : List Bool) : BitVec w := bs.foldl (clock poly) r

variable {poly}

theorem getLsbD_step (r : BitVec w) (i : Nat) :
    (step poly r).getLsbD i = (r.getLsbD (i + 1) ^^ (r.getLsbD 0 && poly.getLsbD i)) := by
  unfold step
  rw [BitVec.getLsbD_xor, BitVec.getLsbD_ushiftRight, Nat.add_comm 1 i]
  cases r.getLsbD 0 <;> simp

/-! ### Linearity -/

@[simp] theorem step_zero : step poly 0 = 0 := by
  apply BitVec.eq_of_getLsbD_eq
  intro i hi
  simp [getLsbD_step]

theorem step_xor (r s : BitVec w) : step poly (r ^^^ s) = step poly r ^^^ step poly s := by
  apply BitVec.eq_of_getLsbD_eq
  intro i hi
  simp only [getLsbD_step, BitVec.getLsbD_xor]
  cases r.getLsbD (i + 1) <;> cases s.getLsbD (i + 1) <;> cases r.getLsbD 0 <;> cases s.getLsbD 0 <;>
    simp

theorem ofBits_xor (b c : Bool) :
    (ofBits [b ^^ c] : BitVec w) = ofBits [b] ^^^ ofBits [c] := by
  apply BitVec.eq_of_getLsbD_eq
  intro i hi
  rw [BitVec.getLsbD_xor, getLsbD_ofBits, getLsbD_ofBits, getLsbD_ofBits]
  cases i <;> simp [hi]

theorem clock_xor (r s : BitVec w) (b c : Bool) :
    clock poly (r ^^^ s) (b ^^ c) = clock poly r b ^^^ clock poly s c := by
  unfold clock
  rw [← step_xor, ofBits_xor]
  congr 1
  ac_rfl

theorem feed_append (r : BitVec w) (xs ys : List Bool) :
    feed poly r (xs ++ ys) = feed poly (feed poly r xs) ys := List.foldl_append

/-- **Linearity**: the sum of two messages leaves the sum of what they leave. -/
theorem feed_xor {xs ys : List Bool} (h : xs.length = ys.length) (r s : BitVec w) :
    feed poly (r ^^^ s) (List.zipWith (· ^^ ·) xs ys) = feed poly r xs ^^^ feed poly s ys := by
  induction xs generalizing ys r s with
  | nil =>
    obtain rfl := List.length_eq_zero_iff.mp h.symm
    rfl
  | cons x xs ih =>
    match ys, h with
    | y :: ys, h =>
      show feed poly (clock poly (r ^^^ s) (x ^^ y)) (List.zipWith (· ^^ ·) xs ys) = _
      rw [clock_xor]
      exact ih (Nat.succ.inj h) _ _

/-! ### Feeding all at once -/

theorem step_ofBits_cons (b : Bool) {bs : List Bool} (h : bs.length < w) :
    step poly (ofBits (b :: bs)) = step poly (ofBits [b]) ^^^ ofBits bs := by
  apply BitVec.eq_of_getLsbD_eq
  intro i hi
  have htop : (decide (i + 1 < w) && bs.getD i false) = (decide (i < w) && bs.getD i false) := by
    by_cases hlast : i + 1 < w
    · simp [hlast, hi]
    · rw [List.getD_eq_default _ _ (by omega), Bool.and_false, Bool.and_false]
  simp only [BitVec.getLsbD_xor, getLsbD_step, getLsbD_ofBits, List.getD_cons_succ,
    List.getD_cons_zero, List.getD_nil, Bool.and_false, Bool.false_xor, htop]
  rw [Bool.xor_comm]

/-- **Up to `w` bits** may be added at once, and the register then shifted as often. -/
theorem feed_eq_steps {bs : List Bool} (h : bs.length ≤ w) (r : BitVec w) :
    feed poly r bs = (step poly)^[bs.length] (r ^^^ ofBits bs) := by
  induction bs generalizing r with
  | nil => simp [feed]
  | cons b bs ih =>
    rw [List.length_cons] at h
    show feed poly (clock poly r b) bs = (step poly)^[bs.length + 1] _
    rw [ih (by omega), Function.iterate_succ_apply, step_xor, step_ofBits_cons b (by omega), clock,
      step_xor, BitVec.xor_assoc]

theorem iterate_step_zero (n : Nat) : (step poly)^[n] 0 = 0 := Function.iterate_fixed step_zero n

/-- A message followed by its own remainder leaves nothing. -/
theorem feed_self (r : BitVec w) (bs : List Bool) :
    feed poly r (bs ++ toBits (feed poly r bs)) = 0 := by
  rw [feed_append, feed_eq_steps (by simp), ofBits_toBits, BitVec.setWidth_eq, BitVec.xor_self]
  exact iterate_step_zero _

theorem feed_zeros (r : BitVec w) (n : Nat) :
    feed poly r (List.replicate n false) = (step poly)^[n] r := by
  induction n generalizing r with
  | zero => rfl
  | succ n ih =>
    have hclock : clock poly r false = step poly r := by
      unfold clock
      congr 1
      apply BitVec.eq_of_getLsbD_eq
      intro i hi
      rw [BitVec.getLsbD_xor, getLsbD_ofBits]
      cases i <;> simp
    show feed poly (clock poly r false) (List.replicate n false) = _
    rw [hclock, ih, Function.iterate_succ_apply]

/-! ### Bursts -/

section TopBit

variable (htop : poly.getLsbD (w - 1) = true)

include htop

/-- With its top bit set in the polynomial, a shift loses nothing. -/
theorem step_eq_zero {r : BitVec w} (h : step poly r = 0) : r = 0 := by
  have hbit : ∀ i, (r.getLsbD (i + 1) ^^ (r.getLsbD 0 && poly.getLsbD i)) = false := by
    intro i
    rw [← getLsbD_step, h]
    simp
  have hlow : r.getLsbD 0 = false := by
    have := hbit (w - 1)
    rw [htop, BitVec.getLsbD_of_ge r (w - 1 + 1) (by omega)] at this
    simpa using this
  apply BitVec.eq_of_getLsbD_eq
  intro i hi
  show r.getLsbD i = (0#w).getLsbD i
  rw [BitVec.getLsbD_zero]
  cases i with
  | zero => exact hlow
  | succ i => simpa [hlow] using hbit i

theorem iterate_step_ne_zero {r : BitVec w} (h : r ≠ 0) (n : Nat) : (step poly)^[n] r ≠ 0 := by
  induction n with
  | zero => exact h
  | succ n ih =>
    rw [Function.iterate_succ_apply']
    exact fun hzero => ih (step_eq_zero htop hzero)

/-- **A burst is seen**: an error within `w` positions leaves something. -/
theorem feed_burst_ne_zero {burst : List Bool} (hlen : burst.length ≤ w) (htrue : true ∈ burst)
    (i j : Nat) :
    feed poly 0 (List.replicate i false ++ burst ++ List.replicate j false) ≠ 0 := by
  have hbefore : feed poly 0 (List.replicate i false) = 0 := by rw [feed_zeros, iterate_step_zero]
  rw [feed_append, feed_append, hbefore, feed_eq_steps hlen, feed_zeros,
    show (0 : BitVec w) ^^^ ofBits burst = ofBits burst from BitVec.zero_xor]
  exact iterate_step_ne_zero htop (iterate_step_ne_zero htop (ofBits_ne_zero hlen htrue) _) j

/-- All ones are within `n` consecutive positions. -/
def Within (n : Nat) (bs : List Bool) : Prop := ∃ i, ∀ j, bs.getD j false = true → i ≤ j ∧ j < i + n

omit htop in
theorem eq_zeros {bs : List Bool} (h : ∀ j, bs.getD j false ≠ true) :
    bs = List.replicate bs.length false := by
  rw [List.eq_replicate_iff]
  refine ⟨rfl, fun b hb => ?_⟩
  obtain ⟨j, hj, rfl⟩ := List.getElem_of_mem hb
  have := h j
  rw [List.getD_eq_getElem _ _ hj] at this
  simpa using this

/-- The same, told by the positions of the ones. -/
theorem feed_within_ne_zero {bs : List Bool} (h : Within w bs) (htrue : true ∈ bs) :
    feed poly 0 bs ≠ 0 := by
  obtain ⟨i, hi⟩ := h
  have hbefore : bs.take i = List.replicate (bs.take i).length false := by
    apply eq_zeros
    intro j hj
    by_cases hlt : j < i
    · rw [List.getD_eq_getElem?_getD, List.getElem?_take_of_lt hlt, ← List.getD_eq_getElem?_getD] at hj
      have := (hi j hj).1
      omega
    · rw [List.getD_eq_default _ _ (by rw [List.length_take]; omega)] at hj
      cases hj
  have hafter : bs.drop (i + w) = List.replicate (bs.drop (i + w)).length false := by
    apply eq_zeros
    intro j hj
    rw [List.getD_eq_getElem?_getD, List.getElem?_drop, ← List.getD_eq_getElem?_getD] at hj
    have := (hi _ hj).2
    omega
  have hparts : bs = bs.take i ++ (bs.drop i).take w ++ bs.drop (i + w) := by
    rw [List.append_assoc, ← List.drop_drop, List.take_append_drop, List.take_append_drop]
  have hburst : true ∈ (bs.drop i).take w := by
    rw [hparts, hbefore, hafter] at htrue
    simpa [List.mem_append, List.mem_replicate] using htrue
  rw [hparts, hbefore, hafter]
  exact feed_burst_ne_zero htop (List.length_take_le w _) hburst _ _

end TopBit

/-! ### Parity -/

/-- A bit as a number modulo 2. -/
def bitZ (b : Bool) : ZMod 2 := if b then 1 else 0

theorem bitZ_xor (b c : Bool) : bitZ (b ^^ c) = bitZ b + bitZ c := by
  revert b c
  decide

theorem bitZ_and (b c : Bool) : bitZ (b && c) = bitZ b * bitZ c := by
  revert b c
  decide

/-- The parity of a word. -/
def parity (r : BitVec w) : ZMod 2 := ∑ i ∈ Finset.range w, bitZ (r.getLsbD i)

theorem parity_xor (r s : BitVec w) : parity (r ^^^ s) = parity r + parity s := by
  unfold parity
  rw [← Finset.sum_add_distrib]
  apply Finset.sum_congr rfl
  intro i _
  rw [BitVec.getLsbD_xor, bitZ_xor]

/-- With a polynomial of odd weight a shift keeps the parity. -/
theorem parity_step (hodd : parity poly = 1) (r : BitVec w) : parity (step poly r) = parity r := by
  have hshift : ∑ i ∈ Finset.range w, bitZ (r.getLsbD (i + 1)) + bitZ (r.getLsbD 0) = parity r := by
    rw [← Finset.sum_range_succ' (fun i => bitZ (r.getLsbD i)), Finset.sum_range_succ,
      BitVec.getLsbD_of_ge r w (Nat.le_refl w)]
    exact add_zero _
  calc parity (step poly r)
      = ∑ i ∈ Finset.range w, (bitZ (r.getLsbD (i + 1)) + bitZ (r.getLsbD 0) * bitZ (poly.getLsbD i)) := by
        apply Finset.sum_congr rfl
        intro i _
        rw [getLsbD_step, bitZ_xor, bitZ_and]
    _ = ∑ i ∈ Finset.range w, bitZ (r.getLsbD (i + 1)) + bitZ (r.getLsbD 0) * parity poly := by
        rw [Finset.sum_add_distrib, ← Finset.mul_sum]
        rfl
    _ = parity r := by rw [hodd, mul_one, hshift]

theorem parity_ofBits_one (hw : 0 < w) (b : Bool) : parity (ofBits [b] : BitVec w) = bitZ b := by
  unfold parity
  rw [Finset.sum_eq_single_of_mem 0 (Finset.mem_range.mpr hw)]
  · rw [getLsbD_ofBits]
    simp [hw]
  · intro i _ hi
    obtain ⟨k, rfl⟩ := Nat.exists_eq_succ_of_ne_zero hi
    rw [getLsbD_ofBits]
    simp [bitZ]

/-- What a message adds to the parity is the number of its ones. -/
theorem parity_feed (hw : 0 < w) (hodd : parity poly = 1) (bs : List Bool) (r : BitVec w) :
    parity (feed poly r bs) = parity r + (bs.count true : ZMod 2) := by
  induction bs generalizing r with
  | nil => simp [feed]
  | cons b bs ih =>
    show parity (feed poly (clock poly r b) bs) = _
    rw [ih, clock, parity_step hodd, parity_xor, parity_ofBits_one hw, List.count_cons]
    cases b with
    | false => simp [bitZ]
    | true =>
      simp [bitZ]
      ring

/-- **An error of odd weight is seen.** -/
theorem feed_odd_ne_zero (hw : 0 < w) (hodd : parity poly = 1) {bs : List Bool}
    (h : Odd (bs.count true)) : feed poly 0 bs ≠ 0 := by
  intro hzero
  have hpar := parity_feed hw hodd bs 0
  have hzeroPar : parity (0 : BitVec w) = 0 := by simp [parity, bitZ]
  rw [hzero, hzeroPar, zero_add, ZMod.natCast_eq_one_iff_odd.mpr h] at hpar
  exact zero_ne_one hpar

theorem getLsbD_clock (r : BitVec w) (b : Bool) (hw : 0 < w) (j : Nat) :
    (clock poly r b).getLsbD j = (r.getLsbD (j + 1) ^^ ((r.getLsbD 0 ^^ b) && poly.getLsbD j)) := by
  unfold clock
  rw [getLsbD_step, BitVec.getLsbD_xor, BitVec.getLsbD_xor, getLsbD_ofBits, getLsbD_ofBits]
  simp [hw]

/-! ### The register in normal form -/

section Normal

/-- One bit fed to a register in normal form: it is shifted up, and the polynomial comes in if the bit
    that goes out is not the message's. -/
def clockUp (poly r : BitVec w) (b : Bool) : BitVec w :=
  (r <<< 1) ^^^ (if r.msb ≠ b then poly else 0)

/-- Feed a message to a register in normal form. -/
def feedUp (poly r : BitVec w) (bs : List Bool) : BitVec w := bs.foldl (clockUp poly) r

/-- One bit: the two registers stay reversals of each other. -/
theorem reverse_clockUp (hw : 0 < w) (poly r : BitVec w) (b : Bool) :
    (clockUp poly r b).reverse = clock poly.reverse r.reverse b := by
  have hout : r.reverse.getLsbD 0 = r.msb := BitVec.getLsbD_reverse
  apply BitVec.eq_of_getLsbD_eq
  intro i hi
  rw [getLsbD_clock _ _ hw, hout, BitVec.getLsbD_reverse, BitVec.getLsbD_reverse,
    BitVec.getLsbD_reverse]
  unfold clockUp
  rw [BitVec.getMsbD_xor, BitVec.getMsbD_shiftLeft]
  cases r.msb <;> cases b <;> simp

/-- **The register in normal form** is the other one with the polynomial and the state reversed. -/
theorem reverse_feedUp (hw : 0 < w) (poly r : BitVec w) (bs : List Bool) :
    (feedUp poly r bs).reverse = feed poly.reverse r.reverse bs := by
  induction bs generalizing r with
  | nil => rfl
  | cons b bs ih =>
    show (feedUp poly (clockUp poly r b) bs).reverse = feed poly.reverse (clock _ r.reverse b) bs
    rw [ih, reverse_clockUp hw]

end Normal

/-! ### Many registers at once -/

section Lanes

variable {L : Nat}

/-- `L` registers in one number: bit `j` of the register in lane `d` is its bit `L * j + d`. -/
def Lanes (L R : Nat) (r : Nat → BitVec w) : Prop :=
  ∀ d < L, ∀ j, R.testBit (L * j + d) = (r d).getLsbD j

/-- A bit of each lane, in the positions `ps` of all registers. -/
def spread (L : Nat) (ps : List Nat) (x : Nat) : Nat :=
  ps.foldr (fun p acc => Nat.xor (Nat.shiftLeft x (Nat.mul L p)) acc) 0

/-- Feed each register its bit of `key`. -/
def clockLanes (L : Nat) (ps : List Nat) (key R : Nat) : Nat :=
  Nat.xor (Nat.shiftRight R L) (spread L ps (Nat.xor (Nat.mod R (2 ^ L)) key))

theorem testBit_shiftLeft_lane {x : Nat} (hx : x < 2 ^ L) {d : Nat} (hd : d < L) (p j : Nat) :
    (x <<< (L * p)).testBit (L * j + d) = (decide (j = p) && x.testBit d) := by
  rw [Nat.testBit_shiftLeft]
  rcases Nat.lt_trichotomy j p with hlt | rfl | hgt
  · have hle : L * (j + 1) ≤ L * p := Nat.mul_le_mul_left L hlt
    rw [Nat.mul_succ] at hle
    simp [show ¬ L * p ≤ L * j + d by omega, show j ≠ p by omega]
  · simp
  · have hle : L * (p + 1) ≤ L * j := Nat.mul_le_mul_left L hgt
    rw [Nat.mul_succ] at hle
    have hbeyond : x.testBit (L * j + d - L * p) = false :=
      Nat.testBit_lt_two_pow (Nat.lt_of_lt_of_le hx (Nat.pow_le_pow_right (by decide) (by omega)))
    simp [hbeyond, show j ≠ p by omega]

theorem testBit_spread {ps : List Nat} (hps : ps.Nodup) {x : Nat} (hx : x < 2 ^ L) {d : Nat}
    (hd : d < L) (j : Nat) :
    (spread L ps x).testBit (L * j + d) = (decide (j ∈ ps) && x.testBit d) := by
  induction ps with
  | nil => simp [spread]
  | cons p ps ih =>
    obtain ⟨hp, hnodup⟩ := List.nodup_cons.mp hps
    show ((x <<< (L * p)) ^^^ spread L ps x).testBit (L * j + d) = _
    rw [Nat.testBit_xor, testBit_shiftLeft_lane hx hd, ih hnodup]
    by_cases hj : j = p
    · subst hj
      simp [hp]
    · simp [hj]

/-- **All lanes are fed** at once. -/
theorem Lanes.clock {R key : Nat} {r : Nat → BitVec w} {k : Nat → Bool} {ps : List Nat} (hw : 0 < w)
    (hR : Lanes L R r) (hkey : key < 2 ^ L) (hk : ∀ d < L, key.testBit d = k d) (hps : ps.Nodup)
    (hpoly : ∀ j, poly.getLsbD j = decide (j ∈ ps)) :
    Lanes L (clockLanes L ps key R) (fun d => clock poly (r d) (k d)) := by
  intro d hd j
  have hout : (R % 2 ^ L) ^^^ key < 2 ^ L := Nat.xor_lt_two_pow (Nat.mod_lt _ (by positivity)) hkey
  have hlow := hR d hd 0
  rw [Nat.mul_zero, Nat.zero_add] at hlow
  show ((R >>> L) ^^^ spread L ps ((R % 2 ^ L) ^^^ key)).testBit (L * j + d) = _
  rw [Nat.testBit_xor, Nat.testBit_shiftRight, testBit_spread hps hout hd, Nat.testBit_xor,
    Nat.testBit_mod_two_pow, hk d hd, hlow, getLsbD_clock _ _ hw, hpoly,
    show L + (L * j + d) = L * (j + 1) + d by rw [Nat.mul_succ]; omega, hR d hd]
  simp [hd, Bool.and_comm]

end Lanes

end Register

/-! ## Keystreams -/

section Stream

variable {k : Nat} {next : BitVec k → BitVec k} {out : BitVec k → Bool}

/-- What an autonomous register puts out in `n` steps. -/
def stream (next : BitVec k → BitVec k) (out : BitVec k → Bool) : Nat → BitVec k → List Bool
  | 0, _ => []
  | n + 1, s => out s :: stream next out n (next s)

@[simp] theorem length_stream (n : Nat) (s : BitVec k) : (stream next out n s).length = n := by
  induction n generalizing s with
  | zero => rfl
  | succ n ih => rw [stream, List.length_cons, ih]

theorem getElem_stream {n : Nat} (s : BitVec k) {j : Nat} (h : j < (stream next out n s).length) :
    (stream next out n s)[j] = out (next^[j] s) := by
  induction n generalizing s j with
  | zero => simp at h
  | succ n ih =>
    cases j with
    | zero => rfl
    | succ j =>
      rw [Function.iterate_succ_apply]
      exact ih (next s) _

theorem stream_add (m n : Nat) (s : BitVec k) :
    stream next out (m + n) s = stream next out m s ++ stream next out n (next^[m] s) := by
  induction m generalizing s with
  | zero => rw [Nat.zero_add]; rfl
  | succ m ih => rw [Nat.succ_add, stream, ih, stream, Function.iterate_succ_apply]; rfl

/-- The sum of two keystreams of a linear register. -/
theorem stream_xor (hnext : ∀ a b, next (a ^^^ b) = next a ^^^ next b)
    (hout : ∀ a b, out (a ^^^ b) = (out a ^^ out b)) (n : Nat) (a b : BitVec k) :
    List.zipWith (· ^^ ·) (stream next out n a) (stream next out n b) =
      stream next out n (a ^^^ b) := by
  induction n generalizing a b with
  | zero => rfl
  | succ n ih =>
    rw [stream, stream, stream, List.zipWith_cons_cons, ih, hout, hnext]

end Stream

/-! ## Bytes -/

section Bytes

/-- The bits of a message, byte by byte, lowest first. -/
def bitsOf (bytes : List UInt8) : List Bool := bytes.flatMap fun b => toBits b.toBitVec

theorem bitsOf_cons (b : UInt8) (bytes : List UInt8) :
    bitsOf (b :: bytes) = toBits b.toBitVec ++ bitsOf bytes := List.flatMap_cons

theorem bitsOf_append (xs ys : List UInt8) : bitsOf (xs ++ ys) = bitsOf xs ++ bitsOf ys :=
  List.flatMap_append

theorem length_bitsOf (bytes : List UInt8) : (bitsOf bytes).length = 8 * bytes.length := by
  induction bytes with
  | nil => rfl
  | cons b bytes ih => rw [bitsOf_cons, List.length_append, ih, length_toBits, List.length_cons]; omega

theorem toBits_injective {w : Nat} : Function.Injective (toBits : BitVec w → List Bool) := by
  intro x y h
  apply BitVec.eq_of_getLsbD_eq
  intro i _
  rw [← getD_toBits, ← getD_toBits, h]

theorem bitsOf_injective : Function.Injective bitsOf := by
  intro xs ys h
  induction xs generalizing ys with
  | nil =>
    have hlen := congrArg List.length h
    rw [length_bitsOf, length_bitsOf] at hlen
    exact (List.length_eq_zero_iff.mp (by simpa using hlen.symm)).symm
  | cons x xs ih =>
    match ys with
    | [] =>
      have hlen := congrArg List.length h
      rw [length_bitsOf, length_bitsOf] at hlen
      simp at hlen
    | y :: ys =>
      rw [bitsOf_cons, bitsOf_cons] at h
      obtain ⟨hhead, htail⟩ := List.append_inj h (by simp)
      rw [UInt8.toBitVec_inj.mp (toBits_injective hhead), ih htail]

theorem toBits_xor {w : Nat} (x y : BitVec w) :
    toBits (x ^^^ y) = List.zipWith (· ^^ ·) (toBits x) (toBits y) := by
  unfold toBits
  rw [List.zipWith_map, List.zipWith_self]
  apply List.map_congr_left
  intro i _
  exact BitVec.getLsbD_xor

theorem bitsOf_xor {xs ys : List UInt8} (h : xs.length = ys.length) :
    bitsOf (List.zipWith (· ^^^ ·) xs ys) = List.zipWith (· ^^ ·) (bitsOf xs) (bitsOf ys) := by
  induction xs generalizing ys with
  | nil => rfl
  | cons x xs ih =>
    match ys, h with
    | y :: ys, h =>
      rw [List.zipWith_cons_cons, bitsOf_cons, bitsOf_cons, bitsOf_cons, ih (Nat.succ.inj h),
        UInt8.toBitVec_xor, toBits_xor, List.zipWith_append (by simp)]

theorem true_mem_bitsOf {bytes : List UInt8} (h : ∃ b ∈ bytes, b ≠ 0) : true ∈ bitsOf bytes := by
  obtain ⟨b, hb, hne⟩ := h
  unfold bitsOf
  rw [List.mem_flatMap]
  refine ⟨b, hb, ?_⟩
  by_contra hnone
  apply hne
  apply UInt8.toBitVec_inj.mp
  apply BitVec.eq_of_getLsbD_eq
  intro i hi
  by_contra hbit
  apply hnone
  have hmem : (toBits b.toBitVec).getD i false = true := by
    rw [getD_toBits]
    simpa using hbit
  rw [List.getD_eq_getElem _ _ (by simpa using hi)] at hmem
  rw [← hmem]
  exact List.getElem_mem _

end Bytes

end ShiftRegister
