/-
  Data whitening (`src/ll/whiten.rs`).

  Bit by bit, a byte is added to what a register of 7 bits puts out.  So a message is whitened by
  adding the keystream of the channel to its bits (`bitsOf_whiten`): twice on one channel gives the
  message back, and on two channels leaves the keystream of the difference of the two registers, which
  is not zero if they differ: in seven bits all of a register has gone out (`whiten_keystream`).

  The standard's register is another one: it is filled in the other order and its tap stands elsewhere.
  On no channel does it put out what the one of the source does (`whiten_standard_iff`).
-/
import Mathlib.Tactic
import NrfBle.Lib.ShiftRegister

namespace NrfBle

open ShiftRegister

namespace Whiten

/-- `whitening_init`. -/
def whiteningInit (channel : UInt8) : UInt8 := 0x40 ||| (channel &&& 0x3F)

/-- The register after one bit. -/
def lfsrNext (lfsr : UInt16) : UInt16 :=
  ((lfsr <<< 1) ||| (((lfsr >>> 6) ^^^ (lfsr >>> 3)) &&& 1)) &&& 0x7F

/-- Bit `i` of a byte: the byte so far, and the register. -/
def whitenBit (byte : UInt8) (s : UInt8 × UInt16) (i : Nat) : UInt8 × UInt16 :=
  let dataBit := (byte >>> UInt8.ofNat i) &&& 1
  let keyBit := (s.2 >>> 6).toUInt8 &&& 1
  (s.1 ||| (dataBit ^^^ keyBit) <<< UInt8.ofNat i, lfsrNext s.2)

/-- One byte of `whiten`. -/
def whitenByte (byte : UInt8) (lfsr : UInt16) : UInt8 × UInt16 :=
  (List.range 8).foldl (whitenBit byte) (0, lfsr)

/-- The bytes of `whiten`, from a state of the register on. -/
def whitenFrom : List UInt8 → UInt16 → List UInt8
  | [], _ => []
  | byte :: buf, lfsr => (whitenByte byte lfsr).1 :: whitenFrom buf (whitenByte byte lfsr).2

/-- `whiten`. -/
def whiten (buf : List UInt8) (channel : UInt8) : List UInt8 :=
  whitenFrom buf (whiteningInit channel).toUInt16

theorem length_whitenFrom (buf : List UInt8) (lfsr : UInt16) :
    (whitenFrom buf lfsr).length = buf.length := by
  induction buf generalizing lfsr with
  | nil => rfl
  | cons byte buf ih => rw [whitenFrom, List.length_cons, ih, List.length_cons]

@[simp] theorem length_whiten (buf : List UInt8) (channel : UInt8) :
    (whiten buf channel).length = buf.length := length_whitenFrom buf _

/-! ## As a register of 7 bits -/

/-- The register after one bit. -/
def next (s : BitVec 7) : BitVec 7 :=
  (s <<< 1) ^^^ (BitVec.ofBool (s.getLsbD 6 ^^ s.getLsbD 3)).setWidth 7

/-- The bit it puts out. -/
def key (s : BitVec 7) : Bool := s.getLsbD 6

/-- A register in a `u16`. -/
def embed (s : BitVec 7) : UInt16 := UInt16.ofBitVec (s.setWidth 16)

theorem lfsrNext_embed (s : BitVec 7) : lfsrNext (embed s) = embed (next s) := by
  obtain ⟨s⟩ := s
  revert s
  decide +kernel

theorem toNat_embed (s : BitVec 7) : (embed s).toNat = s.toNat := by
  show (s.setWidth 16).toNat = s.toNat
  rw [BitVec.toNat_setWidth, Nat.mod_eq_of_lt (by omega)]

theorem keyBit_embed (s : BitVec 7) : ((embed s) >>> 6).toUInt8 &&& 1 = (key s).toUInt8 := by
  have hkey : (key s).toUInt8.toNat = (s.toNat.testBit 6).toNat := by
    show (s.toNat.testBit 6).toUInt8.toNat = _
    cases s.toNat.testBit 6 <;> rfl
  apply UInt8.toNat.inj
  rw [hkey, UInt8.toNat_and, UInt16.toNat_toUInt8, UInt16.toNat_shiftRight, toNat_embed,
    show UInt8.toNat 1 = 1 from rfl, show UInt16.toNat 6 % 16 = 6 from rfl, Nat.and_one_is_mod,
    Nat.shiftRight_eq_div_pow, Nat.toNat_testBit]
  omega

theorem getLsbD_next (s : BitVec 7) {i : Nat} (h : i < 7) :
    (next s).getLsbD i = if i = 0 then (s.getLsbD 6 ^^ s.getLsbD 3) else s.getLsbD (i - 1) := by
  unfold next
  cases i with
  | zero => simp
  | succ i =>
    rw [BitVec.getLsbD_xor, BitVec.getLsbD_shiftLeft, BitVec.getLsbD_setWidth, BitVec.getLsbD_ofBool]
    simp [h]

theorem next_xor (s t : BitVec 7) : next (s ^^^ t) = next s ^^^ next t := by
  apply BitVec.eq_of_getLsbD_eq
  intro i hi
  rw [BitVec.getLsbD_xor, getLsbD_next _ hi, getLsbD_next _ hi, getLsbD_next _ hi]
  simp only [BitVec.getLsbD_xor]
  split
  · simp only [Bool.xor_assoc, Bool.xor_left_comm (t.getLsbD 6)]
  · rfl

theorem key_xor (s t : BitVec 7) : key (s ^^^ t) = (key s ^^ key t) := BitVec.getLsbD_xor

/-- Bit `n` of a byte. -/
theorem dataBit_eq (n : Fin 8) (byte : UInt8) :
    (byte >>> UInt8.ofNat n.1) &&& 1 = (byte.toBitVec.getLsbD n.1).toUInt8 := by
  have hn : (UInt8.ofNat n.1).toNat % 8 = n.1 := by
    revert n
    decide
  apply UInt8.toNat.inj
  rw [UInt8.toNat_and, UInt8.toNat_shiftRight, hn, show UInt8.toNat 1 = 1 from rfl, Nat.and_one_is_mod,
    Nat.shiftRight_eq_div_pow, ← Nat.toNat_testBit]
  show _ = (byte.toNat.testBit n.1).toUInt8.toNat
  cases byte.toNat.testBit n.1 <;> rfl

theorem toUInt8_xor (b c : Bool) : b.toUInt8 ^^^ c.toUInt8 = (b ^^ c).toUInt8 := by
  revert b c
  decide

/-- A bit in place `n`. -/
theorem getLsbD_place (n : Fin 8) (b : Bool) (j : Nat) :
    (b.toUInt8 <<< UInt8.ofNat n.1).toBitVec.getLsbD j = (decide (j = n.1) && b) := by
  have hlow : ∀ j : Fin 8, (b.toUInt8 <<< UInt8.ofNat n.1).toBitVec.getLsbD j.1 =
      (decide (j.1 = n.1) && b) := by
    revert n b
    decide +kernel
  by_cases hj : j < 8
  · exact hlow ⟨j, hj⟩
  · rw [BitVec.getLsbD_of_ge _ _ (by omega)]
    simp [show j ≠ n.1 by omega]

/-- After `n` bits: these are whitened, the others zero. -/
theorem whitenBits_eq (byte : UInt8) (s : BitVec 7) {n : Nat} (hn : n ≤ 8) :
    ((List.range n).foldl (whitenBit byte) (0, embed s)).2 = embed (next^[n] s) ∧
      ∀ j, ((List.range n).foldl (whitenBit byte) (0, embed s)).1.toBitVec.getLsbD j =
        (decide (j < n) && (byte.toBitVec.getLsbD j ^^ key (next^[j] s))) := by
  induction n with
  | zero => exact ⟨rfl, fun j => by simp⟩
  | succ n ih =>
    obtain ⟨hreg, hout⟩ := ih (by omega)
    rw [List.range_succ, List.foldl_append, List.foldl_cons, List.foldl_nil]
    generalize (List.range n).foldl (whitenBit byte) (0, embed s) = r at hreg hout ⊢
    unfold whitenBit
    dsimp only
    refine ⟨by rw [hreg, lfsrNext_embed, Function.iterate_succ_apply'], fun j => ?_⟩
    rw [UInt8.toBitVec_or, BitVec.getLsbD_or, hout, hreg, keyBit_embed, dataBit_eq ⟨n, by omega⟩,
      toUInt8_xor, getLsbD_place ⟨n, by omega⟩]
    rcases Nat.lt_trichotomy j n with hlt | rfl | hgt
    · simp [hlt, show j < n + 1 by omega, show j ≠ n by omega]
    · simp
    · simp [show ¬ j < n by omega, show ¬ j < n + 1 by omega, show j ≠ n by omega]

/-- A whitened byte has the keystream added to its bits. -/
theorem whitenByte_eq (byte : UInt8) (s : BitVec 7) :
    (whitenByte byte (embed s)).2 = embed (next^[8] s) ∧
      toBits (whitenByte byte (embed s)).1.toBitVec =
        List.zipWith (· ^^ ·) (toBits byte.toBitVec) (stream next key 8 s) := by
  obtain ⟨hreg, hout⟩ := whitenBits_eq byte s (Nat.le_refl 8)
  refine ⟨hreg, ?_⟩
  apply List.ext_getElem
  · simp
  · intro j hj _
    rw [length_toBits] at hj
    rw [List.getElem_zipWith, getElem_toBits, getElem_toBits, getElem_stream]
    exact (hout j).trans (by rw [decide_eq_true hj, Bool.true_and])

/-- **Whitening adds the keystream** to the bits of the message. -/
theorem bitsOf_whitenFrom (buf : List UInt8) (s : BitVec 7) :
    bitsOf (whitenFrom buf (embed s)) =
      List.zipWith (· ^^ ·) (bitsOf buf) (stream next key (8 * buf.length) s) := by
  induction buf generalizing s with
  | nil => rfl
  | cons byte buf ih =>
    obtain ⟨hreg, hbits⟩ := whitenByte_eq byte s
    rw [whitenFrom, bitsOf_cons, bitsOf_cons, hbits, hreg, ih, List.length_cons, Nat.mul_succ,
      Nat.add_comm (8 * buf.length) 8, stream_add, List.zipWith_append (by simp)]

/-- The register a channel starts with. -/
def start (channel : UInt8) : BitVec 7 := BitVec.ofNat 7 (whiteningInit channel).toNat

theorem toNat_low (channel : UInt8) : (channel &&& 0x3F).toNat = channel.toNat % 64 := by
  rw [UInt8.toNat_and]
  exact Nat.and_two_pow_sub_one_eq_mod _ 6

theorem toNat_whiteningInit (channel : UInt8) :
    (whiteningInit channel).toNat = 64 + channel.toNat % 64 := by
  have hor : 2 ^ 6 * 1 + channel.toNat % 64 = 2 ^ 6 * 1 ||| channel.toNat % 64 :=
    Nat.two_pow_add_eq_or_of_lt (Nat.mod_lt _ (by decide)) 1
  rw [whiteningInit, UInt8.toNat_or, toNat_low]
  exact hor.symm

/-- It starts with the low six bits of the channel, and a one above them. -/
theorem toNat_start (channel : UInt8) : (start channel).toNat = 64 + channel.toNat % 64 := by
  rw [start, BitVec.toNat_ofNat, toNat_whiteningInit]
  omega

theorem whiteningInit_embed (channel : UInt8) :
    (whiteningInit channel).toUInt16 = embed (start channel) := by
  apply UInt16.toNat.inj
  rw [UInt8.toNat_toUInt16, toNat_whiteningInit, toNat_embed, toNat_start]

theorem bitsOf_whiten (buf : List UInt8) (channel : UInt8) :
    bitsOf (whiten buf channel) =
      List.zipWith (· ^^ ·) (bitsOf buf) (stream next key (8 * buf.length) (start channel)) := by
  unfold whiten
  rw [whiteningInit_embed, bitsOf_whitenFrom]

/-! ## The register and the channel -/

/-- A shift loses nothing: the bit that goes out comes in again. -/
theorem next_ne_zero {s : BitVec 7} (h : s ≠ 0) : next s ≠ 0 := by
  intro hnext
  have hbit : ∀ i < 7, (next s).getLsbD i = false := by
    intro i _
    rw [hnext, BitVec.ofNat_eq_ofNat, BitVec.getLsbD_zero]
  have hlow : ∀ i < 6, s.getLsbD i = false := by
    intro i hi
    have hshifted := hbit (i + 1) (by omega)
    rwa [getLsbD_next _ (by omega), if_neg (by omega), Nat.add_sub_cancel] at hshifted
  have htop : s.getLsbD 6 = false := by
    have hfed := hbit 0 (by decide)
    rwa [getLsbD_next _ (by decide), if_pos rfl, hlow 3 (by decide), Bool.xor_false] at hfed
  refine h (BitVec.eq_of_getLsbD_eq fun i hi => ?_)
  rw [BitVec.ofNat_eq_ofNat, BitVec.getLsbD_zero]
  rcases Nat.lt_or_ge i 6 with hless | hmost
  · exact hlow i hless
  · rwa [show i = 6 by omega]

theorem iterate_next_ne_zero {s : BitVec 7} (h : s ≠ 0) (n : Nat) : next^[n] s ≠ 0 := by
  induction n with
  | zero => exact h
  | succ n ih =>
    rw [Function.iterate_succ_apply']
    exact next_ne_zero ih

theorem embed_ne_zero {s : BitVec 7} (h : s ≠ 0) : embed s ≠ 0 := by
  intro hzero
  have hnat := congrArg UInt16.toNat hzero
  rw [toNat_embed] at hnat
  exact h (BitVec.eq_of_toNat_eq hnat)

theorem start_ne_zero (channel : UInt8) : start channel ≠ 0 := by
  intro hzero
  have hnat := congrArg BitVec.toNat hzero
  rw [toNat_start] at hnat
  exact absurd hnat (by simp)

/-- The register after these bytes. -/
def registerAfter (lfsr : UInt16) (buf : List UInt8) : UInt16 :=
  buf.foldl (fun lfsr byte => (whitenByte byte lfsr).2) lfsr

theorem registerAfter_embed (s : BitVec 7) (buf : List UInt8) :
    registerAfter (embed s) buf = embed (next^[8 * buf.length] s) := by
  induction buf generalizing s with
  | nil => rfl
  | cons byte buf ih =>
    show registerAfter (whitenByte byte (embed s)).2 buf = _
    rw [(whitenByte_eq byte s).1, ih, ← Function.iterate_add_apply, List.length_cons, Nat.mul_succ]

/-- In seven bits the register goes out, the highest bit first. -/
theorem getLsbD_iterate_next (s : BitVec 7) {i j : Nat} (hij : i ≤ j) (hj : j < 7) :
    (next^[i] s).getLsbD j = s.getLsbD (j - i) := by
  induction i generalizing j with
  | zero => rfl
  | succ i ih =>
    rw [Function.iterate_succ_apply', getLsbD_next _ hj, if_neg (by omega), ih (by omega) (by omega),
      Nat.sub_sub, Nat.add_comm 1 i]

theorem stream_injective {s t : BitVec 7} (h : stream next key 7 s = stream next key 7 t) : s = t := by
  apply BitVec.eq_of_getLsbD_eq
  intro j hj
  have hbit : ∀ u : BitVec 7, (stream next key 7 u)[6 - j]? = some (u.getLsbD j) := by
    intro u
    rw [List.getElem?_eq_getElem (by rw [length_stream]; omega), getElem_stream, key,
      getLsbD_iterate_next u (by omega) (by decide), Nat.sub_sub_self (by omega)]
  have hsame := hbit s
  rw [h, hbit t] at hsame
  exact (Option.some.inj hsame).symm

/-- Channels that start alike are alike. -/
theorem low_of_start {channel channel' : UInt8} (h : start channel = start channel') :
    channel &&& 0x3F = channel' &&& 0x3F := by
  have hnat := congrArg BitVec.toNat h
  rw [toNat_start, toNat_start] at hnat
  apply UInt8.toNat.inj
  rw [toNat_low, toNat_low]
  exact Nat.add_left_cancel hnat

/-- Channels that whiten one buffer alike are alike. -/
theorem channel_of_whiten {byte : UInt8} {buf : List UInt8} {channel channel' : UInt8}
    (h : whiten (byte :: buf) channel = whiten (byte :: buf) channel') :
    channel &&& 0x3F = channel' &&& 0x3F := by
  have hbits := congrArg bitsOf h
  rw [bitsOf_whiten, bitsOf_whiten] at hbits
  have hstream := zipWith_xor_left_inj (by rw [length_bitsOf, length_stream])
    (by rw [length_bitsOf, length_stream]) hbits
  rw [List.length_cons, show 8 * (buf.length + 1) = 7 + (8 * buf.length + 1) by omega,
    stream_add 7, stream_add 7] at hstream
  exact low_of_start (stream_injective (List.append_inj_left hstream (by simp)))

/-- **Whitening is a stream of keys for the channel.**  What two buffers differ in they differ in when
    whitened; twice is not at all; the register is not zero before any bit of any byte, nor after the
    last; and two channels whiten no buffer alike but the empty one, unless their low six bits are the
    same. -/
theorem whiten_keystream (channel : UInt8) :
    (∀ a b : List UInt8, a.length = b.length →
      List.zipWith (· ^^^ ·) (whiten a channel) (whiten b channel) = List.zipWith (· ^^^ ·) a b) ∧
    (∀ buf, whiten (whiten buf channel) channel = buf) ∧
    (∀ buf byte n, n ≤ 8 → ((List.range n).foldl (whitenBit byte)
      (0, registerAfter (whiteningInit channel).toUInt16 buf)).2 ≠ 0) ∧
    ∀ buf channel', buf ≠ [] → channel &&& 0x3F ≠ channel' &&& 0x3F →
      whiten buf channel ≠ whiten buf channel' := by
  refine ⟨?_, ?_, ?_, ?_⟩
  · intro a b hlen
    apply bitsOf_injective
    rw [bitsOf_xor (by rw [length_whiten, length_whiten, hlen]), bitsOf_xor hlen, bitsOf_whiten,
      bitsOf_whiten, hlen]
    exact zipWith_xor_both _ (by rw [length_bitsOf, length_stream])
  · intro buf
    apply bitsOf_injective
    rw [bitsOf_whiten, bitsOf_whiten, length_whiten]
    exact zipWith_xor_cancel (by rw [length_bitsOf, length_stream])
  · intro buf byte n hn
    rw [whiteningInit_embed, registerAfter_embed, (whitenBits_eq byte _ hn).1]
    exact embed_ne_zero (iterate_next_ne_zero (iterate_next_ne_zero (start_ne_zero channel) _) _)
  · intro buf channel' hbuf hchannel hwhiten
    obtain ⟨byte, buf, rfl⟩ := List.exists_cons_of_ne_nil hbuf
    exact hchannel (channel_of_whiten hwhiten)

/-- Channels 37 and 38. -/
theorem whiten_keystream_adv :
    List.zipWith (· ^^^ ·) (whiten [0x42, 0x13] 37) (whiten [0x00, 0xFF] 37) = [0x42, 0xEC] ∧
      ((List.range 8).foldl (whitenBit 0x00)
        (0, registerAfter (whiteningInit 37).toUInt16 [0x42, 0x13])).2 ≠ 0 ∧
      whiten [0x42, 0x13] 37 ≠ whiten [0x42, 0x13] 38 := by
  obtain ⟨hxor, -, hregister, hchannel⟩ := whiten_keystream 37
  exact ⟨hxor _ _ rfl, hregister _ _ 8 (by decide), hchannel _ 38 (by decide) (by decide)⟩

/-! ## The register of the standard

  Seven cells `p0` to `p6`, cell `i` in bit `i`.  It starts with `p0` set and the bits of the channel
  index in the other cells, the highest in `p1`.  `p6` goes out, goes round to `p0`, and is added to
  `p3` on its way to `p4`. -/

/-- The cells after one bit. -/
def cellsNext (p : BitVec 7) : BitVec 7 :=
  ofBits [p.getLsbD 6, p.getLsbD 0, p.getLsbD 1, p.getLsbD 2, p.getLsbD 3 ^^ p.getLsbD 6,
    p.getLsbD 4, p.getLsbD 5]

/-- The bit they put out. -/
def cellsOut (p : BitVec 7) : Bool := p.getLsbD 6

/-- The cells a channel starts with. -/
def cellsStart (channel : UInt8) : BitVec 7 :=
  ofBits (true :: [5, 4, 3, 2, 1, 0].map channel.toBitVec.getLsbD)

/-- The buffer is whitened as the standard says. -/
def Standard (buf : List UInt8) (channel : UInt8) : Prop :=
  bitsOf (whiten buf channel) = List.zipWith (· ^^ ·) (bitsOf buf)
    (stream cellsNext cellsOut (8 * buf.length) (cellsStart channel))

/-- The cells before the last. -/
theorem getLsbD_cellsNext (p : BitVec 7) :
    (cellsNext p).getLsbD 4 = (p.getLsbD 3 ^^ p.getLsbD 6) ∧ (cellsNext p).getLsbD 5 = p.getLsbD 4 ∧
      (cellsNext p).getLsbD 6 = p.getLsbD 5 := by
  unfold cellsNext
  rw [getLsbD_ofBits, getLsbD_ofBits, getLsbD_ofBits]
  exact ⟨rfl, rfl, rfl⟩

theorem getLsbD_cellsStart (channel : UInt8) :
    (cellsStart channel).getLsbD 3 = channel.toBitVec.getLsbD 3 ∧
      (cellsStart channel).getLsbD 6 = channel.toBitVec.getLsbD 0 := by
  unfold cellsStart
  rw [getLsbD_ofBits, getLsbD_ofBits]
  exact ⟨rfl, rfl⟩

theorem getLsbD_start (channel : UInt8) :
    (start channel).getLsbD 3 = channel.toBitVec.getLsbD 3 ∧ (start channel).getLsbD 6 = true := by
  rw [BitVec.getLsbD, BitVec.getLsbD, BitVec.getLsbD, toNat_start, UInt8.toNat_toBitVec,
    Nat.testBit_eq_decide_div_mod_eq, Nat.testBit_eq_decide_div_mod_eq, Nat.testBit_eq_decide_div_mod_eq]
  exact ⟨decide_eq_decide.mpr (by omega), decide_eq_true (by omega)⟩

/-- On every channel the two registers part within the first byte: bit 3 of the channel goes out as the
    fourth bit of both, but the standard has added its own first bit to it, which would have to be the
    one that the register of the source starts with. -/
theorem stream_ne_cells (channel : UInt8) :
    stream next key 8 (start channel) ≠ stream cellsNext cellsOut 8 (cellsStart channel) := by
  intro h
  have hbit : ∀ j < 8, key (next^[j] (start channel)) = cellsOut (cellsNext^[j] (cellsStart channel)) := by
    intro j hj
    have hsame := List.getElem_of_eq h (by rwa [length_stream] : j < _)
    rwa [getElem_stream, getElem_stream] at hsame
  obtain ⟨hthree, htop⟩ := getLsbD_start channel
  obtain ⟨hcell, hlast⟩ := getLsbD_cellsStart channel
  have hfirst : true = channel.toBitVec.getLsbD 0 := by
    rw [← htop, ← hlast]
    exact hbit 0 (by decide)
  have hfourth : (cellsNext^[3] (cellsStart channel)).getLsbD 6 =
      ((cellsStart channel).getLsbD 3 ^^ (cellsStart channel).getLsbD 6) := by
    show (cellsNext (cellsNext (cellsNext _))).getLsbD 6 = _
    rw [(getLsbD_cellsNext _).2.2, (getLsbD_cellsNext _).2.1, (getLsbD_cellsNext _).1]
  have hparted := hbit 3 (by decide)
  rw [key, cellsOut, getLsbD_iterate_next _ (by decide) (by decide), hfourth, hthree, hcell, hlast,
    ← hfirst, Bool.xor_true] at hparted
  exact (Bool.eq_not_self _).mp hparted

/-- Whitening is the standard's iff the keystreams are the same. -/
theorem standard_iff_stream (buf : List UInt8) (channel : UInt8) :
    Standard buf channel ↔ stream next key (8 * buf.length) (start channel) =
      stream cellsNext cellsOut (8 * buf.length) (cellsStart channel) := by
  unfold Standard
  rw [bitsOf_whiten]
  exact ⟨zipWith_xor_left_inj (by rw [length_bitsOf, length_stream])
    (by rw [length_bitsOf, length_stream]), congrArg _⟩

/-- **When whitening is the standard's.**  On any channel the buffer is whitened as the standard says
    iff there is nothing in it. -/
theorem whiten_standard_iff (buf : List UInt8) (channel : UInt8) :
    Standard buf channel ↔ buf = [] := by
  rw [standard_iff_stream]
  constructor
  · intro h
    cases buf with
    | nil => rfl
    | cons byte buf =>
      rw [List.length_cons, Nat.mul_succ, Nat.add_comm _ 8, stream_add, stream_add] at h
      exact absurd (List.append_inj_left h (by simp)) (stream_ne_cells channel)
  · rintro rfl
    rfl

/-- A zero byte on channel 37: the standard makes it `0x8D`, the source does not. -/
theorem whiten_departs_from_standard : ¬ Standard [0x00] 37 := by
  unfold Standard
  decide

/-- The first keystream byte of the standard on channel 37. -/
example : bitsOf [0x8D] = stream cellsNext cellsOut 8 (cellsStart 37) := by decide

end Whiten

end NrfBle
