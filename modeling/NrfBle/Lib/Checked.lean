/-
  Checked byte-slice programs: the fragment of a bounds-checked language that embedded protocol
  code lives in.

  A program that indexes a slice, takes a sub-slice, copies into one or subtracts two unsigned
  numbers either returns or PANICS.  Here such a program is a term of `Except Panic α`, and each
  primitive panics exactly when the language's own check fails:

  * `idx xs i`           — `xs[i]`;
  * `slice xs lo hi`     — `&xs[lo..hi]`;
  * `copyInto xs lo hi s` — `xs[lo..hi].copy_from_slice(s)` (the two lengths must agree);
  * `sub a b`            — `a - b` on an unsigned type;
  * `fit w x`            — the result `x` of any other `w`-bit operation.

  `Buf n` is a fixed array of `n` bytes: the length is a field, so no operation can change it.
  The lemmas say, for each primitive, WHEN it returns and WHAT it returns; a proof about a
  program never unfolds a primitive.
-/
import Mathlib.Tactic

namespace Checked

/-- Why a checked program stopped. -/
inductive Panic
  | index
  | range
  | length
  | overflow
  | unwrap
  deriving DecidableEq, Repr

/-! ## Results of checked programs -/

section Result

variable {α β : Type}

/-- The program returned (it did not panic). -/
def Returns (x : Except Panic α) : Prop := ∃ a, x = .ok a

instance (x : Except Panic α) : Decidable (Returns x) :=
  match x with
  | .ok a => .isTrue ⟨a, rfl⟩
  | .error _ => .isFalse (by rintro ⟨a, h⟩; cases h)

@[simp] theorem returns_ok (a : α) : Returns (Except.ok a : Except Panic α) := ⟨a, rfl⟩

@[simp] theorem returns_pure (a : α) : Returns (pure a : Except Panic α) := ⟨a, rfl⟩

@[simp] theorem not_returns_error (e : Panic) : ¬ Returns (Except.error e : Except Panic α) := by
  rintro ⟨a, h⟩; cases h

/-- Peel a sequenced program apart: it returns `r` iff its first half returns some `a` and the
    rest, run on `a`, returns `r`. -/
theorem bind_eq_ok {x : Except Panic α} {f : α → Except Panic β} {r : β} :
    (x >>= f) = .ok r ↔ ∃ a, x = .ok a ∧ f a = .ok r := by
  cases x with
  | error e => simp [bind, Except.bind]
  | ok a => simp [bind, Except.bind]

@[simp] theorem ok_bind (a : α) (f : α → Except Panic β) :
    ((Except.ok a : Except Panic α) >>= f) = f a := rfl

/-- A sequenced program returns iff its first half does and its rest does on what that gave. -/
theorem returns_bind {x : Except Panic α} {f : α → Except Panic β} :
    Returns (x >>= f) ↔ ∃ a, x = .ok a ∧ Returns (f a) := by
  constructor
  · rintro ⟨r, hr⟩
    obtain ⟨a, ha, hf⟩ := bind_eq_ok.mp hr
    exact ⟨a, ha, r, hf⟩
  · rintro ⟨a, ha, r, hr⟩
    exact ⟨r, bind_eq_ok.mpr ⟨a, ha, hr⟩⟩

/-- When the rest always returns, the first half decides. -/
theorem returns_bind_left {x : Except Panic α} {f : α → Except Panic β} (h : ∀ a, Returns (f a)) :
    Returns (x >>= f) ↔ Returns x := by
  rw [returns_bind]
  constructor
  · rintro ⟨a, ha, _⟩
    exact ⟨a, ha⟩
  · rintro ⟨a, ha⟩
    exact ⟨a, ha, h a⟩

end Result

/-! ## The checked primitives on lists -/

section Primitives

variable {α : Type}

/-- `xs[i]`. -/
def idx (xs : List α) (i : Nat) : Except Panic α :=
  match xs[i]? with
  | some x => .ok x
  | none => .error .index

/-- `&xs[lo..hi]`. -/
def slice (xs : List α) (lo hi : Nat) : Except Panic (List α) :=
  if lo ≤ hi ∧ hi ≤ xs.length then .ok ((xs.take hi).drop lo) else .error .range

/-- `xs[lo..hi].copy_from_slice(src)`. -/
def copyInto (xs : List α) (lo hi : Nat) (src : List α) : Except Panic (List α) :=
  if lo ≤ hi ∧ hi ≤ xs.length then
    if src.length = hi - lo then .ok (xs.take lo ++ src ++ xs.drop hi) else .error .length
  else .error .range

/-- `a - b` on an unsigned type, with the overflow check on. -/
def sub (a b : Nat) : Except Panic Nat :=
  if b ≤ a then .ok (a - b) else .error .overflow

/-- A result of a `w`-bit operation, with the overflow check on. -/
def fit (w x : Nat) : Except Panic Nat :=
  if x < 2 ^ w then .ok x else .error .overflow

theorem idx_of_lt {xs : List α} {i : Nat} (h : i < xs.length) : idx xs i = .ok xs[i] := by
  rw [idx, List.getElem?_eq_getElem h]

theorem idx_of_le {xs : List α} {i : Nat} (h : xs.length ≤ i) : idx xs i = .error .index := by
  rw [idx, List.getElem?_eq_none h]

theorem returns_idx {xs : List α} {i : Nat} : Returns (idx xs i) ↔ i < xs.length := by
  rcases Nat.lt_or_ge i xs.length with h | h
  · rw [idx_of_lt h]; exact ⟨fun _ => h, fun _ => returns_ok _⟩
  · rw [idx_of_le h]; exact ⟨fun hr => absurd hr (not_returns_error _), fun hl => by omega⟩

@[simp] theorem idx_cons_zero (x : α) (xs : List α) : idx (x :: xs) 0 = .ok x := rfl

theorem slice_of_le {xs : List α} {lo hi : Nat} (h : lo ≤ hi) (hh : hi ≤ xs.length) :
    slice xs lo hi = .ok ((xs.take hi).drop lo) := if_pos ⟨h, hh⟩

/-- The first element, read off a non-empty front part. -/
theorem getD_zero_of_take {xs ys : List α} {n : Nat} {x d : α} (h : xs.take n = x :: ys) :
    xs.getD 0 d = x := by
  cases xs with
  | nil => rw [List.take_nil] at h; cases h
  | cons z zs =>
    cases n with
    | zero => cases h
    | succ n => exact (List.cons.inj h).1

theorem sub_of_le {a b : Nat} (h : b ≤ a) : sub a b = .ok (a - b) := if_pos h

theorem sub_of_lt {a b : Nat} (h : a < b) : sub a b = .error .overflow := if_neg (by omega)

theorem copyInto_of_length {xs : List α} {lo hi : Nat} {src : List α} (h : lo ≤ hi)
    (hh : hi ≤ xs.length) (hs : src.length = hi - lo) :
    copyInto xs lo hi src = .ok (xs.take lo ++ src ++ xs.drop hi) := by
  rw [copyInto, if_pos ⟨h, hh⟩, if_pos hs]

/-- A copy behind what is written already. -/
theorem copyInto_append {front src rest : List α} {lo hi : Nat} (hlo : lo = front.length)
    (hhi : hi = front.length + src.length) (hle : hi ≤ (front ++ rest).length) :
    copyInto (front ++ rest) lo hi src = .ok (front ++ src ++ rest.drop src.length) := by
  subst hlo hhi
  rw [copyInto_of_length (by omega) hle (by omega), List.take_left, List.drop_append]
  simp

/-- The first copy. -/
theorem copyInto_front {src o : List α} {hi : Nat} (hhi : hi = src.length) (hle : hi ≤ o.length) :
    copyInto o 0 hi src = .ok (src ++ o.drop src.length) :=
  @copyInto_append α [] src o 0 hi rfl (by simpa using hhi) hle

/-- What a successful copy did: the bounds held, and only the target range changed. -/
theorem copyInto_eq_ok {xs : List α} {lo hi : Nat} {src ys : List α} :
    copyInto xs lo hi src = .ok ys ↔
      lo ≤ hi ∧ hi ≤ xs.length ∧ src.length = hi - lo ∧
        ys = xs.take lo ++ src ++ xs.drop hi := by
  constructor
  · intro h
    unfold copyInto at h
    split at h
    · rename_i hb
      split at h
      · rename_i hs
        cases h
        exact ⟨hb.1, hb.2, hs, rfl⟩
      · cases h
    · cases h
  · rintro ⟨h1, h2, h3, rfl⟩
    exact copyInto_of_length h1 h2 h3

end Primitives

/-! ## Little-endian byte encodings -/

/-- The `k` low bytes of `x`, least significant first. -/
def leBytes : Nat → Nat → List UInt8
  | 0, _ => []
  | k + 1, x => UInt8.ofNat (x % 256) :: leBytes k (x / 256)

@[simp] theorem leBytes_length (k x : Nat) : (leBytes k x).length = k := by
  induction k generalizing x with
  | zero => rfl
  | succ k ih => rw [leBytes, List.length_cons, ih]

/-- The number that bytes stand for, least significant first. -/
def leNat : List UInt8 → Nat
  | [] => 0
  | b :: bs => b.toNat + 256 * leNat bs

theorem leNat_lt (bs : List UInt8) : leNat bs < 256 ^ bs.length := by
  induction bs with
  | nil => decide
  | cons b bs ih =>
    have hb := b.toNat_lt
    rw [leNat, List.length_cons, Nat.pow_succ]
    omega

/-- Writing a number and reading it back cuts it to the bytes there were. -/
theorem leNat_leBytes (k x : Nat) : leNat (leBytes k x) = x % 256 ^ k := by
  induction k generalizing x with
  | zero => rw [Nat.pow_zero, Nat.mod_one]; rfl
  | succ k ih =>
    rw [leBytes, leNat, ih, UInt8.toNat_ofNat', Nat.mod_mod, Nat.pow_succ', Nat.mod_mul]

/-- Reading bytes and writing the number gives them back. -/
theorem leBytes_leNat (bs : List UInt8) : leBytes bs.length (leNat bs) = bs := by
  induction bs with
  | nil => rfl
  | cons b bs ih =>
    have hb : b.toNat < 256 := b.toNat_lt
    rw [List.length_cons, leBytes, leNat, Nat.add_mul_mod_self_left, Nat.mod_eq_of_lt hb,
      Nat.add_mul_div_left _ _ (by decide), Nat.div_eq_of_lt hb, Nat.zero_add, ih, UInt8.ofNat_toNat]

/-- `x.to_le_bytes()` of a 16-bit number. -/
def le16 (x : UInt16) : List UInt8 := leBytes 2 x.toNat

@[simp] theorem le16_length (x : UInt16) : (le16 x).length = 2 := leBytes_length 2 _

/-- `u16::from_le_bytes([lo, hi])`. -/
def ofLe16 (lo hi : UInt8) : UInt16 := UInt16.ofNat (lo.toNat + 256 * hi.toNat)

theorem le16_eq (x : UInt16) :
    le16 x = [UInt8.ofNat (x.toNat % 256), UInt8.ofNat (x.toNat / 256 % 256)] := rfl

theorem toNat_ofLe16 (lo hi : UInt8) : (ofLe16 lo hi).toNat = lo.toNat + 256 * hi.toNat := by
  have hlo := lo.toNat_lt
  have hhi := hi.toNat_lt
  rw [ofLe16, UInt16.toNat_ofNat', Nat.mod_eq_of_lt (by omega)]

/-- Two bytes are the low and the high byte of the number they stand for. -/
theorem ofLe16_eq {lo hi : UInt8} {x : UInt16} (hlo : lo.toNat = x.toNat % 256)
    (hhi : hi.toNat = x.toNat / 256 % 256) : ofLe16 lo hi = x := by
  have hx : x.toNat < 65536 := x.toNat_lt
  apply UInt16.toNat.inj
  rw [toNat_ofLe16, hlo, hhi]
  omega

/-- Reading back what `le16` wrote. -/
theorem ofLe16_le16 (x : UInt16) :
    ofLe16 (UInt8.ofNat (x.toNat % 256)) (UInt8.ofNat (x.toNat / 256 % 256)) = x :=
  ofLe16_eq (by rw [UInt8.toNat_ofNat', Nat.mod_mod]) (by rw [UInt8.toNat_ofNat', Nat.mod_mod])

/-- Reading back what was cut off by shifts. -/
theorem ofLe16_shifted (x : UInt16) : ofLe16 x.toUInt8 (x >>> 8).toUInt8 = x := by
  refine ofLe16_eq rfl ?_
  show (x.toNat >>> 8) % 256 = _
  rw [Nat.shiftRight_eq_div_pow]

theorem le16_ofLe16 (lo hi : UInt8) : le16 (ofLe16 lo hi) = [lo, hi] := by
  rw [le16, toNat_ofLe16]
  exact leBytes_leNat [lo, hi]

theorem ofLe16_inj {a b a' b' : UInt8} : ofLe16 a b = ofLe16 a' b' ↔ a = a' ∧ b = b' := by
  constructor
  · intro h
    have hbytes := congrArg le16 h
    rw [le16_ofLe16, le16_ofLe16] at hbytes
    obtain ⟨ha, hrest⟩ := List.cons.inj hbytes
    exact ⟨ha, (List.cons.inj hrest).1⟩
  · rintro ⟨rfl, rfl⟩
    rfl

/-- The number as it is put together by a shift. -/
theorem or_shifted_eq_ofLe16 (lo hi : UInt8) : lo.toUInt16 ||| hi.toUInt16 <<< 8 = ofLe16 lo hi := by
  have hlo : lo.toNat < 2 ^ 8 := lo.toNat_lt
  have hhi : hi.toNat < 2 ^ 8 := hi.toNat_lt
  apply UInt16.toNat.inj
  rw [toNat_ofLe16, UInt16.toNat_or, UInt16.toNat_shiftLeft, UInt8.toNat_toUInt16,
    UInt8.toNat_toUInt16, show (8 : UInt16).toNat % 16 = 8 from rfl, Nat.shiftLeft_eq,
    Nat.mod_eq_of_lt (by omega), Nat.or_comm, ← Nat.shiftLeft_eq,
    ← Nat.shiftLeft_add_eq_or_of_lt hlo, Nat.shiftLeft_eq]
  omega

theorem le16_injective : Function.Injective le16 := by
  intro x y h
  rw [le16_eq, le16_eq] at h
  obtain ⟨h₁, h₂⟩ := List.cons.inj h
  obtain ⟨h₂, _⟩ := List.cons.inj h₂
  rw [← ofLe16_le16 x, ← ofLe16_le16 y, h₁, h₂]

/-- `u16::from_le_bytes([xs[i], xs[i + 1]])`. -/
def rd16 (xs : List UInt8) (i : Nat) : Except Panic UInt16 := do
  let lo ← idx xs i
  let hi ← idx xs (i + 1)
  return ofLe16 lo hi

theorem rd16_of_lt {xs : List UInt8} {i : Nat} (h : i + 1 < xs.length) :
    rd16 xs i = .ok (ofLe16 xs[i] xs[i + 1]) := by
  rw [rd16, idx_of_lt (by omega), ok_bind, idx_of_lt h]; rfl

theorem returns_rd16 {xs : List UInt8} {i : Nat} : Returns (rd16 xs i) ↔ i + 1 < xs.length := by
  constructor
  · intro h
    obtain ⟨lo, _, h2⟩ := returns_bind.mp h
    obtain ⟨hi, h3, _⟩ := returns_bind.mp h2
    exact returns_idx.mp ⟨hi, h3⟩
  · intro h
    exact ⟨_, rd16_of_lt h⟩

/-- A program that starts with a 16-bit read, when the rest returns under a condition that does
    not depend on the number read. -/
theorem returns_rd16_bind {β : Type} {xs : List UInt8} {i : Nat} {f : UInt16 → Except Panic β}
    {P : Prop} (h : ∀ x, Returns (f x) ↔ P) : Returns (rd16 xs i >>= f) ↔ i + 1 < xs.length ∧ P := by
  constructor
  · intro hr
    obtain ⟨x, hx, hf⟩ := returns_bind.mp hr
    exact ⟨returns_rd16.mp ⟨x, hx⟩, (h x).mp hf⟩
  · rintro ⟨hi, hp⟩
    exact returns_bind.mpr ⟨_, rd16_of_lt hi, (h _).mpr hp⟩

/-! ## Fixed byte arrays -/

/-- `[u8; n]`: the length is part of the value. -/
structure Buf (n : Nat) where
  bytes : List UInt8
  size : bytes.length = n
  deriving DecidableEq

namespace Buf

variable {n : Nat}

/-- `[0; n]`. -/
def zero (n : Nat) : Buf n := ⟨List.replicate n 0, List.length_replicate⟩

/-- `xs.try_into()`: a slice as an array, if it has the array's length. -/
def ofSlice (n : Nat) (xs : List UInt8) : Option (Buf n) :=
  if h : xs.length = n then some ⟨xs, h⟩ else none

/-- `b[i] = v` at an index the compiler can see to be in range. -/
def set (b : Buf n) (i : Nat) (v : UInt8) : Buf n :=
  ⟨b.bytes.set i v, by rw [List.length_set]; exact b.size⟩

/-- `b[i] = v` at a computed index. -/
def store (b : Buf n) (i : Nat) (v : UInt8) : Except Panic (Buf n) :=
  if i < n then .ok (b.set i v) else .error .index

/-- Overwrite `src.length` bytes from `lo` on, given that they are in range: a copy that the
    caller's own arithmetic keeps from panicking. -/
def splice (b : Buf n) (lo : Nat) (src : List UInt8) (h : lo + src.length ≤ n) : Buf n :=
  ⟨b.bytes.take lo ++ src ++ b.bytes.drop (lo + src.length), by simp [b.size]; omega⟩

/-- `b[lo..lo + src.len()].copy_from_slice(src)`. -/
def write (b : Buf n) (lo : Nat) (src : List UInt8) : Except Panic (Buf n) :=
  if h : lo + src.length ≤ n then .ok (b.splice lo src h) else .error .range

/-- `&b[..k]`. -/
def upto (b : Buf n) (k : Nat) : Except Panic (List UInt8) := slice b.bytes 0 k

/-- `&b[lo..hi]`. -/
def sub (b : Buf n) (lo hi : Nat) : Except Panic (List UInt8) := slice b.bytes lo hi

/-- Byte-wise exclusive or of two arrays of one size. -/
def xor (a b : Buf n) : Buf n :=
  ⟨List.zipWith (· ^^^ ·) a.bytes b.bytes, by rw [List.length_zipWith, a.size, b.size, Nat.min_self]⟩

@[ext] theorem ext {a b : Buf n} (h : a.bytes = b.bytes) : a = b := by
  cases a; cases b; cases h; rfl

@[simp] theorem ofSlice_bytes (b : Buf n) : ofSlice n b.bytes = some b := dif_pos b.size

theorem ofSlice_of_length {xs : List UInt8} (h : xs.length = n) : ofSlice n xs = some ⟨xs, h⟩ :=
  dif_pos h

theorem upto_of_le (b : Buf n) {k : Nat} (h : k ≤ n) : b.upto k = .ok (b.bytes.take k) := by
  rw [upto, slice_of_le (Nat.zero_le k) (by rw [b.size]; exact h), List.drop_zero]

theorem returns_upto (b : Buf n) {k : Nat} : Returns (b.upto k) ↔ k ≤ n := by
  unfold upto slice
  rw [b.size]
  split
  · rename_i h; exact ⟨fun _ => h.2, fun _ => returns_ok _⟩
  · rename_i h
    exact ⟨fun hr => absurd hr (not_returns_error _), fun hk => absurd ⟨Nat.zero_le k, hk⟩ h⟩

theorem sub_of_le (b : Buf n) {lo hi : Nat} (h : lo ≤ hi) (hh : hi ≤ n) :
    b.sub lo hi = .ok ((b.bytes.take hi).drop lo) :=
  slice_of_le h (by rw [b.size]; exact hh)

/-- A write that fits returns a buffer that differs only in the written range. -/
theorem write_of_le (b : Buf n) {lo : Nat} {src : List UInt8} (h : lo + src.length ≤ n) :
    ∃ b' : Buf n, b.write lo src = .ok b' ∧
      b'.bytes = b.bytes.take lo ++ src ++ b.bytes.drop (lo + src.length) := by
  unfold write
  rw [dif_pos h]
  exact ⟨b.splice lo src h, rfl, rfl⟩

theorem returns_write (b : Buf n) {lo : Nat} {src : List UInt8} :
    Returns (b.write lo src) ↔ lo + src.length ≤ n := by
  constructor
  · intro h
    by_contra hn
    rw [write, dif_neg hn] at h
    exact not_returns_error _ h
  · intro h
    obtain ⟨b', hb, _⟩ := b.write_of_le h
    exact ⟨b', hb⟩

theorem write_eq_ok {b b' : Buf n} {lo : Nat} {src : List UInt8} :
    b.write lo src = .ok b' ↔
      lo + src.length ≤ n ∧
        b'.bytes = b.bytes.take lo ++ src ++ b.bytes.drop (lo + src.length) := by
  constructor
  · intro h
    have hle : lo + src.length ≤ n := (returns_write b).mp ⟨b', h⟩
    obtain ⟨b'', hb, hbytes⟩ := b.write_of_le hle
    rw [hb] at h
    cases h
    exact ⟨hle, hbytes⟩
  · rintro ⟨hle, hbytes⟩
    obtain ⟨b'', hb, hbytes'⟩ := b.write_of_le hle
    rw [hb]
    exact congrArg _ (ext (hbytes'.trans hbytes.symm))

/-- What was in front of a write is still there, followed by what was written. -/
theorem take_of_write {b b' : Buf n} {lo : Nat} {src : List UInt8} (h : b.write lo src = .ok b') :
    b'.bytes.take (lo + src.length) = b.bytes.take lo ++ src := by
  obtain ⟨hle, hb⟩ := write_eq_ok.mp h
  rw [hb]
  have hlen : (b.bytes.take lo ++ src).length = lo + src.length := by
    rw [List.length_append, List.length_take, b.size]; omega
  rw [← hlen, List.take_left]

/-- Setting the byte behind a front part. -/
theorem take_succ_set (b : Buf n) {i : Nat} (h : i < n) (v : UInt8) :
    (b.set i v).bytes.take (i + 1) = b.bytes.take i ++ [v] := by
  show (b.bytes.set i v).take (i + 1) = _
  rw [List.take_add_one, List.take_set_of_le (Nat.le_refl _),
    List.getElem?_set_self (by rw [b.size]; exact h)]
  rfl

theorem store_of_lt (b : Buf n) {i : Nat} (h : i < n) (v : UInt8) : b.store i v = .ok (b.set i v) :=
  if_pos h

/-- Setting the first two bytes of a buffer. -/
theorem take_two_set (b : Buf n) (x y : UInt8) (h : 2 ≤ n) :
    ((b.set 0 x).set 1 y).bytes.take 2 = [x, y] := by
  obtain ⟨bytes, hs⟩ := b
  match bytes with
  | [] => simp at hs; omega
  | [_] => simp at hs; omega
  | _ :: _ :: _ => rfl

end Buf

end Checked
