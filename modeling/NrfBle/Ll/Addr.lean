/-
  Device addresses (`src/ll/addr.rs`), the accept list (`src/ll/accept_list.rs`) and resolvable
  private addresses (`src/ll/priv_.rs`).

  The accept list is a fixed array with a fill count.  The count stays within the array because `add`
  checks it, so it is a field of the list here that it does: `contains` has no slice to panic on.  What
  lies in front of the count is a set of eight (`acceptList_isSet`); what `clear` leaves behind it is
  overwritten before the count gets there.

  A resolvable address is a hash and the tagged bytes it is the hash of.  `generate_rpa` sets the tag,
  `resolve_rpa` looks for it, so each undoes the other (`resolveRpa_iff_generated`).
-/
import Mathlib.Tactic
import NrfBle.Lib.BoundedSet
import NrfBle.Hw.Drivers
import NrfBle.Host.EventQueue

namespace NrfBle

open Checked

/-! ## Address types -/

/-- `AddrType::is_random`. -/
def AddrType.isRandom : AddrType → Bool
  | .«public» => false
  | _ => true

/-- `BtAddr::parse(addr).addr_type`: the subtype in the top two bits. -/
def addrTypeOf (addr : Buf 6) : AddrType :=
  let top := addr.bytes.getD 5 0 >>> 6
  if top = 0b11 then .randomStatic
  else if top = 0b01 then .randomPrivateResolvable
  else .randomPrivateNonResolvable

/-! ## The accept list -/

/-- `ACCEPT_LIST_MAX`. -/
abbrev acceptListMax : Nat := 8

/-- `AcceptList`. -/
structure AcceptList where
  entries : List (AddrType × Buf 6)
  size : entries.length = acceptListMax
  len : Nat
  fits : len ≤ acceptListMax

namespace AcceptList

/-- `AcceptList::new`. -/
def new : AcceptList where
  entries := List.replicate acceptListMax (.«public», Buf.zero 6)
  size := List.length_replicate
  len := 0
  fits := Nat.zero_le _

/-- `AcceptList::clear`. -/
def clear (l : AcceptList) : AcceptList := { l with len := 0, fits := Nat.zero_le _ }

/-- `AcceptList::contains`. -/
def contains (l : AcceptList) (addr : Buf 6) (addrType : AddrType) : Bool :=
  (l.entries.take l.len).any fun e => e.1 = addrType && e.2 = addr

/-- `AcceptList::add`: `false` when full or already present. -/
def add (l : AcceptList) (addr : Buf 6) (addrType : AddrType) : Bool × AcceptList :=
  if h : l.len ≥ acceptListMax ∨ l.contains addr addrType then (false, l)
  else (true,
    { entries := l.entries.set l.len (addrType, addr)
      size := by rw [List.length_set]; exact l.size
      len := l.len + 1
      fits := Nat.lt_of_not_le (fun hge => h (.inl hge)) })

/-- `AcceptList::entries`: all entries as a slice. -/
def slice (l : AcceptList) : List (AddrType × Buf 6) := l.entries.take l.len

/-! ### As a set of eight -/

theorem slice_length (l : AcceptList) : l.slice.length = l.len := by
  unfold slice
  rw [List.length_take, l.size]
  exact Nat.min_eq_left l.fits

theorem contains_iff (l : AcceptList) (addr : Buf 6) (addrType : AddrType) :
    l.contains addr addrType = true ↔ (addrType, addr) ∈ l.slice := by
  unfold contains
  rw [List.any_eq_true]
  constructor
  · rintro ⟨⟨t, a⟩, hin, heq⟩
    obtain ⟨rfl, rfl⟩ : t = addrType ∧ a = addr := by simpa using heq
    exact hin
  · intro hin
    exact ⟨_, hin, by simp⟩

/-- The stale entries behind the fill count do not come back: an entry overwrites the first of them. -/
theorem add_slice (l : AcceptList) (addr : Buf 6) (addrType : AddrType) :
    ((l.add addr addrType).1, (l.add addr addrType).2.slice) =
      BoundedSet.insert acceptListMax l.slice (addrType, addr) := by
  have hsame : (l.len ≥ acceptListMax ∨ l.contains addr addrType = true) ↔
      acceptListMax ≤ l.slice.length ∨ (addrType, addr) ∈ l.slice := by
    rw [slice_length, contains_iff]
  unfold add BoundedSet.insert
  split
  · rename_i h
    rw [if_pos (hsame.mp h)]
  · rename_i h
    rw [if_neg (fun hin => h (hsame.mpr hin))]
    rw [not_or, Nat.not_le] at h
    refine Prod.ext rfl ?_
    show (l.entries.set l.len (addrType, addr)).take (l.len + 1) = l.entries.take l.len ++ [(addrType, addr)]
    rw [List.take_add_one, List.take_set_of_le (Nat.le_refl _),
      List.getElem?_set_self (by rw [l.size]; exact h.1)]
    rfl

theorem add_refused {l : AcceptList} {addr : Buf 6} {addrType : AddrType}
    (h : (l.add addr addrType).1 = false) : (l.add addr addrType).2 = l := by
  unfold add at h ⊢
  split
  · rfl
  · rename_i hok
    rw [dif_neg hok] at h
    cases h

end AcceptList

/-- A call that changes the accept list. -/
inductive AcceptListOp
  | add (addr : Buf 6) (addrType : AddrType)
  | clear

/-- The call with its answer, and the list after it. -/
def AcceptListOp.run (l : AcceptList) : AcceptListOp → BoundedSet.Call (AddrType × Buf 6) × AcceptList
  | .add addr addrType => (.insert (addrType, addr) (l.add addr addrType).1, (l.add addr addrType).2)
  | .clear => (.clear, l.clear)

/-- The calls on a new list with their answers, the earliest first, and the list after them. -/
def AcceptList.calls (ops : List AcceptListOp) : List (BoundedSet.Call (AddrType × Buf 6)) × AcceptList :=
  ops.foldl (fun s op => (s.1 ++ [(op.run s.2).1], (op.run s.2).2)) ([], AcceptList.new)

theorem AcceptList.calls_snoc (ops : List AcceptListOp) (op : AcceptListOp) :
    calls (ops ++ [op]) =
      ((calls ops).1 ++ [(op.run (calls ops).2).1], (op.run (calls ops).2).2) := by
  unfold calls
  rw [List.foldl_append]
  rfl

/-- The slice is a set of eight. -/
theorem AcceptList.calls_run (ops : List AcceptListOp) :
    BoundedSet.Run acceptListMax (calls ops).1 (calls ops).2.slice := by
  induction ops using List.reverseRecOn with
  | nil => exact .start
  | append_singleton ops op ih =>
    rw [calls_snoc]
    cases op with
    | add addr addrType =>
      obtain ⟨hanswer, hslice⟩ := Prod.ext_iff.mp ((calls ops).2.add_slice addr addrType)
      dsimp only at hanswer hslice
      show BoundedSet.Run acceptListMax
        ((calls ops).1 ++ [.insert (addrType, addr) ((calls ops).2.add addr addrType).1])
        ((calls ops).2.add addr addrType).2.slice
      rw [hanswer, hslice]
      exact ih.insert (addrType, addr)
    | clear => exact ih.clear

/-- The list does what a set of eight does after these calls: what it holds is what was taken since the
    last clear. -/
structure AcceptList.IsSet (calls : List (BoundedSet.Call (AddrType × Buf 6))) (l : AcceptList) : Prop where
  contains_iff : ∀ addr addrType, l.contains addr addrType = true ↔
    .insert (addrType, addr) true ∈ BoundedSet.sinceClear calls
  add_iff : ∀ addr addrType, (l.add addr addrType).1 = true ↔
    (addrType, addr) ∉ BoundedSet.taken calls ∧ (BoundedSet.taken calls).length < acceptListMax
  entries_eq : l.slice = BoundedSet.taken calls
  entries_nodup : l.slice.Nodup
  len_eq : l.len = (BoundedSet.taken calls).length
  refused : ∀ addr addrType, (l.add addr addrType).1 = false → (l.add addr addrType).2 = l

/-- **The accept list is a set of eight**, after any calls on a new one. -/
theorem acceptList_isSet (ops : List AcceptListOp) :
    (AcceptList.calls ops).2.IsSet (AcceptList.calls ops).1 := by
  have hrun := AcceptList.calls_run ops
  generalize AcceptList.calls ops = s at hrun ⊢
  have hslice := hrun.eq_taken
  refine ⟨?_, ?_, hslice, hrun.nodup, ?_, fun _ _ => AcceptList.add_refused⟩
  · intro addr addrType
    rw [AcceptList.contains_iff, hslice]
    exact BoundedSet.mem_taken
  · intro addr addrType
    obtain ⟨hanswer, _⟩ := Prod.ext_iff.mp (s.2.add_slice addr addrType)
    rw [← hslice, ← BoundedSet.insert_taken]
    exact Bool.eq_iff_iff.mp hanswer
  · rw [← hslice]
    exact s.2.slice_length.symm

/-! ## Resolvable private addresses -/

/-- `ah`: the first three bytes of the encrypted block `prand || 0`. -/
def ah (hw : Hw) (irk : Buf 16) (prand : Buf 3) : Buf 3 :=
  let block : Buf 16 := ⟨prand.bytes ++ List.replicate 13 0, by simp [prand.size]⟩
  let out := hw.aesEncrypt irk block
  ⟨out.bytes.take 3, by simp [out.size]⟩

/-- `generate_rpa`: hash, then the 24 bits of `prand` with `0b01` on top. -/
def generateRpa (hw : Hw) (irk : Buf 16) (prand : UInt32) : Buf 6 :=
  let prand := prand &&& 0x00FFFFFF
  let b2 : UInt8 := ((prand >>> 16) &&& 0xFF).toUInt8
  let prandBytes : Buf 3 :=
    ⟨[(prand &&& 0xFF).toUInt8, ((prand >>> 8) &&& 0xFF).toUInt8, (b2 &&& 0x3F) ||| 0x40], rfl⟩
  let hash := ah hw irk prandBytes
  ⟨hash.bytes ++ prandBytes.bytes, by rw [List.length_append, hash.size, prandBytes.size]⟩

/-- The last three bytes of an address. -/
def prandOf (addr : Buf 6) : Buf 3 := ⟨addr.bytes.drop 3, by rw [List.length_drop, addr.size]⟩

/-- `resolve_rpa`: the tag in the top two bits, then the hash of the last three bytes. -/
def resolveRpa (hw : Hw) (irk : Buf 16) (addr : Buf 6) : Bool :=
  if addr.bytes.getD 5 0 >>> 6 ≠ 0b01 then false
  else (ah hw irk (prandOf addr)).bytes = addr.bytes.take 3

/-! ### What resolves -/

/-- The 24 bits with the tag: the bytes that `generate_rpa` hashes. -/
def taggedPrand (prand : UInt32) : Buf 3 :=
  let prand := prand &&& 0x00FFFFFF
  ⟨[(prand &&& 0xFF).toUInt8, ((prand >>> 8) &&& 0xFF).toUInt8,
    (((prand >>> 16) &&& 0xFF).toUInt8 &&& 0x3F) ||| 0x40], rfl⟩

/-- An address is the hash, and behind it what was hashed. -/
theorem generateRpa_bytes (hw : Hw) (irk : Buf 16) (prand : UInt32) :
    (generateRpa hw irk prand).bytes = (ah hw irk (taggedPrand prand)).bytes ++ (taggedPrand prand).bytes := rfl

theorem tag_set (b : UInt8) : ((b &&& 0x3F) ||| 0x40) >>> 6 = 0b01 := by
  obtain ⟨b⟩ := b
  revert b
  decide +kernel

/-- The tag is not set twice. -/
theorem tag_of_tagged {b : UInt8} (h : b >>> 6 = 0b01) : (b &&& 0x3F) ||| 0x40 = b := by
  obtain ⟨b⟩ := b
  revert b
  decide +kernel

/-- Byte `i` of the 24 bits. -/
theorem prandByte_toNat (prand : UInt32) (i : Fin 3) :
    (((prand &&& 0x00FFFFFF) >>> UInt32.ofNat (8 * i.1)) &&& 0xFF).toUInt8.toNat =
      prand.toNat / 2 ^ (8 * i.1) % 256 := by
  have hshift : (UInt32.ofNat (8 * i.1)).toNat % 32 = 8 * i.1 := by
    revert i
    decide
  rw [UInt32.toNat_toUInt8, UInt32.toNat_and, UInt32.toNat_shiftRight, UInt32.toNat_and, hshift,
    show (0x00FFFFFF : UInt32).toNat = 2 ^ 24 - 1 from rfl, show (0xFF : UInt32).toNat = 2 ^ 8 - 1 from rfl,
    Nat.and_two_pow_sub_one_eq_mod, Nat.and_two_pow_sub_one_eq_mod, Nat.shiftRight_eq_div_pow]
  fin_cases i <;> simp only [] <;> omega

/-- Three bytes are a tagged `prand` iff they have the tag. -/
theorem exists_taggedPrand (p : Buf 3) : (∃ prand, taggedPrand prand = p) ↔ p.bytes.getD 2 0 >>> 6 = 0b01 := by
  constructor
  · rintro ⟨prand, rfl⟩
    exact tag_set _
  · intro htag
    obtain ⟨bytes, hsize⟩ := p
    obtain ⟨b0, b1, b2, rfl⟩ := List.length_eq_three.mp hsize
    have h0 := b0.toNat_lt
    have h1 := b1.toNat_lt
    have h2 := b2.toNat_lt
    generalize hn : b0.toNat + 256 * b1.toNat + 65536 * b2.toNat = n
    have hsmall : n < UInt32.size := by
      show n < 2 ^ 32
      omega
    have hbyte : ∀ (i : Fin 3) (b : UInt8), n / 2 ^ (8 * i.1) % 256 = b.toNat →
        (((UInt32.ofNat n &&& 0x00FFFFFF) >>> UInt32.ofNat (8 * i.1)) &&& 0xFF).toUInt8 = b := by
      intro i b hb
      apply UInt8.toNat.inj
      rw [prandByte_toNat, UInt32.toNat_ofNat_of_lt' hsmall, hb]
    have hbyte0 := hbyte 0 b0 (by show n / 2 ^ 0 % 256 = _; omega)
    have hbyte1 := hbyte 1 b1 (by show n / 2 ^ 8 % 256 = _; omega)
    have hbyte2 := hbyte 2 b2 (by show n / 2 ^ 16 % 256 = _; omega)
    rw [show UInt32.ofNat (8 * (0 : Fin 3).1) = 0 from rfl, UInt32.shiftRight_zero] at hbyte0
    rw [show UInt32.ofNat (8 * (1 : Fin 3).1) = 8 from rfl] at hbyte1
    rw [show UInt32.ofNat (8 * (2 : Fin 3).1) = 16 from rfl] at hbyte2
    refine ⟨UInt32.ofNat n, Buf.ext ?_⟩
    unfold taggedPrand
    dsimp only
    rw [hbyte0, hbyte1, hbyte2, tag_of_tagged (show b2 >>> 6 = 0b01 from htag)]

/-- The two parts of an address. -/
theorem bytes_eq_iff (addr : Buf 6) (hash p : Buf 3) :
    addr.bytes = hash.bytes ++ p.bytes ↔ hash.bytes = addr.bytes.take 3 ∧ p = prandOf addr := by
  constructor
  · intro h
    have htake : addr.bytes.take 3 = hash.bytes := by rw [h, List.take_left' hash.size]
    have hdrop : addr.bytes.drop 3 = p.bytes := by rw [h, List.drop_left' hash.size]
    exact ⟨htake.symm, Buf.ext hdrop.symm⟩
  · rintro ⟨hhash, rfl⟩
    rw [hhash]
    exact (List.take_append_drop 3 addr.bytes).symm

/-- **Private addresses resolve exactly**: an address resolves with a key iff it was generated with it,
    and what is generated is of the resolvable type. -/
theorem resolveRpa_iff_generated (hw : Hw) (irk : Buf 16) :
    (∀ addr, resolveRpa hw irk addr = true ↔ ∃ prand, addr = generateRpa hw irk prand) ∧
      ∀ prand, addrTypeOf (generateRpa hw irk prand) = .randomPrivateResolvable := by
  constructor
  · intro addr
    have htag : addr.bytes.getD 5 0 = (prandOf addr).bytes.getD 2 0 := by
      unfold prandOf
      rw [List.getD_eq_getElem?_getD, List.getD_eq_getElem?_getD, List.getElem?_drop]
    calc resolveRpa hw irk addr = true
        ↔ (∃ prand, taggedPrand prand = prandOf addr) ∧
            (ah hw irk (prandOf addr)).bytes = addr.bytes.take 3 := by
          unfold resolveRpa
          rw [exists_taggedPrand, htag]
          simp
      _ ↔ ∃ prand, addr.bytes = (ah hw irk (taggedPrand prand)).bytes ++ (taggedPrand prand).bytes := by
          simp only [bytes_eq_iff]
          constructor
          · rintro ⟨⟨prand, hprand⟩, hhash⟩
            exact ⟨prand, by rw [hprand]; exact hhash, hprand⟩
          · rintro ⟨prand, hhash, hprand⟩
            rw [hprand] at hhash
            exact ⟨⟨prand, hprand⟩, hhash⟩
      _ ↔ ∃ prand, addr = generateRpa hw irk prand := by
          refine exists_congr fun prand => ?_
          rw [← generateRpa_bytes]
          exact ⟨Buf.ext, congrArg Buf.bytes⟩
  · intro prand
    have htop : (generateRpa hw irk prand).bytes.getD 5 0 >>> 6 = 0b01 := by
      rw [generateRpa_bytes, List.getD_eq_getElem?_getD,
        List.getElem?_append_right (by rw [Buf.size]; decide), Buf.size]
      exact tag_set _
    unfold addrTypeOf
    rw [htop]
    rfl

end NrfBle
