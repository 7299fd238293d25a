/-
  Advertising data (`src/gap/ad.rs`): AD structures packed into a buffer, and an iterator over it.

  1. **The program** — `AdIter::next` reads the length byte at its position and slices the entry out of
     the buffer; `build` keeps a position of its own and stores the entries one behind another.

  2. **The format** — an AD structure is a length byte, a type byte and up to 254 bytes of data.  It is
     a record that says where it ends (`adFormat`), so what is general about packing and reading is in
     `Records`.  `next_eq` and `build_eq` say that the program does just that.

  3. **The two results** — building and iterating undo each other (`build_iter_inverse`).  But at an
     entry that is truncated, or empty, the iterator reports an error and STAYS: the iteration ends iff
     the buffer holds whole entries only (`iter_ends_iff`).
-/
import Mathlib.Tactic
import NrfBle.Lib.Records
import NrfBle.Ll.Pdu

namespace NrfBle

open Checked Records

/-! ## The program -/

/-- `AdEntry`. -/
structure AdEntry where
  adType : UInt8
  data : List UInt8
  deriving DecidableEq

/-- `AdIter`. -/
structure AdIter where
  buf : List UInt8
  pos : Nat

namespace AdIter

/-- `AdIter::new`. -/
def new (buf : List UInt8) : AdIter := ⟨buf, 0⟩

/-- `AdIter::next`. -/
def next (it : AdIter) : Except Panic (Option (Except Error AdEntry) × AdIter) := do
  if it.pos ≥ it.buf.length then return (none, it)
  let len ← idx it.buf it.pos
  if len.toNat = 0 then return (some (.error .invalidAd), it)
  if it.pos + 1 + len.toNat > it.buf.length then return (some (.error .invalidAd), it)
  let adType ← idx it.buf (it.pos + 1)
  let data ← slice it.buf (it.pos + 2) (it.pos + 1 + len.toNat)
  return (some (.ok ⟨adType, data⟩), { it with pos := it.pos + (1 + len.toNat) })

/-- What the first `n` calls of `next` return. -/
def calls : Nat → AdIter → Except Panic (List (Option (Except Error AdEntry)))
  | 0, _ => return []
  | n + 1, it => do
    let (item, it) ← it.next
    let items ← calls n it
    return item :: items

end AdIter

/-- `iter`. -/
def iter (buf : List UInt8) : AdIter := AdIter.new buf

/-- The loop of `build`, from a position on. -/
def buildFrom : List AdEntry → List UInt8 → Nat → Except Panic (Except Error Nat × List UInt8)
  | [], out, pos => return (.ok pos, out)
  | entry :: entries, out, pos => do
    let len := entry.data.length + 1
    if entry.data.length > 255 - 1 then return (.error .invalidLength, out)
    if pos + 1 + len > out.length then return (.error .bufferTooSmall, out)
    let out ← copyInto out pos (pos + 1) [UInt8.ofNat len]
    let out ← copyInto out (pos + 1) (pos + 2) [entry.adType]
    let out ← copyInto out (pos + 2) (pos + 1 + len) entry.data
    buildFrom entries out (pos + (1 + len))

/-- `build`. -/
def build (entries : List AdEntry) (out : List UInt8) : Except Panic (Except Error Nat × List UInt8) :=
  buildFrom entries out 0

/-! ## The format -/

namespace AdEntry

/-- The length byte has room for the type and the data. -/
def Fits (e : AdEntry) : Prop := e.data.length ≤ 254

/-- The bytes of an AD structure. -/
def bytes (e : AdEntry) : List UInt8 := UInt8.ofNat (e.data.length + 1) :: e.adType :: e.data

/-- The AD structure in front of a buffer, and what is behind it. -/
def read : List UInt8 → Option (AdEntry × List UInt8)
  | len :: adType :: rest =>
    if len.toNat = 0 ∨ rest.length + 1 < len.toNat then none
    else some (⟨adType, rest.take (len.toNat - 1)⟩, rest.drop (len.toNat - 1))
  | _ => none

theorem length_bytes (e : AdEntry) : e.bytes.length = e.data.length + 2 := rfl

theorem toNat_length {e : AdEntry} (h : e.Fits) :
    (UInt8.ofNat (e.data.length + 1)).toNat = e.data.length + 1 := by
  unfold Fits at h
  rw [UInt8.toNat_ofNat', Nat.mod_eq_of_lt (by omega)]

theorem read_none {len : UInt8} {tail : List UInt8} (h : len.toNat = 0 ∨ tail.length < len.toNat) :
    read (len :: tail) = none := by
  cases tail with
  | nil => rfl
  | cons adType rest => exact if_pos (by rwa [List.length_cons] at h)

theorem read_some {len adType : UInt8} {rest : List UInt8} (hpos : len.toNat ≠ 0)
    (hroom : len.toNat ≤ rest.length + 1) :
    read (len :: adType :: rest) =
      some (⟨adType, rest.take (len.toNat - 1)⟩, rest.drop (len.toNat - 1)) := if_neg (by omega)

theorem read_bytes {e : AdEntry} (rest : List UInt8) (h : e.Fits) :
    read (e.bytes ++ rest) = some (e, rest) := by
  have hlen := toNat_length h
  have hroom : ¬ ((UInt8.ofNat (e.data.length + 1)).toNat = 0 ∨
      (e.data ++ rest).length + 1 < (UInt8.ofNat (e.data.length + 1)).toNat) := by
    rw [hlen, List.length_append]
    omega
  refine (if_neg hroom).trans ?_
  rw [hlen, Nat.add_sub_cancel]
  show some ((⟨e.adType, (e.data ++ rest).take e.data.length⟩ : AdEntry),
    (e.data ++ rest).drop e.data.length) = _
  rw [List.take_left, List.drop_left]

theorem bytes_read {xs rest : List UInt8} {e : AdEntry} (h : read xs = some (e, rest)) :
    e.Fits ∧ xs = e.bytes ++ rest := by
  unfold read at h
  split at h
  · rename_i len adType tail
    split at h
    · cases h
    · rename_i hroom
      rw [not_or, Nat.not_lt] at hroom
      have hlen := len.toNat_lt
      have htake : (tail.take (len.toNat - 1)).length = len.toNat - 1 := by
        rw [List.length_take]
        omega
      cases h
      refine ⟨?_, ?_⟩
      · show (tail.take (len.toNat - 1)).length ≤ 254
        omega
      · show _ = UInt8.ofNat ((tail.take (len.toNat - 1)).length + 1) :: adType ::
          (tail.take (len.toNat - 1) ++ tail.drop (len.toNat - 1))
        rw [htake, Nat.sub_add_cancel (by omega), UInt8.ofNat_toNat, List.take_append_drop]
  · cases h

end AdEntry

/-- AD structures as records. -/
def adFormat : Format AdEntry UInt8 where
  Valid := AdEntry.Fits
  write := AdEntry.bytes
  read := AdEntry.read
  read_write := AdEntry.read_bytes
  write_read := AdEntry.bytes_read
  write_ne_nil := fun _ => List.cons_ne_nil _ _

theorem pack_entry (e : AdEntry) (es : List AdEntry) :
    adFormat.pack (e :: es) = e.bytes ++ adFormat.pack es := rfl

/-! ## The iterator reads the format -/

/-- The items of the iterator for the answers of a reader. -/
def Item.of : Outcome AdEntry → Option (Except Error AdEntry)
  | .done => none
  | .bad => some (.error .invalidAd)
  | .got e => some (.ok e)

theorem Item.of_injective : Function.Injective Item.of := by
  intro a b h
  cases a <;> cases b <;> cases h <;> rfl

/-- **One call of `next`** asks for the next record behind the position. -/
theorem AdIter.next_eq (it : AdIter) :
    ∃ pos, it.next = .ok (Item.of (adFormat.next (it.buf.drop it.pos)).1, { it with pos := pos }) ∧
      it.buf.drop pos = (adFormat.next (it.buf.drop it.pos)).2 := by
  obtain ⟨buf, pos⟩ := it
  unfold AdIter.next
  dsimp only
  by_cases hend : pos ≥ buf.length
  · rw [if_pos hend, List.drop_eq_nil_of_le hend]
    exact ⟨pos, rfl, List.drop_eq_nil_of_le hend⟩
  have hbyte : pos < buf.length := Nat.lt_of_not_le hend
  rw [if_neg hend, idx_of_lt hbyte, ok_bind, List.drop_eq_getElem_cons hbyte]
  generalize hlen : buf[pos] = len
  have hdrop : buf.drop pos = len :: buf.drop (pos + 1) := by
    rw [← hlen, ← List.drop_eq_getElem_cons]
  have htail : (buf.drop (pos + 1)).length = buf.length - (pos + 1) := List.length_drop
  by_cases hbad : len.toNat = 0 ∨ pos + 1 + len.toNat > buf.length
  · -- no record: the iterator stays
    have hstuck : adFormat.Stuck (len :: buf.drop (pos + 1)) :=
      .inr (AdEntry.read_none (hbad.imp_right fun _ => by omega))
    rw [Format.next_stuck hstuck]
    refine ⟨pos, ?_, hdrop⟩
    by_cases hzero : len.toNat = 0
    · rw [if_pos hzero]
      rfl
    · rw [if_neg hzero, if_pos (hbad.resolve_left hzero)]
      rfl
  · rw [not_or, Nat.not_lt] at hbad
    have hpos : pos + 1 < buf.length := by omega
    have hrest : buf.drop (pos + 1) = buf[pos + 1] :: buf.drop (pos + 2) := List.drop_eq_getElem_cons hpos
    have hread : adFormat.read (len :: buf.drop (pos + 1)) =
        some (⟨buf[pos + 1], (buf.drop (pos + 2)).take (len.toNat - 1)⟩,
          (buf.drop (pos + 2)).drop (len.toNat - 1)) := by
      rw [hrest]
      exact AdEntry.read_some hbad.1 (by rw [List.length_drop]; omega)
    rw [if_neg hbad.1, if_neg (by omega), idx_of_lt hpos, ok_bind,
      slice_of_le (by omega) hbad.2, ok_bind, Format.next_of_read hread]
    refine ⟨pos + (1 + len.toNat), ?_, ?_⟩
    · have hdata : (buf.take (pos + 1 + len.toNat)).drop (pos + 2) =
          (buf.drop (pos + 2)).take (len.toNat - 1) := by
        rw [List.drop_take]
        congr 1
        omega
      rw [hdata]
      rfl
    · rw [List.drop_drop]
      congr 1
      omega

/-- **All calls of `next`**: induction on their number. -/
theorem AdIter.calls_eq (n : Nat) (it : AdIter) :
    it.calls n = .ok ((adFormat.outcomes n (it.buf.drop it.pos)).map Item.of) := by
  induction n generalizing it with
  | zero => rfl
  | succ n ih =>
    obtain ⟨pos, hnext, hdrop⟩ := it.next_eq
    unfold AdIter.calls
    rw [hnext, ok_bind]
    dsimp only
    rw [ih, ok_bind, hdrop]
    rfl

theorem calls_iter (n : Nat) (buf : List UInt8) :
    (iter buf).calls n = .ok ((adFormat.outcomes n buf).map Item.of) := (iter buf).calls_eq n

/-! ## The builder packs the format -/

/-- One entry that fits the length byte and the buffer. -/
theorem buildFrom_fits {e : AdEntry} (hfits : e.Fits) {front rest : List UInt8}
    (hroom : e.bytes.length ≤ rest.length) (es : List AdEntry) :
    buildFrom (e :: es) (front ++ rest) front.length =
      buildFrom es ((front ++ e.bytes) ++ rest.drop e.bytes.length) (front ++ e.bytes).length := by
  have hlen := e.length_bytes
  unfold AdEntry.Fits at hfits
  rw [buildFrom, if_neg (by omega), if_neg (by rw [List.length_append]; omega),
    copyInto_append (by rfl) (by rfl) (by simp; omega), ok_bind,
    copyInto_append (by simp) (by simp) (by simp; omega), ok_bind,
    copyInto_append (by simp) (by simp; omega) (by simp; omega), ok_bind]
  have hsplit : e.bytes = [UInt8.ofNat (e.data.length + 1)] ++ [e.adType] ++ e.data := rfl
  rw [hlen, hsplit]
  simp only [List.append_assoc, List.drop_drop, List.length_append, List.length_singleton]
  rw [show 1 + 1 + e.data.length = e.data.length + 2 by omega,
    show 1 + (e.data.length + 1) = e.data.length + 2 by omega,
    show 1 + (1 + e.data.length) = e.data.length + 2 by omega]

/-- One entry that does not. -/
theorem buildFrom_refused {e : AdEntry} {front rest : List UInt8}
    (h : ¬ (e.Fits ∧ e.bytes.length ≤ rest.length)) (es : List AdEntry) :
    ∃ err, buildFrom (e :: es) (front ++ rest) front.length = .ok (.error err, front ++ rest) := by
  have hlen := e.length_bytes
  rw [not_and_or] at h
  unfold AdEntry.Fits at h
  rw [buildFrom]
  by_cases hlong : e.data.length > 255 - 1
  · rw [if_pos hlong]
    exact ⟨_, rfl⟩
  · rw [if_neg hlong, if_pos (by rw [List.length_append]; omega)]
    exact ⟨_, rfl⟩

/-- **What the loop of `build` does**, behind what it has written. -/
theorem buildFrom_eq {es : List AdEntry} (hfits : ∀ e ∈ es, e.Fits) (front : List UInt8)
    {rest : List UInt8} (hroom : (adFormat.pack es).length ≤ rest.length) :
    buildFrom es (front ++ rest) front.length = .ok (.ok (front.length + (adFormat.pack es).length),
      front ++ adFormat.pack es ++ rest.drop (adFormat.pack es).length) := by
  induction es generalizing front rest with
  | nil =>
    rw [Format.pack_nil, List.append_nil]
    rfl
  | cons e es ih =>
    rw [pack_entry, List.length_append] at hroom
    have hrest : (adFormat.pack es).length ≤ (rest.drop e.bytes.length).length := by
      rw [List.length_drop]
      omega
    rw [buildFrom_fits (hfits e List.mem_cons_self) (by omega),
      ih (fun d hd => hfits d (List.mem_cons_of_mem _ hd)) _ hrest, pack_entry, List.drop_drop,
      List.length_append, List.length_append, Nat.add_assoc, List.append_assoc front]

/-- What `build` does not refuse fits. -/
theorem buildFrom_ok {es : List AdEntry} (front : List UInt8) {rest out : List UInt8} {n : Nat}
    (h : buildFrom es (front ++ rest) front.length = .ok (.ok n, out)) :
    (∀ e ∈ es, e.Fits) ∧ (adFormat.pack es).length ≤ rest.length := by
  induction es generalizing front rest with
  | nil => exact ⟨fun e he => absurd he List.not_mem_nil, Nat.zero_le _⟩
  | cons e es ih =>
    by_cases hone : e.Fits ∧ e.bytes.length ≤ rest.length
    · rw [buildFrom_fits hone.1 hone.2] at h
      obtain ⟨hfits, hroom⟩ := ih _ h
      refine ⟨?_, ?_⟩
      · intro d hd
        rcases List.mem_cons.mp hd with rfl | hd
        · exact hone.1
        · exact hfits d hd
      · rw [List.length_drop] at hroom
        rw [pack_entry, List.length_append]
        omega
    · obtain ⟨err, herr⟩ := buildFrom_refused hone es
      rw [herr] at h
      cases h

/-- **When `build` succeeds, and what it writes.** -/
theorem build_ok_iff {es : List AdEntry} {out out' : List UInt8} {n : Nat} :
    build es out = .ok (.ok n, out') ↔
      (∀ e ∈ es, e.Fits) ∧ (adFormat.pack es).length ≤ out.length ∧ n = (adFormat.pack es).length ∧
        out' = adFormat.pack es ++ out.drop (adFormat.pack es).length := by
  constructor
  · intro h
    obtain ⟨hfits, hroom⟩ := buildFrom_ok [] h
    have heq := buildFrom_eq hfits [] hroom
    rw [show build es out = _ from heq, List.nil_append, List.length_nil, Nat.zero_add] at h
    cases h
    exact ⟨hfits, hroom, rfl, rfl⟩
  · rintro ⟨hfits, hroom, rfl, rfl⟩
    have heq := buildFrom_eq hfits [] hroom
    rwa [List.nil_append, List.length_nil, Nat.zero_add] at heq

/-! ## Building and iterating -/

/-- The calls of `next` return these entries, and then `None`. -/
def Iterates (buf : List UInt8) (entries : List AdEntry) : Prop :=
  (iter buf).calls (entries.length + 1) = .ok (entries.map (fun e => some (.ok e)) ++ [none])

theorem iterates_iff (buf : List UInt8) (entries : List AdEntry) :
    Iterates buf entries ↔ (∀ e ∈ entries, e.Fits) ∧ buf = adFormat.pack entries := by
  have hitems : entries.map (fun e => some (Except.ok e)) ++ [none] =
      (entries.map Outcome.got ++ [Outcome.done]).map Item.of := by
    rw [List.map_append, List.map_map]
    rfl
  unfold Iterates
  rw [calls_iter, hitems, Except.ok.injEq, Item.of_injective.list_map.eq_iff]
  constructor
  · exact Format.pack_of_outcomes
  · rintro ⟨hfits, rfl⟩
    exact Format.outcomes_pack hfits

/-- **Building and iterating are inverse.**  What `build` wrote iterates to the entries it was given,
    and a buffer that iterates to entries is what `build` writes of them into one of its length. -/
theorem build_iter_inverse :
    (∀ entries out n out', build entries out = .ok (.ok n, out') → Iterates (out'.take n) entries) ∧
      ∀ buf entries, Iterates buf entries → ∀ out : List UInt8, out.length = buf.length →
        build entries out = .ok (.ok buf.length, buf) := by
  constructor
  · intro entries out n out' h
    obtain ⟨hfits, _, rfl, rfl⟩ := build_ok_iff.mp h
    rw [List.take_left]
    exact (iterates_iff _ _).mpr ⟨hfits, rfl⟩
  · intro buf entries h out hlen
    obtain ⟨hfits, rfl⟩ := (iterates_iff _ _).mp h
    refine build_ok_iff.mpr ⟨hfits, Nat.le_of_eq hlen.symm, rfl, ?_⟩
    rw [List.drop_eq_nil_of_le (Nat.le_of_eq hlen), List.append_nil]

/-- Flags and an empty name: built into a buffer with room to spare, and read back; and the other way. -/
theorem build_iter_inverse_flags :
    Iterates [2, 1, 6, 1, 9] [⟨1, [6]⟩, ⟨9, []⟩] ∧
      build [⟨1, [6]⟩, ⟨9, []⟩] (List.replicate 5 0) = .ok (.ok 5, [2, 1, 6, 1, 9]) :=
  ⟨build_iter_inverse.1 [⟨1, [6]⟩, ⟨9, []⟩] (List.replicate 31 0) 5 _ rfl,
    build_iter_inverse.2 [2, 1, 6, 1, 9] [⟨1, [6]⟩, ⟨9, []⟩] rfl (List.replicate 5 0) rfl⟩

/-! ## Whether the iteration ends -/

/-- Calling `next` again and again returns `None` after at most `k` other items. -/
def EndsWithin (buf : List UInt8) (k : Nat) : Prop :=
  ∃ n items, n ≤ k ∧ (iter buf).calls (n + 1) = .ok (items ++ [none]) ∧ none ∉ items

/-- **When the iteration ends.**  It does within one item more than the buffer has bytes, or ever, iff
    the buffer holds whole AD structures and nothing else. -/
theorem iter_ends_iff (buf : List UInt8) :
    (EndsWithin buf (buf.length + 1) ↔ ∃ entries : List AdEntry,
      (∀ e ∈ entries, e.data.length ≤ 254) ∧ buf = entries.flatMap AdEntry.bytes) ∧
    ((∃ k, EndsWithin buf k) ↔ EndsWithin buf (buf.length + 1)) := by
  have hends : adFormat.WellFormed buf → EndsWithin buf (buf.length + 1) := by
    intro h
    obtain ⟨entries, hlen, hall⟩ := (Format.done_mem_iff adFormat buf).2 h
    refine ⟨entries.length, entries.map (fun e => some (.ok e)), by omega, ?_, by simp⟩
    rw [calls_iter, hall, List.map_append, List.map_map]
    rfl
  have hwell : ∀ k, EndsWithin buf k → adFormat.WellFormed buf := by
    rintro k ⟨n, items, _, hcalls, _⟩
    refine (Format.done_mem_iff adFormat buf).1.mp ⟨n + 1, ?_⟩
    rw [calls_iter, Except.ok.injEq] at hcalls
    have hmem : none ∈ (adFormat.outcomes (n + 1) buf).map Item.of := by
      rw [hcalls]
      exact List.mem_append_right _ List.mem_cons_self
    obtain ⟨o, ho, hnone⟩ := List.mem_map.mp hmem
    rwa [← Item.of_injective (show Item.of o = Item.of .done from hnone)]
  exact ⟨⟨hwell _, hends⟩, fun ⟨k, hk⟩ => hends (hwell k hk), fun h => ⟨_, h⟩⟩

/-- An empty entry: `next` reports the same error for ever. -/
theorem iter_stays_at_empty :
    (∀ n, (iter [0x00, 0x01, 0x06]).calls n = .ok (List.replicate n (some (.error .invalidAd)))) ∧
      ¬ ∀ buf, EndsWithin buf (buf.length + 1) := by
  have hcalls : ∀ n, (iter [0x00, 0x01, 0x06]).calls n =
      .ok (List.replicate n (some (.error .invalidAd))) := by
    intro n
    rw [calls_iter, Format.outcomes_stuck (.inr rfl), List.map_replicate]
    rfl
  refine ⟨hcalls, fun h => ?_⟩
  obtain ⟨n, items, _, hn, _⟩ := h [0x00, 0x01, 0x06]
  rw [hcalls, Except.ok.injEq] at hn
  have hmem : none ∈ List.replicate (n + 1) (some (Except.error Error.invalidAd : Except Error AdEntry)) := by
    rw [hn]
    exact List.mem_append_right _ List.mem_cons_self
  cases List.eq_of_mem_replicate hmem

end NrfBle
