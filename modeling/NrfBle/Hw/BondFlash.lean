/-
  Bonds in flash (`src/hw/bond_flash.rs`).

  1. **The record** — 44 bytes: the address, the keys, and at the END a trailer of which no byte is
     0xFF.

  2. **The page** — a magic word and eight records behind it.  `flush` erases the page to 0xFF and then
     stores the magic word and the records of the full slots, byte by byte.  A page is a function
     from the offset to the byte; nothing is stored beyond offset 356 of 4096.

  3. **Interruption** — after any number of these stores each slot reads as nothing or as the bond it
     was flushed from: a record that is not complete has 0xFF for its last byte
     (`open_pageAfter`).  After all of them the page reads as the cache (`open_flush`), so along any
     sequence of saves the page and the cache agree (`Stored`).
-/
import Mathlib.Tactic
import NrfBle.Lib.Writes
import NrfBle.Hw.Conn.State

namespace NrfBle

open Checked

/-! ## Records -/

abbrev bondPageMagic : Nat := 0x4E423144
abbrev bondMax : Nat := 8
abbrev bondRecordLen : Nat := 44

/-- The last four bytes of a record. -/
def recordTrailer : List UInt8 := leBytes 4 0xA5A55A5A

/-- The bytes of a record; without an IRK its place is zeroes. -/
def recordBytes (bond : BondInfo) : List UInt8 :=
  bond.addr.bytes ++ [0] ++ bond.ltk.bytes ++ [if bond.irk.isSome then 1 else 0] ++
    (bond.irk.getD (Buf.zero 16)).bytes ++ recordTrailer

theorem recordBytes_length (bond : BondInfo) : (recordBytes bond).length = bondRecordLen := by
  unfold recordBytes recordTrailer
  simp [Buf.size]

/-- `encode_record`. -/
def encodeRecord (bond : BondInfo) : Buf 44 := ⟨recordBytes bond, recordBytes_length bond⟩

theorem recordField_length (rec : Buf 44) {lo k : Nat} (h : lo + k ≤ 44) :
    ((rec.bytes.drop lo).take k).length = k := by
  rw [List.length_take, List.length_drop, rec.size]
  omega

/-- `k` bytes of a record from `lo` on, as an array. -/
def recordField (rec : Buf 44) (lo k : Nat) (h : lo + k ≤ 44) : Buf k :=
  ⟨(rec.bytes.drop lo).take k, recordField_length rec h⟩

/-- `decode_record`. -/
def decodeRecord (rec : Buf 44) : Option BondInfo :=
  if (rec.bytes.drop 40).take 4 ≠ recordTrailer then none
  else
    some ⟨recordField rec 0 6 (by decide), recordField rec 7 16 (by decide),
      if rec.bytes.getD 23 0 ≠ 0 then some (recordField rec 24 16 (by decide)) else none⟩

/-- The part between two others. -/
theorem take_drop_middle {α : Type} (pre post : List α) {xs mid : List α} {lo k : Nat}
    (hxs : xs = pre ++ mid ++ post) (hlo : pre.length = lo) (hk : mid.length = k) :
    (xs.drop lo).take k = mid := by
  rw [hxs, List.append_assoc, ← hlo, List.drop_left, ← hk, List.take_left]

/-- **The record round trip.** -/
theorem decodeRecord_encodeRecord (bond : BondInfo) :
    decodeRecord (encodeRecord bond) = some bond := by
  obtain ⟨addr, ltk, irk⟩ := bond
  have hlen : ∀ {n : Nat} (b : Buf n), b.bytes.length = n := fun b => b.size
  generalize hrec : recordBytes ⟨addr, ltk, irk⟩ = rec
  generalize hf : (if irk.isSome then 1 else 0 : UInt8) = flag
  generalize hk : irk.getD (Buf.zero 16) = key
  have hbytes : rec = addr.bytes ++ [0] ++ ltk.bytes ++ [flag] ++ key.bytes ++ recordTrailer := by
    rw [← hrec, ← hf, ← hk]
    rfl
  -- the fields of the record, each between what is in front of it and what is behind
  have haddr : (rec.drop 0).take 6 = addr.bytes :=
    take_drop_middle [] ([0] ++ ltk.bytes ++ [flag] ++ key.bytes ++ recordTrailer)
      (by rw [hbytes]; simp only [List.append_assoc, List.nil_append]) rfl addr.size
  have hltk : (rec.drop 7).take 16 = ltk.bytes :=
    take_drop_middle (addr.bytes ++ [0]) ([flag] ++ key.bytes ++ recordTrailer)
      (by rw [hbytes]; simp only [List.append_assoc]) (by simp [hlen]) ltk.size
  have hflag : (rec.drop 23).take 1 = [flag] :=
    take_drop_middle (addr.bytes ++ [0] ++ ltk.bytes) (key.bytes ++ recordTrailer)
      (by rw [hbytes]; simp only [List.append_assoc]) (by simp [hlen]) rfl
  have hkey : (rec.drop 24).take 16 = key.bytes :=
    take_drop_middle (addr.bytes ++ [0] ++ ltk.bytes ++ [flag]) recordTrailer
      hbytes (by simp [hlen]) key.size
  have htrailer : (rec.drop 40).take 4 = recordTrailer :=
    take_drop_middle (addr.bytes ++ [0] ++ ltk.bytes ++ [flag] ++ key.bytes) []
      (by rw [hbytes, List.append_nil]) (by simp [hlen]) rfl
  have hget : rec.getD 23 0 = flag := by
    have hhead := congrArg (fun l : List UInt8 => l.getD 0 0) hflag
    rw [List.getD_eq_getElem?_getD, List.getElem?_take_of_lt (by decide), List.getElem?_drop] at hhead
    rw [List.getD_eq_getElem?_getD]
    exact hhead
  have hb : (encodeRecord ⟨addr, ltk, irk⟩).bytes = rec := hrec
  have hfield : ∀ {lo n : Nat} (h : lo + n ≤ 44) {b : Buf n}, (rec.drop lo).take n = b.bytes →
      recordField (encodeRecord ⟨addr, ltk, irk⟩) lo n h = b := by
    intro lo n h b heq
    rw [← hb] at heq
    exact Buf.ext heq
  unfold decodeRecord
  rw [hb, if_neg (not_not.mpr htrailer), hget, hfield _ haddr, hfield _ hltk, hfield _ hkey]
  cases irk with
  | none => rw [← hf]; rfl
  | some irk => rw [← hf, ← hk]; rfl

/-- A record whose last byte is still erased is none. -/
theorem decodeRecord_torn {rec : Buf 44} (h : rec.bytes[43]? = some 0xFF) :
    decodeRecord rec = none := by
  unfold decodeRecord
  refine if_pos ?_
  intro htrailer
  have hlast := congrArg (fun l : List UInt8 => l[3]?) htrailer
  rw [List.getElem?_take_of_lt (by decide), List.getElem?_drop, h] at hlast
  exact absurd hlast (by decide)

/-! ## The page -/

/-- The offset of the `i`-th record. -/
def recordAddr (i : Nat) : Nat := 4 + i * bondRecordLen

/-- An erased page. -/
def erased : Nat → UInt8 := fun _ => 0xFF

/-- The stores of one slot: its record byte by byte, and nothing for an empty one. -/
def slotWrites (i : Nat) : Option BondInfo → List (Nat × UInt8)
  | none => []
  | some bond => Writes.burst (recordAddr i) (encodeRecord bond).bytes

/-- The stores of the slots from the `i`-th on. -/
def recordWrites : Nat → List (Option BondInfo) → List (Nat × UInt8)
  | _, [] => []
  | i, slot :: slots => slotWrites i slot ++ recordWrites (i + 1) slots

/-- The stores of `flush` after the erase, in order: the magic word with one, then the records with
    one for each byte. -/
def flushWrites (cache : List (Option BondInfo)) : List (List (Nat × UInt8)) :=
  Writes.burst 0 (leBytes 4 bondPageMagic) :: (recordWrites 0 cache).map (fun w => [w])

/-- The page after the first `k` stores of `flush`. -/
def pageAfter (cache : List (Option BondInfo)) (k : Nat) : Nat → UInt8 :=
  Writes.play ((flushWrites cache).take k).flatten erased

/-- The word at the front of a page. -/
def pageMagic (page : Nat → UInt8) : Nat :=
  (Writes.read page 0 4).foldr (fun b n => b.toNat + 256 * n) 0

/-- The `i`-th record of a page. -/
def readRecord (page : Nat → UInt8) (i : Nat) : Buf 44 :=
  ⟨Writes.read page (recordAddr i) 44, Writes.read_length _ _ _⟩

/-! ## The store -/

/-- `FlashBondStore`, with the page it is on. -/
structure FlashBondStore where
  page : Nat → UInt8
  cache : List (Option BondInfo)
  size : cache.length = bondMax

namespace FlashBondStore

theorem loaded_length (page : Nat → UInt8) :
    ((List.range bondMax).map (fun i => decodeRecord (readRecord page i))).length = bondMax := by
  rw [List.length_map, List.length_range]

/-- `FlashBondStore::load_page`. -/
def loadPage (st : FlashBondStore) : FlashBondStore :=
  if pageMagic st.page ≠ bondPageMagic then st
  else
    ⟨st.page, (List.range bondMax).map (fun i => decodeRecord (readRecord st.page i)),
      loaded_length st.page⟩

/-- `FlashBondStore::open` (and `new`, which is the same). -/
def «open» (page : Nat → UInt8) : FlashBondStore :=
  loadPage ⟨page, List.replicate bondMax none, List.length_replicate⟩

/-- `FlashBondStore::flush`: erase, then store everything. -/
def flush (st : FlashBondStore) : FlashBondStore :=
  { st with page := Writes.play (flushWrites st.cache).flatten erased }

theorem set_length (st : FlashBondStore) (i : Nat) (slot : Option BondInfo) :
    (st.cache.set i slot).length = bondMax := by
  rw [List.length_set, st.size]

/-- `FlashBondStore::save`: replace the first slot of that peer, else take the first empty one; a
    full store without the peer is left alone. -/
def save (st : FlashBondStore) (peer : Buf 6) (ltk : Buf 16) (irk : Option (Buf 16)) :
    FlashBondStore :=
  let info : BondInfo := ⟨peer, ltk, irk⟩
  match st.cache.findIdx? (fun slot => slot.any (fun b => b.addr = peer)) with
  | some i => flush ⟨st.page, st.cache.set i (some info), st.set_length i _⟩
  | none =>
    match st.cache.findIdx? (fun slot => slot.isNone) with
    | some i => flush ⟨st.page, st.cache.set i (some info), st.set_length i _⟩
    | none => st

/-- `FlashBondStore::find`. -/
def find (st : FlashBondStore) (peer : Buf 6) : Option BondInfo :=
  st.cache.reduceOption.find? (fun b => b.addr = peer)

end FlashBondStore

/-! ## Where the stores go -/

theorem recordAddr_succ (i : Nat) : recordAddr (i + 1) = recordAddr i + 44 := by
  show 4 + (i + 1) * 44 = 4 + i * 44 + 44
  omega

theorem recordAddr_mono {i j : Nat} (h : i ≤ j) : recordAddr i ≤ recordAddr j :=
  Nat.add_le_add_left (Nat.mul_le_mul_right _ h) _

theorem mem_slotWrites {i : Nat} {slot : Option BondInfo} {w : Nat × UInt8}
    (h : w ∈ slotWrites i slot) : recordAddr i ≤ w.1 ∧ w.1 < recordAddr (i + 1) := by
  cases slot with
  | none => cases h
  | some bond =>
    have hw := Writes.mem_burst h
    rw [Buf.size] at hw
    rw [recordAddr_succ]
    exact hw

/-- The slots from the `i`-th on are stored from the `i`-th record on, and nothing behind the last. -/
theorem mem_recordWrites {i : Nat} {slots : List (Option BondInfo)} {w : Nat × UInt8}
    (h : w ∈ recordWrites i slots) :
    recordAddr i ≤ w.1 ∧ w.1 < recordAddr (i + slots.length) := by
  induction slots generalizing i with
  | nil => cases h
  | cons slot slots ih =>
    rw [List.length_cons]
    rcases List.mem_append.mp h with h | h
    · have hw := mem_slotWrites h
      have hmono := recordAddr_mono (show i + 1 ≤ i + (slots.length + 1) by omega)
      omega
    · have hw := ih h
      have hmono := recordAddr_mono (show i ≤ i + 1 by omega)
      rw [show i + 1 + slots.length = i + (slots.length + 1) by omega] at hw
      omega

theorem recordWrites_append (i : Nat) (slots slots' : List (Option BondInfo)) :
    recordWrites i (slots ++ slots') =
      recordWrites i slots ++ recordWrites (i + slots.length) slots' := by
  induction slots generalizing i with
  | nil => rfl
  | cons slot slots ih =>
    show slotWrites i slot ++ recordWrites (i + 1) (slots ++ slots') = _
    rw [ih, List.length_cons, show i + 1 + slots.length = i + (slots.length + 1) by omega,
      ← List.append_assoc]
    rfl

/-! ## Interruption -/

/-- What an interrupted slot reads as: nothing, or the slot; and the slot once all is stored. -/
theorem decode_slotWrites {i : Nat} {slot : Option BondInfo} {m : Nat → UInt8} {n : Nat}
    (hm : ∀ x, recordAddr i ≤ x → m x = 0xFF) {rec : Buf 44}
    (hrec : rec.bytes =
      Writes.read (Writes.play ((slotWrites i slot).take n) m) (recordAddr i) 44) :
    (decodeRecord rec = none ∨ decodeRecord rec = slot) ∧
      ((slotWrites i slot).length ≤ n → decodeRecord rec = slot) := by
  have hblank : ∀ a k, recordAddr i ≤ a → Writes.read m a k = List.replicate k 0xFF := by
    intro a k ha
    rw [← Writes.read_const]
    exact Writes.read_congr (fun x hx _ => hm x (Nat.le_trans ha hx))
  cases slot with
  | none =>
    have hnone : decodeRecord rec = none := by
      refine decodeRecord_torn ?_
      rw [hrec, slotWrites, List.take_nil]
      show (Writes.read m (recordAddr i) 44)[43]? = _
      rw [hblank _ _ (Nat.le_refl _)]
      rfl
    exact ⟨.inl hnone, fun _ => hnone⟩
  | some bond =>
    have hsize : (encodeRecord bond).bytes.length = 44 := (encodeRecord bond).size
    have hread := Writes.read_burst_take (recordAddr i) (encodeRecord bond).bytes m n
    rw [hsize, hblank _ _ (Nat.le_add_right _ _)] at hread
    rw [slotWrites, hread] at hrec
    rw [slotWrites, Writes.burst_length, hsize]
    rcases Nat.lt_or_ge n 44 with hn | hn
    · -- the last byte is not stored yet
      refine ⟨.inl (decodeRecord_torn ?_), fun h => absurd h (by omega)⟩
      have htake : ((encodeRecord bond).bytes.take n).length = n := by
        rw [List.length_take]
        omega
      rw [hrec, List.getElem?_append_right (by omega), htake, List.getElem?_replicate,
        if_pos (by omega)]
    · have hfull : rec = encodeRecord bond := by
        refine Buf.ext ?_
        rw [hrec, List.take_of_length_le (by omega), hsize]
        exact List.append_nil _
      have hsome : decodeRecord rec = some bond := by
        rw [hfull]
        exact decodeRecord_encodeRecord bond
      exact ⟨.inr hsome, fun _ => hsome⟩

/-- The slot between the slots in front of it and those behind, after `k` stores of records. -/
theorem decode_recordWrites (pre post : List (Option BondInfo)) (slot : Option BondInfo)
    {m : Nat → UInt8} (hm : ∀ x, 4 ≤ x → m x = 0xFF) (k : Nat) :
    let ws := recordWrites 0 (pre ++ slot :: post)
    let got := decodeRecord (readRecord (Writes.play (ws.take k) m) pre.length)
    (got = none ∨ got = slot) ∧ (ws.length ≤ k → got = slot) := by
  intro ws got
  have hws : ws = recordWrites 0 pre ++ slotWrites pre.length slot ++
      recordWrites (pre.length + 1) post := by
    show recordWrites 0 (pre ++ slot :: post) = _
    rw [recordWrites_append, Nat.zero_add, recordWrites, ← List.append_assoc]
  have hm' : ∀ x, recordAddr pre.length ≤ x → m x = 0xFF := by
    intro x hx
    exact hm x (Nat.le_trans (Nat.le_add_right 4 _) hx)
  have hread : (readRecord (Writes.play (ws.take k) m) pre.length).bytes =
      Writes.read (Writes.play ((slotWrites pre.length slot).take
        (k - (recordWrites 0 pre).length)) m) (recordAddr pre.length) 44 := by
    refine Writes.read_congr ?_
    intro x hlo hhi
    rw [hws]
    refine Writes.play_take_middle ?_ ?_ k
    · intro w hw
      have hlt := (mem_recordWrites hw).2
      rw [Nat.zero_add] at hlt
      omega
    · intro w hw
      have hle := (mem_recordWrites hw).1
      rw [recordAddr_succ] at hle
      omega
  obtain ⟨hany, hall⟩ := decode_slotWrites hm' hread
  refine ⟨hany, fun hk => hall ?_⟩
  rw [hws, List.length_append, List.length_append] at hk
  omega

/-- After the magic word the stores are those of the records. -/
theorem pageAfter_succ (cache : List (Option BondInfo)) (k : Nat) :
    pageAfter cache (k + 1) = Writes.play ((recordWrites 0 cache).take k)
      (Writes.play (Writes.burst 0 (leBytes 4 bondPageMagic)) erased) := by
  have hflat : ∀ (ws : List (Nat × UInt8)) (k : Nat),
      ((ws.map (fun w => [w])).take k).flatten = ws.take k := by
    intro ws k
    rw [← List.map_take]
    exact List.flatMap_singleton' _
  unfold pageAfter flushWrites
  rw [List.take_succ_cons, List.flatten_cons, hflat, Writes.play_append]

/-- The magic word stands behind no record. -/
theorem pageMagic_pageAfter (cache : List (Option BondInfo)) (k : Nat) :
    pageMagic (pageAfter cache (k + 1)) = bondPageMagic := by
  have hread : Writes.read (pageAfter cache (k + 1)) 0 4 = leBytes 4 bondPageMagic := by
    rw [pageAfter_succ]
    have hsame : Writes.read (Writes.play ((recordWrites 0 cache).take k)
        (Writes.play (Writes.burst 0 (leBytes 4 bondPageMagic)) erased)) 0 4 =
        Writes.read (Writes.play (Writes.burst 0 (leBytes 4 bondPageMagic)) erased) 0 4 := by
      refine Writes.read_congr ?_
      intro x _ hx
      refine Writes.play_other ?_
      intro w hw
      have hle := (mem_recordWrites (List.mem_of_mem_take hw)).1
      have h4 : recordAddr 0 = 4 := rfl
      omega
    rw [hsame, Writes.read_burst 0 _ _ (by rw [leBytes_length])]
    exact List.append_nil _
  unfold pageMagic
  rw [hread]
  decide

namespace FlashBondStore

theorem open_of_magic {page : Nat → UInt8} (h : pageMagic page = bondPageMagic) :
    («open» page).cache =
      (List.range bondMax).map (fun i => decodeRecord (readRecord page i)) := by
  unfold «open» loadPage
  rw [if_neg (not_not.mpr h)]

theorem open_of_blank {page : Nat → UInt8} (h : pageMagic page ≠ bondPageMagic) :
    («open» page).cache = List.replicate bondMax none := by
  unfold «open» loadPage
  rw [if_pos h]

/-- Opening does not touch the page. -/
theorem open_page (page : Nat → UInt8) : («open» page).page = page := by
  unfold «open» loadPage
  split <;> rfl

/-- **Interrupted writes.**  After the first `k` stores of a flush every slot of the store that is
    opened is empty or the flushed one; after all of them it is the flushed one. -/
theorem open_pageAfter {cache : List (Option BondInfo)} (h : cache.length = bondMax) (k : Nat)
    {i : Nat} (hi : i < bondMax) :
    ((«open» (pageAfter cache k)).cache[i]? = some none ∨
      («open» (pageAfter cache k)).cache[i]? = cache[i]?) ∧
    ((flushWrites cache).length ≤ k → («open» (pageAfter cache k)).cache[i]? = cache[i]?) := by
  cases k with
  | zero =>
    have hblank : («open» (pageAfter cache 0)).cache = List.replicate bondMax none :=
      open_of_blank (show pageMagic erased ≠ bondPageMagic by decide)
    rw [hblank, List.getElem?_replicate, if_pos hi]
    exact ⟨.inl rfl, fun hk => absurd hk (Nat.not_succ_le_zero _)⟩
  | succ k =>
    obtain ⟨pre, slot, post, rfl, rfl⟩ : ∃ pre slot post, cache = pre ++ slot :: post ∧
        pre.length = i := by
      have hin : i < cache.length := by omega
      refine ⟨cache.take i, cache[i], cache.drop (i + 1), ?_, ?_⟩
      · rw [← List.drop_eq_getElem_cons, List.take_append_drop]
      · rw [List.length_take]
        omega
    have hm : ∀ x, 4 ≤ x →
        Writes.play (Writes.burst 0 (leBytes 4 bondPageMagic)) erased x = 0xFF := by
      intro x hx
      refine Writes.play_other (m := erased) ?_
      intro w hw
      have hlt := (Writes.mem_burst hw).2
      rw [leBytes_length] at hlt
      omega
    have hget : («open» (pageAfter (pre ++ slot :: post) (k + 1))).cache[pre.length]? =
        some (decodeRecord (readRecord (pageAfter (pre ++ slot :: post) (k + 1)) pre.length)) := by
      rw [open_of_magic (pageMagic_pageAfter _ k), List.getElem?_map, List.getElem?_range hi]
      rfl
    have hslot : (pre ++ slot :: post)[pre.length]? = some slot := by
      rw [List.getElem?_append_right (Nat.le_refl _), Nat.sub_self]
      rfl
    rw [hget, hslot, pageAfter_succ]
    obtain ⟨hany, hall⟩ := decode_recordWrites pre post slot hm k
    refine ⟨hany.imp (congrArg some) (congrArg some), fun hk => congrArg some (hall ?_)⟩
    rw [flushWrites, List.length_cons, List.length_map] at hk
    omega

/-- A page that was flushed to its end reads as the cache. -/
theorem open_flush (st : FlashBondStore) : («open» st.flush.page).cache = st.cache := by
  have hpage : st.flush.page = pageAfter st.cache (flushWrites st.cache).length := by
    unfold pageAfter
    rw [List.take_length]
    rfl
  rw [hpage]
  refine List.ext_getElem? ?_
  intro i
  rcases Nat.lt_or_ge i bondMax with hi | hi
  · exact (open_pageAfter st.size _ hi).2 (Nat.le_refl _)
  · rw [List.getElem?_eq_none (by rw [(«open» _).size]; exact hi),
      List.getElem?_eq_none (by rw [st.size]; exact hi)]

/-! ## Saves -/

/-- The page reads as the cache. -/
def Stored (st : FlashBondStore) : Prop := («open» st.page).cache = st.cache

theorem Stored.open (page : Nat → UInt8) : («open» page).Stored := by
  unfold Stored
  rw [open_page]

/-- A save flushes what it changed, or changes nothing. -/
theorem Stored.save {st : FlashBondStore} (h : st.Stored) (peer : Buf 6) (ltk : Buf 16)
    (irk : Option (Buf 16)) : (st.save peer ltk irk).Stored := by
  unfold FlashBondStore.save
  dsimp only
  split
  · exact open_flush _
  · split
    · exact open_flush _
    · exact h

/-- Save a list of bonds, the first first. -/
def saveAll (st : FlashBondStore) (bonds : List BondInfo) : FlashBondStore :=
  bonds.foldl (fun st bond => st.save bond.addr bond.ltk bond.irk) st

theorem Stored.saveAll {st : FlashBondStore} (h : st.Stored) (bonds : List BondInfo) :
    (st.saveAll bonds).Stored := by
  induction bonds generalizing st with
  | nil => exact h
  | cons bond bonds ih => exact ih (h.save bond.addr bond.ltk bond.irk)

/-- **Bonds in flash.**  For every cache and every prefix of the stores of a flush, each slot of a
    store opened on that page is empty or the flushed one, and after all stores the cache is the
    flushed one.  And from whatever page a store is opened, after any saves opening the page again
    gives a store that finds for every peer what the store finds. -/
theorem flash_bonds_survive :
    (∀ (cache : List (Option BondInfo)), cache.length = bondMax → ∀ k, ∀ i < bondMax,
      («open» (pageAfter cache k)).cache[i]? = some none ∨
        («open» (pageAfter cache k)).cache[i]? = cache[i]?) ∧
    (∀ st : FlashBondStore, («open» st.flush.page).cache = st.cache) ∧
    ∀ (page : Nat → UInt8) (bonds : List BondInfo) (peer : Buf 6),
      («open» ((«open» page).saveAll bonds).page).find peer =
        ((«open» page).saveAll bonds).find peer := by
  refine ⟨?_, open_flush, ?_⟩
  · intro cache h k i hi
    exact (open_pageAfter h k hi).1
  · intro page bonds peer
    unfold find
    rw [(Stored.open page).saveAll bonds]

/-- A bond whose keys are all 0xFF bytes: it is found after a restart, and a flush of it that stops
    after 40 stores leaves the slot empty or the bond in it. -/
theorem flash_bonds_survive_blank_key :
    let bond : BondInfo := ⟨⟨[1, 2, 3, 4, 5, 6], rfl⟩, ⟨List.replicate 16 0xFF, rfl⟩,
      some ⟨List.replicate 16 0xFF, rfl⟩⟩
    let cache := some bond :: List.replicate 7 none
    («open» ((«open» erased).saveAll [bond]).page).find bond.addr = some bond ∧
      ((«open» (pageAfter cache 40)).cache[0]? = some none ∨
        («open» (pageAfter cache 40)).cache[0]? = some (some bond)) := by
  intro bond cache
  refine ⟨?_, flash_bonds_survive.1 cache rfl 40 0 (by decide)⟩
  rw [flash_bonds_survive.2.2 erased [bond] bond.addr]
  decide +kernel

end FlashBondStore

end NrfBle
