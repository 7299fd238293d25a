/-
  The three discovery requests: Find Information, Read By Type, Read By Group Type.

  Each answer is a list of entries of one width, appended to a buffer while they fit (`putAll`), so
  it is an opcode, a byte for the width and a prefix of what the table has in the range
  (`listReply`).  The prefix is not empty when anything matches; when nothing does, the source's test
  for an empty answer compares the position with one, where it starts at two, and the answer is a
  response without entries.

  A Find Information answer has UUIDs of one size.  Over a range with both, the source writes the
  16-bit ones into 16 bytes, at the place where the base UUID would have them in the other byte order
  and without the base UUID's bytes.  So what an entry says depends on how a 16-bit UUID is to be read
  from 128 bits; `Answered` has that as a parameter, and `discovery_answered_iff` is for both readings.
-/
import Mathlib.Tactic
import NrfBle.Hw.Conn.Run

namespace NrfBle

open Checked

namespace Conn

/-! ## Entries of one width -/

/-- An entry: a handle and a value. -/
def attEntry (e : UInt16 × List UInt8) : List UInt8 := le16 e.1 ++ e.2

/-- Append entries to a response while they fit. -/
def putAll {n : Nat} (width : Nat) : List (UInt16 × List UInt8) → Buf n → Nat →
    Except Panic (Buf n × Nat)
  | [], rsp, pos => return (rsp, pos)
  | (handle, value) :: es, rsp, pos => do
    let r ← putEntry rsp pos width handle value
    putAll width es r.1 r.2

/-- An entry that fits. -/
theorem putEntry_fits {n : Nat} (rsp : Buf n) {pos : Nat} (e : UInt16 × List UInt8)
    (h : pos + (2 + e.2.length) ≤ n) :
    ∃ rsp', putEntry rsp pos (2 + e.2.length) e.1 e.2 = .ok (rsp', pos + (2 + e.2.length)) ∧
      rsp'.bytes.take (pos + (2 + e.2.length)) = rsp.bytes.take pos ++ attEntry e := by
  obtain ⟨b₁, h₁⟩ := rsp.returns_write.mpr (show pos + (le16 e.1).length ≤ n by rw [le16_length]; omega)
  obtain ⟨b₂, h₂⟩ := b₁.returns_write.mpr (show pos + 2 + e.2.length ≤ n by omega)
  refine ⟨b₂, ?_, ?_⟩
  · unfold putEntry
    rw [if_pos h, h₁, ok_bind, h₂]
    rfl
  · have hhandle := Buf.take_of_write h₁
    rw [le16_length] at hhandle
    rw [← Nat.add_assoc, Buf.take_of_write h₂, hhandle, List.append_assoc]
    rfl

/-- Entries that do not fit are left out. -/
theorem putAll_full {n width : Nat} (es : List (UInt16 × List UInt8)) (rsp : Buf n) {pos : Nat}
    (h : n < pos + width) : putAll width es rsp pos = .ok (rsp, pos) := by
  induction es with
  | nil => rfl
  | cons e es ih =>
    rw [putAll, putEntry, if_neg (by omega)]
    exact ih

/-- **Entries of one width**: as many as there is room for, in order. -/
theorem putAll_spec {n L : Nat} (es : List (UInt16 × List UInt8)) (he : ∀ e ∈ es, e.2.length = L)
    (rsp : Buf n) {pos : Nat} (hp : pos ≤ n) :
    ∃ rsp' pos', putAll (2 + L) es rsp pos = .ok (rsp', pos') ∧ pos' ≤ n ∧
      rsp'.bytes.take pos' =
        rsp.bytes.take pos ++ (es.take ((n - pos) / (2 + L))).flatMap attEntry := by
  induction es generalizing rsp pos with
  | nil =>
    refine ⟨rsp, pos, rfl, hp, ?_⟩
    rw [List.take_nil, List.flatMap_nil, List.append_nil]
  | cons e es ih =>
    have hlen : e.2.length = L := he e List.mem_cons_self
    rcases Nat.lt_or_ge n (pos + (2 + L)) with hfull | hroom
    · refine ⟨rsp, pos, putAll_full _ rsp hfull, hp, ?_⟩
      rw [Nat.div_eq_of_lt (by omega), List.take_zero, List.flatMap_nil, List.append_nil]
    · obtain ⟨rsp₁, hput, hbytes₁⟩ := putEntry_fits rsp e (hlen.symm ▸ hroom)
      rw [hlen] at hput hbytes₁
      obtain ⟨rsp₂, pos₂, hrest, hp₂, hbytes₂⟩ :=
        ih (fun e' h' => he e' (List.mem_cons_of_mem _ h')) rsp₁ hroom
      refine ⟨rsp₂, pos₂, ?_, hp₂, ?_⟩
      · rw [putAll, hput]
        exact hrest
      · have hcount : (n - pos) / (2 + L) = (n - (pos + (2 + L))) / (2 + L) + 1 := by
          rw [← Nat.add_div_right _ (by omega)]
          congr 1
          omega
        rw [hbytes₂, hbytes₁, hcount, List.take_succ_cons, List.flatMap_cons, List.append_assoc]

/-- A response of at most `n` bytes: opcode, format, entries. -/
def listReply (n : Nat) (code format : UInt8) (width : Nat) (es : List (UInt16 × List UInt8)) :
    List UInt8 :=
  code :: format :: (es.take ((n - 2) / width)).flatMap attEntry

theorem listReply_length {n L : Nat} (code format : UInt8) {es : List (UInt16 × List UInt8)}
    (he : ∀ e ∈ es, e.2.length = L) :
    (listReply n code format (2 + L) es).length =
      2 + min ((n - 2) / (2 + L)) es.length * (2 + L) := by
  have hentry : ∀ e ∈ es.take ((n - 2) / (2 + L)), (attEntry e).length = 2 + L := by
    intro e hmem
    rw [attEntry, List.length_append, le16_length, he e (List.mem_of_mem_take hmem)]
  have hsum : ((es.take ((n - 2) / (2 + L))).map fun e => (attEntry e).length).sum =
      (es.take ((n - 2) / (2 + L))).length * (2 + L) := by
    rw [List.map_congr_left hentry, List.map_const', List.sum_replicate, smul_eq_mul]
  rw [listReply, List.length_cons, List.length_cons, List.length_flatMap, hsum, List.length_take]
  omega

theorem listReply_length_le {n L : Nat} (hn : 2 ≤ n) (code format : UInt8)
    {es : List (UInt16 × List UInt8)} (he : ∀ e ∈ es, e.2.length = L) :
    (listReply n code format (2 + L) es).length ≤ n := by
  rw [listReply_length code format he]
  have hroom : min ((n - 2) / (2 + L)) es.length * (2 + L) ≤ n - 2 :=
    (Nat.mul_le_mul_right _ (Nat.min_le_left _ _)).trans (Nat.div_mul_le_self _ _)
  omega

theorem putAll_reply {n L : Nat} (hn : 2 ≤ n) (code format : UInt8)
    (es : List (UInt16 × List UInt8)) (he : ∀ e ∈ es, e.2.length = L) :
    ∃ rsp pos, putAll (2 + L) es (((Buf.zero n).set 0 code).set 1 format) 2 = .ok (rsp, pos) ∧
      2 ≤ pos ∧ rsp.upto pos = .ok (listReply n code format (2 + L) es) := by
  obtain ⟨rsp, pos, hput, hp, hbytes⟩ :=
    putAll_spec es he (((Buf.zero n).set 0 code).set 1 format) hn
  rw [Buf.take_two_set _ _ _ hn] at hbytes
  refine ⟨rsp, pos, hput, ?_, ?_⟩
  · have hlen := congrArg List.length hbytes
    rw [List.length_take, List.length_append] at hlen
    simp only [List.length_cons, List.length_nil] at hlen
    omega
  · rw [rsp.upto_of_le hp, hbytes]
    rfl

/-! ## The answers -/

/-- What an entry of a Find Information response has for a UUID. -/
def uuidBytes (uuid16 : Bool) : GattUuid → List UInt8
  | .uuid16 u => if uuid16 then le16 u else [0, 0] ++ le16 u ++ List.replicate 12 0
  | .uuid128 u => u.bytes

theorem putUuids_eq (uuid16 : Bool) (es : List (UInt16 × GattUuid))
    (h : uuid16 = true → ∀ e ∈ es, e.2.asU16.isSome = true) (rsp : Buf 64) (pos : Nat) :
    putUuids uuid16 es rsp pos =
      putAll (if uuid16 then 4 else 18) (es.map fun e => (e.1, uuidBytes uuid16 e.2)) rsp pos := by
  induction es generalizing rsp pos with
  | nil => rfl
  | cons e es ih =>
    obtain ⟨handle, uuid⟩ := e
    have hput : putUuid uuid16 rsp pos handle uuid =
        putEntry rsp pos (if uuid16 then 4 else 18) handle (uuidBytes uuid16 uuid) := by
      cases uuid with
      | uuid16 u => cases uuid16 <;> rfl
      | uuid128 u =>
        have hlong : uuid16 = false := by
          by_contra hshort
          have hsome := h (Bool.eq_true_of_not_eq_false hshort) _ List.mem_cons_self
          cases hsome
        rw [hlong]
        rfl
    rw [putUuids, List.map_cons, putAll, hput]
    exact congrArg _ (funext fun r => ih (fun hs e' h' => h hs e' (List.mem_cons_of_mem _ h')) r.1 r.2)

/-- All UUIDs of the range have 16 bits. -/
def allShort (start stop : UInt16) : Bool := (entries start stop).all (fun e => e.2.asU16.isSome)

/-- What a Find Information response lists. -/
def informationEntries (start stop : UInt16) : List (UInt16 × List UInt8) :=
  (entries start stop).map fun e => (e.1, uuidBytes (allShort start stop) e.2)

/-- The answer to Find Information. -/
def informationReply (start stop : UInt16) : List UInt8 :=
  listReply 64 0x05 (if allShort start stop then 1 else 2) (if allShort start stop then 4 else 18)
    (informationEntries start stop)

theorem informationEntries_length (start stop : UInt16) {e : UInt16 × List UInt8}
    (he : e ∈ informationEntries start stop) :
    e.2.length = if allShort start stop then 2 else 16 := by
  obtain ⟨⟨handle, uuid⟩, hmem, rfl⟩ := List.mem_map.mp he
  cases uuid with
  | uuid16 u => cases allShort start stop <;> rfl
  | uuid128 u =>
    have hlong : allShort start stop = false := by
      by_contra hs
      have hsome := List.all_eq_true.mp (Bool.eq_true_of_not_eq_false hs) _ hmem
      cases hsome
    rw [hlong]
    exact u.size

/-- The width of an entry. -/
theorem informationWidth (short : Bool) :
    2 + (if short then 2 else 16) = if short then 4 else 18 := by
  cases short <;> rfl

theorem findInformation_eq (op s₀ s₁ e₀ e₁ : UInt8) (rest : List UInt8) :
    findInformation (op :: s₀ :: s₁ :: e₀ :: e₁ :: rest) =
      .ok (informationReply (ofLe16 s₀ s₁) (ofLe16 e₀ e₁)) := by
  obtain ⟨rsp, pos, hput, _, hreply⟩ := putAll_reply (n := 64) (by omega) 0x05
    (if allShort (ofLe16 s₀ s₁) (ofLe16 e₀ e₁) then 1 else 2)
    (informationEntries (ofLe16 s₀ s₁) (ofLe16 e₀ e₁)) (fun _ he => informationEntries_length _ _ he)
  rw [informationWidth] at hput hreply
  have hshort : allShort (ofLe16 s₀ s₁) (ofLe16 e₀ e₁) = true →
      ∀ e ∈ entries (ofLe16 s₀ s₁) (ofLe16 e₀ e₁), e.2.asU16.isSome = true := List.all_eq_true.mp
  unfold informationEntries at hput
  rw [← putUuids_eq _ _ hshort] at hput
  show (do
    let r ← putUuids (allShort (ofLe16 s₀ s₁) (ofLe16 e₀ e₁)) (entries (ofLe16 s₀ s₁) (ofLe16 e₀ e₁))
      (((Buf.zero 64).set 0 0x05).set 1
        (if allShort (ofLe16 s₀ s₁) (ofLe16 e₀ e₁) then 0x01 else 0x02)) 2
    r.1.upto r.2) = _
  rw [hput]
  exact hreply

theorem informationReply_length (start stop : UInt16) : (informationReply start stop).length ≤ 64 := by
  have hlen := listReply_length_le (n := 64) (by omega) 0x05
    (if allShort start stop then 1 else 2) (fun _ he => informationEntries_length start stop he)
  rwa [informationWidth] at hlen

/-- Once the width is known, the loop over values appends them while they fit. -/
theorem putValues_eq {n : Nat} (es : List (UInt16 × List UInt8)) {width : UInt8} (hw : width ≠ 0)
    (rsp : Buf n) (pos : Nat) :
    putValues es rsp pos width = putAll width.toNat es rsp pos := by
  induction es generalizing rsp pos with
  | nil => rfl
  | cons e es ih =>
    rw [putValues, putAll, if_neg hw, if_neg hw]
    exact congrArg _ (funext fun r => ih r.1 r.2)

/-- The byte for the width of an entry with a value of `L` bytes. -/
theorem toNat_width {L : Nat} (hL : L ≤ 19) : (2 + UInt8.ofNat L).toNat = 2 + L := by
  rw [UInt8.toNat_add, UInt8.toNat_ofNat']
  simp only [UInt8.reduceToNat]
  omega

theorem valuesReply_cons {n L : Nat} (hn : 2 ≤ n) (hL : L ≤ 19) (code : UInt8)
    {es : List (UInt16 × List UInt8)} (he : ∀ e ∈ es, e.2.length = L) (hne : es ≠ [])
    (err : List UInt8) :
    valuesReply n code es err = .ok (listReply n code (2 + UInt8.ofNat L) (2 + L) es) := by
  obtain ⟨rsp, pos, hput, hpos, hreply⟩ := putAll_reply hn code (2 + UInt8.ofNat L) es he
  have hwidth := toNat_width hL
  have hnot : 2 + UInt8.ofNat L ≠ 0 := by
    intro h0
    rw [h0, UInt8.toNat_zero] at hwidth
    omega
  have hloop : putValues es ((Buf.zero n).set 0 code) 2 0 = .ok (rsp, pos) := by
    obtain ⟨e, es', rfl⟩ := List.exists_cons_of_ne_nil hne
    rw [← hput, ← hwidth, ← putValues_eq _ hnot, putValues, putValues, if_pos rfl, if_pos rfl,
      if_neg hnot, if_neg hnot, he e List.mem_cons_self]
  unfold valuesReply
  rw [hloop, ok_bind]
  dsimp only
  rw [if_neg (by omega)]
  exact hreply

/-- Without a value there are an opcode and a width of zero. -/
theorem valuesReply_nil {n : Nat} (hn : 2 ≤ n) (code : UInt8) (err : List UInt8) :
    valuesReply n code [] err = .ok [code, 0] := by
  obtain ⟨m, rfl⟩ : ∃ m, n = m + 2 := ⟨n - 2, by omega⟩
  show ((Buf.zero (m + 2)).set 0 code).upto 2 = _
  rw [Buf.upto_of_le _ hn]
  rfl

/-! ## The table -/

/-- The attributes, as `Conn::entries` lists them. -/
def attributeTable : List (UInt16 × GattUuid) := entries 0 0xFFFF

theorem entries_eq (start stop : UInt16) :
    entries start stop = attributeTable.filter (fun e => start ≤ e.1 ∧ e.1 ≤ stop) := rfl

/-- What a list in ascending order has up to a handle is the front of it. -/
theorem filter_upto_front {β : Type} (stop : UInt16) (l : List (UInt16 × β))
    (h : l.Pairwise (fun a b => a.1 < b.1)) : l.filter (fun e => e.1 ≤ stop) <+: l := by
  induction l with
  | nil => exact List.prefix_rfl
  | cons a l ih =>
    obtain ⟨hless, hl⟩ := List.pairwise_cons.mp h
    by_cases hin : a.1 ≤ stop
    · rw [List.filter_cons_of_pos (by simpa using hin)]
      exact List.cons_prefix_cons.mpr ⟨rfl, ih hl⟩
    · have hnone : (a :: l).filter (fun e => e.1 ≤ stop) = [] := by
        refine List.filter_eq_nil_iff.mpr ?_
        intro e he
        rw [decide_eq_true_eq]
        rcases List.mem_cons.mp he with rfl | he
        · exact hin
        · exact fun hle => hin (UInt16.le_trans (UInt16.le_of_lt (hless e he)) hle)
      rw [hnone]
      exact List.nil_prefix

/-- A range of a list in ascending order is a part of it in one piece. -/
theorem filter_range_contiguous {β : Type} (start stop : UInt16) (l : List (UInt16 × β))
    (h : l.Pairwise (fun a b => a.1 < b.1)) :
    l.filter (fun e => start ≤ e.1 ∧ e.1 ≤ stop) <:+: l := by
  induction l with
  | nil => exact List.infix_rfl
  | cons a l ih =>
    obtain ⟨hless, hl⟩ := List.pairwise_cons.mp h
    by_cases hin : start ≤ a.1 ∧ a.1 ≤ stop
    · -- everything behind `a` is above `start`, so what is left is cut off at `stop` only
      have hcut : l.filter (fun e => start ≤ e.1 ∧ e.1 ≤ stop) = l.filter (fun e => e.1 ≤ stop) := by
        refine List.filter_congr ?_
        intro e he
        exact decide_eq_decide.mpr (and_iff_right
          (UInt16.le_trans hin.1 (UInt16.le_of_lt (hless e he))))
      rw [List.filter_cons_of_pos (by simpa using hin), hcut]
      exact (List.cons_prefix_cons.mpr ⟨rfl, filter_upto_front stop l hl⟩).isInfix
    · rw [List.filter_cons_of_neg (by simpa using hin)]
      exact (ih hl).trans (List.suffix_cons a l).isInfix

theorem attributeTable_ascending : attributeTable.Pairwise (fun a b => a.1 < b.1) := by decide

/-- Neighbours have UUIDs of different sizes. -/
theorem attributeTable_alternates :
    attributeTable.IsChain (fun a b => a.2.asU16.isSome ≠ b.2.asU16.isSome) := by decide

theorem entries_alternate (start stop : UInt16) :
    (entries start stop).IsChain (fun a b => a.2.asU16.isSome ≠ b.2.asU16.isSome) :=
  List.IsChain.infix attributeTable_alternates
    (filter_range_contiguous start stop _ attributeTable_ascending)

theorem entries_ascending (start stop : UInt16) :
    (entries start stop).Pairwise (fun a b => a.1 < b.1) := by
  rw [entries_eq]
  exact attributeTable_ascending.filter _

theorem inRange_sublist (start stop h : UInt16) (value : List UInt8) :
    (inRange start stop h value).Sublist [(h, value)] := by
  unfold inRange
  split
  · exact List.Sublist.refl _
  · exact List.nil_sublist _

theorem sublist_of_ite {α : Type} {p : Prop} [Decidable p] {l l' : List α} (h : l.Sublist l') :
    (if p then l else []).Sublist l' := by
  split
  · exact h
  · exact List.nil_sublist _

theorem byType_ascending (start stop uuid : UInt16) :
    (byType start stop uuid).Pairwise (fun a b => a.1 < b.1) := by
  have hall := (((sublist_of_ite (p := uuid = gattUuidPrimaryService)
      (inRange_sublist start stop handlePrimaryService nusServiceUuid.bytes)).append
    (sublist_of_ite (p := uuid = gattUuidCharacteristic)
      ((inRange_sublist start stop handleRxCharDecl
          (0x08 :: le16 handleRxValue ++ nusRxCharUuid.bytes)).append
        (inRange_sublist start stop handleTxCharDecl
          (0x20 :: le16 handleTxValue ++ nusTxCharUuid.bytes))))).append
    (sublist_of_ite (p := uuid = gattUuidClientCharCfg)
      (inRange_sublist start stop handleTxCccd [0, 0])))
  exact List.Pairwise.sublist hall (by decide)

theorem primaryServices_eq (start stop : UInt16) :
    primaryServices start stop = byType start stop gattUuidPrimaryService := by
  unfold byType
  rw [if_pos rfl, if_neg (by decide), if_neg (by decide), List.append_nil, List.append_nil]
  rfl

/-- A response with all values of one type. -/
def valuesAnswer (n : Nat) (code : UInt8) : List (UInt16 × List UInt8) → List UInt8
  | [] => [code, 0]
  | e :: es => listReply n code (2 + UInt8.ofNat e.2.length) (2 + e.2.length) (e :: es)

theorem valuesReply_byType {n : Nat} (hn : 2 ≤ n) (code : UInt8) (start stop uuid : UInt16)
    (err : List UInt8) : valuesReply n code (byType start stop uuid) err =
      .ok (valuesAnswer n code (byType start stop uuid)) := by
  obtain ⟨L, hL, he⟩ := byType_length start stop uuid
  cases hfound : byType start stop uuid with
  | nil => exact valuesReply_nil hn code err
  | cons e es =>
    rw [hfound] at he
    rw [valuesAnswer, he e List.mem_cons_self]
    exact valuesReply_cons hn hL code he (List.cons_ne_nil e es) err

/-- The answer as it stands in the slot. -/
theorem queueAtt_bytes (c : Conn) {rsp : List UInt8} (h : rsp.length ≤ 251) :
    (c.queueAtt rsp).txAtt.bytes.take (c.queueAtt rsp).txAttLen = rsp := by
  have hmin : (c.queueAtt rsp).txAttLen = rsp.length := Nat.min_eq_left h
  rw [hmin]
  exact take_fillSlot c rsp (Nat.min_le_right _ _) hmin

theorem readByType_eq (op t₀ t₁ s₀ s₁ e₀ e₁ : UInt8) (rest : List UInt8) :
    readByType (op :: t₀ :: t₁ :: s₀ :: s₁ :: e₀ :: e₁ :: rest) =
      .ok (valuesAnswer 64 0x09 (byType (ofLe16 s₀ s₁) (ofLe16 e₀ e₁) (ofLe16 t₀ t₁))) :=
  valuesReply_byType (by omega) 0x09 _ _ _ _

theorem readByGroupType_eq (op t₀ t₁ s₀ s₁ e₀ e₁ : UInt8) (rest : List UInt8) :
    readByGroupType (op :: t₀ :: t₁ :: s₀ :: s₁ :: e₀ :: e₁ :: rest) =
      .ok (if ofLe16 t₀ t₁ = gattUuidPrimaryService then
        valuesAnswer 32 0x11 (primaryServices (ofLe16 s₀ s₁) (ofLe16 e₀ e₁))
      else [0x01, 0x10, 0x00, 0x00, 0x10]) := by
  show (if ofLe16 t₀ t₁ = gattUuidPrimaryService then
    valuesReply 32 0x11 (primaryServices (ofLe16 s₀ s₁) (ofLe16 e₀ e₁)) [0x01, 0x10, 0x00, 0x00, 0x10]
    else .ok [0x01, 0x10, 0x00, 0x00, 0x10]) = _
  rw [primaryServices_eq, valuesReply_byType (by omega)]
  split <;> rfl

/-- A request is answered in the slot. -/
theorem handleAtt_reply {c : Conn} (op : UInt8) {rest rsp : List UInt8}
    (h : ¬ (c.pendingRequest = true ∧ isAttResponse op = true)) (h1B : op ≠ 0x1B) (h12 : op ≠ 0x12)
    (h52 : op ≠ 0x52) (hrsp : c.attReply op (op :: rest) = .ok rsp) (result : ConnEvent) :
    c.handleAtt (op :: rest) result = .ok (c.queueAtt rsp, result) := by
  unfold handleAtt
  dsimp only
  rw [if_neg h, if_neg h1B, if_neg h12, if_neg h52, hrsp]
  rfl

/-- All values of one type, or the opcode and a width of zero. -/
theorem valuesAnswer_length {n : Nat} (hn : 2 ≤ n) (code : UInt8) (start stop uuid : UInt16) :
    (valuesAnswer n code (byType start stop uuid)).length ≤ n := by
  obtain ⟨L, hL, he⟩ := byType_length start stop uuid
  cases hfound : byType start stop uuid with
  | nil => exact hn
  | cons e es =>
    rw [hfound] at he
    rw [valuesAnswer, he e List.mem_cons_self]
    exact listReply_length_le hn code _ he

end Conn

/-! ## Requests and answers -/

/-- A discovery request, with its range. -/
inductive Discovery
  | information (start stop : UInt16)
  | byType (uuid start stop : UInt16)
  | primaryServices (start stop : UInt16)

namespace Discovery

/-- The request, in the order in which the source reads its fields. -/
def encode : Discovery → List UInt8
  | .information start stop => 0x04 :: le16 start ++ le16 stop
  | .byType uuid start stop => 0x08 :: le16 uuid ++ le16 start ++ le16 stop
  | .primaryServices start stop =>
    0x10 :: le16 gattUuidPrimaryService ++ le16 start ++ le16 stop

/-- What the source answers. -/
def answer : Discovery → List UInt8
  | .information start stop => Conn.informationReply start stop
  | .byType uuid start stop => Conn.valuesAnswer 64 0x09 (Conn.byType start stop uuid)
  | .primaryServices start stop => Conn.valuesAnswer 32 0x11 (Conn.primaryServices start stop)

/-- Bytes behind the request are ignored. -/
theorem handleAtt_encode (d : Discovery) (c : Conn) (rest : List UInt8) (result : ConnEvent) :
    c.handleAtt (d.encode ++ rest) result = .ok (c.queueAtt d.answer, result) := by
  cases d with
  | information start stop =>
    refine Conn.handleAtt_reply 0x04 (fun h => nomatch h.2) (by decide) (by decide)
      (by decide) ((Conn.findInformation_eq 0x04 _ _ _ _ rest).trans ?_) result
    rw [ofLe16_le16, ofLe16_le16]
    rfl
  | byType uuid start stop =>
    refine Conn.handleAtt_reply 0x08 (fun h => nomatch h.2) (by decide) (by decide)
      (by decide) ((Conn.readByType_eq 0x08 _ _ _ _ _ _ rest).trans ?_) result
    rw [ofLe16_le16, ofLe16_le16, ofLe16_le16]
    rfl
  | primaryServices start stop =>
    refine Conn.handleAtt_reply 0x10 (fun h => nomatch h.2) (by decide) (by decide)
      (by decide) ((Conn.readByGroupType_eq 0x10 _ _ _ _ _ _ rest).trans ?_) result
    rw [ofLe16_le16, ofLe16_le16, ofLe16_le16, if_pos rfl]
    rfl

end Discovery

/-- An answer to the request `req`, where `found` matches: an Error Response for it if there is
    nothing; otherwise the response `rsp`, a byte for the format, and a first part of `found` that is
    not empty, shown in that format. -/
structure Answered {β : Type} (req rsp : UInt8)
    (shown : UInt8 → UInt16 × β → Option (List UInt8)) (found : List (UInt16 × β))
    (answer : List UInt8) : Prop where
  error : (∃ handle code, answer = 0x01 :: req :: le16 handle ++ [code]) ↔ found = []
  ascending : found.Pairwise (fun a b => a.1 < b.1)
  listed : found ≠ [] → ∃ format pre parts, pre ≠ [] ∧ pre <+: found ∧
    List.Forall₂ (fun e part => shown format e = some part) pre parts ∧
      answer = rsp :: format :: parts.flatten

/-- A value, where the format is the width of the entry. -/
def showValue (format : UInt8) (e : UInt16 × List UInt8) : Option (List UInt8) :=
  if format.toNat = 2 + e.2.length then some (Conn.attEntry e) else none

/-- A UUID, in format 1 for 16 bits and 2 for 128, where `widen` makes the second from the first. -/
def showUuid (widen : UInt16 → List UInt8) (format : UInt8) (e : UInt16 × GattUuid) :
    Option (List UInt8) :=
  match format, e.2 with
  | 1, .uuid16 u => some (le16 e.1 ++ le16 u)
  | 2, .uuid16 u => some (le16 e.1 ++ widen u)
  | 2, .uuid128 u => some (le16 e.1 ++ u.bytes)
  | _, _ => none

/-- The 128 bits the source makes of a UUID. -/
def widenFront (u : UInt16) : List UInt8 := [0, 0] ++ le16 u ++ List.replicate 12 0

/-- The 128 bits the UUID stands for: the base UUID with it, least byte first. -/
def widenBase (u : UInt16) : List UInt8 :=
  [0xFB, 0x34, 0x9B, 0x5F, 0x80, 0x00, 0x00, 0x80, 0x00, 0x10, 0x00, 0x00] ++ le16 u ++ [0, 0]

theorem not_answered_nil {β : Type} {req rsp : UInt8}
    {shown : UInt8 → UInt16 × β → Option (List UInt8)} {found : List (UInt16 × β)}
    {rest : List UInt8} (hrsp : rsp ≠ 0x01) (hnil : found = []) :
    ¬ Answered req rsp shown found (rsp :: rest) := by
  intro h
  obtain ⟨_, _, heq⟩ := h.error.mpr hnil
  exact hrsp (List.cons.inj heq).1

/-- **A list of entries is an answer**, if each shows its attribute and there is room for one. -/
theorem answered_listReply {β : Type} (req : UInt8) {rsp : UInt8} (format : UInt8)
    (shown : UInt8 → UInt16 × β → Option (List UInt8)) {found : List (UInt16 × β)}
    (f : UInt16 × β → UInt16 × List UInt8) {n width : Nat} (hrsp : rsp ≠ 0x01) (hpos : 0 < width)
    (hroom : width ≤ n - 2) (hne : found ≠ []) (hasc : found.Pairwise (fun a b => a.1 < b.1))
    (hshown : ∀ e ∈ found, shown format e = some (Conn.attEntry (f e))) :
    Answered req rsp shown found (Conn.listReply n rsp format width (found.map f)) := by
  refine ⟨iff_of_false ?_ hne, hasc, fun _ => ?_⟩
  · rintro ⟨_, _, heq⟩
    exact hrsp (List.cons.inj heq).1
  · have hcount : 0 < (n - 2) / width := Nat.div_pos hroom hpos
    refine ⟨format, found.take ((n - 2) / width),
      (found.take ((n - 2) / width)).map (fun e => Conn.attEntry (f e)), ?_, List.take_prefix _ _, ?_,
      ?_⟩
    · intro hnil
      rcases List.take_eq_nil_iff.mp hnil with h | h
      · omega
      · exact hne h
    · rw [List.forall₂_map_right_iff, List.forall₂_same]
      exact fun e he => hshown e (List.mem_of_mem_take he)
    · rw [Conn.listReply, ← List.map_take, List.flatMap_map, List.flatMap_def]

/-- The values of one type. -/
theorem answered_values {req rsp : UInt8} {n : Nat} (hrsp : rsp ≠ 0x01) {start stop uuid : UInt16}
    (hroom : ∀ e ∈ Conn.byType start stop uuid, 2 + e.2.length ≤ n - 2) :
    Answered req rsp showValue (Conn.byType start stop uuid)
      (Conn.valuesAnswer n rsp (Conn.byType start stop uuid)) ↔
        Conn.byType start stop uuid ≠ [] := by
  obtain ⟨L, hL, he⟩ := Conn.byType_length start stop uuid
  have hasc := Conn.byType_ascending start stop uuid
  cases hfound : Conn.byType start stop uuid with
  | nil => exact iff_of_false (not_answered_nil hrsp rfl) (fun h => h rfl)
  | cons e es =>
    rw [hfound] at he hasc hroom
    refine iff_of_true ?_ (List.cons_ne_nil e es)
    have hlen : e.2.length = L := he e List.mem_cons_self
    have hlist := answered_listReply req (2 + UInt8.ofNat L) showValue id hrsp
      (show 0 < 2 + L by omega) (hlen ▸ hroom e List.mem_cons_self) (List.cons_ne_nil e es) hasc
      (fun e' he' => by
        rw [showValue, Conn.toNat_width hL, he e' he', if_pos rfl]
        rfl)
    rw [List.map_id] at hlist
    rw [Conn.valuesAnswer, hlen]
    exact hlist

/-- All UUIDs of the range have 128 bits. -/
def Conn.allLong (start stop : UInt16) : Bool := (entries start stop).all (fun e => e.2.asU16.isNone)

/-- A Find Information answer, where the widening of the UUIDs does not matter or is the source's. -/
theorem answered_information {widen : UInt16 → List UInt8} {start stop : UInt16}
    (hne : Conn.entries start stop ≠ [])
    (hwiden : Conn.allShort start stop = false → ∀ e ∈ Conn.entries start stop, ∀ u,
      e.2 = .uuid16 u → widen u = widenFront u) :
    Answered 0x04 0x05 (showUuid widen) (Conn.entries start stop)
      (Conn.informationReply start stop) := by
  have hasc := Conn.entries_ascending start stop
  unfold Conn.informationReply Conn.informationEntries
  cases hshort : Conn.allShort start stop with
  | true =>
    refine answered_listReply 0x04 1 (showUuid widen) (fun e => (e.1, Conn.uuidBytes true e.2))
      (by decide) (by decide) (by decide) hne hasc ?_
    intro e he
    obtain ⟨handle, uuid⟩ := e
    cases uuid with
    | uuid16 u => rfl
    | uuid128 u => cases List.all_eq_true.mp hshort _ he
  | false =>
    refine answered_listReply 0x04 2 (showUuid widen) (fun e => (e.1, Conn.uuidBytes false e.2))
      (by decide) (by decide) (by decide) hne hasc ?_
    intro e he
    obtain ⟨handle, uuid⟩ := e
    cases uuid with
    | uuid16 u =>
      have hu := hwiden hshort _ he u rfl
      show some (le16 handle ++ widen u) = _
      rw [hu]
      rfl
    | uuid128 u => rfl

/-- The range has UUIDs of both sizes: then its first two are one of each. -/
theorem first_two_of_mixed {start stop : UInt16} (hshort : Conn.allShort start stop = false)
    (hlong : Conn.allLong start stop = false) :
    ∃ a b rest, Conn.entries start stop = a :: b :: rest ∧
      ((∃ u, a.2 = .uuid16 u) ∨ ∃ u, b.2 = .uuid16 u) := by
  have halt := Conn.entries_alternate start stop
  unfold Conn.allShort at hshort
  unfold Conn.allLong at hlong
  cases hfound : Conn.entries start stop with
  | nil =>
    rw [hfound] at hshort
    cases hshort
  | cons a rest =>
    cases rest with
    | nil =>
      rw [hfound] at hshort hlong
      rcases a with ⟨_, _ | _⟩
      · cases hshort
      · cases hlong
    | cons b rest =>
      refine ⟨a, b, rest, rfl, ?_⟩
      rw [hfound] at halt
      rcases a with ⟨_, u | _⟩
      · exact .inl ⟨u, rfl⟩
      · rcases b with ⟨_, u | _⟩
        · exact .inr ⟨u, rfl⟩
        · exact absurd rfl halt.rel

/-- The two widenings differ in the first byte. -/
theorem showUuid_ne {e : UInt16 × GattUuid} {u : UInt16} (hu : e.2 = .uuid16 u) :
    showUuid widenBase 2 e ≠ some (Conn.attEntry (e.1, Conn.uuidBytes false e.2)) := by
  obtain ⟨handle, uuid⟩ := e
  cases hu
  intro h
  have happ := List.append_cancel_left (Option.some.inj h)
  cases (List.cons.inj happ).1

theorem showUuid_length {e : UInt16 × GattUuid} {part : List UInt8}
    (h : showUuid widenBase 2 e = some part) : part.length = 18 := by
  obtain ⟨handle, uuid⟩ := e
  cases uuid with
  | uuid16 u =>
    cases h
    rfl
  | uuid128 u =>
    cases h
    rw [List.length_append, le16_length, u.size]

/-- **UUIDs of both sizes**: the answer gives a 16-bit UUID as another one. -/
theorem not_answered_mixed {start stop : UInt16} (hshort : Conn.allShort start stop = false)
    (hlong : Conn.allLong start stop = false) :
    ¬ Answered 0x04 0x05 (showUuid widenBase) (Conn.entries start stop)
      (Conn.informationReply start stop) := by
  intro h
  obtain ⟨a, b, rest, hfound, hone⟩ := first_two_of_mixed hshort hlong
  obtain ⟨format, pre, parts, hpre, hprefix, hshown, heq⟩ :=
    h.listed (by rw [hfound]; exact List.cons_ne_nil _ _)
  -- the source's answer begins with the entries for `a` and `b`
  have hreply : ∃ more, Conn.informationReply start stop = 0x05 :: 2 ::
      (Conn.attEntry (a.1, Conn.uuidBytes false a.2) ++
        (Conn.attEntry (b.1, Conn.uuidBytes false b.2) ++ more)) := by
    unfold Conn.informationReply Conn.informationEntries
    rw [hshort, hfound]
    exact ⟨_, rfl⟩
  obtain ⟨more, hreply⟩ := hreply
  rw [hreply] at heq
  obtain ⟨rfl, htail⟩ := List.cons.inj (List.cons.inj heq).2
  have hfirst : ∀ e : UInt16 × GattUuid, (Conn.attEntry (e.1, Conn.uuidBytes false e.2)).length = 18 := by
    rintro ⟨handle, _ | u⟩
    · rfl
    · rw [Conn.attEntry, List.length_append, le16_length]
      exact congrArg (2 + ·) u.size
  rw [hfound] at hprefix
  obtain ⟨p, pre, rfl⟩ := List.exists_cons_of_ne_nil hpre
  obtain ⟨rfl, hprefix₁⟩ := List.cons_prefix_cons.mp hprefix
  obtain ⟨q, parts, hq, hshown₁, rfl⟩ := List.forall₂_cons_left_iff.mp hshown
  rw [List.flatten_cons] at htail
  obtain ⟨rfl, hnext⟩ := List.append_inj htail ((hfirst p).trans (showUuid_length hq).symm)
  cases hone with
  | inl hu =>
    obtain ⟨u, hu⟩ := hu
    exact showUuid_ne hu hq
  | inr hu =>
    obtain ⟨u, hu⟩ := hu
    cases pre with
    | nil =>
      rw [List.forall₂_nil_left_iff.mp hshown₁] at hnext
      have hlen := congrArg List.length hnext
      rw [List.length_append, hfirst b, List.flatten_nil, List.length_nil] at hlen
      omega
    | cons p' pre =>
      obtain ⟨rfl, _⟩ := List.cons_prefix_cons.mp hprefix₁
      obtain ⟨q', parts, hq', _, rfl⟩ := List.forall₂_cons_left_iff.mp hshown₁
      rw [List.flatten_cons] at hnext
      obtain ⟨rfl, _⟩ := List.append_inj hnext ((hfirst p').trans (showUuid_length hq').symm)
      exact showUuid_ne hu hq'

namespace Discovery

/-- What an answer to the request has to be, where `widen` makes 128-bit UUIDs of 16-bit ones. -/
def Complete (widen : UInt16 → List UInt8) : Discovery → List UInt8 → Prop
  | .information start stop =>
    Answered 0x04 0x05 (showUuid widen) (Conn.entries start stop)
  | .byType uuid start stop => Answered 0x08 0x09 showValue (Conn.byType start stop uuid)
  | .primaryServices start stop => Answered 0x10 0x11 showValue (Conn.primaryServices start stop)

/-- An attribute in the range matches. -/
def Matches : Discovery → Prop
  | .information start stop => Conn.entries start stop ≠ []
  | .byType uuid start stop => Conn.byType start stop uuid ≠ []
  | .primaryServices start stop => Conn.primaryServices start stop ≠ []

/-- The UUIDs to be listed have one size. -/
def OneSize : Discovery → Prop
  | .information start stop => Conn.allShort start stop = true ∨ Conn.allLong start stop = true
  | _ => True

theorem complete_values (widen : UInt16 → List UInt8) {d : Discovery}
    (h : ∀ start stop, d ≠ .information start stop) : d.Complete widen d.answer ↔ d.Matches := by
  cases d with
  | information start stop => exact absurd rfl (h start stop)
  | byType uuid start stop =>
    refine answered_values (by decide) ?_
    obtain ⟨L, hL, he⟩ := Conn.byType_length start stop uuid
    intro e hmem
    rw [he e hmem]
    omega
  | primaryServices start stop =>
    show Answered _ _ _ (Conn.primaryServices start stop)
      (Conn.valuesAnswer 32 0x11 (Conn.primaryServices start stop)) ↔
        Conn.primaryServices start stop ≠ []
    rw [Conn.primaryServices_eq]
    refine answered_values (by decide) ?_
    intro e hmem
    rw [← Conn.primaryServices_eq] at hmem
    rw [Conn.inRange_length hmem, nusServiceUuid.size]
    decide

theorem answer_length (d : Discovery) : d.answer.length ≤ 64 := by
  cases d with
  | information start stop => exact Conn.informationReply_length start stop
  | byType uuid start stop => exact Conn.valuesAnswer_length (by omega) 0x09 start stop uuid
  | primaryServices start stop =>
    show (Conn.valuesAnswer 32 0x11 (Conn.primaryServices start stop)).length ≤ 64
    rw [Conn.primaryServices_eq]
    exact (Conn.valuesAnswer_length (by omega) 0x11 start stop _).trans (by omega)

end Discovery

/-! ## Exactly when an answer is complete -/

/-- **Every range and type.**  The answer is what it has to be iff an attribute matches; and, where a
    UUID in 128 bits has to be on the base UUID, the UUIDs to be listed have one size. -/
theorem discovery_answered_iff (d : Discovery) (c : Conn) (rest : List UInt8) (result : ConnEvent) :
    ∃ c', c.handleAtt (d.encode ++ rest) result = .ok (c', result) ∧ c'.txPending = true ∧
      (d.Complete widenFront (c'.txAtt.bytes.take c'.txAttLen) ↔ d.Matches) ∧
      (d.Complete widenBase (c'.txAtt.bytes.take c'.txAttLen) ↔ d.Matches ∧ d.OneSize) := by
  refine ⟨_, d.handleAtt_encode c rest result, rfl, ?_⟩
  have hslot : (c.queueAtt d.answer).txAtt.bytes.take (c.queueAtt d.answer).txAttLen = d.answer :=
    Conn.queueAtt_bytes c (d.answer_length.trans (by omega))
  rw [hslot]
  cases d with
  | information start stop =>
    have hmatches : ∀ widen, (Discovery.information start stop).Complete widen
        (Conn.informationReply start stop) → Conn.entries start stop ≠ [] :=
      fun widen h hnil => not_answered_nil (by decide) hnil h
    refine ⟨⟨hmatches _, fun hne => answered_information hne fun _ _ _ _ _ => rfl⟩, ⟨?_, ?_⟩⟩
    · intro h
      refine ⟨hmatches _ h, ?_⟩
      by_contra hmixed
      obtain ⟨hshort, hlong⟩ := not_or.mp hmixed
      exact not_answered_mixed (Bool.eq_false_of_not_eq_true hshort)
        (Bool.eq_false_of_not_eq_true hlong) h
    · rintro ⟨hne, hsize⟩
      refine answered_information hne ?_
      intro hshort e he u hu
      rcases hsize with hs | hl
      · rw [hshort] at hs
        cases hs
      · have hnone := List.all_eq_true.mp hl e he
        rw [hu] at hnone
        cases hnone
  | byType uuid start stop =>
    have hvalues := fun widen =>
      Discovery.complete_values widen (d := .byType uuid start stop) fun _ _ => nofun
    exact ⟨hvalues _, (hvalues _).trans (and_iff_left trivial).symm⟩
  | primaryServices start stop =>
    have hvalues := fun widen =>
      Discovery.complete_values widen (d := .primaryServices start stop) fun _ _ => nofun
    exact ⟨hvalues _, (hvalues _).trans (and_iff_left trivial).symm⟩

/-- Find Information behind the last handle, Read By Type for a device name and primary services
    behind the first handle are answered with empty lists.  And the first UUID of the range 2..3 is
    another one than the characteristic's. -/
theorem empty_discovery_not_refused :
    ((Conn.sample .slave).handleAtt (Discovery.information 7 0xFFFF).encode .idle).map
        (fun r => r.1.txAtt.bytes.take r.1.txAttLen) = .ok [0x05, 0x01] ∧
      ((Conn.sample .slave).handleAtt (Discovery.byType 0x2A00 1 0xFFFF).encode .idle).map
        (fun r => r.1.txAtt.bytes.take r.1.txAttLen) = .ok [0x09, 0x00] ∧
      ((Conn.sample .slave).handleAtt (Discovery.primaryServices 2 0xFFFF).encode .idle).map
        (fun r => r.1.txAtt.bytes.take r.1.txAttLen) = .ok [0x11, 0x00] ∧
      ¬ (Discovery.information 7 0xFFFF).Complete widenFront [0x05, 0x01] ∧
      ¬ (Discovery.byType 0x2A00 1 0xFFFF).Complete widenFront [0x09, 0x00] ∧
      ¬ (Discovery.primaryServices 2 0xFFFF).Complete widenFront [0x11, 0x00] ∧
      ¬ (Discovery.information 2 3).Complete widenBase (Conn.informationReply 2 3) :=
  ⟨by decide +kernel, by decide +kernel, by decide +kernel, not_answered_nil (by decide) rfl,
    not_answered_nil (by decide) rfl, not_answered_nil (by decide) rfl, not_answered_mixed rfl rfl⟩

end NrfBle
