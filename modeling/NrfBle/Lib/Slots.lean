/-
  A keyed table in a fixed number of SLOTS: an entry replaces the one of its key, else it takes the
  first empty slot, else it is lost.

  What such a table is FOR is a log: the entries written, the latest first, of which the first with a
  key is the one that counts.  `Holds key slots log` says that the table answers like the log, and
  `Holds.put` that a write keeps it so as long as the log's keys fit the slots.

  When there are more keys than slots, the table goes on answering like the log of those keys that came
  first (`Keeps`): a slot is never given up, so which keys have one is decided when they come.

  Where slots are lost (`Thinned`), a table may forget, but it answers nothing else than the log
  (`Recalls`).
-/
import Mathlib.Tactic
import Mathlib.Data.List.ReduceOption
import Mathlib.Data.Finset.Card

namespace Slots

variable {β κ : Type} [DecidableEq κ] (key : β → κ)

/-- The slots after a write. -/
def put (slots : List (Option β)) (x : β) : List (Option β) :=
  match slots.findIdx? (fun slot => slot.any (fun y => key y = key x)) with
  | some i => slots.set i (some x)
  | none =>
    match slots.findIdx? (fun slot => slot.isNone) with
    | some i => slots.set i (some x)
    | none => slots

/-- The entry of a key. -/
def get (slots : List (Option β)) (k : κ) : Option β :=
  slots.reduceOption.find? (fun y => key y = k)

/-- The latest entry of a key in a log, latest first. -/
def latest (log : List β) (k : κ) : Option β := log.find? (fun y => key y = k)

/-- The table answers like the log, and has no key twice. -/
structure Holds (slots : List (Option β)) (log : List β) : Prop where
  get_eq : ∀ k, get key slots k = latest key log k
  nodup : (slots.reduceOption.map key).Nodup

/-! ## Writing one slot -/

/-- The slot a search finds, and what is around it. -/
theorem set_of_findIdx? {α : Type} {p : α → Bool} {xs : List α} {i : Nat} (h : xs.findIdx? p = some i)
    (y : α) :
    ∃ l x r, xs = l ++ x :: r ∧ xs.set i y = l ++ y :: r ∧ p x = true ∧ ∀ z ∈ l, p z = false := by
  obtain ⟨hi, hp, hbefore⟩ := List.findIdx?_eq_some_iff_getElem.mp h
  refine ⟨xs.take i, xs[i], xs.drop (i + 1), ?_, ?_, hp, ?_⟩
  · rw [List.getElem_cons_drop, List.take_append_drop]
  · rw [List.set_eq_take_append_cons_drop, if_pos hi]
  · intro z hz
    obtain ⟨j, hj, rfl⟩ := List.mem_iff_getElem.mp hz
    rw [List.length_take] at hj
    rw [List.getElem_take]
    exact Bool.eq_false_iff.mpr (hbefore j (by omega))

variable {key}

theorem latest_self (log : List β) (x : β) : latest key (x :: log) (key x) = some x := by
  simp [latest]

theorem latest_of_ne {log : List β} {x : β} {k : κ} (h : key x ≠ k) :
    latest key (x :: log) k = latest key log k := by
  simp [latest, h]

theorem latest_isSome {log : List β} {k : κ} : (latest key log k).isSome ↔ k ∈ log.map key := by
  simp [latest, List.find?_isSome]

/-- An entry that is later than others. -/
theorem latest_append_of_some {log earlier : List β} {k : κ} {x : β} (h : latest key log k = some x) :
    latest key (log ++ earlier) k = some x := by
  rw [latest] at h
  rw [latest, List.find?_append, h]
  rfl

/-- A search through entries none of which has the key. -/
theorem find_append_of_fresh {l r : List β} {k : κ} (h : k ∉ l.map key) :
    (l ++ r).find? (fun y => key y = k) = r.find? (fun y => key y = k) := by
  have hl : l.find? (fun y => decide (key y = k)) = none := by
    refine List.find?_eq_none.mpr ?_
    intro y hy hk
    exact h (List.mem_map.mpr ⟨y, hy, of_decide_eq_true hk⟩)
  rw [List.find?_append, hl]
  rfl

/-- An entry between others, for its own key and for another. -/
theorem find_middle {l r : List β} {x : β} (h : key x ∉ l.map key) (k : κ) :
    (l ++ x :: r).find? (fun y => key y = k) =
      if key x = k then some x else (l ++ r).find? (fun y => key y = k) := by
  split
  · rename_i hk
    subst hk
    rw [find_append_of_fresh h]
    simp
  · rename_i hk
    rw [List.find?_append, List.find?_append, List.find?_cons_of_neg (by simpa using hk)]

/-- The entries of slots none of which has the key. -/
theorem fresh_of_none {slots : List (Option β)} {k : κ}
    (h : ∀ slot ∈ slots, slot.any (fun y => decide (key y = k)) = false) :
    k ∉ slots.reduceOption.map key := by
  intro hk
  obtain ⟨y, hy, hkey⟩ := List.mem_map.mp hk
  have := h (some y) (List.reduceOption_mem_iff.mp hy)
  simp [hkey] at this

theorem latest_cons (log : List β) (x : β) (k : κ) :
    latest key (x :: log) k = if key x = k then some x else latest key log k := by
  split
  · rename_i h; rw [← h, latest_self]
  · rename_i h; exact latest_of_ne h

/-- A new entry in the middle of the table. -/
theorem Holds.insert {l r : List (Option β)} {o : Option β} {log : List β} {x : β}
    (h : Holds key (l ++ o :: r) log) (ho : ∀ y, o = some y → key y = key x)
    (hl : key x ∉ l.reduceOption.map key) (hr : key x ∉ r.reduceOption.map key) :
    Holds key (l ++ some x :: r) (x :: log) where
  get_eq := by
    intro k
    rw [latest_cons, ← h.get_eq k, get, get, List.reduceOption_append, List.reduceOption_append,
      List.reduceOption_cons_of_some, find_middle hl]
    split
    · rfl
    · rename_i hk
      cases o with
      | none => rw [List.reduceOption_cons_of_none]
      | some y =>
        have hy := ho y rfl
        rw [List.reduceOption_cons_of_some, find_middle (by rw [hy]; exact hl),
          if_neg (by rw [hy]; exact hk)]
  nodup := by
    have hnodup : (l.reduceOption.map key ++ r.reduceOption.map key).Nodup := by
      have := h.nodup
      rw [List.reduceOption_append, List.map_append] at this
      refine this.sublist (List.Sublist.append_left ?_ _)
      cases o with
      | none => rw [List.reduceOption_cons_of_none]
      | some y =>
        rw [List.reduceOption_cons_of_some, List.map_cons]
        exact List.sublist_cons_self _ _
    rw [List.reduceOption_append, List.reduceOption_cons_of_some, List.map_append, List.map_cons,
      List.nodup_middle, List.nodup_cons, List.mem_append]
    exact ⟨fun hm => hm.elim hl hr, hnodup⟩

/-! ## The table and its log -/

variable (key) in
/-- Empty slots hold the empty log. -/
theorem Holds.empty (n : Nat) : Holds key (List.replicate n (none : Option β)) [] where
  get_eq := fun k => by rw [get, List.reduceOption_replicate_none]; rfl
  nodup := by rw [List.reduceOption_replicate_none]; exact List.nodup_nil

/-- Full slots without the key of an entry: there are more keys than slots. -/
theorem Holds.card_of_full {slots : List (Option β)} {log : List β} {x : β} (h : Holds key slots log)
    (hfresh : key x ∉ slots.reduceOption.map key) (hfull : ∀ slot ∈ slots, slot.isNone = false) :
    slots.length < ((x :: log).map key).toFinset.card := by
  have hlen : (slots.reduceOption.map key).length = slots.length := by
    rw [List.length_map, List.length_eq_reduceOption_length_add_filter_none,
      List.filter_eq_nil_iff.mpr (fun slot hs => by simp [hfull slot hs])]
    rfl
  have hsub : (key x :: slots.reduceOption.map key).toFinset ⊆ ((x :: log).map key).toFinset := by
    intro k hk
    rw [List.mem_toFinset] at hk ⊢
    rcases List.mem_cons.mp hk with rfl | hk
    · exact List.mem_cons_self
    · -- the table answers for this key, so the log does
      refine List.mem_cons_of_mem _ (latest_isSome.mp ?_)
      rw [← h.get_eq k]
      exact latest_isSome.mpr hk
  have hcard := Finset.card_le_card hsub
  rw [List.toFinset_card_of_nodup (List.nodup_cons.mpr ⟨hfresh, h.nodup⟩), List.length_cons,
    hlen] at hcard
  exact hcard

/-- **A write is remembered**, as long as the keys fit the slots. -/
theorem Holds.put {slots : List (Option β)} {log : List β} (h : Holds key slots log) (x : β)
    (hroom : ((x :: log).map key).toFinset.card ≤ slots.length) :
    Holds key (Slots.put key slots x) (x :: log) := by
  unfold Slots.put
  split
  · rename_i i hfound
    obtain ⟨l, o, r, rfl, hset, ho, hl⟩ := set_of_findIdx? hfound (some x)
    rw [hset]
    obtain _ | y := o
    · cases ho
    have hkey : key y = key x := of_decide_eq_true ho
    refine h.insert (fun z hz => by cases hz; exact hkey) (fresh_of_none hl) ?_
    -- the key is in this slot, so in no later one
    have hnodup := h.nodup
    rw [List.reduceOption_append, List.reduceOption_cons_of_some, List.map_append, List.map_cons,
      List.nodup_middle, List.nodup_cons, hkey] at hnodup
    exact fun hr => hnodup.1 (List.mem_append_right _ hr)
  · rename_i hnone
    have hfresh : key x ∉ slots.reduceOption.map key :=
      fresh_of_none (List.findIdx?_eq_none_iff.mp hnone)
    split
    · rename_i i hfound
      obtain ⟨l, o, r, rfl, hset, ho, _⟩ := set_of_findIdx? hfound (some x)
      rw [hset]
      obtain rfl := Option.isNone_iff_eq_none.mp ho
      rw [List.reduceOption_append, List.reduceOption_cons_of_none, List.map_append, List.mem_append,
        not_or] at hfresh
      exact h.insert (fun z hz => by cases hz) hfresh.1 hfresh.2
    · rename_i hfull
      have := h.card_of_full hfresh (List.findIdx?_eq_none_iff.mp hfull)
      omega

/-- No key has two slots. -/
theorem Holds.slot_unique {slots : List (Option β)} {log : List β} (h : Holds key slots log) {i j : Nat}
    {x y : β} (hi : slots[i]? = some (some x)) (hj : slots[j]? = some (some y)) (hxy : key x = key y) :
    i = j := by
  have hbefore : ∀ {i j : Nat} {x y : β}, slots[i]? = some (some x) → slots[j]? = some (some y) →
      key x = key y → ¬ i < j := by
    intro i j x y hi hj hxy hlt
    obtain ⟨hin, hget⟩ := List.getElem?_eq_some_iff.mp hj
    have hx : some x ∈ slots.take j := by
      refine List.mem_of_getElem? (i := i) ?_
      rw [List.getElem?_take_of_lt hlt, hi]
    have hsplit : slots = slots.take j ++ some y :: slots.drop (j + 1) := by
      rw [← hget, List.getElem_cons_drop, List.take_append_drop]
    have hnodup := h.nodup
    rw [hsplit, List.reduceOption_append, List.reduceOption_cons_of_some, List.map_append,
      List.map_cons,
      List.nodup_middle, List.nodup_cons] at hnodup
    refine hnodup.1 (List.mem_append_left _ ?_)
    exact hxy ▸ List.mem_map_of_mem (List.reduceOption_mem_iff.mpr hx)
  rcases Nat.lt_trichotomy i j with hlt | heq | hlt
  · exact absurd hlt (hbefore hi hj hxy)
  · exact heq
  · exact absurd hlt (hbefore hj hi hxy.symm)

/-! ## More keys than slots -/

section Keys

/-- The first `n` different ones of a list of keys, in the order in which they came. -/
def admitted (n : Nat) (ks : List κ) : List κ := ks.eraseDups.take n

theorem eraseDups_snoc (ks : List κ) (k : κ) :
    (ks ++ [k]).eraseDups = if k ∈ ks then ks.eraseDups else ks.eraseDups ++ [k] := by
  rw [List.eraseDups_append]
  split
  · rename_i h
    have hnone : [k].removeAll ks = [] := by simp [List.removeAll, h]
    rw [hnone, List.eraseDups_nil, List.append_nil]
  · rename_i h
    have hone : [k].removeAll ks = [k] := by simp [List.removeAll, h]
    rw [hone]
    rfl

theorem nodup_eraseDups (ks : List κ) : ks.eraseDups.Nodup := by
  induction ks using List.reverseRecOn with
  | nil => exact List.nodup_nil
  | append_singleton ks k ih =>
    rw [eraseDups_snoc]
    split
    · exact ih
    · rename_i h
      rw [← List.concat_eq_append]
      exact ih.concat (fun hk => h (List.mem_eraseDups.mp hk))

theorem nodup_admitted (n : Nat) (ks : List κ) : (admitted n ks).Nodup :=
  (nodup_eraseDups ks).sublist (List.take_sublist _ _)

theorem length_admitted_le (n : Nat) (ks : List κ) : (admitted n ks).length ≤ n :=
  List.length_take_le _ _

theorem mem_of_admitted {n : Nat} {ks : List κ} {k : κ} (h : k ∈ admitted n ks) : k ∈ ks :=
  List.mem_eraseDups.mp (List.mem_of_mem_take h)

/-- As long as there is room, every key is admitted. -/
theorem mem_admitted_of_room {n : Nat} {ks : List κ} (h : ks.eraseDups.length ≤ n) {k : κ}
    (hk : k ∈ ks) : k ∈ admitted n ks := by
  unfold admitted
  rw [List.take_of_length_le h]
  exact List.mem_eraseDups.mpr hk

/-- **One more key**: it is admitted if it was already, or if it is new and there is room. -/
theorem mem_admitted_snoc (n : Nat) (ks : List κ) (k j : κ) :
    j ∈ admitted n (ks ++ [k]) ↔ j ∈ admitted n ks ∨ j = k ∧ k ∉ ks ∧ ks.eraseDups.length < n := by
  unfold admitted
  rw [eraseDups_snoc]
  split
  · rename_i h
    exact ⟨.inl, fun hj => hj.resolve_right fun hnew => hnew.2.1 h⟩
  · rename_i h
    rw [List.take_append, List.mem_append]
    refine or_congr_right ?_
    rcases Nat.lt_or_ge ks.eraseDups.length n with hroom | hfull
    · rw [List.take_of_length_le (by rw [List.length_singleton]; omega), List.mem_singleton]
      exact ⟨fun hj => ⟨hj, h, hroom⟩, fun hj => hj.1⟩
    · rw [Nat.sub_eq_zero_of_le hfull, List.take_zero]
      exact ⟨fun hj => absurd hj List.not_mem_nil, fun hj => absurd hj.2.2 (Nat.not_lt.mpr hfull)⟩

/-- A key that came before is admitted or not, whatever comes later. -/
theorem mem_admitted_snoc_of_mem {n : Nat} {ks : List κ} {j : κ} (h : j ∈ ks) (k : κ) :
    j ∈ admitted n (ks ++ [k]) ↔ j ∈ admitted n ks := by
  rw [mem_admitted_snoc, or_iff_left]
  rintro ⟨rfl, hnew, _⟩
  exact hnew h

end Keys

theorem length_put (slots : List (Option β)) (x : β) : (put key slots x).length = slots.length := by
  unfold put
  split
  · exact List.length_set
  · split
    · exact List.length_set
    · rfl

/-- A write leaves the other keys alone, in any table. -/
theorem get_put_of_ne (slots : List (Option β)) {x : β} {k : κ} (h : key x ≠ k) :
    get key (put key slots x) k = get key slots k := by
  have hset : ∀ {l r : List (Option β)} {o : Option β}, (∀ y, o = some y → key y = key x) →
      get key (l ++ some x :: r) k = get key (l ++ o :: r) k := by
    intro l r o ho
    unfold get
    rw [List.reduceOption_append, List.reduceOption_append, List.reduceOption_cons_of_some,
      List.find?_append, List.find?_append, List.find?_cons_of_neg (by simpa using h)]
    cases o with
    | none => rw [List.reduceOption_cons_of_none]
    | some y =>
      rw [List.reduceOption_cons_of_some, List.find?_cons_of_neg (by simpa [ho y rfl] using h)]
  unfold put
  split
  · rename_i i hfound
    obtain ⟨l, o, r, rfl, hwrite, hp, _⟩ := set_of_findIdx? hfound (some x)
    rw [hwrite]
    refine hset ?_
    rintro y rfl
    exact of_decide_eq_true hp
  · split
    · rename_i i hfound
      obtain ⟨l, o, r, rfl, hwrite, hp, _⟩ := set_of_findIdx? hfound (some x)
      rw [hwrite]
      refine hset ?_
      rintro y rfl
      cases hp
    · rfl

/-- A table without an empty slot loses an entry with a new key. -/
theorem put_of_full {slots : List (Option β)} {x : β} (hfresh : key x ∉ slots.reduceOption.map key)
    (hfull : slots.length ≤ (slots.reduceOption.map key).length) : put key slots x = slots := by
  have hnone : slots.filter Option.isNone = [] := by
    have hlen := List.length_eq_reduceOption_length_add_filter_none (l := slots)
    rw [List.length_map] at hfull
    exact List.eq_nil_of_length_eq_zero (by omega)
  have hsearch : slots.findIdx? (fun slot => slot.any (fun y => key y = key x)) = none := by
    refine List.findIdx?_eq_none_iff.mpr ?_
    rintro (_ | y) hslot
    · rfl
    · refine Bool.eq_false_iff.mpr fun hkey => hfresh ?_
      exact List.mem_map.mpr ⟨y, List.reduceOption_mem_iff.mpr hslot, of_decide_eq_true hkey⟩
  have hempty : slots.findIdx? (fun slot => slot.isNone) = none := by
    refine List.findIdx?_eq_none_iff.mpr ?_
    intro slot hslot
    exact Bool.eq_false_iff.mpr fun h => List.filter_eq_nil_iff.mp hnone slot hslot h
  unfold put
  rw [hsearch, hempty]

/-- The keys in the table are those of the log. -/
theorem Holds.mem_keys {slots : List (Option β)} {log : List β} (h : Holds key slots log) (k : κ) :
    k ∈ slots.reduceOption.map key ↔ k ∈ log.map key := by
  rw [← latest_isSome, ← latest_isSome, ← h.get_eq k]
  rfl

variable (key) in
/-- The log of the keys that came in time, of the writes `ws` in the order in which they came. -/
def inTime (n : Nat) (ws : List β) : List β :=
  ws.reverse.filter fun y => key y ∈ admitted n (ws.map key)

/-- Its keys are the admitted ones. -/
theorem mem_keys_inTime (n : Nat) (ws : List β) (k : κ) :
    k ∈ (inTime key n ws).map key ↔ k ∈ admitted n (ws.map key) := by
  constructor
  · intro hk
    obtain ⟨y, hy, rfl⟩ := List.mem_map.mp hk
    exact of_decide_eq_true (List.mem_filter.mp hy).2
  · intro hk
    obtain ⟨y, hy, rfl⟩ := List.mem_map.mp (mem_of_admitted hk)
    exact List.mem_map_of_mem (List.mem_filter.mpr ⟨List.mem_reverse.mpr hy, decide_eq_true hk⟩)

theorem inTime_snoc (n : Nat) (ws : List β) (x : β) :
    inTime key n (ws ++ [x]) =
      if key x ∈ admitted n ((ws ++ [x]).map key) then x :: inTime key n ws else inTime key n ws := by
  have hold : ws.reverse.filter (fun y => decide (key y ∈ admitted n ((ws ++ [x]).map key))) =
      inTime key n ws := by
    refine List.filter_congr ?_
    intro y hy
    rw [decide_eq_decide, List.map_append, List.map_singleton]
    exact mem_admitted_snoc_of_mem (List.mem_map_of_mem (List.mem_reverse.mp hy)) _
  unfold inTime at hold ⊢
  rw [List.reverse_append, List.reverse_singleton, List.singleton_append, List.filter_cons, hold]
  by_cases hx : key x ∈ admitted n ((ws ++ [x]).map key)
  · rw [if_pos (decide_eq_true hx), if_pos hx]
  · rw [if_neg (by simpa using hx), if_neg hx]

variable (key) in
/-- The table answers like the log of the keys that came in time. -/
def Keeps (slots : List (Option β)) (ws : List β) : Prop := Holds key slots (inTime key slots.length ws)

variable (key) in
theorem Keeps.empty (n : Nat) : Keeps key (List.replicate n (none : Option β)) [] := Holds.empty key n

/-- **A write is remembered, or lost for good**, whatever came before. -/
theorem Keeps.put {slots : List (Option β)} {ws : List β} (h : Keeps key slots ws) (x : β) :
    Keeps key (Slots.put key slots x) (ws ++ [x]) := by
  unfold Keeps at h ⊢
  rw [length_put, inTime_snoc, List.map_append, List.map_singleton]
  generalize hn : slots.length = n at h ⊢
  split
  · rename_i hin
    refine h.put x ?_
    rw [hn]
    have hsub : ((x :: inTime key n ws).map key).toFinset ⊆
        (admitted n (ws.map key ++ [key x])).toFinset := by
      intro k hk
      rw [List.mem_toFinset] at hk ⊢
      rcases List.mem_cons.mp hk with rfl | hk
      · exact hin
      · exact (mem_admitted_snoc n _ _ _).mpr (.inl ((mem_keys_inTime n ws k).mp hk))
    exact (Finset.card_le_card hsub).trans ((List.toFinset_card_le _).trans (length_admitted_le _ _))
  · rename_i hout
    rw [mem_admitted_snoc, not_or] at hout
    -- the key has no slot, so there was no room left
    have hnoroom : n ≤ (ws.map key).eraseDups.length := by
      by_contra hroom
      by_cases hx : key x ∈ ws.map key
      · exact hout.1 (mem_admitted_of_room (by omega) hx)
      · exact hout.2 ⟨rfl, hx, by omega⟩
    have hlen : (admitted n (ws.map key)).length = n := by
      unfold admitted
      rw [List.length_take, Nat.min_eq_left hnoroom]
    have hkeys : ∀ k, k ∈ slots.reduceOption.map key ↔ k ∈ admitted n (ws.map key) := fun k =>
      (h.mem_keys k).trans (mem_keys_inTime n ws k)
    have hfull := (List.Nodup.subperm (nodup_admitted n (ws.map key)) fun k hk =>
      (hkeys k).mpr hk).length_le
    rw [put_of_full (fun hx => hout.1 ((hkeys _).mp hx)) (by omega)]
    exact h

/-- **What the table answers**: the latest entry of a key that came in time, and nothing for another. -/
theorem Keeps.get_eq {slots : List (Option β)} {ws : List β} (h : Keeps key slots ws) (k : κ) :
    get key slots k =
      if k ∈ admitted slots.length (ws.map key) then latest key ws.reverse k else none := by
  rw [Holds.get_eq h k]
  unfold latest inTime
  rw [List.find?_filter]
  split
  · rename_i hk
    congr 1
    funext y
    by_cases hy : key y = k
    · simp [hy, hk]
    · simp [hy]
  · rename_i hk
    refine List.find?_eq_none.mpr ?_
    rintro y _ hy
    simp only [decide_eq_true_eq] at hy
    exact hk (hy.2 ▸ hy.1)

/-- Writes in the order in which they come. -/
theorem Keeps.putAll {slots : List (Option β)} {ws : List β} (h : Keeps key slots ws) (xs : List β) :
    Keeps key (xs.foldl (Slots.put key) slots) (ws ++ xs) := by
  induction xs generalizing slots ws with
  | nil => rwa [List.append_nil]
  | cons x xs ih =>
    rw [List.foldl_cons, List.append_cons]
    exact ih (h.put x)

/-! ## Slots that are lost -/

/-- `slots'` is `slots`, a slot or more emptied. -/
def Thinned (slots slots' : List (Option β)) : Prop :=
  List.Forall₂ (fun o' o => o' = none ∨ o' = o) slots' slots

theorem Thinned.refl (slots : List (Option β)) : Thinned slots slots :=
  List.forall₂_same.mpr fun _ _ => .inr rfl

/-- What is left was there, and in this order. -/
theorem Thinned.sublist {slots slots' : List (Option β)} (h : Thinned slots slots') :
    slots'.reduceOption.Sublist slots.reduceOption := by
  induction h with
  | nil => exact .refl _
  | cons hslot _ ih =>
    rcases hslot with rfl | rfl
    · rw [List.reduceOption_cons_of_none]
      refine ih.trans ?_
      rename_i o _ _ _
      cases o with
      | none => rw [List.reduceOption_cons_of_none]
      | some x =>
        rw [List.reduceOption_cons_of_some]
        exact List.sublist_cons_self _ _
    · rename_i o' _ _ _
      cases o' with
      | none => rwa [List.reduceOption_cons_of_none, List.reduceOption_cons_of_none]
      | some x =>
        rw [List.reduceOption_cons_of_some, List.reduceOption_cons_of_some]
        exact ih.cons_cons x

/-- A table without a key twice holds its own entries. -/
theorem Holds.self {slots : List (Option β)} (h : (slots.reduceOption.map key).Nodup) :
    Holds key slots slots.reduceOption := ⟨fun _ => rfl, h⟩

theorem key_of_latest {log : List β} {k : κ} {x : β} (h : latest key log k = some x) : key x = k := by
  have hkey := List.find?_some h
  exact of_decide_eq_true hkey

/-- What it answers are its entries. -/
theorem get_eq_some {slots : List (Option β)} (h : (slots.reduceOption.map key).Nodup) {k : κ} {x : β} :
    get key slots k = some x ↔ x ∈ slots.reduceOption ∧ key x = k := by
  constructor
  · intro hget
    exact ⟨List.mem_of_find?_eq_some hget, key_of_latest hget⟩
  · rintro ⟨hmem, rfl⟩
    have hsome : (latest key slots.reduceOption (key x)).isSome :=
      latest_isSome.mpr (List.mem_map_of_mem hmem)
    obtain ⟨y, hy⟩ := Option.isSome_iff_exists.mp hsome
    show latest key slots.reduceOption (key x) = some x
    rw [hy, List.inj_on_of_nodup_map h (List.mem_of_find?_eq_some hy) hmem (key_of_latest hy)]

/-- **A write** is the latest entry, or it found no slot. -/
theorem put_cases {slots : List (Option β)} (h : (slots.reduceOption.map key).Nodup) (x : β) :
    Holds key (put key slots x) (x :: slots.reduceOption) ∨
      put key slots x = slots ∧ key x ∉ slots.reduceOption.map key := by
  rcases Nat.lt_or_ge slots.length ((x :: slots.reduceOption).map key).toFinset.card with hfull | hroom
  · right
    have hlen : (slots.reduceOption.map key).length ≤ slots.length := by
      rw [List.length_map]
      exact List.reduceOption_length_le _
    have hfresh : key x ∉ slots.reduceOption.map key := by
      intro hmem
      rw [List.map_cons, List.toFinset_cons,
        Finset.insert_eq_of_mem (List.mem_toFinset.mpr hmem)] at hfull
      have hcard := List.toFinset_card_le (slots.reduceOption.map key)
      omega
    refine ⟨put_of_full hfresh ?_, hfresh⟩
    have hcard := List.toFinset_card_le ((x :: slots.reduceOption).map key)
    rw [List.map_cons, List.length_cons] at hcard
    rw [List.map_cons] at hfull
    omega
  · exact .inl ((Holds.self h).put x hroom)

variable (key) in
/-- **A table with a memory**: what it answers is the log's answer, but it may have none.  This is what
    is left of `Holds` where slots are lost. -/
structure Recalls (slots : List (Option β)) (log : List β) : Prop where
  sound : ∀ k x, get key slots k = some x → latest key log k = some x
  nodup : (slots.reduceOption.map key).Nodup

variable (key) in
theorem Recalls.empty (n : Nat) : Recalls key (List.replicate n (none : Option β)) [] where
  sound := by
    intro k x hget
    rw [(Holds.empty key n).get_eq] at hget
    exact hget
  nodup := (Holds.empty key n).nodup

/-- The loss of slots. -/
theorem Recalls.thin {slots slots' : List (Option β)} {log : List β} (h : Recalls key slots log)
    (ht : Thinned slots slots') : Recalls key slots' log where
  sound := by
    intro k x hget
    have hnodup := h.nodup.sublist (ht.sublist.map key)
    obtain ⟨hmem, hkey⟩ := (get_eq_some hnodup).mp hget
    exact h.sound k x ((get_eq_some h.nodup).mpr ⟨ht.sublist.subset hmem, hkey⟩)
  nodup := h.nodup.sublist (ht.sublist.map key)

/-- A write. -/
theorem Recalls.put {slots : List (Option β)} {log : List β} (h : Recalls key slots log) (x : β) :
    Recalls key (Slots.put key slots x) (x :: log) := by
  rcases put_cases h.nodup x with hput | ⟨hput, hfresh⟩
  · refine ⟨?_, hput.nodup⟩
    intro k y hget
    rw [hput.get_eq, latest_cons] at hget
    rw [latest_cons]
    split
    · rename_i hk
      rwa [if_pos hk] at hget
    · rename_i hk
      rw [if_neg hk] at hget
      exact h.sound k y hget
  · rw [hput]
    refine ⟨?_, h.nodup⟩
    intro k y hget
    have hne : key x ≠ k := by
      rintro rfl
      obtain ⟨hmem, hkey⟩ := (get_eq_some h.nodup).mp hget
      exact hfresh (hkey ▸ List.mem_map_of_mem hmem)
    rw [latest_of_ne hne]
    exact h.sound k y hget

/-- A write is remembered, as long as the keys of the log fit the slots. -/
theorem Recalls.get_put_self {slots : List (Option β)} {log : List β} (h : Recalls key slots log)
    {x : β} (hroom : ((x :: log).map key).toFinset.card ≤ slots.length) :
    get key (Slots.put key slots x) (key x) = some x := by
  have hsub : ((x :: slots.reduceOption).map key).toFinset ⊆ ((x :: log).map key).toFinset := by
    intro k hk
    rw [List.mem_toFinset] at hk ⊢
    rcases List.mem_cons.mp hk with rfl | hk
    · exact List.mem_cons_self
    · obtain ⟨y, hy, rfl⟩ := List.mem_map.mp hk
      have hlog := h.sound (key y) y ((get_eq_some h.nodup).mpr ⟨hy, rfl⟩)
      exact List.mem_cons_of_mem _ (latest_isSome.mp (by rw [hlog]; rfl))
  rw [((Holds.self h.nodup).put x ((Finset.card_le_card hsub).trans hroom)).get_eq, latest_self]

end Slots
