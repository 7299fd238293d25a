/-
  A bond page through its life: saves, restarts, and saves that the power does not outlast
  (`src/hw/bond_flash.rs`).

  A flush erases the page before it stores the records, so a save that is cut short can lose EVERY bond.
  What it cannot do is bring one back that was replaced, or one that was never saved: whatever the
  history, a peer's bond is the last one for that peer or there is none (`flash_history`).  Where the
  power holds, the store cannot be told from one in RAM that never restarts.

  What is remembered of a history are its saves, also those cut short (`attempts`); the table recalls
  them (`Slots.Recalls`), and each operation keeps that (`FlashOp.run_recalls`).
-/
import Mathlib.Tactic
import NrfBle.Hw.BondStores

namespace NrfBle

open Checked

/-- What happens to a bond page: a save; a save with the power gone after the first `k` stores behind
    the erase, and a restart; or a restart. -/
inductive FlashOp
  | save (bond : BondInfo)
  | cut (bond : BondInfo) (k : Nat)
  | reopen

/-- The bonds a history tried to save, in order. -/
def attempts : List FlashOp → List BondInfo
  | [] => []
  | .save bond :: ops => bond :: attempts ops
  | .cut bond _ :: ops => bond :: attempts ops
  | .reopen :: ops => attempts ops

/-- The power went during this save. -/
def FlashOp.isCut : FlashOp → Bool
  | .cut _ _ => true
  | _ => false

namespace FlashBondStore

/-- The page of a store whose `save` was cut short: the first `k` stores of its flush, if it makes
    one. -/
def cutPage (st : FlashBondStore) (bond : BondInfo) (k : Nat) : Nat → UInt8 :=
  match st.cache.findIdx? (fun slot => slot.any (fun b => b.addr = bond.addr)) with
  | some i => pageAfter (st.cache.set i (some bond)) k
  | none =>
    match st.cache.findIdx? (fun slot => slot.isNone) with
    | some i => pageAfter (st.cache.set i (some bond)) k
    | none => st.page

end FlashBondStore

open FlashBondStore

/-- Carry out an operation. -/
def FlashOp.run (st : FlashBondStore) : FlashOp → FlashBondStore
  | .save bond => st.save bond.addr bond.ltk bond.irk
  | .cut bond k => «open» (st.cutPage bond k)
  | .reopen => «open» st.page

/-- The store after a history, opened on this page. -/
def flashHistory (page : Nat → UInt8) (ops : List FlashOp) : FlashBondStore :=
  ops.foldl FlashOp.run («open» page)

theorem attempts_append (xs ys : List FlashOp) : attempts (xs ++ ys) = attempts xs ++ attempts ys := by
  induction xs with
  | nil => rfl
  | cons op xs ih => cases op <;> simp [attempts, ih]

/-! ## One operation -/

namespace FlashBondStore

/-- A page that was not flushed to its end: slots are lost, nothing else. -/
theorem open_pageAfter_thinned {cache : List (Option BondInfo)} (h : cache.length = bondMax) (k : Nat) :
    Slots.Thinned cache («open» (pageAfter cache k)).cache := by
  refine List.forall₂_iff_get.mpr ⟨(«open» _).size.trans h.symm, ?_⟩
  intro i hi hi'
  have hslot := (open_pageAfter h k (show i < bondMax by omega)).1
  rw [List.getElem?_eq_getElem hi, List.getElem?_eq_getElem hi', Option.some.injEq,
    Option.some.injEq] at hslot
  exact hslot

/-- **A save cut short**: the cache it would have made, slots lost. -/
theorem open_cutPage_thinned {st : FlashBondStore} (h : st.Stored) (bond : BondInfo) (k : Nat) :
    Slots.Thinned (st.save bond.addr bond.ltk bond.irk).cache («open» (st.cutPage bond k)).cache := by
  rw [save_cache]
  unfold Slots.put cutPage
  dsimp only
  cases st.cache.findIdx? (fun slot => slot.any (fun b => b.addr = bond.addr)) with
  | some i => exact open_pageAfter_thinned (st.set_length i _) k
  | none =>
    cases st.cache.findIdx? (fun slot => slot.isNone) with
    | some i => exact open_pageAfter_thinned (st.set_length i _) k
    | none =>
      -- the store is full: nothing was flushed
      have hstored : («open» st.page).cache = st.cache := h
      dsimp only
      rw [hstored]
      exact .refl _

end FlashBondStore

/-- The page agrees with the cache, and the cache recalls these saves, the latest first. -/
structure Sound (st : FlashBondStore) (log : List BondInfo) : Prop where
  stored : st.Stored
  recalls : Slots.Recalls BondInfo.addr st.cache log

theorem sound_open {page : Nat → UInt8} (hblank : pageMagic page ≠ bondPageMagic) :
    Sound («open» page) [] := by
  refine ⟨.open page, ?_⟩
  rw [open_of_blank hblank]
  exact .empty _ _

/-- **Every operation** keeps it, with the bond it tried to save as the latest. -/
theorem FlashOp.run_recalls {st : FlashBondStore} {log : List BondInfo} (h : Sound st log)
    (op : FlashOp) : Sound (op.run st) ((attempts [op]).reverse ++ log) := by
  have hsave : ∀ bond : BondInfo,
      Slots.Recalls BondInfo.addr (st.save bond.addr bond.ltk bond.irk).cache (bond :: log) := by
    intro bond
    rw [save_cache]
    exact h.recalls.put bond
  cases op with
  | save bond => exact ⟨h.stored.save _ _ _, hsave bond⟩
  | cut bond k => exact ⟨.open _, (hsave bond).thin (open_cutPage_thinned h.stored bond k)⟩
  | reopen =>
    refine ⟨.open _, ?_⟩
    show Slots.Recalls BondInfo.addr («open» st.page).cache log
    rw [show («open» st.page).cache = st.cache from h.stored]
    exact h.recalls

/-- A history. -/
theorem recalls_history {st : FlashBondStore} {log : List BondInfo} (h : Sound st log)
    (ops : List FlashOp) : Sound (ops.foldl FlashOp.run st) ((attempts ops).reverse ++ log) := by
  induction ops generalizing st log with
  | nil => exact h
  | cons op ops ih =>
    have hrest := ih (op.run_recalls h)
    have hattempts : attempts (op :: ops) = attempts [op] ++ attempts ops := attempts_append [op] ops
    rw [← List.append_assoc, ← List.reverse_append, ← hattempts] at hrest
    exact hrest

/-- A save finds a slot, if not more than eight peers were ever saved. -/
theorem find_save_self {st : FlashBondStore} {log : List BondInfo} (h : Sound st log) {bond : BondInfo}
    (hroom : ((bond :: log).map BondInfo.addr).toFinset.card ≤ bondMax) :
    (st.save bond.addr bond.ltk bond.irk).find bond.addr = some bond := by
  rw [FlashBondStore.find_eq, save_cache]
  refine h.recalls.get_put_self ?_
  rw [st.size]
  exact hroom

/-- Fewer saves are for fewer peers. -/
theorem card_peers_le {later log : List BondInfo} {n : Nat}
    (h : ((later ++ log).map BondInfo.addr).toFinset.card ≤ n) :
    (log.map BondInfo.addr).toFinset.card ≤ n := by
  refine (Finset.card_le_card ?_).trans h
  rw [List.map_append, List.toFinset_append]
  exact Finset.subset_union_right

/-- **While the power holds**, a bond that is found stays found until another is saved for its peer. -/
theorem found_history {st : FlashBondStore} {log : List BondInfo} (h : Sound st log)
    (ops : List FlashOp) (hpower : ∀ op ∈ ops, op.isCut = false) {peer : Buf 6}
    (hroom : (((attempts ops).reverse ++ log).map BondInfo.addr).toFinset.card ≤ bondMax)
    (hfound : st.find peer = Slots.latest BondInfo.addr log peer) :
    (ops.foldl FlashOp.run st).find peer =
      Slots.latest BondInfo.addr ((attempts ops).reverse ++ log) peer := by
  induction ops generalizing st log with
  | nil => exact hfound
  | cons op ops ih =>
    have hattempts : attempts (op :: ops) = attempts [op] ++ attempts ops := attempts_append [op] ops
    rw [hattempts, List.reverse_append, List.append_assoc] at hroom ⊢
    refine ih (op.run_recalls h) (fun o ho => hpower o (List.mem_cons_of_mem _ ho)) hroom ?_
    cases op with
    | cut bond k => cases hpower _ List.mem_cons_self
    | reopen =>
      show («open» st.page).find peer = _
      unfold FlashBondStore.find at hfound ⊢
      rw [show («open» st.page).cache = st.cache from h.stored]
      exact hfound
    | save bond =>
      show (st.save bond.addr bond.ltk bond.irk).find peer = Slots.latest BondInfo.addr
        (bond :: log) peer
      rw [Slots.latest_cons]
      split
      · rename_i hpeer
        rw [← hpeer]
        exact find_save_self h (card_peers_le hroom)
      · rename_i hpeer
        rw [← hfound]
        exact find_save_of_ne st _ _ (Ne.symm hpeer)

/-- Without a cut, a history is its saves. -/
theorem cache_history {st : FlashBondStore} (h : st.Stored) (ops : List FlashOp)
    (hpower : ∀ op ∈ ops, op.isCut = false) :
    (ops.foldl FlashOp.run st).cache = (attempts ops).foldl (Slots.put BondInfo.addr) st.cache := by
  induction ops generalizing st with
  | nil => rfl
  | cons op ops ih =>
    have hrest : ∀ o ∈ ops, o.isCut = false := fun o ho => hpower o (List.mem_cons_of_mem _ ho)
    cases op with
    | cut bond k => cases hpower _ List.mem_cons_self
    | reopen =>
      have hcache : («open» st.page).cache = st.cache := h
      have hih := ih (.open st.page) hrest
      rw [hcache] at hih
      exact hih
    | save bond =>
      have hih := ih (h.save bond.addr bond.ltk bond.irk) hrest
      rw [save_cache] at hih
      exact hih

/-- **The life of a bond page.**  A bond that is found is the last one its peer's saves were for,
    however many restarts and saves cut short there were.  A bond whose save was not cut short, and no
    later one either, is found, if not more than eight peers were ever saved.  Without a cut the store
    answers as one in RAM that was never restarted. -/
theorem flash_history {page : Nat → UInt8} (hblank : pageMagic page ≠ bondPageMagic)
    (ops : List FlashOp) :
    (∀ peer bond, (flashHistory page ops).find peer = some bond →
      (attempts ops).reverse.find? (fun b => b.addr = peer) = some bond) ∧
    (∀ before bond after, ops = before ++ .save bond :: after → (∀ op ∈ after, op.isCut = false) →
      ((attempts ops).map BondInfo.addr).toFinset.card ≤ bondMax →
      (flashHistory page ops).find bond.addr =
        (attempts ops).reverse.find? (fun b => b.addr = bond.addr)) ∧
    ((∀ op ∈ ops, op.isCut = false) → ∀ peer, (flashHistory page ops).find peer =
      (RamBondStore.new.saveAll (attempts ops)).find peer) := by
  refine ⟨?_, ?_, ?_⟩
  · intro peer bond hfind
    have hsound := recalls_history (sound_open hblank) ops
    rw [List.append_nil] at hsound
    exact hsound.recalls.sound peer bond hfind
  · rintro before bond after rfl hpower hroom
    have hbefore := recalls_history (sound_open hblank) before
    rw [List.append_nil] at hbefore
    have hattempts : (attempts (before ++ .save bond :: after)).reverse =
        (attempts after).reverse ++ bond :: (attempts before).reverse := by
      rw [attempts_append, List.reverse_append, attempts, List.reverse_cons, List.append_assoc]
      rfl
    rw [← List.toFinset_reverse, ← List.map_reverse, hattempts] at hroom
    unfold flashHistory
    rw [List.foldl_append, List.foldl_cons, hattempts]
    have hsaved := FlashOp.run_recalls hbefore (.save bond)
    refine found_history hsaved after hpower hroom ?_
    rw [show (attempts [.save bond]).reverse = [bond] from rfl, List.singleton_append,
      Slots.latest_self]
    exact find_save_self hbefore (card_peers_le hroom)
  · intro hpower peer
    have hcache := cache_history (.open page) ops hpower
    rw [open_of_blank hblank] at hcache
    rw [FlashBondStore.find_eq, RamBondStore.find_eq, RamBondStore.saveAll_bonds]
    unfold flashHistory
    rw [hcache]
    rfl

/-- The bond with a new key for the peer of `peerBond n`. -/
def renewedBond (n : UInt8) : BondInfo := { peerBond n with ltk := Buf.zero 16 }

/-- A key that is replaced does not come back, though its replacement is cut short; and the bond that is
    saved next is found after a restart. -/
theorem flash_history_renewed_key :
    (flashHistory erased [.save (peerBond 1), .cut (renewedBond 1) 100, .reopen]).find
        (peerBond 1).addr ≠ some (peerBond 1) ∧
      (flashHistory erased
        [.save (peerBond 1), .cut (renewedBond 1) 100, .save (peerBond 2), .reopen]).find
        (peerBond 2).addr = some (peerBond 2) := by
  have hblank : pageMagic erased ≠ bondPageMagic := by decide
  refine ⟨?_, ?_⟩
  · intro hfind
    have hlast := (flash_history hblank _).1 _ _ hfind
    revert hlast
    decide
  · have hfound := (flash_history hblank _).2.1 [.save (peerBond 1), .cut (renewedBond 1) 100]
      (peerBond 2)
      [.reopen] rfl (by decide) (by decide)
    exact hfound.trans (by decide)

end NrfBle
