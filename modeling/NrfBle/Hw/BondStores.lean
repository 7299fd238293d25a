/-
  What the bond stores are for (`src/hw/conn.rs`: `RamBondStore`; `src/hw/bond_flash.rs`:
  `FlashBondStore`).

  Both are tables of eight slots (`NrfBle.Lib.Slots`), so after ANY saves both answer like the list of
  the saves: with the last one for a peer, as long as the peer is one of the first eight.
-/
import Mathlib.Tactic
import NrfBle.Lib.Slots
import NrfBle.Hw.BondFlash

namespace NrfBle

open Checked

/-- A map of eight peers in which the last save wins: what it finds and what its slots hold, after the
    saves `saves` in the order in which they came. -/
structure LastSaveWins (find : Buf 6 → Option BondInfo) (slots : List (Option BondInfo))
    (saves : List BondInfo) : Prop where
  find_eq : ∀ peer, find peer =
    if peer ∈ Slots.admitted 8 (saves.map BondInfo.addr) then
      saves.reverse.find? (fun bond => bond.addr = peer)
    else none
  unique : ∀ (i j : Nat) (bond bond' : BondInfo), slots[i]? = some (some bond) →
    slots[j]? = some (some bond') → bond.addr = bond'.addr → i = j

/-- Eight empty slots with the saves put in are such a map. -/
theorem LastSaveWins.of_puts {slots : List (Option BondInfo)} {saves : List BondInfo}
    (hsize : slots.length = 8)
    (h : slots = saves.foldl (Slots.put BondInfo.addr) (List.replicate 8 none)) :
    LastSaveWins (Slots.get BondInfo.addr slots) slots saves := by
  have hkeeps : Slots.Keeps BondInfo.addr slots saves := by
    rw [h]
    exact (Slots.Keeps.empty BondInfo.addr 8).putAll saves
  constructor
  · intro peer
    rw [hkeeps.get_eq peer, hsize]
    rfl
  · intro i j bond bond' hi hj haddr
    exact Slots.Holds.slot_unique hkeeps hi hj haddr

/-! ## In RAM -/

namespace RamBondStore

theorem find_eq (st : RamBondStore) (peer : Buf 6) :
    st.find peer = Slots.get BondInfo.addr st.bonds peer := rfl

theorem save_bonds (st : RamBondStore) (peer : Buf 6) (ltk : Buf 16) (irk : Option (Buf 16)) :
    (st.save peer ltk irk).bonds = Slots.put BondInfo.addr st.bonds ⟨peer, ltk, irk⟩ := by
  unfold RamBondStore.save Slots.put
  dsimp only
  cases st.bonds.findIdx? (fun slot => slot.any (fun b => b.addr = peer)) with
  | some i => rfl
  | none => cases st.bonds.findIdx? (fun slot => slot.isNone) <;> rfl

/-- Save a list of bonds, the first first. -/
def saveAll (st : RamBondStore) (bonds : List BondInfo) : RamBondStore :=
  bonds.foldl (fun st bond => st.save bond.addr bond.ltk bond.irk) st

theorem saveAll_bonds (st : RamBondStore) (bonds : List BondInfo) :
    (st.saveAll bonds).bonds = bonds.foldl (Slots.put BondInfo.addr) st.bonds := by
  induction bonds generalizing st with
  | nil => rfl
  | cons bond bonds ih =>
    show ((st.save bond.addr bond.ltk bond.irk).saveAll bonds).bonds = _
    rw [ih, save_bonds]
    rfl

/-- A save is nothing to the other peers. -/
theorem find_save_of_ne (st : RamBondStore) (ltk : Buf 16) (irk : Option (Buf 16)) {peer other : Buf 6}
    (h : other ≠ peer) : (st.save peer ltk irk).find other = st.find other := by
  rw [find_eq, find_eq, save_bonds]
  exact Slots.get_put_of_ne st.bonds h.symm

theorem lastSaveWins (saves : List BondInfo) :
    LastSaveWins (new.saveAll saves).find (new.saveAll saves).bonds saves :=
  .of_puts (new.saveAll saves).size (saveAll_bonds new saves)

end RamBondStore

/-! ## In flash -/

namespace FlashBondStore

theorem find_eq (st : FlashBondStore) (peer : Buf 6) :
    st.find peer = Slots.get BondInfo.addr st.cache peer := rfl

/-- A flush does not touch the cache. -/
theorem save_cache (st : FlashBondStore) (peer : Buf 6) (ltk : Buf 16) (irk : Option (Buf 16)) :
    (st.save peer ltk irk).cache = Slots.put BondInfo.addr st.cache ⟨peer, ltk, irk⟩ := by
  unfold FlashBondStore.save Slots.put
  dsimp only
  cases st.cache.findIdx? (fun slot => slot.any (fun b => b.addr = peer)) with
  | some i => rfl
  | none => cases st.cache.findIdx? (fun slot => slot.isNone) <;> rfl

theorem saveAll_cache (st : FlashBondStore) (bonds : List BondInfo) :
    (st.saveAll bonds).cache = bonds.foldl (Slots.put BondInfo.addr) st.cache := by
  induction bonds generalizing st with
  | nil => rfl
  | cons bond bonds ih =>
    show ((st.save bond.addr bond.ltk bond.irk).saveAll bonds).cache = _
    rw [ih, save_cache]
    rfl

/-- A save is nothing to the other peers. -/
theorem find_save_of_ne (st : FlashBondStore) (ltk : Buf 16) (irk : Option (Buf 16)) {peer other : Buf 6}
    (h : other ≠ peer) : (st.save peer ltk irk).find other = st.find other := by
  rw [find_eq, find_eq, save_cache]
  exact Slots.get_put_of_ne st.cache h.symm

/-- On a page without the magic word the store starts empty. -/
theorem lastSaveWins {page : Nat → UInt8} (hblank : pageMagic page ≠ bondPageMagic)
    (saves : List BondInfo) :
    LastSaveWins ((«open» page).saveAll saves).find ((«open» page).saveAll saves).cache saves := by
  refine .of_puts ((«open» page).saveAll saves).size ?_
  rw [saveAll_cache, open_of_blank hblank]

end FlashBondStore

/-! ## Both -/

/-- **The bond stores.**  After any saves on a new store in RAM, and on one opened on an erased page,
    the last save wins for the first eight peers, and no peer has two slots.  In any store, full or
    not, a save for one peer leaves what is found for another. -/
theorem bond_stores_lastSaveWins :
    (∀ saves, LastSaveWins (RamBondStore.new.saveAll saves).find (RamBondStore.new.saveAll saves).bonds
      saves) ∧
    (∀ saves, LastSaveWins ((FlashBondStore.open erased).saveAll saves).find
      ((FlashBondStore.open erased).saveAll saves).cache saves) ∧
    ∀ (bond : BondInfo) (peer : Buf 6), peer ≠ bond.addr →
      (∀ st : RamBondStore, (st.save bond.addr bond.ltk bond.irk).find peer = st.find peer) ∧
      ∀ st : FlashBondStore, (st.save bond.addr bond.ltk bond.irk).find peer = st.find peer := by
  refine ⟨RamBondStore.lastSaveWins, FlashBondStore.lastSaveWins (by decide), ?_⟩
  intro bond peer hother
  exact ⟨fun st => st.find_save_of_ne _ _ hother, fun st => st.find_save_of_ne _ _ hother⟩

/-- The bond of the peer whose address is `n` six times. -/
def peerBond (n : UInt8) : BondInfo := ⟨⟨List.replicate 6 n, rfl⟩, ⟨List.replicate 16 n, rfl⟩, none⟩

/-- Nine peers: the ninth finds no slot, and the first keeps its own. -/
theorem bond_stores_ninth_peer :
    let full := RamBondStore.new.saveAll ((List.range 8).map fun n => peerBond (.ofNat n))
    (full.save (peerBond 8).addr (peerBond 8).ltk (peerBond 8).irk).find (peerBond 0).addr =
        some (peerBond 0) ∧
      (RamBondStore.new.saveAll ((List.range 9).map fun n => peerBond (.ofNat n))).find
        (peerBond 8).addr = none := by
  intro full
  refine ⟨?_, ?_⟩
  · rw [(bond_stores_lastSaveWins.2.2 (peerBond 8) (peerBond 0).addr (by decide)).1 full]
    decide +kernel
  · rw [(bond_stores_lastSaveWins.1 _).find_eq]
    decide +kernel

end NrfBle
