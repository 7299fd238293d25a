/-
  Bonds over the connections of a run (`src/hw/ble.rs`: `gap_bond_save`, `gap_bond_find`,
  `gap_encrypt`).

  The store is a table of eight slots (`NrfBle.Lib.Slots`), and within one connection it does what such
  a table is for: `Run.bonds` — it answers like the list of the bonds saved SINCE THE CONNECTION WAS
  OPENED.  But the store is a field of the connection.  With the connection it goes, and the next one
  starts with an empty one, so a bond saved in an earlier connection is never found again
  (`bond_remembered_iff`).
-/
import Mathlib.Tactic
import NrfBle.Lib.Slots
import NrfBle.Hw.BondStores
import NrfBle.Hw.Ble.Run

namespace NrfBle

open Checked

/-! ## What a run saved -/

/-- The bond a move saves: nothing happens without a connection. -/
def Move.saves (m : Move) : List BondInfo :=
  match m.op, m.before.conn with
  | .gapBondSave peer ltk irk, some _ => [⟨peer, ltk, irk⟩]
  | _, _ => []

/-- The bonds ever saved, the latest first. -/
def savedEver : List Move → List BondInfo
  | [] => []
  | m :: moves => m.saves ++ savedEver moves

/-- The bonds saved since the last connection was opened. -/
def savedHere : List Move → List BondInfo
  | [] => []
  | m :: moves => if m.op.opens m.before then [] else m.saves ++ savedHere moves

/-- They are the latest of all. -/
theorem savedHere_append (moves : List Move) : ∃ earlier, savedEver moves = savedHere moves ++ earlier := by
  induction moves with
  | nil => exact ⟨[], rfl⟩
  | cons m moves ih =>
    obtain ⟨earlier, h⟩ := ih
    rw [savedEver, savedHere]
    split
    · exact ⟨_, rfl⟩
    · exact ⟨earlier, by rw [h, List.append_assoc]⟩

/-- The peers of a list of bonds. -/
def peers (bonds : List BondInfo) : Finset (Buf 6) := (bonds.map BondInfo.addr).toFinset

theorem peers_append_left (xs ys : List BondInfo) : peers xs ⊆ peers (xs ++ ys) := by
  intro p hp
  rw [peers, List.mem_toFinset] at hp ⊢
  rw [List.map_append]
  exact List.mem_append_left _ hp

theorem peers_append_right (xs ys : List BondInfo) : peers ys ⊆ peers (xs ++ ys) := by
  intro p hp
  rw [peers, List.mem_toFinset] at hp ⊢
  rw [List.map_append]
  exact List.mem_append_right _ hp

/-! ## What the store holds -/

/-- The store of the open connection answers like the bonds saved in it. -/
def BondsHeld (moves : List Move) (r : Except Panic Ble) : Prop :=
  ∀ b c, r = .ok b → b.conn = some c → Slots.Holds BondInfo.addr c.bondStore.bonds (savedHere moves)

/-- One move keeps it, as long as eight slots are enough. -/
theorem bondsHeld_step {op : BleOp} {b : Ble} {x : Logged BleAct Ble} {moves : List Move}
    (h : LinkDone op b x) (hheld : BondsHeld moves (.ok b))
    (hroom : (peers (savedHere (⟨op, b, x.log⟩ :: moves))).card ≤ 8) :
    BondsHeld (⟨op, b, x.log⟩ :: moves) x.res := by
  cases h with
  | opened hop hconn hbonds hlog hdrive =>
    rintro b' c ⟨⟩ hc
    cases hconn.symm.trans hc
    rw [savedHere, if_pos hop, hbonds]
    exact .empty _ 8
  | closed hdrive hconn hlog =>
    rintro b' c ⟨⟩ hc
    rw [hconn] at hc
    cases hc
  | panicked hdrive hconn hlog => rintro b' c ⟨⟩
  | @kept log b' hop hdrive hlink hlog =>
    rintro _ c' ⟨⟩ hc'
    rw [savedHere, if_neg (by rw [hop]; decide)] at hroom ⊢
    rw [hc'] at hlink
    cases hconn : b.conn with
    | none => cases op <;> (rw [hconn] at hlink; exact hlink.elim)
    | some c =>
      have hold := hheld b c rfl hconn
      rw [hconn] at hlink
      cases op with
      | gapBondSave peer ltk irk =>
        have hsaves : Move.saves ⟨.gapBondSave peer ltk irk, b, log⟩ = [⟨peer, ltk, irk⟩] := by
          rw [Move.saves, hconn]
        have hbonds : c'.bondStore = c.bondStore.save peer ltk irk := hlink.bondStore
        rw [hsaves] at hroom ⊢
        rw [hbonds, RamBondStore.save_bonds]
        exact hold.put _ (by rw [c.bondStore.size]; exact hroom)
      | _ =>
        have hbonds : c'.bondStore = c.bondStore := hlink.bondStore
        rw [hbonds]
        exact hold

/-- **Within a connection the store keeps what was saved**, of up to eight peers. -/
theorem Run.bonds {hw : Hw} {moves : List Move} {r : Except Panic Ble} (h : Run hw moves r)
    (hroom : (peers (savedEver moves)).card ≤ 8) : BondsHeld moves r := by
  induction h with
  | start =>
    rintro b c ⟨⟩ hc
    cases hc
  | @step moves b op hrun ih =>
    have hmono : ∀ {xs ys : Finset (Buf 6)}, xs ⊆ ys → ys.card ≤ 8 → xs.card ≤ 8 :=
      fun hsub hle => (Finset.card_le_card hsub).trans hle
    obtain ⟨earlier, happ⟩ := savedHere_append (⟨op, b, (op.run hw b).log⟩ :: moves)
    refine bondsHeld_step (linkDone hw op (hrun.bounds b rfl)) (ih ?_) ?_
    · exact hmono (peers_append_right _ _) hroom
    · exact hmono (by rw [happ]; exact peers_append_left _ _) hroom

/-! ## Remembering a bond -/

/-- The bond is of use: it is found by its address, and in a connection this side opened to the peer an
    encryption that is asked for gets its key. -/
def Ble.Remembers (b : Ble) (bond : BondInfo) : Prop :=
  b.gapBondFind bond.addr = some bond ∧
    ∀ c, b.conn = some c → c.role = .master → c.peerAddr = bond.addr →
      ∃ log, b.gapEncrypt = ⟨log, .ok (.ok (), { b with
        conn := some { c with smp := { c.smp with stk := bond.ltk } }.queueEncryptReq })⟩

/-- Finding it is all there is to it. -/
theorem Ble.remembers_iff {b : Ble} {c : Conn} (hconn : b.conn = some c) (bond : BondInfo) :
    b.Remembers bond ↔ c.bondStore.find bond.addr = some bond := by
  have hfind : b.gapBondFind bond.addr = c.bondStore.find bond.addr := by
    unfold Ble.gapBondFind
    rw [hconn]
  rw [Ble.Remembers, hfind]
  refine ⟨And.left, fun h => ⟨h, ?_⟩⟩
  intro c₁ hc₁ hmaster hpeer
  cases hconn.symm.trans hc₁
  refine ⟨[.conn .bondKey], ?_⟩
  unfold Ble.gapEncrypt Conn.gapEncrypt
  rw [hconn]
  dsimp only
  rw [hmaster, hpeer, h]
  rfl

/-- **Bonds and reconnection.**  In an open connection the latest bond saved for a peer is remembered iff
    a bond for that peer was saved in this connection. -/
theorem bond_remembered_iff {hw : Hw} {moves : List Move} {b : Ble} (h : Run hw moves (.ok b))
    (hopen : b.conn.isSome) (hroom : (peers (savedEver moves)).card ≤ 8) (bond : BondInfo)
    (hlast : Slots.latest BondInfo.addr (savedEver moves) bond.addr = some bond) :
    b.Remembers bond ↔ bond.addr ∈ peers (savedHere moves) := by
  obtain ⟨c, hconn⟩ := Option.isSome_iff_exists.mp hopen
  obtain ⟨earlier, happ⟩ := savedHere_append moves
  rw [Ble.remembers_iff hconn, RamBondStore.find_eq, (h.bonds hroom b c rfl hconn).get_eq, peers,
    List.mem_toFinset, ← Slots.latest_isSome]
  constructor
  · exact fun hfound => by rw [hfound]; rfl
  · intro hsome
    obtain ⟨bond', hfound⟩ := Option.isSome_iff_exists.mp hsome
    -- the latest here is the latest of all
    rw [happ, Slots.latest_append_of_some hfound] at hlast
    rw [hfound, hlast]

/-- A peer and its bond. -/
def oneBond : BondInfo := ⟨otherAddr, ⟨List.replicate 16 7, rfl⟩, none⟩

/-- Connect to the peer. -/
def reachPeer : List BleOp :=
  [.scanHears (.advInd oneBond.addr []), .call (.gapConnect oneBond.addr .«public» 0)]

/-- Connect to it, and save the bond. -/
def bondPeer : List BleOp := .gapBondSave oneBond.addr oneBond.ltk oneBond.irk :: reachPeer

/-- In the same connection the bond is remembered. -/
theorem bond_remembered_here :
    ∃ b, (history Hw.standIn bondPeer).2 = .ok b ∧ b.Remembers oneBond := by
  have hrun := Run.of_history Hw.standIn bondPeer
  have hopen : ((history Hw.standIn bondPeer).2.map fun b => b.conn.isSome) = .ok true := by
    decide +kernel
  have hever : savedEver (history Hw.standIn bondPeer).1 = [oneBond] := by decide +kernel
  have hhere : savedHere (history Hw.standIn bondPeer).1 = [oneBond] := by decide +kernel
  generalize history Hw.standIn bondPeer = run at hrun hopen hever hhere ⊢
  obtain ⟨moves, _ | b⟩ := run
  · cases hopen
  refine ⟨b, rfl, (bond_remembered_iff hrun (Except.ok.inj hopen) ?_ oneBond ?_).mpr ?_⟩
  · rw [hever]; decide
  · rw [hever]; decide
  · rw [hhere]; decide

/-- The link times out, and the peer is connected to again. -/
def reconnect : List BleOp := reachPeer ++ [.connTick ⟨700000, [], 0⟩] ++ bondPeer

/-- In the second connection the bond is not found, and encryption is refused. -/
theorem bond_lost_on_reconnect :
    ∃ b, (history Hw.standIn reconnect).2 = .ok b ∧
      savedEver (history Hw.standIn reconnect).1 = [oneBond] ∧ b.conn.isSome ∧
      b.gapBondFind oneBond.addr = none ∧
      (b.gapEncrypt.res.map Prod.fst) = .ok (.error .notRunning) ∧ ¬ b.Remembers oneBond := by
  have hever : savedEver (history Hw.standIn reconnect).1 = [oneBond] := by decide +kernel
  have hend : ((history Hw.standIn reconnect).2.map fun b =>
      (b.conn.isSome, b.gapBondFind oneBond.addr, b.gapEncrypt.res.map Prod.fst)) =
      .ok (true, none, .ok (.error .notRunning)) := by decide +kernel
  generalize history Hw.standIn reconnect = run at hever hend ⊢
  obtain ⟨moves, _ | b⟩ := run
  · cases hend
  obtain ⟨hopen, hfind, henc⟩ : b.conn.isSome = true ∧ b.gapBondFind oneBond.addr = none ∧
      b.gapEncrypt.res.map Prod.fst = .ok (.error .notRunning) := by
    simpa using Except.ok.inj hend
  refine ⟨b, rfl, hever, hopen, hfind, henc, ?_⟩
  rintro ⟨hfound, _⟩
  rw [hfind] at hfound
  cases hfound

end NrfBle
