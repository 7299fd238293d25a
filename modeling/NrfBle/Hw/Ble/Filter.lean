/-
  The accept list of a scan (`src/hw/ble.rs`: `handle_scan_pdu`; `src/ll/accept_list.rs`).

  An entry of the list is an address AND its type, and the TxAdd bit of a packet says whether its
  address is public or random.  `handle_scan_pdu` asks the list in one of its two branches, with the type
  that the two top bits of the address would give a random one:

  * an `ADV_IND` or `ADV_SCAN_IND` of a public address is looked up as a random one;
  * an `ADV_EXT_IND` is not looked up at all;
  * an advertiser that is still the target of an earlier `gap_connect` is asked to connect instead.

  `filterExact_iff` says for each PDU when the report is nevertheless the right one.
-/
import Mathlib.Tactic
import NrfBle.Hw.Ble.Auxiliary

namespace NrfBle

open Checked

/-- A `ScanReport`. -/
def BleAct.isScanReport : BleAct → Bool
  | .push (.scanReport ..) => true
  | _ => false

namespace Ble

/-! ## Reported and listed -/

/-- `handle_scan_pdu` pushes a report. -/
def reports (b : Ble) (env : ScanEnv) : Bool := (b.handleScanPdu env).log.any BleAct.isScanReport

/-- The type of the advertiser whose packet is in the receive buffer: public unless TxAdd is set. -/
def advertiserType (b : Ble) (addr : Buf 6) : AddrType :=
  if (b.rxBuf.bytes.getD 0 0 &&& 0x80) != 0 then addrTypeOf addr else .«public»

/-- The advertiser is in the list, as what it is. -/
def listed (b : Ble) (addr : Buf 6) : Bool := b.acceptList.contains addr (b.advertiserType addr)

/-- The report is there iff the advertiser is in the list. -/
def FilterExact (b : Ble) (env : ScanEnv) (addr : Buf 6) : Prop :=
  b.reports env = true ↔ b.listed addr = true

instance instDecidableFilterExact (b : Ble) (env : ScanEnv) (addr : Buf 6) :
    Decidable (b.FilterExact env addr) := inferInstanceAs (Decidable (_ ↔ _))

/-- What was received: an advertisement as such, or one whose auxiliary packet was found. -/
inductive Heard (b : Ble) (env : ScanEnv) : Buf 6 → Bool → Prop
  | advInd {addr : Buf 6} {data : List UInt8}
      (pdu : b.decodeRx b.rxPduLen = .ok (some (.advInd addr data))) : Heard b env addr false
  | advScanInd {addr : Buf 6} {data : List UInt8}
      (pdu : b.decodeRx b.rxPduLen = .ok (some (.advScanInd addr data))) : Heard b env addr false
  | advExtInd {addr auxAddr : Buf 6} {mode : UInt8} {adi : Buf 2} {ptr : AuxPtr} {data : List UInt8}
      (pdu : b.decodeRx b.rxPduLen = .ok (some (.advExtInd addr mode adi ptr)))
      (channel : ptr.channel.toNat < 40) (found : env.auxAir.auxFound = some (auxAddr, data)) :
      Heard b env addr true

/-! ## What the branches do -/

/-- A request to connect is no report. -/
theorem sendConnectReq_any {b : Ble} {target : Buf 6} (h : b.connectTarget = some target)
    (now : UInt32) : (b.sendConnectReq now).log.any BleAct.isScanReport = false := by
  obtain ⟨txBuf, conn, _, hsend⟩ := sendConnectReq_eq h now
  rw [hsend]
  rfl

/-- The branch that asks the list. -/
theorem handleScannable_any {b : Ble} (hpolicy : b.scanParams.filterPolicy = .acceptList)
    (addr : Buf 6) (advType : UInt8) (data : List UInt8) (env : ScanEnv) :
    (b.handleScannable addr advType data env).log.any BleAct.isScanReport =
      (!decide (b.connectTarget = some addr) && b.acceptList.contains addr (addrTypeOf addr)) := by
  unfold handleScannable
  by_cases htarget : b.connectTarget = some addr
  · rw [if_pos htarget, sendConnectReq_any htarget, decide_eq_true htarget]
    rfl
  · rw [if_neg htarget, decide_eq_false htarget, hpolicy]
    cases b.acceptList.contains addr (addrTypeOf addr) <;> rfl

/-- The branch that does not. -/
theorem advExtInd_any {b : Ble} {env : ScanEnv} {addr auxAddr : Buf 6} {mode : UInt8} {adi : Buf 2}
    {ptr : AuxPtr} {data : List UInt8}
    (hpdu : b.decodeRx b.rxPduLen = .ok (some (.advExtInd addr mode adi ptr)))
    (hchannel : ptr.channel.toNat < 40) (hfound : env.auxAir.auxFound = some (auxAddr, data)) :
    b.reports env = true := by
  obtain ⟨log, b', hfollow⟩ := b.followAux_found hchannel env
  unfold reports handleScanPdu
  rw [hpdu, Logged.lift_ok_bind]
  dsimp only
  rw [hfollow, hfound, Logged.mk_ok_bind]
  show (log ++ [_]).any BleAct.isScanReport = true
  rw [List.any_append]
  exact Bool.or_true _

/-- **When the filter is exact.**  With an accept list in force, the report of an advertisement whose
    auxiliary packet is followed is right iff the advertiser is in the list; that of any other is right
    iff the list has the address both or neither as what it is and as what its top bits say of a random
    one — or, of the target of a `gap_connect`, iff the list does not have it. -/
theorem filterExact_iff {b : Ble} {env : ScanEnv} {addr : Buf 6} {extended : Bool}
    (hpolicy : b.scanParams.filterPolicy = .acceptList) (hheard : b.Heard env addr extended) :
    b.FilterExact env addr ↔
      if extended = true then b.listed addr = true
      else if b.connectTarget = some addr then b.listed addr = false
      else b.acceptList.contains addr (addrTypeOf addr) = b.listed addr := by
  have hscannable : (b.reports env =
      (!decide (b.connectTarget = some addr) && b.acceptList.contains addr (addrTypeOf addr))) →
      (b.FilterExact env addr ↔ if b.connectTarget = some addr then b.listed addr = false
        else b.acceptList.contains addr (addrTypeOf addr) = b.listed addr) := by
    intro h
    unfold FilterExact
    rw [h]
    by_cases htarget : b.connectTarget = some addr
    · rw [decide_eq_true htarget, if_pos htarget, Bool.not_true, Bool.false_and]
      cases b.listed addr <;> decide
    · rw [decide_eq_false htarget, if_neg htarget, Bool.not_false, Bool.true_and]
      exact Bool.eq_iff_iff.symm
  cases hheard with
  | advInd hpdu =>
    refine hscannable ?_
    unfold reports handleScanPdu
    rw [hpdu, Logged.lift_ok_bind]
    exact handleScannable_any hpolicy addr pduAdvInd _ env
  | advScanInd hpdu =>
    refine hscannable ?_
    unfold reports handleScanPdu
    rw [hpdu, Logged.lift_ok_bind]
    exact handleScannable_any hpolicy addr pduAdvScanInd _ env
  | advExtInd hpdu hchannel hfound =>
    unfold FilterExact
    rw [advExtInd_any hpdu hchannel hfound, if_pos rfl, eq_self, true_iff]

/-- A stack that scans with this list and has just received this PDU, with TxAdd clear. -/
def filtering (list : AcceptList) (pdu : AdvPdu) : Ble :=
  { Ble.new with
    scanState := .running, scanParams := { filterPolicy := .acceptList }, acceptList := list
    rxBuf := (Air.of pdu).buf, rxPduLen := (Air.of pdu).len }

/-- A list with one public address. -/
def publicList : AcceptList := (AcceptList.new.add otherAddr .«public»).2

/-- An `ADV_EXT_IND` that points to data channel 5. -/
def extAdvert : AdvPdu := .advExtInd otherAddr 0 ⟨[0, 0], rfl⟩ ⟨5, 0, 0⟩

/-- The listed advertiser is reported when it advertises with an auxiliary packet. -/
theorem filterExact_listed_ext : FilterExact (filtering publicList extAdvert)
    (auxEnv (.auxAdvExtInd otherAddr ⟨[0, 0], rfl⟩ 0 [])) otherAddr := by
  have hpdu : (filtering publicList extAdvert).decodeRx (filtering publicList extAdvert).rxPduLen =
      .ok (some extAdvert) := by decide +kernel
  have hfound : (auxEnv (.auxAdvExtInd otherAddr ⟨[0, 0], rfl⟩ 0 [])).auxAir.auxFound =
      some (otherAddr, []) := by decide +kernel
  exact (filterExact_iff rfl (.advExtInd hpdu (by decide) hfound)).mpr (by decide +kernel)

/-- It is not when it advertises without; and with nothing in the list anyone is reported who
    advertises with one. -/
theorem filter_departs :
    ¬ FilterExact (filtering publicList (.advInd otherAddr [])) (auxEnv (.advInd otherAddr []))
      otherAddr ∧
    ¬ FilterExact (filtering AcceptList.new extAdvert)
      (auxEnv (.auxAdvExtInd otherAddr ⟨[0, 0], rfl⟩ 0 [])) otherAddr := by
  decide +kernel

end Ble

end NrfBle
