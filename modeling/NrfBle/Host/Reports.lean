/-
  How an advertisement reaches the host (`src/hw/ble.rs`: `handle_scan_pdu`, `push_event`; `src/hci.rs`:
  `Hci::tick`; `src/ll/addr.rs`: `BtAddr::parse`).

  A packet is received, decoded and reported to the application as a `ScanReport`, and `tick` writes an
  LE Advertising Report of it.  Three things are lost on the way:

  * an `ADV_NONCONN_IND` is not reported at all;
  * the type of the address is guessed from its two top bits, among the random ones: the TxAdd bit of
    the packet is not looked at, and the report never says "public";
  * `tick` cuts the data to 27 bytes, though a packet has up to 31.

  What is left comes through unchanged (`reachesHost_iff`).
-/
import Mathlib.Data.List.GetD
import Mathlib.Tactic
import NrfBle.Host.Hci

namespace NrfBle

open Checked

/-! ## Reports in a log -/

/-- A `ScanReport` of the type `advType`. -/
def BleAct.report (advType : UInt8) : BleAct → Option BleEvent
  | .push (.scanReport addr addrType type rssi data dataLen) =>
    if type = advType then some (.scanReport addr addrType type rssi data dataLen) else none
  | _ => none

/-- The `ScanReport`s of one type among the actions, in order. -/
def reportsOf (advType : UInt8) (log : List BleAct) : List BleEvent :=
  log.filterMap (BleAct.report advType)

/-- The TxAdd bit of the packet in a window, where `AdvHdr::decode` has it. -/
def Air.txAdd (air : Air) : Bool := (air.buf.bytes.getD 0 0 &&& 0x80) != 0

/-- The address and the data of an undirected advertisement. -/
def AdvPdu.advertisement : AdvPdu → Option (Buf 6 × List UInt8)
  | .advInd addr data => some (addr, data)
  | .advScanInd addr data => some (addr, data)
  | .advNonconnInd addr data => some (addr, data)
  | _ => none

namespace Ble

/-! ## Who else reports -/

section Silent

open Logged

variable (advType : UInt8)

theorem setChannel_silent (channel : UInt8) : Silent (BleAct.report advType) (setChannel channel) := by
  unfold setChannel
  split
  · exact .pure _
  · exact (Silent.emit rfl).bind (fun _ => .pure _)

theorem push_silent {advType : UInt8} (b : Ble) {evt : BleEvent}
    (h : (BleAct.push evt).report advType = none) : Silent (BleAct.report advType) (b.push evt) :=
  (Silent.emit h).bind (fun _ => .pure _)

theorem transmit_silent (b : Ble) (len : Nat) : Silent (BleAct.report advType) (b.transmit len) :=
  (Silent.lift _).bind (fun _ => .emit rfl)

/-- A periodic train is no advertisement. -/
theorem periodicTick_silent (b : Ble) (env : ScanEnv) :
    Silent (BleAct.report advType) (b.periodicTick env) := by
  unfold periodicTick
  split
  · exact .pure _
  · split
    · exact .pure _
    · refine (Silent.lift _).bind ?_
      rintro ⟨ticks, sync⟩
      refine (setChannel_silent advType sync.channel).bind (fun _ => (Silent.lift _).bind ?_)
      rintro ⟨got, b'⟩
      dsimp only
      split
      · exact b'.push_silent rfl
      · exact .pure _

/-- The report of a scan response has a type of its own. -/
theorem respondScanReq_silent {advType : UInt8} (h : pduScanRsp ≠ advType) (b : Ble) (env : ScanEnv) :
    Silent (BleAct.report advType) (b.respondScanReq env) := by
  have hlisten : ∀ b : Ble, Silent (BleAct.report advType) (b.listenForScanRsp env.rspAir) := by
    intro b
    refine (Silent.lift _).bind ?_
    rintro ⟨got, b'⟩
    dsimp only
    split
    · exact b'.push_silent (if_neg h)
    · exact .pure _
  refine (Silent.lift _).bind ?_
  intro bytes
  split
  · exact .pure _
  · refine (Silent.lift _).bind ?_
    rintro ⟨answer, b'⟩
    dsimp only
    split
    · exact .pure _
    · exact (b'.transmit_silent advType _).bind (fun _ => hlisten b')

end Silent

/-! ## What a scan reports -/

/-- An advertisement that no filter and no target is in the way of. -/
theorem handleScannable_reports {b : Ble} (hpolicy : b.scanParams.filterPolicy = .acceptAll)
    (htarget : b.connectTarget = none) (addr : Buf 6) {advType : UInt8} (htype : pduScanRsp ≠ advType)
    (data : List UInt8) (env : ScanEnv) :
    reportsOf advType (b.handleScannable addr advType data env).log =
      [scanReport addr advType env.air.rssi data] := by
  unfold handleScannable
  rw [if_neg (by rw [htarget]; intro h; cases h), if_neg (by rw [hpolicy]; exact Bool.noConfusion)]
  have hself : (BleAct.push (scanReport addr advType env.air.rssi data)).report advType =
      some (scanReport addr advType env.air.rssi data) := if_pos rfl
  have hrest : ∀ b' : Ble, Logged.Silent (BleAct.report advType)
      (if b.scanParams.active then b'.respondScanReq env else return b') := by
    intro b'
    split
    · exact respondScanReq_silent htype b' env
    · exact .pure _
  show (BleAct.push (scanReport addr advType env.air.rssi data) :: _).filterMap _ = _
  rw [List.filterMap_cons_some hself]
  exact congrArg _ (hrest _)

/-- **What a scan reports of an advertisement**: itself, unless it is an `ADV_NONCONN_IND`. -/
theorem scanTick_reports {b : Ble} (hb : b.Bounds) (hrun : b.scanState = .running)
    (hidx : b.scanChannelIdx < 3) (hpolicy : b.scanParams.filterPolicy = .acceptAll)
    (htarget : b.connectTarget = none) {env : ScanEnv} {pdu : AdvPdu} (hpdu : env.air.pdu = some pdu)
    {addr : Buf 6} {data : List UInt8} (hadv : pdu.advertisement = some (addr, data)) :
    reportsOf pdu.pduType (b.scanTick env).log =
      if pdu.pduType = pduAdvNonconnInd then [] else [scanReport addr pdu.pduType env.air.rssi data] := by
  obtain ⟨log, b₁, hper, hback⟩ := periodicTick_quietly hb.sync env
  have hframe : b₁ = _ := hback.frame
  have hlog : reportsOf pdu.pduType log = [] := by
    have hsilent := b.periodicTick_silent pdu.pduType env
    rw [hper] at hsilent
    exact hsilent
  have hstate : b₁.scanState = .running := by rw [hframe]; exact hrun
  have hidx₁ : b₁.scanChannelIdx < 3 := by rw [hframe]; exact hidx
  obtain ⟨bytes, hrx⟩ := Option.isSome_iff_exists.mp (Air.pdu_type hpdu).1
  obtain ⟨start, channel, b₂, hb₂, hlisten⟩ := scanListen_eq hidx₁ env
  rw [hframe] at hb₂
  have hstep : b.scanTick env =
      (({ b₂ with rxPduLen := env.air.len } : Ble).handleScanPdu env).prepend
        (log ++ [.setChannel channel]) := by
    unfold scanTick
    rw [if_neg (by rw [hrun]; decide), hper, Logged.mk_ok_bind]
    unfold scanStep
    rw [if_neg (by rw [hstate]; decide), if_neg (Nat.not_le.mpr hidx₁), hlisten, hrx]
    exact congrArg (Logged.mk · _) (List.append_assoc _ _ _).symm
  generalize hb₃ : ({ b₂ with rxPduLen := env.air.len } : Ble) = b₃ at hstep
  rw [hb₂] at hb₃
  have hbuf : b₃.rxBuf = env.air.buf := by rw [← hb₃]
  have hlen : b₃.rxPduLen = env.air.len := by rw [← hb₃]
  have hpolicy₃ : b₃.scanParams.filterPolicy = .acceptAll := by rw [← hb₃]; exact hpolicy
  have htarget₃ : b₃.connectTarget = none := by rw [← hb₃]; exact htarget
  have hfront : reportsOf pdu.pduType (log ++ [.setChannel channel]) = [] := by
    unfold reportsOf at hlog ⊢
    rw [List.filterMap_append, hlog]
    rfl
  rw [hstep]
  show (List.filterMap _ (_ ++ _)) = _
  rw [List.filterMap_append, show List.filterMap _ (log ++ _) = [] from hfront, List.nil_append]
  unfold handleScanPdu
  rw [hlen, decodeRx_eq env.air hbuf hrx, Logged.lift_ok_bind, hpdu]
  cases pdu with
  | advInd a d =>
    cases hadv
    exact handleScannable_reports hpolicy₃ htarget₃ addr (by decide : pduScanRsp ≠ pduAdvInd) data env
  | advScanInd a d =>
    cases hadv
    exact handleScannable_reports hpolicy₃ htarget₃ addr (by decide : pduScanRsp ≠ pduAdvScanInd) data env
  | advNonconnInd a d => rfl
  | _ => cases hadv

end Ble

/-! ## The report the host reads -/

/-- What a host reads in an LE Advertising Report. -/
structure AdvReport where
  advType : UInt8
  addrType : UInt8
  addr : List UInt8
  data : List UInt8
  rssi : UInt8
  deriving DecidableEq

/-- Read a packet as an LE Advertising Report of one advertisement. -/
def HciPacket.advReport (packet : HciPacket) : Option AdvReport :=
  if packet.packetType ≠ hciEvent then none
  else
    match packet.body with
    | code :: _ :: subevent :: reports :: advType :: addrType :: rest =>
      let len := (rest.getD 6 0).toNat
      if code = hciEvtLeMeta ∧ subevent = hciLeAdvertisingReport ∧ reports = 1 ∧ rest.length = len + 8 then
        some ⟨advType, addrType, rest.take 6, (rest.drop 7).take len, rest.getD (len + 7) 0⟩
      else none
    | _ => none

/-- The bytes of an LE Advertising Report are read back. -/
theorem HciPacket.advReport_event {packet : HciPacket} {advType addrType rssi : UInt8} (addr : Buf 6)
    {data : List UInt8} (hlen : data.length ≤ 31)
    (h : HciPacket.event hciEvtLeMeta ([hciLeAdvertisingReport, 1, advType, addrType] ++ addr.bytes ++
      [UInt8.ofNat data.length] ++ data ++ [rssi]) = .ok packet) :
    packet.advReport = some ⟨advType, addrType, addr.bytes, data, rssi⟩ := by
  obtain ⟨htype, _, hbody⟩ := HciPacket.event_body h
  have hlast : addr.bytes ++ [UInt8.ofNat data.length] ++ data ++ [rssi] =
      addr.bytes ++ (UInt8.ofNat data.length :: (data ++ [rssi])) := by simp
  have hcount : (addr.bytes ++ (UInt8.ofNat data.length :: (data ++ [rssi]))).getD 6 0 =
      UInt8.ofNat data.length := by
    rw [List.getD_append_right _ _ _ _ (by rw [addr.size]), addr.size]
    rfl
  have htoNat : (UInt8.ofNat data.length).toNat = data.length := HciPacket.toNat_ofNat_of_lt (by omega)
  have hdata : ((addr.bytes ++ (UInt8.ofNat data.length :: (data ++ [rssi]))).drop 7).take data.length =
      data := by
    rw [show 7 = addr.bytes.length + 1 by rw [addr.size], List.drop_length_add_append]
    exact List.take_left
  have hrssi : (addr.bytes ++ (UInt8.ofNat data.length :: (data ++ [rssi]))).getD (data.length + 7) 0 =
      rssi := by
    rw [List.getD_append_right _ _ _ _ (by rw [addr.size]; omega), addr.size,
      show data.length + 7 - 6 = data.length + 1 by omega, List.getD_cons_succ,
      List.getD_append_right _ _ _ _ (Nat.le_refl _), Nat.sub_self]
    rfl
  have hrest : (addr.bytes ++ (UInt8.ofNat data.length :: (data ++ [rssi]))).length = data.length + 8 := by
    simp only [List.length_append, List.length_cons, List.length_nil, addr.size]
    omega
  have haddr : (addr.bytes ++ (UInt8.ofNat data.length :: (data ++ [rssi]))).take 6 = addr.bytes := by
    rw [List.take_append_of_le_length (by rw [addr.size]), List.take_of_length_le (by rw [addr.size])]
  unfold HciPacket.advReport
  rw [if_neg (by rw [htype]; decide), hbody]
  dsimp only [List.cons_append, List.nil_append]
  rw [hlast, hcount, htoNat, if_pos ⟨rfl, rfl, rfl, hrest⟩, haddr, hdata, hrssi]

namespace Hci

/-- No address is guessed to be public. -/
theorem isRandom_addrTypeOf (addr : Buf 6) : (addrTypeOf addr).isRandom = true := by
  unfold addrTypeOf
  dsimp only
  split
  · rfl
  · split <;> rfl

/-- What `tick` makes of a report: the type of the address as it was guessed, and 27 bytes of the
    data. -/
theorem advertisingReport_eq (h : Hci) (addr : Buf 6) (addrType : AddrType) (advType : UInt8) (rssi : Int8)
    (data : List UInt8) :
    ∃ packet, h.advertisingReport addr addrType advType rssi (Ble.reportData data)
        (min data.length 31) =
        ⟨[.event packet], .ok { h with events := pushEvent h.events packet }⟩ ∧
      packet.advReport = some ⟨advType, if addrType.isRandom then 0x01 else 0x00, addr.bytes,
        data.take 27, rssi.toUInt8⟩ := by
  have hn : min (min data.length 31) 27 = (data.take 27).length := by
    rw [List.length_take]
    omega
  have hcut : (Ble.reportData data).upto (data.take 27).length = .ok (data.take 27) := by
    have hle : (data.take 27).length ≤ (data.take 31).length := by
      rw [List.length_take, List.length_take]
      omega
    have hbytes : ((Ble.reportData data).bytes).take (data.take 27).length =
        (data.take 31).take (data.take 27).length := List.take_append_of_le_length hle
    have hsame : data.take (min (min data.length 31) 27) = data.take 27 :=
      List.take_eq_take_iff.mpr (by omega)
    rw [(Ble.reportData data).upto_of_le (by rw [← hn]; omega), hbytes, List.take_take, ← hn,
      Nat.min_eq_left (by omega), hsame]
  generalize data.take 27 = cut at hn hcut
  have hlen : cut.length ≤ 27 := by omega
  generalize hflag : (if addrType.isRandom then (0x01 : UInt8) else 0x00) = flag
  generalize hfront : (((Buf.zero 260).set 0 hciLeAdvertisingReport).set 1 1).set 2 advType = front
  have htake : (front.set 3 flag).bytes.take 4 = [hciLeAdvertisingReport, 1, advType, flag] := by
    rw [← hfront]
    rfl
  obtain ⟨p₁, hw₁, _⟩ := (front.set 3 flag).write_of_le
    (show 4 + addr.bytes.length ≤ 260 by rw [addr.size]; decide)
  obtain ⟨p₂, hw₂, _⟩ := (p₁.set 10 (UInt8.ofNat cut.length)).write_of_le
    (show 11 + cut.length ≤ 260 by omega)
  have htake₁ : p₁.bytes.take 10 = [hciLeAdvertisingReport, 1, advType, flag] ++ addr.bytes := by
    have h10 := Buf.take_of_write hw₁
    rwa [addr.size, htake] at h10
  have htake₂ := Buf.take_of_write hw₂
  rw [p₁.take_succ_set (by decide), htake₁] at htake₂
  have hbody := p₂.take_succ_set (show 11 + cut.length < 260 by omega) rssi.toUInt8
  rw [htake₂] at hbody
  obtain ⟨packet, hpacket, hpush⟩ := h.push_eq hciEvtLeMeta
    (show ([hciLeAdvertisingReport, 1, advType, flag] ++ addr.bytes ++ [UInt8.ofNat cut.length] ++ cut ++
      [rssi.toUInt8]).length ≤ 258 by
        simp only [List.length_append, List.length_cons, List.length_nil, addr.size]
        omega)
  refine ⟨packet, ?_, HciPacket.advReport_event addr (by omega) hpacket⟩
  unfold advertisingReport
  rw [hn, hflag]
  dsimp only
  rw [hfront, hw₁, Logged.lift_ok_bind, hcut, Logged.lift_ok_bind, hw₂, Logged.lift_ok_bind,
    p₂.store_of_lt (by omega), Logged.lift_ok_bind, Buf.upto_of_le _ (by omega), hbody,
    Logged.lift_ok_bind, hpush]

/-- `tick` makes one LE Advertising Report of an event, a good one, before it goes on. -/
def Tells (evt : BleEvent) (Good : AdvReport → Prop) : Prop :=
  ∀ (h : Hci) (b b' : Ble), b.popEvent = (some evt, b') →
    ∃ packet report, h.tick b =
        (({ h with events := pushEvent h.events packet } : Hci).tick b').prepend [.event packet] ∧
      packet.advReport = some report ∧ Good report

/-- **What `tick` tells of a report** is decided by the report. -/
theorem tells_iff (addr : Buf 6) (advType : UInt8) (rssi : Int8) (data : List UInt8)
    (Good : AdvReport → Prop) :
    Tells (Ble.scanReport addr advType rssi data) Good ↔
      Good ⟨advType, 1, addr.bytes, data.take 27, rssi.toUInt8⟩ := by
  have htick : ∀ (h : Hci) (b b' : Ble), b.popEvent = (some (Ble.scanReport addr advType rssi data), b') →
      ∃ packet, h.tick b =
          (({ h with events := pushEvent h.events packet } : Hci).tick b').prepend [.event packet] ∧
        packet.advReport = some ⟨advType, 1, addr.bytes, data.take 27, rssi.toUInt8⟩ := by
    intro h b b' hpop
    obtain ⟨packet, hrun, hreport⟩ := h.advertisingReport_eq addr (addrTypeOf addr) advType rssi data
    rw [isRandom_addrTypeOf, if_pos rfl] at hreport
    refine ⟨packet, ?_, hreport⟩
    rw [h.tick_eq, hpop]
    show h.advertisingReport _ _ _ _ _ _ >>= _ = _
    rw [hrun, Logged.mk_ok_bind]
  constructor
  · intro htells
    obtain ⟨packet, report, hrun, hreport, hgood⟩ := htells .new
      { Ble.new with events := Ble.pushEvent Ble.Events.new (Ble.scanReport addr advType rssi data) } _ rfl
    obtain ⟨packet', hrun', hreport'⟩ := htick .new
      { Ble.new with events := Ble.pushEvent Ble.Events.new (Ble.scanReport addr advType rssi data) } _ rfl
    have hlog := congrArg Logged.log (hrun.symm.trans hrun')
    obtain rfl : packet = packet' := HciAct.event.inj (List.cons.inj hlog).1
    cases hreport.symm.trans hreport'
    exact hgood
  · intro hgood h b b' hpop
    obtain ⟨packet, hrun, hreport⟩ := htick h b b' hpop
    exact ⟨packet, _, hrun, hreport, hgood⟩

end Hci

/-! ## From the packet to the host -/

/-- A packet of the type `advType` with this address and this data, received in a window, reaches the
    host: the tick of the scan pushes one report of the type, and `tick` tells the host the address, what
    its TxAdd bit says of it, and the data. -/
def ReachesHost (b : Ble) (env : ScanEnv) (advType : UInt8) (addr : Buf 6) (data : List UInt8) : Prop :=
  ∃ log b' evt, b.scanTick env = ⟨log, .ok b'⟩ ∧ reportsOf advType log = [evt] ∧
    Hci.Tells evt (fun report => report.addr = addr.bytes ∧
      report.addrType = (if env.air.txAdd then 1 else 0) ∧ report.data = data)

section ReachesHost

variable {b : Ble} (hb : b.Bounds) (hrun : b.scanState = .running) (hidx : b.scanChannelIdx < 3)
  (hpolicy : b.scanParams.filterPolicy = .acceptAll) (htarget : b.connectTarget = none) {env : ScanEnv}
  {pdu : AdvPdu} (hpdu : env.air.pdu = some pdu) {addr : Buf 6} {data : List UInt8}
  (hadv : pdu.advertisement = some (addr, data))

include hb hrun hidx hpolicy htarget hpdu hadv

/-- No `ADV_NONCONN_IND` does. -/
theorem not_reachesHost (htype : pdu.pduType = pduAdvNonconnInd) :
    ¬ ReachesHost b env pdu.pduType addr data := by
  rintro ⟨log, b', evt, htick, hreports, _⟩
  have hnone := Ble.scanTick_reports hb hrun hidx hpolicy htarget hpdu hadv
  rw [htick, if_pos htype] at hnone
  cases hreports.symm.trans hnone

/-- Any other does when its address is random and its data short. -/
theorem reachesHost_of_type (htype : pdu.pduType ≠ pduAdvNonconnInd) :
    ReachesHost b env pdu.pduType addr data ↔ env.air.txAdd = true ∧ data.length ≤ 27 := by
  have hone := Ble.scanTick_reports hb hrun hidx hpolicy htarget hpdu hadv
  rw [if_neg htype] at hone
  obtain ⟨log, b', htick, _⟩ := Ble.scanTick_effect hb env
  rw [htick] at hone
  have hgood : Hci.Tells (Ble.scanReport addr pdu.pduType env.air.rssi data) (fun report =>
      report.addr = addr.bytes ∧ report.addrType = (if env.air.txAdd then 1 else 0) ∧
        report.data = data) ↔ env.air.txAdd = true ∧ data.length ≤ 27 := by
    rw [Hci.tells_iff]
    constructor
    · rintro ⟨_, hflag, hdata⟩
      refine ⟨?_, (List.take_eq_self_iff _).mp hdata⟩
      by_contra hpublic
      rw [if_neg hpublic] at hflag
      cases hflag
    · rintro ⟨hrandom, hlen⟩
      exact ⟨rfl, (if_pos hrandom).symm, List.take_of_length_le hlen⟩
  rw [← hgood]
  constructor
  · rintro ⟨log', b'', evt, htick', hreports, htells⟩
    cases htick.symm.trans htick'
    cases hreports.symm.trans hone
    exact htells
  · intro htells
    exact ⟨log, b', _, htick, hone, htells⟩

end ReachesHost

/-- **An advertisement reaches the host unchanged** iff it is an `ADV_IND` or `ADV_SCAN_IND`, from a
    random address, with at most 27 bytes of data. -/
theorem reachesHost_iff {b : Ble} (hb : b.Bounds) (hrun : b.scanState = .running)
    (hidx : b.scanChannelIdx < 3) (hpolicy : b.scanParams.filterPolicy = .acceptAll)
    (htarget : b.connectTarget = none) {env : ScanEnv} {pdu : AdvPdu} (hpdu : env.air.pdu = some pdu)
    {addr : Buf 6} {data : List UInt8} (hadv : pdu.advertisement = some (addr, data)) :
    ReachesHost b env pdu.pduType addr data ↔
      pdu.pduType ≠ pduAdvNonconnInd ∧ env.air.txAdd = true ∧ data.length ≤ 27 := by
  by_cases htype : pdu.pduType = pduAdvNonconnInd
  · exact iff_of_false (not_reachesHost hb hrun hidx hpolicy htarget hpdu hadv htype)
      (fun h => h.1 htype)
  · rw [reachesHost_of_type hb hrun hidx hpolicy htarget hpdu hadv htype, and_iff_right htype]

/-- A stack that scans. -/
def scanning : Ble := { Ble.new with scanState := .running }

theorem bounds_scanning : scanning.Bounds := { Ble.bounds_new with }

/-- A tick with nothing on the air but this. -/
def ScanEnv.of (air : Air) : ScanEnv := ⟨0, .silent, 0, 0, air, 0, 0, .silent, 0, .silent⟩

/-- A window with an `ADV_IND` from the random address zero: TxAdd is set, and the data is 2, 1, 6. -/
def randomAdvert : Air :=
  ⟨.packet, (((((Buf.zero rxPduMax).set 0 0x80).set 1 18).set 8 2).set 9 1).set 10 6, 0⟩

/-- It reaches the host. -/
theorem reachesHost_random : ReachesHost scanning (.of randomAdvert) pduAdvInd (Buf.zero 6) [2, 1, 6] := by
  have hpdu : (ScanEnv.of randomAdvert).air.pdu = some (.advInd (Buf.zero 6) [2, 1, 6]) := by
    decide +kernel
  exact (reachesHost_iff bounds_scanning rfl (by decide) rfl rfl hpdu rfl).mpr
    ⟨(by decide : pduAdvInd ≠ pduAdvNonconnInd),
      (by decide +kernel : (ScanEnv.of randomAdvert).air.txAdd = true), (by decide : [2, 1, 6].length ≤ 27)⟩

/-- One from a public address does not, and an `ADV_NONCONN_IND` does not. -/
theorem reachesHost_fails :
    ¬ ReachesHost scanning (.of (.of (.advInd otherAddr [2, 1, 6]))) pduAdvInd otherAddr [2, 1, 6] ∧
      ¬ ReachesHost scanning (.of (.of (.advNonconnInd otherAddr [2, 1, 6]))) pduAdvNonconnInd
        otherAddr [2, 1, 6] := by
  have hind : (ScanEnv.of (.of (.advInd otherAddr [2, 1, 6]))).air.pdu =
      some (.advInd otherAddr [2, 1, 6]) := by decide +kernel
  have hnonconn : (ScanEnv.of (.of (.advNonconnInd otherAddr [2, 1, 6]))).air.pdu =
      some (.advNonconnInd otherAddr [2, 1, 6]) := by decide +kernel
  have hpublic : (ScanEnv.of (.of (.advInd otherAddr [2, 1, 6]))).air.txAdd = false := by decide +kernel
  constructor
  · intro hreaches
    have hrandom := ((reachesHost_of_type bounds_scanning rfl (by decide) rfl rfl hind rfl
      (by decide : pduAdvInd ≠ pduAdvNonconnInd)).mp hreaches).1
    rw [hpublic] at hrandom
    cases hrandom
  · exact not_reachesHost bounds_scanning rfl (by decide) rfl rfl hnonconn rfl rfl

end NrfBle
