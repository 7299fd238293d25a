/-
  What an application advertises reaches the application of a scanner.

  The AD structures go a long way: `ad::build` packs them, `gap_adv_set_configure` copies them into the
  record, an advertising event encodes them behind the address, the radio appends the CRC and whitens;
  and all that backwards at the other end, up to `ad::iter` over the data of a report.  The test of the
  virtual radio does it for one buffer; `advertised_entries_arrive` says it of every list of entries,
  whatever else was done with the stack in between.

  The parts are known: the format (`build_ok_iff`, `iterates_iff`), the record (`run_dataKept`), the
  radio (`Sim.loopback_eq`) and the meeting (`Heard.reports`).
-/
import Mathlib.Tactic
import NrfBle.Gap.Ad
import NrfBle.Sim
import NrfBle.Hw.Ble.Meeting

namespace NrfBle

open Checked

/-! ## The radio -/

/-- What a virtual radio makes of a packet that another sent on its channel. -/
def overAir (channel : UInt8) (packet : List UInt8) : Option (List UInt8) :=
  match Sim.loopback packet channel with
  | .ok (.ok rx) => some (rx.pdu.bytes.take rx.len)
  | _ => none

theorem overAir_eq (channel : UInt8) {packet : List UInt8} (h : packet.length ≤ 257) :
    overAir channel packet = some packet := by
  obtain ⟨rx, hloop, hpdu⟩ := Sim.loopback_eq channel h
  unfold overAir
  rw [hloop]
  exact congrArg some hpdu

/-- The `n`-th packet of a channel, through the virtual radio. -/
def heardOn (channel : UInt8) (log : List BleAct) (n : Nat) : Option (List UInt8) :=
  (packetsOn channel log)[n]?.bind (overAir channel)

/-- Short packets go through. -/
theorem heardOn_eq {channel : UInt8} {log : List BleAct}
    (h : ∀ packet ∈ packetsOn channel log, packet.length ≤ 257) (n : Nat) :
    heardOn channel log n = (packetsOn channel log)[n]? := by
  unfold heardOn
  cases hn : (packetsOn channel log)[n]? with
  | none => rfl
  | some packet => exact overAir_eq channel (h packet (List.mem_of_getElem? hn))

/-- An advertising event and the listen of a scan over virtual radios: each window brings what the radio
    of its channel makes of the other end's packet. -/
structure RadioMeet (adv scan : Ble) (advEnv : AdvEnv) (scanEnv : ScanEnv)
    (advLog scanLog : List BleAct) (adv' scan' : Ble) : Prop where
  advTick : adv.advTick advEnv = ⟨advLog, .ok adv'⟩
  scanTick : scan.scanTick scanEnv = ⟨scanLog, .ok scan'⟩
  primary : scanEnv.air.Hears (heardOn scan.scanChannel advLog 0)
  request : advEnv.air.Hears (heardOn adv.advChannel scanLog 0)
  response : scanEnv.rspAir.Hears (heardOn scan.scanChannel advLog 1)

/-! ### The packets are short -/

/-- No packet of the log is longer than the radio can send. -/
def Short (log : List BleAct) : Prop := ∀ packet, .transmit packet ∈ log → packet.length ≤ 257

theorem Short.nil : Short [] := fun _ h => by cases h

theorem Short.cons {a : BleAct} {log : List BleAct}
    (ha : ∀ packet, a = .transmit packet → packet.length ≤ 257) (h : Short log) : Short (a :: log) := by
  intro packet hmem
  cases hmem with
  | head => exact ha packet rfl
  | tail _ hmem => exact h packet hmem

theorem Short.push {evt : BleEvent} {log : List BleAct} (h : Short log) : Short (.push evt :: log) :=
  h.cons fun _ heq => by cases heq

theorem Short.send {pdu : AdvPdu} {txAdd rxAdd : Bool} {log : List BleAct}
    (hlen : pdu.payload.length ≤ 63) (h : Short log) :
    Short (.transmit (pdu.bytes txAdd rxAdd) :: log) := by
  refine h.cons fun packet heq => ?_
  cases heq
  rw [pdu.bytes_length]
  omega

/-- The packets of a log are those it transmits. -/
theorem mem_onAir {tuned ch : Option UInt8} {log : List BleAct} {packet : List UInt8}
    (h : (ch, packet) ∈ onAir tuned log) : .transmit packet ∈ log := by
  induction log generalizing tuned with
  | nil => cases h
  | cons a log ih =>
    cases a with
    | transmit sent =>
      cases h with
      | head => exact List.mem_cons_self
      | tail _ h => exact List.mem_cons_of_mem _ (ih h)
    | setChannel | push | conn => exact List.mem_cons_of_mem _ (ih h)

theorem Short.packetsOn {log : List BleAct} (h : Short log) (channel : UInt8) :
    ∀ packet ∈ packetsOn channel log, packet.length ≤ 257 := by
  intro packet hmem
  obtain ⟨⟨ch, sent⟩, hsent, heq⟩ := List.mem_filterMap.mp hmem
  dsimp only at heq
  split at heq
  · cases heq
    exact h _ (mem_onAir hsent)
  · cases heq

theorem short_scanRspLog {b : Ble} (hb : b.Bounds) (addr : Buf 6) : Short (b.scanRspLog addr) := by
  unfold Ble.scanRspLog
  split
  · refine .send ?_ .nil
    show (addr.bytes ++ b.scanRsp.bytes.take b.scanRspLen).length ≤ 63
    have h31 : b.scanRspLen ≤ 31 := hb.scanRspLen
    rw [List.length_append, addr.size, List.length_take]
    omega
  · exact .nil

theorem short_serveLog {b : Ble} (hb : b.Bounds) (air : Air) : Short (b.serveLog air) := by
  unfold Ble.serveLog
  split
  · exact .nil
  · split
    · exact short_scanRspLog hb _
    · exact .nil
  all_goals
    split
    · exact .push (.push .nil)
    · split
      · exact short_scanRspLog hb _
      · exact .nil

theorem short_heardLog (b : Ble) (env : ScanEnv) : Short (b.heardLog env) := by
  have hrsp : Short (Ble.scanRspReport env.rspAir) := by
    unfold Ble.scanRspReport
    split
    · exact .push .nil
    · exact .nil
  have hscannable : ∀ addr advType data, Short (b.scannableLog addr advType data env) := by
    intro addr advType data
    unfold Ble.scannableLog
    split
    · refine .send ?_ (.push .nil)
      show (b.ownAddr.bytes ++ addr.bytes ++ Ble.connectParams.bytes).length ≤ 63
      rw [List.length_append, List.length_append, b.ownAddr.size, addr.size]
      decide
    · unfold Ble.reportLog
      split
      · refine .push ?_
        split
        · refine .send ?_ hrsp
          show (b.ownAddr.bytes ++ addr.bytes).length ≤ 63
          rw [List.length_append, b.ownAddr.size, addr.size]
          decide
        · exact .nil
      · exact .nil
  unfold Ble.heardLog
  split
  · exact hscannable _ _ _
  · exact hscannable _ _ _
  · exact .nil

theorem short_advLog {b : Ble} (hb : b.Bounds) (air : Air) : Short (.setChannel b.advChannel ::
    .transmit (b.legacyPdu.bytes b.ownAddrType.isRandom false) :: b.serveLog air) :=
  (Short.send (Ble.legacyPdu_length hb) (short_serveLog hb air)).cons fun _ heq => by cases heq

theorem short_scanLog (b : Ble) (env : ScanEnv) : Short (.setChannel b.scanChannel :: b.heardLog env) :=
  (short_heardLog b env).cons fun _ heq => by cases heq

/-- **A meeting over the radio is a meeting**: CRC and whitening are undone at the other end. -/
theorem radioMeet_iff {adv scan : Ble} {advEnv : AdvEnv} {scanEnv : ScanEnv}
    {advLog scanLog : List BleAct} {adv' scan' : Ble} (hevent : AtEvent adv scan) :
    RadioMeet adv scan advEnv scanEnv advLog scanLog adv' scan' ↔
      Meet adv scan advEnv scanEnv advLog scanLog adv' scan' := by
  constructor
  · intro h
    obtain ⟨b₁, hadv, -⟩ := Ble.advTick_legacy hevent.advBounds hevent.advRunning hevent.legacy advEnv
    obtain rfl : advLog = _ := congrArg Logged.log (h.advTick.symm.trans hadv)
    have hprimary := h.primary
    have hresponse := h.response
    rw [heardOn_eq ((short_advLog hevent.advBounds _).packetsOn _)] at hprimary hresponse
    have hair : Primary adv scan scanEnv.air := by
      refine .of_hears hevent.advBounds ?_
      rw [packetsOn_adv] at hprimary
      split
      · rename_i hch
        rw [if_pos hch] at hprimary
        exact hprimary
      · rename_i hch
        rw [if_neg hch] at hprimary
        exact hprimary
    obtain ⟨b₂, hscan, -⟩ := Ble.scanTick_log hevent.scanRunning hevent.listening hevent.unsynced
      hair.sender hair.legacy
    obtain rfl : scanLog = _ := congrArg Logged.log (h.scanTick.symm.trans hscan)
    have hrequest := h.request
    rw [heardOn_eq ((short_scanLog scan scanEnv).packetsOn _)] at hrequest
    exact ⟨h.advTick, h.scanTick, hprimary, hrequest, hresponse⟩
  · intro h
    have hheard := h.heard hevent
    have hadv : ∀ n, heardOn scan.scanChannel advLog n = (packetsOn scan.scanChannel advLog)[n]? := by
      rw [hheard.advLog]
      exact heardOn_eq ((short_advLog hevent.advBounds _).packetsOn _)
    have hscan : ∀ n, heardOn adv.advChannel scanLog n = (packetsOn adv.advChannel scanLog)[n]? := by
      rw [hheard.scanLog]
      exact heardOn_eq ((short_scanLog scan scanEnv).packetsOn _)
    refine ⟨h.advTick, h.scanTick, ?_, ?_, ?_⟩
    · rw [hadv]
      exact h.primary
    · rw [hscan]
      exact h.request
    · rw [hadv]
      exact h.response

/-! ## The data -/

namespace Ble

/-- **Configuring**: the data in force is the data given. -/
theorem gapAdvSetConfigure_data (b : Ble) {advData scanRspData : List UInt8}
    (hadv : advData.length ≤ legacyAdDataMaxLen) (hrsp : scanRspData.length ≤ legacyAdDataMaxLen) :
    ∃ b', b.gapAdvSetConfigure advData scanRspData = ⟨[], .ok (.ok (), b')⟩ ∧
      b'.advDataBytes = advData ∧ b'.scanRspBytes = scanRspData := by
  obtain ⟨advBuf, hwa, -⟩ := b.advData.write_of_le
    (show 0 + advData.length ≤ legacyAdDataMaxLen by omega)
  obtain ⟨rspBuf, hwr, -⟩ := b.scanRsp.write_of_le
    (show 0 + scanRspData.length ≤ legacyAdDataMaxLen by omega)
  refine ⟨{ b with
    advData := advBuf, advDataLen := advData.length
    scanRsp := rspBuf, scanRspLen := scanRspData.length }, ?_,
    Sim.take_of_write_front rfl hwa, Sim.take_of_write_front rfl hwr⟩
  unfold gapAdvSetConfigure
  rw [if_neg (by omega), hwa, Logged.lift_ok_bind, hwr, Logged.lift_ok_bind]
  rfl

theorem DataKept.bytes {b b' : Ble} (h : b.DataKept b') :
    b'.advDataBytes = b.advDataBytes ∧ b'.scanRspBytes = b.scanRspBytes := by
  obtain ⟨hadv, hadvLen, hrsp, hrspLen⟩ := h
  unfold advDataBytes scanRspBytes
  rw [hadv, hadvLen, hrsp, hrspLen]
  exact ⟨rfl, rfl⟩

end Ble

/-- **The data stays** until it is configured again, whatever else is done. -/
theorem history_dataKept {hw : Hw} {later earlier : List BleOp} {b' : Ble}
    (hlater : ∀ op ∈ later, op.configures = false) (h : (history hw (later ++ earlier)).2 = .ok b') :
    ∃ b, (history hw earlier).2 = .ok b ∧ b'.advDataBytes = b.advDataBytes ∧
      b'.scanRspBytes = b.scanRspBytes := by
  induction later generalizing b' with
  | nil => exact ⟨b', h, rfl, rfl⟩
  | cons op later ih =>
    cases hbefore : (history hw (later ++ earlier)).2 with
    | error p =>
      have hstop : (history hw (op :: later ++ earlier)).2 = .error p := by
        rw [List.cons_append, history]
        generalize history hw (later ++ earlier) = run at hbefore
        obtain ⟨moves, r⟩ := run
        cases hbefore
        rfl
      rw [hstop] at h
      cases h
    | ok b₁ =>
      rw [List.cons_append, history_cons hbefore] at h
      obtain ⟨b, hb, hadv, hrsp⟩ := ih (fun o ho => hlater o (List.mem_cons_of_mem _ ho)) hbefore
      have hbounds : b₁.Bounds := (Run.of_history hw (later ++ earlier)).bounds b₁ hbefore
      obtain ⟨hadv', hrsp'⟩ := (run_dataKept hw (hlater op List.mem_cons_self) hbounds h).bytes
      exact ⟨b, hb, hadv'.trans hadv, hrsp'.trans hrsp⟩

/-- What a report carries. -/
def reported : BleEvent → List UInt8
  | .scanReport _ _ _ _ data len => data.bytes.take len
  | _ => []

theorem reported_scanReport (addr : Buf 6) (advType : UInt8) (rssi : Int8) {data : List UInt8}
    (h : data.length ≤ 31) : reported (Ble.scanReport addr advType rssi data) = data := by
  show (data.take 31 ++ List.replicate (31 - (data.take 31).length) 0).take (min data.length 31) = data
  rw [Nat.min_eq_left h, List.take_of_length_le h, List.take_left]

/-! ## The entries -/

/-- What `build` wrote into an array for advertising data is the packed entries, and fits. -/
theorem build_advData {entries : List AdEntry} {n : Nat} {out : List UInt8}
    (h : build entries (List.replicate 31 0) = .ok (.ok n, out)) :
    out.take n = adFormat.pack entries ∧ (adFormat.pack entries).length ≤ 31 ∧
      Iterates (out.take n) entries := by
  obtain ⟨hfits, hlen, rfl, rfl⟩ := build_ok_iff.mp h
  rw [List.length_replicate] at hlen
  rw [List.take_left]
  exact ⟨rfl, hlen, (iterates_iff _ _).mpr ⟨hfits, rfl⟩⟩

/-- The data in force, after it was configured and other things were done. -/
theorem history_configured {hw : Hw} {advData scanRspData : List UInt8}
    (hadv : advData.length ≤ 31) (hrsp : scanRspData.length ≤ 31) {later earlier : List BleOp} {b : Ble}
    (hlater : ∀ op ∈ later, op.configures = false)
    (h : (history hw (later ++ .call (.gapAdvSetConfigure advData scanRspData) :: earlier)).2 = .ok b) :
    b.advDataBytes = advData ∧ b.scanRspBytes = scanRspData := by
  obtain ⟨b₂, hb₂, hkeptAdv, hkeptRsp⟩ := history_dataKept hlater h
  cases hbefore : (history hw earlier).2 with
  | error p =>
    rw [history] at hb₂
    generalize history hw earlier = run at hbefore hb₂
    obtain ⟨moves, r⟩ := run
    cases hbefore
    cases hb₂
  | ok b₁ =>
    obtain ⟨b', hset, hadv', hrsp'⟩ := b₁.gapAdvSetConfigure_data hadv hrsp
    rw [history_cons hbefore] at hb₂
    have hrun : BleOp.run hw (.call (.gapAdvSetConfigure advData scanRspData)) b₁ = ⟨[], .ok b'⟩ := by
      show (b₁.gapAdvSetConfigure advData scanRspData >>= fun r => pure r.2) = _
      rw [hset]
      rfl
    rw [hrun] at hb₂
    cases hb₂
    exact ⟨hkeptAdv.trans hadv', hkeptRsp.trans hrsp'⟩

/-- **Advertised entries arrive.**  What `build` made of two lists of entries was configured, and not
    configured again, whatever else the application did.  At any later event of a scannable legacy
    advertiser that meets, over the radio and on one channel, a scanner which admits it and is not
    connecting to it, the scanner's application gets one report whose data iterates to the entries; and,
    of an active scan, a second one with those of the scan response, unless it is empty. -/
theorem advertised_entries_arrive (hw : Hw) {entries rspEntries : List AdEntry} {n m : Nat}
    {out rspOut : List UInt8} (hbuild : build entries (List.replicate 31 0) = .ok (.ok n, out))
    (hbuildRsp : build rspEntries (List.replicate 31 0) = .ok (.ok m, rspOut))
    {later earlier : List BleOp} {adv : Ble} (hlater : ∀ op ∈ later, op.configures = false)
    (hrun : (history hw (later ++
      .call (.gapAdvSetConfigure (out.take n) (rspOut.take m)) :: earlier)).2 = .ok adv)
    {scan : Ble} (hevent : AtEvent adv scan) (hch : adv.advChannel = scan.scanChannel)
    (htype : Ble.scannable adv.advParams.advType = true)
    (htarget : scan.connectTarget ≠ some adv.ownAddr) (hadmits : scan.admits adv.ownAddr = true)
    {advEnv : AdvEnv} {scanEnv : ScanEnv} {advLog scanLog : List BleAct} {adv' scan' : Ble}
    (hmeet : RadioMeet adv scan advEnv scanEnv advLog scanLog adv' scan') :
    ∃ report, Iterates (reported report) entries ∧
      if scan.scanParams.active ∧ rspEntries ≠ [] then
        ∃ rsp, Iterates (reported rsp) rspEntries ∧ pushed scanLog = [report, rsp]
      else pushed scanLog = [report] := by
  obtain ⟨hadvData, hadvLen, hentries⟩ := build_advData hbuild
  obtain ⟨hrspData, hrspLen, hrspEntries⟩ := build_advData hbuildRsp
  obtain ⟨hadv, hrsp⟩ := history_configured (by rwa [hadvData]) (by rwa [hrspData]) hlater hrun
  have hheard := ((radioMeet_iff hevent).mp hmeet).heard hevent
  obtain ⟨hpdu, -, -⟩ := hheard.same hch
  have hscanLog : pushed scanLog = pushed (scan.heardLog scanEnv) := by rw [hheard.scanLog]; rfl
  obtain ⟨advType, hlog⟩ : ∃ advType, scan.heardLog scanEnv = answered adv scan scanEnv advType := by
    unfold Ble.heardLog
    rw [hpdu, Ble.legacyPdu]
    cases ht : adv.advParams.advType with
    | connectableUndirected => exact ⟨_, rfl⟩
    | scannableUndirected => exact ⟨_, rfl⟩
    | connectableDirected | nonConnectableUndirected =>
      rw [ht] at htype
      cases htype
  obtain ⟨-, hreports, -⟩ := hheard.reports hevent.advBounds hch htype htarget advType hlog
  rw [hscanLog, hreports]
  unfold scanReports
  rw [if_pos hadmits]
  -- the response is empty when it has no entries
  have hsome : adv.scanRspLen > 0 ↔ rspEntries ≠ [] := by
    have hlen : adv.scanRspBytes.length = adv.scanRspLen := by
      have h31 : adv.scanRspLen ≤ 31 := hevent.advBounds.scanRspLen
      unfold Ble.scanRspBytes
      rw [List.length_take, adv.scanRsp.size]
      exact Nat.min_eq_left h31
    rw [← hlen, hrsp, hrspData]
    cases rspEntries with
    | nil => simp
    | cons e es =>
      rw [pack_entry, List.length_append, e.length_bytes]
      simp only [ne_eq, reduceCtorEq, not_false_eq_true, iff_true]
      omega
  refine ⟨Ble.scanReport adv.ownAddr advType scanEnv.air.rssi adv.advDataBytes, ?_, ?_⟩
  · rw [hadv, reported_scanReport _ _ _ (by rwa [hadvData])]
    exact hentries
  · simp only [hsome]
    split
    · refine ⟨Ble.scanReport adv.ownAddr pduScanRsp scanEnv.rspAir.rssi adv.scanRspBytes, ?_, rfl⟩
      rw [hrsp, reported_scanReport _ _ _ (by rwa [hrspData])]
      exact hrspEntries
    · rfl

/-- Flags and the name `nrf-ble`. -/
def beaconEntries : List AdEntry := [⟨1, [6]⟩, ⟨9, [0x6E, 0x72, 0x66, 0x2D, 0x62, 0x6C, 0x65]⟩]

/-- A beacon is configured and started. -/
def beaconOps : List BleOp :=
  [.call (.gapAdvStart {} 0),
    .call (.gapAdvSetConfigure [2, 1, 6, 8, 9, 0x6E, 0x72, 0x66, 0x2D, 0x62, 0x6C, 0x65] [2, 10, 0])]

/-- The beacon at its first event. -/
def beacon : Ble :=
  match (history Hw.standIn beaconOps).2 with
  | .ok b => b
  | .error _ => Ble.new

/-- Its two packets. -/
def beaconPacket : List UInt8 := beacon.legacyPdu.bytes false false

def beaconResponse : List UInt8 := (AdvPdu.scanRsp (Buf.zero 6) [2, 10, 0]).bytes false false

/-- An active scanner in range of it reads both. -/
theorem advertised_entries_arrive_beacon :
    ∃ scanLog report rsp, pushed scanLog = [report, rsp] ∧ Iterates (reported report) beaconEntries ∧
      Iterates (reported rsp) [⟨10, [0]⟩] := by
  have hrun : (history Hw.standIn beaconOps).2 = .ok beacon := rfl
  have hevent : AtEvent beacon (scanningFor none) :=
    ⟨(Run.of_history Hw.standIn beaconOps).bounds beacon hrun, rfl, rfl, rfl, show 0 < 3 by decide, rfl⟩
  have hrequest : (transmissions ((scanningFor none).heardLog
    (hearing beaconPacket beaconResponse)))[0]? =
      some ((scanningFor none).scanRequestTo (Buf.zero 6)) := by decide +kernel
  have hresponse : (transmissions (beacon.serveLog
      (.bringing ((scanningFor none).scanRequestTo (Buf.zero 6)))))[0]? = some beaconResponse := by
    decide +kernel
  obtain ⟨advLog, scanLog, adv', scan', h⟩ := Meet.of_hears hevent rfl
    ⟨0, 0, .bringing ((scanningFor none).scanRequestTo (Buf.zero 6)), 0, 0⟩
    (hearing beaconPacket beaconResponse) (Air.bringing_hears (by decide +kernel))
    (by rw [hrequest]; exact Air.bringing_hears (by decide))
    (by rw [hresponse]; exact Air.bringing_hears (by decide))
  obtain ⟨report, hentries, hreports⟩ := @advertised_entries_arrive Hw.standIn
    beaconEntries [⟨10, [0]⟩] 12 3 _ _ rfl rfl [.call (.gapAdvStart {} 0)] [] beacon (by decide) hrun
    _ hevent rfl rfl (by rintro ⟨⟩) rfl _ _ _ _ _ _ ((radioMeet_iff hevent).mpr h)
  rw [if_pos ⟨rfl, List.cons_ne_nil _ _⟩] at hreports
  obtain ⟨rsp, hrsp, hlog⟩ := hreports
  exact ⟨scanLog, report, rsp, hlog, hentries, hrsp⟩

end NrfBle
