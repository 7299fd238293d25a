/-
  The calls of the application that can fail, as one type, and what a call can do.

  A call first checks everything it checks and then writes.  The one call with another inside is
  `gap_connect`: it writes the target and then starts a scan, whose own checks come after that write.
  They cannot fail there: the scan is idle, by `gap_connect`'s own check, and its parameters are fixed
  and valid.

  So a failed call changes nothing (`failed_call_changes_nothing`), and no call at all begins or ends a
  connection, sends a `CONNECT_REQ`, or touches the role, the peer and the bonds of an open connection
  (`ApiCall.run_effect`).  What a call does to the connection is a call of the connection's own
  (`ApiCall.run_onLink`).
-/
import Mathlib.Tactic
import NrfBle.Hw.Ble.Adv
import NrfBle.Hw.Ble.Scan
import NrfBle.Hw.Ble.Link

namespace NrfBle

open Checked

/-- The fallible calls, with the clock where they read it. -/
inductive ApiCall
  | gapAdvSetConfigure (advData scanRspData : List UInt8)
  | gapAdvStart (params : AdvParams) (now : UInt32)
  | gapAdvStop
  | gapScanStart (params : ScanParams) (now : UInt32)
  | gapScanStop
  | gapConnect (target : Buf 6) (targetType : AddrType) (now : UInt32)
  | gapEncrypt
  | connSend (data : List UInt8)
  | l2capConnect (psm : UInt16)
  | l2capSend (data : List UInt8)
  | gapPair
  | gattDiscoverPrimaryServices
  | gattDiscoverCharacteristics (start «end» : UInt16)
  | gattRead (handle : UInt16)
  | gattWrite (handle : UInt16) (data : List UInt8)
  | gattSubscribe (cccdHandle : UInt16)
  | gapTerminate

/-- Make a call. -/
def ApiCall.run : ApiCall → Ble → Logged BleAct (Except Error Unit × Ble)
  | .gapAdvSetConfigure advData scanRspData, b => b.gapAdvSetConfigure advData scanRspData
  | .gapAdvStart params now, b => b.gapAdvStart params now
  | .gapAdvStop, b => b.gapAdvStop
  | .gapScanStart params now, b => b.gapScanStart params now
  | .gapScanStop, b => b.gapScanStop
  | .gapConnect target targetType now, b => b.gapConnect target targetType now
  | .gapEncrypt, b => b.gapEncrypt
  | .connSend data, b => b.connSend data
  | .l2capConnect psm, b => b.l2capConnect psm
  | .l2capSend data, b => b.l2capSend data
  | .gapPair, b => b.gapPair
  | .gattDiscoverPrimaryServices, b => b.gattDiscoverPrimaryServices
  | .gattDiscoverCharacteristics start «end», b => b.gattDiscoverCharacteristics start «end»
  | .gattRead handle, b => b.gattRead handle
  | .gattWrite handle data, b => b.gattWrite handle data
  | .gattSubscribe cccdHandle, b => b.gattSubscribe cccdHandle
  | .gapTerminate, b => b.gapTerminate

/-- The two calls that start a scan. -/
def ApiCall.startsScan : ApiCall → Bool
  | .gapScanStart _ _ | .gapConnect _ _ _ => true
  | _ => false

/-! ## What a call can do -/

namespace Ble

/-- The scan and its target are as they were, a requested stop apart. -/
def ScanKept (b b' : Ble) : Prop :=
  b'.connectTarget = b.connectTarget ∧ (b'.scanState = .idle ↔ b.scanState = .idle)

theorem ScanKept.refl (b : Ble) : ScanKept b b := ⟨rfl, Iff.rfl⟩

/-- **What a call can do**, whether it succeeds or not. -/
structure CallEffect (starts : Bool) (b : Ble) (log : List BleAct) (b' : Ble) : Prop where
  bounds : b.Bounds → b'.Bounds
  quiet : Quiet log
  link : SameLink b.conn b'.conn
  scan : starts = false → ScanKept b b'

/-- A call that returned: with an error and nothing changed, or with its effect. -/
def CallDone (starts : Bool) (b : Ble) (x : Logged BleAct (Except Error Unit × Ble)) : Prop :=
  (∃ e, x = ⟨[], .ok (.error e, b)⟩) ∨
    ∃ log b', x = ⟨log, .ok (.ok (), b')⟩ ∧ CallEffect starts b log b'

theorem CallDone.refused {starts : Bool} {b : Ble} (e : Error) : CallDone starts b (pure (.error e, b)) :=
  .inl ⟨e, rfl⟩

/-- Data that fits is written to the front of its buffer. -/
theorem gapAdvSetConfigure_eq (b : Ble) {advData scanRspData : List UInt8}
    (hadv : advData.length ≤ legacyAdDataMaxLen) (hrsp : scanRspData.length ≤ legacyAdDataMaxLen) :
    ∃ advBuf rspBuf : Buf legacyAdDataMaxLen, advBuf.bytes.take advData.length = advData ∧
      b.gapAdvSetConfigure advData scanRspData = ⟨[], .ok (.ok (), { b with
        advData := advBuf, advDataLen := advData.length
        scanRsp := rspBuf, scanRspLen := scanRspData.length })⟩ := by
  obtain ⟨advBuf, hwa, _⟩ := b.advData.write_of_le
    (show 0 + advData.length ≤ legacyAdDataMaxLen by omega)
  obtain ⟨rspBuf, hwr, _⟩ := b.scanRsp.write_of_le
    (show 0 + scanRspData.length ≤ legacyAdDataMaxLen by omega)
  have htake := Buf.take_of_write hwa
  rw [Nat.zero_add, List.take_zero, List.nil_append] at htake
  refine ⟨advBuf, rspBuf, htake, ?_⟩
  unfold gapAdvSetConfigure
  rw [if_neg (by omega), hwa, Logged.lift_ok_bind, hwr, Logged.lift_ok_bind]
  rfl

theorem gapAdvSetConfigure_done (b : Ble) (advData scanRspData : List UInt8) :
    CallDone false b (b.gapAdvSetConfigure advData scanRspData) := by
  by_cases hlen : advData.length > legacyAdDataMaxLen ∨ scanRspData.length > legacyAdDataMaxLen
  · unfold gapAdvSetConfigure
    rw [if_pos hlen]
    exact .refused _
  · have hadv : advData.length ≤ legacyAdDataMaxLen := by omega
    have hrsp : scanRspData.length ≤ legacyAdDataMaxLen := by omega
    obtain ⟨advBuf, rspBuf, _, heq⟩ := b.gapAdvSetConfigure_eq hadv hrsp
    rw [heq]
    refine .inr ⟨_, _, rfl, ?_, .nil, .refl _, fun _ => ⟨rfl, Iff.rfl⟩⟩
    exact fun hb => { hb with advDataLen := hadv, scanRspLen := hrsp }

/-- The checks of `gap_adv_start` on its parameters. -/
def AdvAllowed (params : AdvParams) : Prop :=
  ¬ (params.intervalMin < 32 ∨ params.intervalMin > 16384) ∧ ¬ params.intervalMax < params.intervalMin ∧
    ¬ params.channelMap &&& 0b111 = 0 ∧
    ¬ (params.advType = .connectableDirected ∧ params.peerAddr.isNone)

/-- Advertising that is started: its state and the pushed event. -/
theorem gapAdvStart_eq {b : Ble} {params : AdvParams} (hidle : b.advState = .idle)
    (hallowed : AdvAllowed params) (now : UInt32) :
    ∃ accum compare, accum.Bounded ∧ b.gapAdvStart params now =
      ⟨[.push .advStarted], .ok (.ok (), { b with
        advParams := params, ownAddrType := params.ownAddrType, advChannelIdx := 0
        advAccum := accum, compare := compare, advState := .running
        events := pushEvent b.events .advStarted })⟩ := by
  obtain ⟨hint, hmax, hmap, hpeer⟩ := hallowed
  obtain ⟨ticks, accum, hnext, hbounded⟩ := IntervalAccum.next_eq IntervalAccum.bounded_new
    params.intervalMin
  refine ⟨accum, now + UInt32.ofNat ticks, hbounded, ?_⟩
  unfold gapAdvStart
  rw [if_neg (by simp [hidle]), if_neg hint, if_neg hmax, if_neg hmap, if_neg hpeer, hnext,
    Logged.lift_ok_bind]
  rfl

theorem gapAdvStart_refused {b : Ble} {params : AdvParams}
    (h : ¬ (b.advState = .idle ∧ AdvAllowed params)) (now : UInt32) :
    ∃ e, b.gapAdvStart params now = ⟨[], .ok (.error e, b)⟩ := by
  unfold gapAdvStart
  split
  · exact ⟨_, rfl⟩
  split
  · exact ⟨_, rfl⟩
  split
  · exact ⟨_, rfl⟩
  split
  · exact ⟨_, rfl⟩
  split
  · exact ⟨_, rfl⟩
  · rename_i hidle hint hmax hmap hpeer
    exact absurd ⟨not_not.mp hidle, hint, hmax, hmap, hpeer⟩ h

theorem gapAdvStart_done (b : Ble) (params : AdvParams) (now : UInt32) :
    CallDone false b (b.gapAdvStart params now) := by
  by_cases h : b.advState = .idle ∧ AdvAllowed params
  · obtain ⟨accum, compare, hbounded, heq⟩ := gapAdvStart_eq h.1 h.2 now
    rw [heq]
    refine .inr ⟨_, _, rfl, ?_, .cons ⟨rfl, rfl⟩ .nil, .refl _, fun _ => ⟨rfl, Iff.rfl⟩⟩
    intro hb
    refine { hb with directed := ?_, advChannelIdx := (by decide : (0 : Nat) < 3), advAccum := hbounded }
    intro hdir
    exact Option.isSome_iff_ne_none.mpr
      (fun hnone => h.2.2.2.2 ⟨hdir, Option.isNone_iff_eq_none.mpr hnone⟩)
  · exact .inl (gapAdvStart_refused h now)

theorem gapAdvStop_done (b : Ble) : CallDone false b b.gapAdvStop := by
  unfold gapAdvStop
  split
  · exact .inr ⟨_, _, rfl, fun hb => { hb with }, .nil, .refl _, fun _ => .refl _⟩
  · exact .inr ⟨_, _, rfl, id, .nil, .refl _, fun _ => .refl _⟩
  · exact .refused _

/-- The checks of `gap_scan_start` on its parameters. -/
def ScanAllowed (params : ScanParams) : Prop :=
  ¬ (params.interval < 4 ∨ params.interval > 16384) ∧
    ¬ (params.window < 4 ∨ params.window > 16384) ∧ ¬ params.window > params.interval

/-- A scan that is started: its state and the pushed event. -/
theorem gapScanStart_eq {b : Ble} {params : ScanParams} (hidle : b.scanState = .idle)
    (hallowed : ScanAllowed params) (now : UInt32) :
    ∃ accum compare, accum.Bounded ∧ b.gapScanStart params now =
      ⟨[.push .scanStarted], .ok (.ok (), { b with
        scanParams := params, ownAddrType := params.ownAddrType, scanChannelIdx := 0
        scanAccum := accum, compare := compare, scanState := .running
        events := pushEvent b.events .scanStarted })⟩ := by
  obtain ⟨hint, hwin, hle⟩ := hallowed
  obtain ⟨ticks, accum, hnext, hbounded⟩ := IntervalAccum.next_eq IntervalAccum.bounded_new
    params.interval
  refine ⟨accum, now + UInt32.ofNat ticks, hbounded, ?_⟩
  unfold gapScanStart
  rw [if_neg (by simp [hidle]), if_neg hint, if_neg hwin, if_neg hle, hnext, Logged.lift_ok_bind]
  rfl

theorem gapScanStart_refused {b : Ble} {params : ScanParams}
    (h : ¬ (b.scanState = .idle ∧ ScanAllowed params)) (now : UInt32) :
    ∃ e, b.gapScanStart params now = ⟨[], .ok (.error e, b)⟩ := by
  unfold gapScanStart
  split
  · exact ⟨_, rfl⟩
  split
  · exact ⟨_, rfl⟩
  split
  · exact ⟨_, rfl⟩
  split
  · exact ⟨_, rfl⟩
  · rename_i hidle hint hwin hle
    exact absurd ⟨not_not.mp hidle, hint, hwin, hle⟩ h

theorem gapScanStart_done (b : Ble) (params : ScanParams) (now : UInt32) :
    CallDone true b (b.gapScanStart params now) := by
  by_cases h : b.scanState = .idle ∧ ScanAllowed params
  · obtain ⟨accum, compare, hbounded, heq⟩ := gapScanStart_eq h.1 h.2 now
    rw [heq]
    refine .inr ⟨_, _, rfl, ?_, .cons ⟨rfl, rfl⟩ .nil, .refl _, by rintro ⟨⟩⟩
    exact fun hb => { hb with scanChannelIdx := Nat.zero_le _, scanAccum := hbounded }
  · exact .inl (gapScanStart_refused h now)

/-- The scan of `gap_connect` starts: it was idle, and the parameters are valid. -/
theorem gapConnect_eq {b : Ble} (hidle : b.scanState = .idle) (target : Buf 6) (targetType : AddrType)
    (now : UInt32) :
    ∃ accum compare, accum.Bounded ∧ b.gapConnect target targetType now =
      ⟨[.push .scanStarted], .ok (.ok (), { b with
        connectTarget := some target, connectTargetType := targetType
        scanParams := connectScanParams, ownAddrType := connectScanParams.ownAddrType
        scanChannelIdx := 0, scanAccum := accum, compare := compare, scanState := .running
        events := pushEvent b.events .scanStarted })⟩ := by
  unfold gapConnect
  rw [if_neg (by simp [hidle])]
  exact gapScanStart_eq (b := { b with connectTarget := some target, connectTargetType := targetType })
    hidle ⟨by decide, by decide, by decide⟩ now

theorem gapConnect_done (b : Ble) (target : Buf 6) (targetType : AddrType) (now : UInt32) :
    CallDone true b (b.gapConnect target targetType now) := by
  by_cases hidle : b.scanState = .idle
  · obtain ⟨accum, compare, hbounded, h⟩ := gapConnect_eq hidle target targetType now
    rw [h]
    refine .inr ⟨_, _, rfl, ?_, .cons ⟨rfl, rfl⟩ .nil, .refl _, by rintro ⟨⟩⟩
    exact fun hb => { hb with scanChannelIdx := Nat.zero_le _, scanAccum := hbounded }
  · unfold gapConnect
    rw [if_pos hidle]
    exact .refused _

theorem gapScanStop_done (b : Ble) : CallDone false b b.gapScanStop := by
  unfold gapScanStop
  split
  · rename_i hrun
    refine .inr ⟨_, _, rfl, fun hb => { hb with }, .nil, .refl _, fun _ => ⟨rfl, ?_⟩⟩
    rw [hrun]
    exact ⟨by rintro ⟨⟩, by rintro ⟨⟩⟩
  · exact .inr ⟨_, _, rfl, id, .nil, .refl _, fun _ => .refl _⟩
  · exact .refused _

/-- A call on the connection that leaves role, peer and bonds alone. -/
theorem onConn_done (b : Ble) (f : Conn → Conn)
    (hf : ∀ c : Conn, c.SamePeer (f c)) :
    CallDone false b (b.onConn f) := by
  unfold onConn
  split
  · exact .refused _
  · rename_i c hc
    refine .inr ⟨_, _, rfl, fun hb => { hb with }, .nil, ?_, fun _ => ⟨rfl, Iff.rfl⟩⟩
    rw [hc]
    exact hf c

theorem gattRequest_done (b : Ble) (req : List UInt8) : CallDone false b (b.gattRequest req) :=
  b.onConn_done _ (fun _ => ⟨rfl, rfl, rfl⟩)

theorem l2capSend_done (b : Ble) (data : List UInt8) : CallDone false b (b.l2capSend data) := by
  unfold l2capSend
  split
  · exact .refused _
  · rename_i c hc
    rcases c.l2capSend_spec data with ⟨e, h⟩ | ⟨coc, txAtt, _, _, h⟩
    · rw [h]
      dsimp only
      rw [conn_self hc]
      exact .refused e
    · rw [h]
      refine .inr ⟨_, _, rfl, fun hb => { hb with }, .nil, ?_, fun _ => ⟨rfl, Iff.rfl⟩⟩
      rw [hc]
      exact ⟨rfl, rfl, rfl⟩

theorem gapEncrypt_done (b : Ble) : CallDone false b b.gapEncrypt := by
  unfold gapEncrypt
  split
  · exact .refused _
  · rename_i c hc
    unfold Conn.gapEncrypt
    split
    · refine .inl ⟨.invalidParam, ?_⟩
      show (⟨[], .ok (.error .invalidParam, { b with conn := some c })⟩ :
        Logged BleAct (Except Error Unit × Ble)) = _
      rw [conn_self hc]
    · split
      · refine .inl ⟨.notRunning, ?_⟩
        show (⟨[], .ok (.error .notRunning, { b with conn := some c })⟩ :
          Logged BleAct (Except Error Unit × Ble)) = _
        rw [conn_self hc]
      · refine .inr ⟨_, _, rfl, fun hb => { hb with }, .cons ⟨rfl, rfl⟩ .nil, ?_, fun _ => ⟨rfl, Iff.rfl⟩⟩
        rw [hc]
        exact ⟨rfl, rfl, rfl⟩

end Ble

/-- **Every call returns**, refused with nothing changed or done with its effect. -/
theorem ApiCall.run_done (call : ApiCall) (b : Ble) : Ble.CallDone call.startsScan b (call.run b) := by
  cases call with
  | gapAdvSetConfigure advData scanRspData => exact b.gapAdvSetConfigure_done advData scanRspData
  | gapAdvStart params now => exact b.gapAdvStart_done params now
  | gapAdvStop => exact b.gapAdvStop_done
  | gapScanStart params now => exact b.gapScanStart_done params now
  | gapScanStop => exact b.gapScanStop_done
  | gapConnect target targetType now => exact b.gapConnect_done target targetType now
  | gapEncrypt => exact b.gapEncrypt_done
  | l2capSend data => exact b.l2capSend_done data
  | l2capConnect psm =>
    refine b.onConn_done _ ?_
    intro c
    unfold Conn.l2capConnect
    split <;> exact ⟨rfl, rfl, rfl⟩
  | gapPair =>
    refine b.onConn_done _ ?_
    intro c
    unfold Conn.gapPair
    split <;> exact ⟨rfl, rfl, rfl⟩
  | gattDiscoverPrimaryServices | gattDiscoverCharacteristics | gattRead | gattWrite | gattSubscribe =>
    exact b.gattRequest_done _
  | _ => exact b.onConn_done _ (fun _ => ⟨rfl, rfl, rfl⟩)

/-- Whatever the answer, the call had its effect and no other. -/
theorem ApiCall.run_effect (call : ApiCall) (b : Ble) :
    ∃ log answer b', call.run b = ⟨log, .ok (answer, b')⟩ ∧ Ble.CallEffect call.startsScan b log b' := by
  rcases call.run_done b with ⟨e, h⟩ | ⟨log, b', h, heff⟩
  · exact ⟨_, _, _, h, id, .nil, .refl _, fun _ => .refl b⟩
  · exact ⟨_, _, _, h, heff⟩

/-- **A failed call changes nothing**: not the record, with its connection, queue, parameters and
    compare, and it did nothing on the way. -/
theorem failed_call_changes_nothing (call : ApiCall) (b b' : Ble) (log : List BleAct) (e : Error)
    (h : call.run b = ⟨log, .ok (.error e, b')⟩) : b' = b ∧ log = [] := by
  rcases call.run_done b with ⟨e', hx⟩ | ⟨log', b'', hx, _⟩
  · rw [hx] at h
    cases h
    exact ⟨rfl, rfl⟩
  · rw [hx] at h
    cases h

/-- Connecting while a scan runs is refused, and leaves the earlier target alone. -/
theorem failed_connect_keeps_target :
    ∃ e b', ApiCall.run (.gapConnect ⟨[1, 2, 3, 4, 5, 6], rfl⟩ .«public» 0)
        { Ble.new with scanState := .running } = ⟨[], .ok (.error e, b')⟩ ∧
      b' = { Ble.new with scanState := .running } := by
  have h := failed_call_changes_nothing (.gapConnect ⟨[1, 2, 3, 4, 5, 6], rfl⟩ .«public» 0)
    { Ble.new with scanState := .running } { Ble.new with scanState := .running } [] .alreadyRunning rfl
  exact ⟨_, _, rfl, h.1⟩

/-! ## What a call does to the connection -/

namespace Ble

/-- **A call on the connection** is one of the connection's own; any other call leaves it alone. -/
inductive CallOnLink (conn : Option Conn) : Logged BleAct (Except Error Unit × Ble) → Prop
  | aside {log : List BleAct} {answer : Except Error Unit} {b' : Ble} (hlog : ∀ act, .conn act ∉ log)
      (hconn : b'.conn = conn) : CallOnLink conn ⟨log, .ok (answer, b')⟩
  | call {c : Conn} (call : LocalCall) {answer : Except Error Unit} {b' : Ble} (hc : conn = some c)
      (hconn : b'.conn = some (call.run c)) : CallOnLink conn ⟨[], .ok (answer, b')⟩
  | encrypt {c c' : Conn} {acts : List Act} {answer : Except Error Unit} {b' : Ble}
      (hc : conn = some c) (hrun : c.gapEncrypt = ⟨acts, .ok (answer, c')⟩)
      (hconn : b'.conn = some c') : CallOnLink conn ⟨acts.map .conn, .ok (answer, b')⟩

theorem CallOnLink.silent {conn : Option Conn} {b' : Ble} {answer : Except Error Unit}
    (h : b'.conn = conn) : CallOnLink conn ⟨[], .ok (answer, b')⟩ := .aside (fun _ hmem => by cases hmem) h

theorem CallOnLink.push {conn : Option Conn} {b' : Ble} {answer : Except Error Unit} {evt : BleEvent}
    (h : b'.conn = conn) : CallOnLink conn ⟨[.push evt], .ok (answer, b')⟩ :=
  .aside (fun _ hmem => by cases List.mem_singleton.mp hmem) h

theorem onConn_onLink (b : Ble) (call : LocalCall) {f : Conn → Conn} (hf : ∀ c, f c = call.run c) :
    CallOnLink b.conn (b.onConn f) := by
  unfold onConn
  split
  · exact .silent rfl
  · rename_i c hc
    exact .call call hc (congrArg some (hf c))

theorem gapAdvStart_onLink (b : Ble) (params : AdvParams) (now : UInt32) :
    CallOnLink b.conn (b.gapAdvStart params now) := by
  by_cases h : b.advState = .idle ∧ AdvAllowed params
  · obtain ⟨accum, compare, _, heq⟩ := gapAdvStart_eq h.1 h.2 now
    rw [heq]
    exact .push rfl
  · obtain ⟨e, heq⟩ := gapAdvStart_refused h now
    rw [heq]
    exact .silent rfl

theorem gapScanStart_onLink (b : Ble) (params : ScanParams) (now : UInt32) :
    CallOnLink b.conn (b.gapScanStart params now) := by
  by_cases h : b.scanState = .idle ∧ ScanAllowed params
  · obtain ⟨accum, compare, _, heq⟩ := gapScanStart_eq h.1 h.2 now
    rw [heq]
    exact .push rfl
  · obtain ⟨e, heq⟩ := gapScanStart_refused h now
    rw [heq]
    exact .silent rfl

theorem gapAdvSetConfigure_onLink (b : Ble) (advData scanRspData : List UInt8) :
    CallOnLink b.conn (b.gapAdvSetConfigure advData scanRspData) := by
  by_cases hlen : advData.length > legacyAdDataMaxLen ∨ scanRspData.length > legacyAdDataMaxLen
  · have heq : b.gapAdvSetConfigure advData scanRspData = ⟨[], .ok (.error .invalidLength, b)⟩ := if_pos hlen
    rw [heq]
    exact .silent rfl
  · obtain ⟨advBuf, rspBuf, _, heq⟩ := b.gapAdvSetConfigure_eq
      (show advData.length ≤ legacyAdDataMaxLen by omega) (show scanRspData.length ≤ _ by omega)
    rw [heq]
    exact .silent rfl

theorem l2capSend_onLink (b : Ble) (data : List UInt8) : CallOnLink b.conn (b.l2capSend data) := by
  unfold l2capSend
  split
  · exact .silent rfl
  · rename_i c hc
    exact .call (.l2capSend data) hc rfl

theorem gapEncrypt_onLink (b : Ble) : CallOnLink b.conn b.gapEncrypt := by
  unfold gapEncrypt
  split
  · exact .silent rfl
  · rename_i c hc
    obtain ⟨acts, answer, c', hrun⟩ : ∃ acts answer c', c.gapEncrypt = ⟨acts, .ok (answer, c')⟩ := by
      unfold Conn.gapEncrypt
      split
      · exact ⟨_, _, _, rfl⟩
      · split <;> exact ⟨_, _, _, rfl⟩
    rw [hrun]
    show CallOnLink b.conn ⟨acts.map .conn ++ [], .ok (answer, { b with conn := some c' })⟩
    rw [List.append_nil]
    exact .encrypt hc hrun rfl

end Ble

theorem ApiCall.run_onLink (call : ApiCall) (b : Ble) : Ble.CallOnLink b.conn (call.run b) := by
  cases call with
  | gapAdvStart params now => exact b.gapAdvStart_onLink params now
  | gapScanStart params now => exact b.gapScanStart_onLink params now
  | gapConnect target targetType now =>
    show Ble.CallOnLink b.conn (b.gapConnect target targetType now)
    unfold Ble.gapConnect
    split
    · exact .silent rfl
    · exact Ble.gapScanStart_onLink { b with connectTarget := some target, connectTargetType := targetType } _ now
  | gapAdvSetConfigure advData scanRspData => exact b.gapAdvSetConfigure_onLink advData scanRspData
  | gapAdvStop =>
    show Ble.CallOnLink b.conn b.gapAdvStop
    unfold Ble.gapAdvStop
    split <;> exact .silent rfl
  | gapScanStop =>
    show Ble.CallOnLink b.conn b.gapScanStop
    unfold Ble.gapScanStop
    split <;> exact .silent rfl
  | gapEncrypt => exact b.gapEncrypt_onLink
  | connSend data => exact b.onConn_onLink (.queueNotify data) fun _ => rfl
  | l2capConnect psm => exact b.onConn_onLink (.l2capConnect psm) fun _ => rfl
  | l2capSend data => exact b.l2capSend_onLink data
  | gapPair => exact b.onConn_onLink .gapPair fun _ => rfl
  | gattDiscoverPrimaryServices | gattDiscoverCharacteristics | gattRead | gattWrite | gattSubscribe =>
    exact b.onConn_onLink (.gattSendRequest _) fun _ => rfl
  | gapTerminate => exact b.onConn_onLink .terminate fun _ => rfl

end NrfBle
