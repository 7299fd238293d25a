/-
  When a `CONNECT_REQ` is sent (`src/hw/ble.rs`: `gap_connect`, `gap_scan_start`, `scan_tick`,
  `handle_scan_pdu`).

  `gap_connect` writes the target and starts a scan; the target is cleared when the request is sent,
  and only then.  It is still there after the scan was stopped, and the next scan, started for
  something else, connects to it.  And an `ADV_SCAN_IND` of the target, which takes no connection, is
  answered like an `ADV_IND`.

  `scanFor` reads off the history what the latest scan was started for.  The invariant is `Aimed`:
  while a scan goes on, the target is the one it was started for.  Only one operation can break it, a
  plain `gap_scan_start` that finds a target left over (`aimed_step`).
-/
import Mathlib.Tactic
import NrfBle.Hw.Ble.Run

namespace NrfBle

open Checked

/-! ## What a scan was started for -/

/-- The call returns `Ok`. -/
def ApiCall.accepted (call : ApiCall) (b : Ble) : Bool :=
  match (call.run b).res with
  | .ok (.ok (), _) => true
  | _ => false

/-- The target the latest scan was started for, if that was by `gap_connect`. -/
def scanFor : List Move → Option (Buf 6)
  | [] => none
  | m :: moves =>
    match m.op with
    | .call (.gapConnect target targetType now) =>
      if (ApiCall.gapConnect target targetType now).accepted m.before then some target else scanFor moves
    | .call (.gapScanStart params now) =>
      if (ApiCall.gapScanStart params now).accepted m.before then none else scanFor moves
    | _ => scanFor moves

/-- A `CONNECT_REQ` sent now is asked for: the scan of a `gap_connect` is running, and its target is
    connectable. -/
def Asked (moves : List Move) (b : Ble) (env : ScanEnv) : Prop :=
  ∃ target data, scanFor moves = some target ∧ b.scanState = .running ∧
    env.air.pdu = some (.advInd target data)

/-- Whenever a `scan_tick` of the run transmitted a `CONNECT_REQ`, it was asked for. -/
def OnRequest (moves : List Move) : Prop :=
  ∀ later env b log earlier, moves = later ++ ⟨.scanTick env, b, log⟩ :: earlier →
    (∃ a ∈ log, a.isConnectReq) → Asked earlier b env

/-- The move does not scan with a target left over, and does not hear its target say that it takes no
    connection. -/
def Move.Fresh (m : Move) : Prop :=
  match m.op with
  | .call (.gapScanStart params _) =>
    m.before.scanState = .idle → Ble.ScanAllowed params → m.before.connectTarget = none
  | .scanTick env =>
    m.before.scanState = .running → m.before.scanChannelIdx < 3 → ∀ target data,
      m.before.connectTarget = some target → env.air.pdu ≠ some (.advScanInd target data)
  | _ => True

/-! ## The target of the running scan -/

/-- While a scan goes on, the target is the one it was started for. -/
def Aimed (moves : List Move) (b : Ble) : Prop :=
  b.scanState ≠ .idle → ∀ target, b.connectTarget = some target → scanFor moves = some target

theorem Aimed.of_kept {moves moves' : List Move} {b b' : Ble} (h : Aimed moves b)
    (hkept : Ble.ScanKept b b') (hfor : scanFor moves' = scanFor moves) : Aimed moves' b' := by
  intro hne target htarget
  rw [hfor]
  exact h (fun hidle => hne (hkept.2.mpr hidle)) target (hkept.1 ▸ htarget)

/-- A call that was refused. -/
theorem ApiCall.refused {call : ApiCall} {b : Ble} {e : Error} (h : call.run b = ⟨[], .ok (.error e, b)⟩) :
    call.accepted b = false := by
  unfold ApiCall.accepted
  rw [h]

/-- `gap_connect`: refused, or the new target is the scan's. -/
theorem aimed_gapConnect {hw : Hw} {moves : List Move} {b b' : Ble} (h : Aimed moves b) (target : Buf 6)
    (targetType : AddrType) (now : UInt32) {log : List BleAct}
    (hrun : ((BleOp.call (.gapConnect target targetType now)).run hw b).res = .ok b') :
    Aimed (⟨.call (.gapConnect target targetType now), b, log⟩ :: moves) b' := by
  have hcall : (BleOp.call (.gapConnect target targetType now)).run hw b =
      (b.gapConnect target targetType now >>= fun r => pure r.2) := rfl
  rw [hcall] at hrun
  by_cases hidle : b.scanState = .idle
  · obtain ⟨accum, compare, _, heq⟩ := Ble.gapConnect_eq hidle target targetType now
    have hacc : (ApiCall.gapConnect target targetType now).accepted b = true := by
      unfold ApiCall.accepted
      rw [show (ApiCall.gapConnect target targetType now).run b =
        b.gapConnect target targetType now from rfl, heq]
    rw [heq] at hrun
    cases hrun
    rintro - _ ⟨⟩
    exact if_pos hacc
  · have heq : b.gapConnect target targetType now = ⟨[], .ok (.error .alreadyRunning, b)⟩ := if_pos hidle
    have hacc : (ApiCall.gapConnect target targetType now).accepted b = false := ApiCall.refused heq
    rw [heq] at hrun
    cases hrun
    exact h.of_kept (.refl b) (if_neg (by rw [hacc]; decide))

/-- `gap_scan_start`: refused, or there is no target. -/
theorem aimed_gapScanStart {hw : Hw} {moves : List Move} {b b' : Ble} (h : Aimed moves b)
    (params : ScanParams) (now : UInt32) {log : List BleAct}
    (hfresh : (⟨.call (.gapScanStart params now), b, log⟩ : Move).Fresh)
    (hrun : ((BleOp.call (.gapScanStart params now)).run hw b).res = .ok b') :
    Aimed (⟨.call (.gapScanStart params now), b, log⟩ :: moves) b' := by
  have hcall : (BleOp.call (.gapScanStart params now)).run hw b =
      (b.gapScanStart params now >>= fun r => pure r.2) := rfl
  rw [hcall] at hrun
  by_cases hstart : b.scanState = .idle ∧ Ble.ScanAllowed params
  · obtain ⟨accum, compare, _, heq⟩ := Ble.gapScanStart_eq hstart.1 hstart.2 now
    rw [heq] at hrun
    cases hrun
    intro _ target htarget
    have hnone : b.connectTarget = none := hfresh hstart.1 hstart.2
    rw [show b.connectTarget = some target from htarget] at hnone
    cases hnone
  · obtain ⟨e, heq⟩ := Ble.gapScanStart_refused hstart now
    have hacc : (ApiCall.gapScanStart params now).accepted b = false := ApiCall.refused heq
    rw [heq] at hrun
    cases hrun
    exact h.of_kept (.refl b) (if_neg (by rw [hacc]; decide))

/-- A `scan_tick`: the target stays, or is used up with the scan. -/
theorem aimed_scanTick {moves : List Move} {b b' : Ble} (h : Aimed moves b) {env : ScanEnv}
    {log log' : List BleAct} (heff : Ble.ScanEffect (b.scanOpens env) env.connNow b log b') :
    Aimed (⟨.scanTick env, b, log'⟩ :: moves) b' := by
  intro hne target htarget
  have hscan := heff.scan
  rw [heff.target] at htarget
  split at htarget
  · cases htarget
  · rename_i hopens
    rw [if_neg hopens] at hscan
    refine h ?_ target htarget
    intro hidle
    rw [hidle] at hscan
    exact hne hscan

/-- One move keeps the scan aimed, unless it is a plain scan with a target left over. -/
theorem aimed_step {hw : Hw} {moves : List Move} {b b' : Ble} (hb : b.Bounds) (h : Aimed moves b)
    (op : BleOp) {log : List BleAct} (hfresh : (⟨op, b, log⟩ : Move).Fresh)
    (hrun : (op.run hw b).res = .ok b') : Aimed (⟨op, b, log⟩ :: moves) b' := by
  have hdone := opDone hw op hb
  have hres := hrun
  generalize op.run hw b = x at hdone hres
  cases hdone with
  | @call call _ _ heff =>
    cases hres
    cases call with
    | gapConnect target targetType now => exact aimed_gapConnect h target targetType now hrun
    | gapScanStart params now => exact aimed_gapScanStart h params now hfresh hrun
    | _ => exact h.of_kept (heff.scan rfl) rfl
  | silent hop hbounds hscan hlink =>
    cases hres
    refine h.of_kept hscan ?_
    cases op <;> first | rfl | cases hop
  | adv hbounds heff =>
    cases hres
    refine h.of_kept ?_ rfl
    rw [heff.frame]
    exact ⟨rfl, Iff.rfl⟩
  | scan hbounds heff => cases hres; exact aimed_scanTick h heff
  | panicked hopen hlog => cases hres
  | closed hlog => cases hres; exact h.of_kept ⟨rfl, Iff.rfl⟩ rfl
  | kept hconn hpeer hlog => cases hres; exact h.of_kept ⟨rfl, Iff.rfl⟩ rfl

/-- **The scan is aimed** in every run of fresh moves. -/
theorem Run.aimed {hw : Hw} {moves : List Move} {r : Except Panic Ble} (h : Run hw moves r)
    (hfresh : ∀ m ∈ moves, m.Fresh) : ∀ b, r = .ok b → Aimed moves b := by
  induction h with
  | start =>
    rintro b ⟨⟩ - target htarget
    cases htarget
  | @step moves b op hrun ih =>
    obtain ⟨hlast, hbefore⟩ := List.forall_mem_cons.mp hfresh
    exact fun b' hb' => aimed_step (hrun.bounds b rfl) (ih hbefore b rfl) op hlast hb'

/-! ## The request -/

/-- A tick that transmits a `CONNECT_REQ` heard the target. -/
theorem target_heard {b b' : Ble} {env : ScanEnv} {log : List BleAct}
    (heff : Ble.ScanEffect (b.scanOpens env) env.connNow b log b') (hreq : ∃ a ∈ log, a.isConnectReq) :
    ∃ target, b.scanState = .running ∧ b.scanChannelIdx < 3 ∧ b.connectTarget = some target ∧
      env.air.advertiser = some target := by
  cases hopens : b.scanOpens env with
  | none =>
    obtain ⟨a, hmem, ha⟩ := hreq
    have := (heff.requests hopens a hmem).2
    rw [ha] at this
    cases this
  | some target =>
    unfold Ble.scanOpens at hopens
    split at hopens
    · rename_i hlisten
      obtain ⟨htarget, hadv⟩ := Ble.listenOpens_eq_some.mp hopens
      exact ⟨target, hlisten.1, hlisten.2, htarget, hadv⟩
    · cases hopens

/-- **A `CONNECT_REQ` is sent on request only**, in every run of fresh moves. -/
theorem connect_req_on_request {hw : Hw} {moves : List Move} {r : Except Panic Ble} (h : Run hw moves r)
    (hfresh : ∀ m ∈ moves, m.Fresh) : OnRequest moves := by
  rintro later env b log earlier rfl hreq
  obtain ⟨hlast, hbefore⟩ := List.forall_mem_cons.mp (List.forall_mem_append.mp hfresh).2
  obtain ⟨r', hrun⟩ := h.of_append
  cases hrun with
  | step op hrun =>
    obtain ⟨log', b', htick, _, heff⟩ := Ble.scanTick_effect (hrun.bounds b rfl) env
    rw [show (BleOp.scanTick env).run hw b = b.scanTick env from rfl, htick] at hreq hlast
    obtain ⟨target, hrunning, hidx, htarget, hadv⟩ := target_heard heff hreq
    have hfor := hrun.aimed hbefore b rfl (by rw [hrunning]; rintro ⟨⟩) target htarget
    -- the target sent an `ADV_IND`, the other type being excluded
    unfold Air.advertiser at hadv
    split at hadv
    · rename_i hpdu
      cases hadv
      exact ⟨target, _, hfor, hrunning, hpdu⟩
    · rename_i hpdu
      cases hadv
      exact absurd hpdu (hlast hrunning hidx target _ htarget)
    · cases hadv

/-- Connecting to a device that answers. -/
theorem connect_on_request :
    OnRequest (history Hw.standIn
      [.scanHears (.advInd otherAddr []), .call (.gapConnect otherAddr .«public» 0)]).1 := by
  have hair : (Air.of (.advInd otherAddr [])).pdu = some (.advInd otherAddr []) := by decide +kernel
  have hok : ((history Hw.standIn [.call (.gapConnect otherAddr .«public» 0)]).2.map fun _ => ()) =
      .ok () := by decide +kernel
  cases hend : (history Hw.standIn [.call (.gapConnect otherAddr .«public» 0)]).2 with
  | error p => rw [hend] at hok; cases hok
  | ok b =>
    refine connect_req_on_request (Run.of_history Hw.standIn _) ?_
    rw [history_cons hend, history_cons (b := Ble.new) rfl, List.forall_mem_cons, List.forall_mem_cons]
    refine ⟨?_, trivial, by rintro m ⟨⟩⟩
    intro _ _ target data _
    show (Air.of (.advInd otherAddr [])).pdu ≠ _
    rw [hair]
    rintro ⟨⟩

/-- Connect, give up, and scan for something else: the device is heard. -/
def rescan : List BleOp :=
  [.call (.gapScanStart {} 0), .scanHears (.scanReq otherAddr otherAddr), .call .gapScanStop,
    .call (.gapConnect otherAddr .«public» 0)]

/-- The plain scan connects to the device of the scan before. -/
theorem plain_scan_connects :
    scanFor (history Hw.standIn rescan).1 = none ∧
      ¬ OnRequest (history Hw.standIn (.scanHears (.advInd otherAddr []) :: rescan)).1 := by
  have hfor : scanFor (history Hw.standIn rescan).1 = none := by decide +kernel
  refine ⟨hfor, ?_⟩
  have hsent : ((history Hw.standIn rescan).2.map fun b =>
      ((BleOp.scanHears (.advInd otherAddr [])).run Hw.standIn b).log.any BleAct.isConnectReq) =
      .ok true := by decide +kernel
  cases hend : (history Hw.standIn rescan).2 with
  | error p => rw [hend] at hsent; cases hsent
  | ok b =>
    rw [hend] at hsent
    intro h
    rw [history_cons hend] at h
    obtain ⟨target, _, hasked, _⟩ := h [] _ b _ _ rfl (by simpa using Except.ok.inj hsent)
    rw [hfor] at hasked
    cases hasked

end NrfBle
