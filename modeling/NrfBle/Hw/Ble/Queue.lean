/-
  The events of an operation: what it pushes is in its log, and how much that can be.

  `push_event` is called from many places, but few of them meet in one operation.
  `Enqueues alone k q x g` says of a program `x` that found the queue `q`: at most `k` events are in its
  log, and the queue of the state it returned is `q` with them pushed.  It follows the program's own
  binds (`Enqueues.bind`), so that one tick is the sum of its parts: two events from `adv_tick` and
  `conn_tick`, three from `scan_tick` (`advTick_enqueues`, `connTick_enqueues`, `scanTick_enqueues`).
  What the advertiser and the scanner do they do alone: no connection acts in their ticks.

  A call pushes one event at most, and only by starting what was idle; so between two ticks the calls
  of the application push at most one event for each of advertiser and scanner that is idle
  (`ofApp_spends`).  And only a call that configures the advertising data changes it (`run_dataKept`).
-/
import Mathlib.Tactic
import NrfBle.Hw.Ble.Run

namespace NrfBle

open Checked

/-- The events of a log. -/
def pushed (log : List BleAct) : List BleEvent :=
  log.filterMap fun a => match a with
    | .push evt => some evt
    | _ => none

theorem pushed_append (xs ys : List BleAct) : pushed (xs ++ ys) = pushed xs ++ pushed ys :=
  List.filterMap_append

/-- A connection's own actions are no events of its host. -/
theorem pushed_conn (acts : List Act) : pushed (acts.map BleAct.conn) = [] := by
  unfold pushed
  rw [List.filterMap_map]
  exact List.filterMap_eq_nil_iff.mpr fun _ _ => rfl

namespace Ble

/-- The queue with these events pushed, in order. -/
def pushAll (q : Events) (evts : List BleEvent) : Events := evts.foldl pushEvent q

/-- **A program whose events are all in its log**, at most `k` of them; `g` picks the state out of its
    result, and `q` is the queue it found.  If it works `alone`, no connection acts in it. -/
structure Enqueues {α : Type} (alone : Prop) (k : Nat) (q : Events) (x : Logged BleAct α) (g : α → Ble) :
    Prop where
  few : (pushed x.log).length ≤ k
  queue : ∀ a, x.res = .ok a → (g a).events = pushAll q (pushed x.log)
  alone : alone → ∀ act, .conn act ∉ x.log

section Enqueues

variable {α β : Type} {alone : Prop} {k : Nat} {q : Events} {x : Logged BleAct α} {g : α → Ble}

theorem Enqueues.mono (h : Enqueues alone k q x g) {m : Nat} (hk : k ≤ m) : Enqueues alone m q x g :=
  ⟨h.few.trans hk, h.queue, h.alone⟩

/-- The queue that was found, in other words. -/
theorem Enqueues.found {q' : Events} (h : Enqueues alone k q' x g) (hq : q' = q) : Enqueues alone k q x g := by
  rw [← hq]
  exact h

/-- A program that logs no event and leaves the queue alone. -/
theorem Enqueues.silent (hlog : pushed x.log = []) (hq : ∀ a, x.res = .ok a → (g a).events = q)
    (halone : alone → ∀ act, .conn act ∉ x.log) : Enqueues alone k q x g where
  few := by rw [hlog]; exact Nat.zero_le k
  queue := by
    intro a ha
    rw [hlog]
    exact hq a ha
  alone := halone

theorem Enqueues.pure {a : α} (h : (g a).events = q) : Enqueues alone k q (pure a) g :=
  .silent rfl (by rintro _ ⟨⟩; exact h) fun _ _ => List.not_mem_nil

theorem Enqueues.lift {y : Except Panic α} (h : ∀ a, y = .ok a → (g a).events = q) :
    Enqueues alone k q (Logged.lift y) g :=
  .silent rfl h fun _ _ => List.not_mem_nil

theorem Enqueues.bind {m : Nat} {f : α → Logged BleAct β} {g' : β → Ble} (hx : Enqueues alone k q x g)
    (hf : ∀ a, x.res = .ok a → Enqueues alone m (g a).events (f a) g') :
    Enqueues alone (k + m) q (x >>= f) g' := by
  cases hres : x.res with
  | error p =>
    rw [Logged.bind_of_error hres]
    exact ⟨hx.few.trans (Nat.le_add_right k m), by rintro _ ⟨⟩, hx.alone⟩
  | ok a =>
    have hfa := hf a hres
    rw [Logged.bind_of_ok hres]
    refine ⟨?_, ?_, ?_⟩
    · rw [pushed_append, List.length_append]
      exact Nat.add_le_add hx.few hfa.few
    · intro b hb
      rw [hfa.queue b hb, hx.queue a hres, pushed_append]
      exact List.foldl_append.symm
    · intro halone act hmem
      exact (List.mem_append.mp hmem).elim (hx.alone halone act) (hfa.alone halone act)

/-- Behind a program that pushes nothing. -/
theorem Enqueues.after {m : Nat} {f : α → Logged BleAct β} {g' : β → Ble} (hx : Enqueues alone 0 q x g)
    (hf : ∀ a, x.res = .ok a → Enqueues alone m (g a).events (f a) g') : Enqueues alone m q (x >>= f) g' :=
  (hx.bind hf).mono (Nat.zero_add m).le

end Enqueues

variable {alone : Prop}

theorem Enqueues.push {q : Events} {b : Ble} {evt : BleEvent} (hq : b.events = q) :
    Enqueues alone 1 q (b.push evt) id where
  few := Nat.le_refl 1
  queue := by
    rintro _ ⟨⟩
    rw [← hq]
    rfl
  alone := by
    rintro _ act hmem
    cases List.mem_singleton.mp hmem

theorem setChannel_enqueues (b : Ble) (channel : UInt8) :
    Enqueues alone 0 b.events (setChannel channel) (fun _ => b) := by
  unfold setChannel
  split
  · exact .pure rfl
  · exact .silent rfl (fun _ _ => rfl) fun _ act hmem => by cases List.mem_singleton.mp hmem

theorem transmit_enqueues (b : Ble) (len : Nat) : Enqueues alone 0 b.events (b.transmit len)
    (fun _ => b) := by
  unfold transmit
  refine .after (g := fun _ => b) (.lift fun _ _ => rfl) ?_
  intro pdu _
  exact .silent rfl (fun _ _ => rfl) fun _ act hmem => by cases List.mem_singleton.mp hmem

theorem encodeTx_events {b : Ble} {pdu : AdvPdu} {txAdd rxAdd : Bool} {r : Except Error Nat × Ble}
    (h : b.encodeTx pdu txAdd rxAdd = .ok r) : r.2.events = b.events := by
  unfold encodeTx at h
  obtain ⟨⟨answer, txBuf⟩, _, h⟩ := bind_eq_ok.mp h
  cases h
  rfl

theorem encodeUnwrap_events {b : Ble} {pdu : AdvPdu} {txAdd rxAdd : Bool} {r : Nat × Ble}
    (h : b.encodeUnwrap pdu txAdd rxAdd = .ok r) : r.2.events = b.events := by
  unfold encodeUnwrap at h
  obtain ⟨⟨answer, b'⟩, henc, h⟩ := bind_eq_ok.mp h
  cases answer with
  | error e => cases h
  | ok len =>
    cases h
    exact encodeTx_events henc

theorem receivePdu_enqueues (b : Ble) (air : Air) :
    Enqueues alone 0 b.events (Logged.lift (b.receivePdu air)) Prod.snd := by
  rw [b.receivePdu_eq]
  exact .lift (by rintro _ ⟨⟩; rfl)

/-! ## The advertiser -/

theorem sendScanRsp_enqueues (b : Ble) (addr : Buf 6) :
    Enqueues alone 0 b.events (b.sendScanRsp addr) id := by
  unfold sendScanRsp
  split
  · refine .after (g := fun _ => b) (.lift fun _ _ => rfl) ?_
    intro data _
    refine .after (g := Prod.snd) (.lift fun _ h => encodeUnwrap_events h) ?_
    rintro ⟨len, b'⟩ _
    exact .after (transmit_enqueues b' len) fun _ _ => .pure rfl
  · exact .pure rfl

theorem transmitOnAux_enqueues (b : Ble) (pdu : AdvPdu) (now : UInt32) :
    Enqueues alone 0 b.events (b.transmitOnAux pdu now) id := by
  unfold transmitOnAux
  refine .after (g := Prod.snd) (.lift fun _ h => encodeUnwrap_events h) ?_
  rintro ⟨len, b'⟩ _
  dsimp only
  generalize hb'' : ({ b' with compare := now + UInt32.ofNat (timeoutTicks 200) } : Ble) = b''
  have hq : b'.events = b''.events := by rw [← hb'']
  rw [hq]
  refine .after (setChannel_enqueues b'' 0) fun _ _ => ?_
  refine .after (transmit_enqueues b'' len) fun _ _ => ?_
  exact .after (setChannel_enqueues b'' 37) fun _ _ => .pure rfl

theorem transmitAuxAdv_enqueues (b : Ble) (now : UInt32) :
    Enqueues alone 0 b.events (b.transmitAuxAdv now) id :=
  .after (g := fun _ => b) (.lift fun _ _ => rfl) fun pdu _ => b.transmitOnAux_enqueues pdu now

theorem radioWindow_events {b : Ble} {acceptMask : UInt32} {air : Air} {r : Bool × Ble}
    (h : b.radioWindow acceptMask air = .ok r) : r.2.events = b.events := by
  obtain ⟨rxPduLen, hwin, _⟩ := b.radioWindow_eq acceptMask air
  rw [hwin] at h
  cases h
  rfl

theorem listenForScanReq_enqueues (b : Ble) (air : Air) :
    Enqueues alone 0 b.events (b.listenForScanReq air) id := by
  unfold listenForScanReq
  refine .after (g := Prod.snd) (.lift fun _ h => radioWindow_events h) ?_
  rintro ⟨accepted, b'⟩ _
  dsimp only
  split
  · exact sendScanRsp_enqueues b' _
  · exact .pure rfl

/-- A `CONNECT_REQ` is two events, the only ones of an advertiser that runs. -/
theorem listenForScanAndConnect_enqueues (b : Ble) (channel : UInt8) (air : Air) (now : UInt32) :
    Enqueues alone 2 b.events (b.listenForScanAndConnect channel air now) id := by
  unfold listenForScanAndConnect
  refine .after (g := Prod.snd) (.lift fun _ h => radioWindow_events h) ?_
  rintro ⟨accepted, b'⟩ _
  dsimp only
  split
  · exact .pure rfl
  refine .after (g := fun _ => b') (.lift fun _ _ => rfl) ?_
  intro pdu _
  split
  · exact (sendScanRsp_enqueues b' _).mono (Nat.zero_le 2)
  · refine .after (g := fun _ => b') (.lift fun _ _ => rfl) ?_
    intro params _
    split
    · exact Enqueues.bind (k := 1) (m := 1) (g := id) (.push rfl) fun b'' _ => .push rfl
    · exact .pure rfl
  · exact .pure rfl

theorem advServe_enqueues (b : Ble) (channel : UInt8) (env : AdvEnv) :
    Enqueues alone 2 b.events (b.advServe channel env) id := by
  unfold advServe
  split
  · refine .after (transmitAuxAdv_enqueues b env.auxNow) ?_
    intro b' _
    split
    · exact (transmitOnAux_enqueues b' _ _).mono (Nat.zero_le 2)
    · exact .pure rfl
  · split
    · exact listenForScanAndConnect_enqueues b channel env.air env.connNow
    · exact listenForScanAndConnect_enqueues b channel env.air env.connNow
    · exact (listenForScanReq_enqueues b env.air).mono (Nat.zero_le 2)
    · exact .pure rfl

theorem buildPrimary_events {extended : Bool} {q : Events} {b b' : Ble} (hq : b.events = q)
    (h : (if extended then b.buildExtAdvPdu else b.buildAdvPdu) = .ok b') : b'.events = q := by
  split at h
  · unfold buildExtAdvPdu at h
    obtain ⟨⟨len, b₁⟩, henc, h⟩ := bind_eq_ok.mp h
    cases h
    exact (encodeUnwrap_events henc).trans hq
  · unfold buildAdvPdu at h
    obtain ⟨pdu, _, h⟩ := bind_eq_ok.mp h
    obtain ⟨⟨len, b₁⟩, henc, h⟩ := bind_eq_ok.mp h
    cases h
    exact (encodeUnwrap_events henc).trans hq

theorem advEvent_enqueues (b : Ble) (env : AdvEnv) : Enqueues alone 2 b.events (b.advEvent env) id := by
  unfold advEvent
  refine .after (g := fun _ => b) (.lift fun _ _ => rfl) fun channel _ => ?_
  refine .after (g := fun _ => b) (.lift fun _ _ => rfl) ?_
  rintro ⟨i, channel⟩ _
  dsimp only
  refine .after (setChannel_enqueues b channel) fun _ _ => ?_
  refine .after (g := id) (.lift fun _ => buildPrimary_events
    (b := { b with advChannelIdx := (i + 1) % 3 }) rfl)
    fun b₁ _ => ?_
  refine .after (transmit_enqueues b₁ _) fun _ _ => ?_
  refine Enqueues.bind (k := 2) (m := 0) (advServe_enqueues b₁ channel env) fun b₂ _ => ?_
  exact .after (g := fun _ => b₂) (.lift fun _ _ => rfl) fun _ _ => .pure rfl

theorem advTick_enqueues (b : Ble) (env : AdvEnv) : Enqueues alone 2 b.events (b.advTick env) id := by
  unfold advTick
  split
  · exact .pure rfl
  · refine .mono (k := 1) ?_ (show 1 ≤ 2 by decide)
    exact .push rfl
  · exact advEvent_enqueues b env

/-! ## The scanner -/

theorem handlePeriodicAux_enqueues (b : Ble) (channel : UInt8) (payload : List UInt8) (now : UInt32) :
    Enqueues alone 1 b.events (b.handlePeriodicAux channel payload now) id := by
  unfold handlePeriodicAux
  split
  · exact .pure rfl
  refine .after (g := fun _ => b) (.lift fun _ _ => rfl) fun field _ => ?_
  split
  · exact .pure rfl
  · exact .after (g := fun _ => b) (.lift fun _ _ => rfl) fun _ _ => .push rfl

theorem periodicTick_enqueues (b : Ble) (env : ScanEnv) :
    Enqueues alone 1 b.events (b.periodicTick env) id := by
  unfold periodicTick
  split
  · exact .pure rfl
  split
  · exact .pure rfl
  refine .after (g := fun _ => b) (.lift fun _ _ => rfl) ?_
  rintro ⟨ticks, sync⟩ _
  dsimp only
  refine .after (g := fun _ => b) (setChannel_enqueues b _) fun _ _ => ?_
  refine .after (g := Prod.snd) (.found (receivePdu_enqueues _ _) rfl) ?_
  rintro ⟨got, b'⟩ _
  dsimp only
  split
  · exact .push rfl
  · exact .pure rfl

theorem auxReceive_enqueues (b : Ble) (ptr : AuxPtr) (env : ScanEnv) :
    Enqueues alone 1 b.events (b.auxReceive ptr env) Prod.snd := by
  unfold auxReceive
  refine .after (g := Prod.snd) (receivePdu_enqueues b _) ?_
  rintro ⟨got, b'⟩ _
  dsimp only
  split
  · refine .after (g := fun _ => b') (.lift fun _ _ => rfl) fun raw _ => ?_
    split
    · exact Enqueues.bind (k := 1) (m := 0) (handlePeriodicAux_enqueues b' _ _ _) fun _ _ => .pure rfl
    · exact .pure rfl
  · exact .pure rfl

theorem followAux_enqueues (b : Ble) (ptr : AuxPtr) (env : ScanEnv) :
    Enqueues alone 1 b.events (b.followAux ptr env) Prod.snd := by
  unfold followAux
  refine .after (setChannel_enqueues b ptr.channel) fun answer _ => ?_
  split
  · exact .pure rfl
  · refine Enqueues.bind (k := 1) (m := 0) (g := Prod.snd) (.found (auxReceive_enqueues _ ptr env) rfl)
      ?_
    rintro ⟨found, b'⟩ _
    dsimp only
    split
    · exact .pure rfl
    · exact .after (setChannel_enqueues b' 37) fun _ _ => .pure rfl

theorem listenForScanRsp_enqueues (b : Ble) (air : Air) :
    Enqueues alone 1 b.events (b.listenForScanRsp air) id := by
  unfold listenForScanRsp
  refine .after (g := Prod.snd) (receivePdu_enqueues b air) ?_
  rintro ⟨got, b'⟩ _
  dsimp only
  split
  · exact .push rfl
  · exact .pure rfl

theorem respondScanReq_enqueues (b : Ble) (env : ScanEnv) :
    Enqueues alone 1 b.events (b.respondScanReq env) id := by
  unfold respondScanReq
  refine .after (g := fun _ => b) (.lift fun _ _ => rfl) fun bytes _ => ?_
  split
  · exact .pure rfl
  refine .after (g := Prod.snd) (.lift fun _ h => encodeTx_events h) ?_
  rintro ⟨answer, b'⟩ _
  dsimp only
  split
  · exact .pure rfl
  · exact .after (transmit_enqueues b' _) fun _ _ => listenForScanRsp_enqueues b' env.rspAir

theorem sendConnectReq_enqueues (b : Ble) (now : UInt32) :
    Enqueues alone 1 b.events (b.sendConnectReq now) id := by
  unfold sendConnectReq
  split
  · exact .pure rfl
  refine .after (g := fun _ => b) (.lift fun _ _ => rfl) ?_
  rintro ⟨answer, llData⟩ _
  dsimp only
  split
  · exact .pure rfl
  refine .after (g := Prod.snd) (.lift fun _ h => encodeTx_events h) ?_
  rintro ⟨answer, b'⟩ _
  dsimp only
  split
  · exact .pure rfl
  · exact .after (transmit_enqueues b' _) fun _ _ => .push rfl

/-- A report and the scan response, or the connection. -/
theorem handleScannable_enqueues (b : Ble) (addr : Buf 6) (advType : UInt8) (data : List UInt8)
    (env : ScanEnv) : Enqueues alone 2 b.events (b.handleScannable addr advType data env) id := by
  unfold handleScannable
  split
  · exact (sendConnectReq_enqueues b env.connNow).mono (by decide)
  split
  · exact .pure rfl
  refine Enqueues.bind (k := 1) (m := 1) (g := id) (.push rfl) fun b' _ => ?_
  split
  · exact respondScanReq_enqueues b' env
  · exact .pure rfl

theorem handleScanPdu_enqueues (b : Ble) (env : ScanEnv) :
    Enqueues alone 2 b.events (b.handleScanPdu env) id := by
  unfold handleScanPdu
  refine .after (g := fun _ => b) (.lift fun _ _ => rfl) fun pdu _ => ?_
  split
  · exact handleScannable_enqueues b _ _ _ env
  · exact handleScannable_enqueues b _ _ _ env
  · refine Enqueues.bind (k := 1) (m := 1) (followAux_enqueues b _ env) ?_
    rintro ⟨found, b'⟩ _
    dsimp only
    split
    · exact .push rfl
    · exact .pure rfl
  · exact .pure rfl

theorem scanListen_enqueues {b : Ble} (hidx : b.scanChannelIdx < 3) (env : ScanEnv) :
    Enqueues alone 2 b.events (b.scanListen env) id := by
  obtain ⟨start, channel, b₁, hb₁, hlisten⟩ := scanListen_eq hidx env
  have hq : b.events = b₁.events := by rw [hb₁]
  rw [hlisten, hq]
  refine Enqueues.after (x := ⟨[.setChannel channel], .ok ()⟩) (g := fun _ => b₁)
    (.silent rfl (fun _ _ => rfl) fun _ act hmem => by cases List.mem_singleton.mp hmem)
    (m := 2) (f := fun _ => _) fun _ _ => ?_
  split
  · exact .pure rfl
  · exact .found (handleScanPdu_enqueues _ env) rfl

theorem scanStep_enqueues (b : Ble) (env : ScanEnv) : Enqueues alone 2 b.events (b.scanStep env) id := by
  unfold scanStep
  split
  · refine .mono (k := 1) ?_ (show 1 ≤ 2 by decide)
    exact .push rfl
  split
  · exact .after (g := fun _ => b) (.lift fun _ _ => rfl) fun _ _ => .pure rfl
  · rename_i hidx
    exact scanListen_enqueues (by omega) env

/-- A train's event, and those of the listen. -/
theorem scanTick_enqueues (b : Ble) (env : ScanEnv) : Enqueues alone 3 b.events (b.scanTick env) id := by
  unfold scanTick
  split
  · exact .pure rfl
  · exact Enqueues.bind (k := 1) (m := 2) (periodicTick_enqueues b env) fun b' _ =>
      scanStep_enqueues b' env

/-! ## The connection -/

theorem closeLink_enqueues (b : Ble) (reason : DisconnectReason) :
    Enqueues alone 1 b.events (b.closeLink reason) Prod.snd := by
  unfold closeLink
  refine .after (setChannel_enqueues b 37) fun _ _ => ?_
  exact Enqueues.bind (k := 1) (m := 0) (g := id) (.push rfl) fun _ _ => .pure rfl

theorem connReport_enqueues (b : Ble) (evt : ConnEvent) :
    Enqueues alone 1 b.events (b.connReport evt) id := by
  unfold connReport
  split
  · exact .push rfl
  · exact .push rfl
  · exact .pure rfl

theorem connDeliver_enqueues (b : Ble) : Enqueues alone 1 b.events b.connDeliver Prod.snd := by
  unfold connDeliver
  split
  · exact .pure rfl
  split
  · exact Enqueues.bind (k := 1) (m := 0) (g := id) (.push rfl) fun _ _ => .pure rfl
  · exact .pure rfl

/-- The end of the link, or a report and received data. -/
theorem connTick_enqueues (hw : Hw) (b : Ble) (env : ConnEnv) :
    Enqueues False 2 b.events (b.connTick hw env) Prod.snd := by
  unfold connTick
  split
  · exact (closeLink_enqueues b _).mono (by decide)
  split
  · exact (closeLink_enqueues b _).mono (by decide)
  refine .after (g := fun _ => b) (.silent (pushed_conn _) (fun _ _ => rfl) False.elim) ?_
  rintro ⟨answer, c⟩ _
  dsimp only
  split
  · refine .mono (k := 1) ?_ (show 1 ≤ 2 by decide)
    exact .found (closeLink_enqueues _ _) rfl
  · refine .mono (k := 1) ?_ (show 1 ≤ 2 by decide)
    exact .found (closeLink_enqueues _ _) rfl
  · exact Enqueues.bind (k := 1) (m := 1) (g := id) (.found (connReport_enqueues _ _) rfl)
      fun b' _ => connDeliver_enqueues b'

/-! ## The calls -/

/-- How many events the calls of the application can push before the next tick. -/
def credit (b : Ble) : Nat :=
  (if b.advState = .idle then 1 else 0) + (if b.scanState = .idle then 1 else 0)

theorem credit_le (b : Ble) : b.credit ≤ 2 := by
  unfold credit
  split <;> split <;> decide

/-- Advertiser and scanner idle as before. -/
theorem credit_congr {b b' : Ble} (hadv : b'.advState = .idle ↔ b.advState = .idle)
    (hscan : b'.scanState = .idle ↔ b.scanState = .idle) : b'.credit = b.credit := by
  unfold credit
  simp only [hadv, hscan]

/-- The advertising data and the scan response are as they were. -/
def DataKept (b b' : Ble) : Prop :=
  b'.advData = b.advData ∧ b'.advDataLen = b.advDataLen ∧ b'.scanRsp = b.scanRsp ∧
    b'.scanRspLen = b.scanRspLen

/-- **What an operation of the application does**: it pushes nothing, or one event for one of the two
    that was idle, which has started; and the data changes only where it configures them. -/
structure Spends (configures : Bool) (b : Ble) (log : List BleAct) (b' : Ble) : Prop where
  paid : (pushed log).length + b'.credit ≤ b.credit
  queue : b'.events = pushAll b.events (pushed log)
  started : ∀ evt ∈ pushed log, evt = .advStarted ∨ evt = .scanStarted
  data : configures = false → DataKept b b'

theorem Spends.nothing {configures : Bool} {b b' : Ble} {log : List BleAct} (hlog : pushed log = [])
    (hadv : b'.advState = .idle ↔ b.advState = .idle)
    (hscan : b'.scanState = .idle ↔ b.scanState = .idle) (hq : b'.events = b.events)
    (hdata : configures = false → DataKept b b') : Spends configures b log b' := by
  refine ⟨?_, ?_, ?_, hdata⟩
  · rw [hlog, credit_congr hadv hscan]
    exact (Nat.zero_add _).le
  · rw [hlog, hq]
    rfl
  · rw [hlog]
    exact List.forall_mem_nil _

/-- Refused, or nothing to do with the queue. -/
theorem Spends.refl {configures : Bool} (b : Ble) : Spends configures b [] b :=
  .nothing rfl Iff.rfl Iff.rfl rfl fun _ => ⟨rfl, rfl, rfl, rfl⟩

theorem gapAdvStart_spends (b : Ble) (params : AdvParams) (now : UInt32) :
    ∃ log answer b', b.gapAdvStart params now = ⟨log, .ok (answer, b')⟩ ∧ Spends false b log b' := by
  by_cases h : b.advState = .idle ∧ AdvAllowed params
  · obtain ⟨accum, compare, _, heq⟩ := gapAdvStart_eq h.1 h.2 now
    refine ⟨_, _, _, heq, ?_, rfl, List.forall_mem_singleton.mpr (.inl rfl), fun _ =>
      ⟨rfl, rfl, rfl, rfl⟩⟩
    have hrun : ¬ AdvState.running = .idle := by rintro ⟨⟩
    unfold credit
    rw [if_pos h.1, if_neg hrun, Nat.zero_add]
    exact Nat.le_refl _
  · obtain ⟨e, heq⟩ := gapAdvStart_refused h now
    exact ⟨_, _, _, heq, .refl b⟩

theorem gapScanStart_spends (b : Ble) (params : ScanParams) (now : UInt32) :
    ∃ log answer b', b.gapScanStart params now = ⟨log, .ok (answer, b')⟩ ∧ Spends false b log b' := by
  by_cases h : b.scanState = .idle ∧ ScanAllowed params
  · obtain ⟨accum, compare, _, heq⟩ := gapScanStart_eq h.1 h.2 now
    refine ⟨_, _, _, heq, ?_, rfl, List.forall_mem_singleton.mpr (.inr rfl), fun _ =>
      ⟨rfl, rfl, rfl, rfl⟩⟩
    have hrun : ¬ ScanState.running = .idle := by rintro ⟨⟩
    unfold credit
    rw [if_pos h.1, if_neg hrun]
    exact (Nat.add_comm 1 _).le
  · obtain ⟨e, heq⟩ := gapScanStart_refused h now
    exact ⟨_, _, _, heq, .refl b⟩

/-- Setting the target costs nothing. -/
theorem gapConnect_spends (b : Ble) (target : Buf 6) (targetType : AddrType) (now : UInt32) :
    ∃ log answer b', b.gapConnect target targetType now = ⟨log, .ok (answer, b')⟩ ∧
      Spends false b log b' := by
  unfold gapConnect
  split
  · exact ⟨_, _, _, rfl, .refl b⟩
  · obtain ⟨log, answer, b', h, hspends⟩ := gapScanStart_spends
      { b with connectTarget := some target, connectTargetType := targetType } connectScanParams now
    exact ⟨log, answer, b', h, hspends.paid, hspends.queue, hspends.started, hspends.data⟩

theorem onConn_spends (b : Ble) (f : Conn → Conn) :
    ∃ log answer b', b.onConn f = ⟨log, .ok (answer, b')⟩ ∧ Spends false b log b' := by
  unfold onConn
  split
  · exact ⟨_, _, _, rfl, .refl b⟩
  · exact ⟨_, _, _, rfl, .nothing rfl Iff.rfl Iff.rfl rfl fun _ => ⟨rfl, rfl, rfl, rfl⟩⟩

end Ble

/-- The call that sets the data. -/
def ApiCall.configures : ApiCall → Bool
  | .gapAdvSetConfigure _ _ => true
  | _ => false

/-- **A call and the queue.** -/
theorem ApiCall.run_spends (call : ApiCall) (b : Ble) :
    ∃ log answer b', call.run b = ⟨log, .ok (answer, b')⟩ ∧ b.Spends call.configures log b' := by
  cases call with
  | gapAdvStart params now => exact b.gapAdvStart_spends params now
  | gapScanStart params now => exact b.gapScanStart_spends params now
  | gapConnect target targetType now => exact b.gapConnect_spends target targetType now
  | gapAdvSetConfigure advData scanRspData =>
    by_cases hlen : advData.length > legacyAdDataMaxLen ∨ scanRspData.length > legacyAdDataMaxLen
    · exact ⟨[], .error .invalidLength, b, if_pos hlen, .refl b⟩
    · obtain ⟨advBuf, rspBuf, _, heq⟩ := b.gapAdvSetConfigure_eq
        (show advData.length ≤ legacyAdDataMaxLen by omega) (show scanRspData.length ≤ _ by omega)
      exact ⟨_, _, _, heq, .nothing rfl Iff.rfl Iff.rfl rfl (by rintro ⟨⟩)⟩
  | gapAdvStop =>
    show ∃ log answer b', b.gapAdvStop = ⟨log, .ok (answer, b')⟩ ∧ b.Spends false log b'
    unfold Ble.gapAdvStop
    split
    · rename_i hrun
      refine ⟨_, _, _, rfl, .nothing rfl ?_ Iff.rfl rfl fun _ => ⟨rfl, rfl, rfl, rfl⟩⟩
      rw [hrun]
      exact ⟨by rintro ⟨⟩, by rintro ⟨⟩⟩
    · exact ⟨_, _, _, rfl, .refl b⟩
    · exact ⟨_, _, _, rfl, .refl b⟩
  | gapScanStop =>
    show ∃ log answer b', b.gapScanStop = ⟨log, .ok (answer, b')⟩ ∧ b.Spends false log b'
    unfold Ble.gapScanStop
    split
    · rename_i hrun
      refine ⟨_, _, _, rfl, .nothing rfl Iff.rfl ?_ rfl fun _ => ⟨rfl, rfl, rfl, rfl⟩⟩
      rw [hrun]
      exact ⟨by rintro ⟨⟩, by rintro ⟨⟩⟩
    · exact ⟨_, _, _, rfl, .refl b⟩
    · exact ⟨_, _, _, rfl, .refl b⟩
  | l2capSend data =>
    show ∃ log answer b', b.l2capSend data = ⟨log, .ok (answer, b')⟩ ∧ b.Spends false log b'
    unfold Ble.l2capSend
    split
    · exact ⟨_, _, _, rfl, .refl b⟩
    · exact ⟨_, _, _, rfl, .nothing rfl Iff.rfl Iff.rfl rfl fun _ => ⟨rfl, rfl, rfl, rfl⟩⟩
  | gapEncrypt =>
    -- the one call with a log of its own: the keys it sets up
    show ∃ log answer b', b.gapEncrypt = ⟨log, .ok (answer, b')⟩ ∧ b.Spends false log b'
    unfold Ble.gapEncrypt
    split
    · exact ⟨_, _, _, rfl, .refl b⟩
    · rename_i c _
      unfold Conn.gapEncrypt
      split
      · exact ⟨_, _, _, rfl, .nothing rfl Iff.rfl Iff.rfl rfl fun _ => ⟨rfl, rfl, rfl, rfl⟩⟩
      · split
        · exact ⟨_, _, _, rfl, .nothing rfl Iff.rfl Iff.rfl rfl fun _ => ⟨rfl, rfl, rfl, rfl⟩⟩
        · exact ⟨_, _, _, rfl, .nothing rfl Iff.rfl Iff.rfl rfl fun _ => ⟨rfl, rfl, rfl, rfl⟩⟩
  | _ => exact b.onConn_spends _

/-- What an application does from its callback: any call, but no tick and no `next_event`. -/
def BleOp.ofApp : BleOp → Bool
  | .nextEvent | .advTick _ | .scanTick _ | .connTick _ => false
  | _ => true

/-- The operation that sets the data. -/
def BleOp.configures : BleOp → Bool
  | .call api => api.configures
  | _ => false

/-- **An operation of the application**: it returns, and what it pushes it pays for. -/
theorem ofApp_spends (hw : Hw) {op : BleOp} (hop : op.ofApp = true) (b : Ble) :
    ∃ log b', op.run hw b = ⟨log, .ok b'⟩ ∧ b.Spends op.configures log b' := by
  cases op with
  | nextEvent | advTick | scanTick | connTick => cases hop
  | call call =>
    obtain ⟨log, answer, b', h, hspends⟩ := call.run_spends b
    refine ⟨log, b', ?_, hspends⟩
    show (call.run b >>= fun r => pure r.2) = _
    rw [h, Logged.mk_ok_bind, Logged.pure_eq_mk, Logged.prepend_mk, List.append_nil]
  | gapRotateRpa now =>
    refine ⟨[], (b.gapRotateRpa hw now).2, rfl, ?_⟩
    unfold Ble.gapRotateRpa
    split
    · exact .refl b
    · exact .nothing rfl Iff.rfl Iff.rfl rfl fun _ => ⟨rfl, rfl, rfl, rfl⟩
  | gapBondSave peer ltk irk =>
    refine ⟨[], b.gapBondSave peer ltk irk, rfl, ?_⟩
    unfold Ble.gapBondSave
    split
    · exact .refl b
    · exact .nothing rfl Iff.rfl Iff.rfl rfl fun _ => ⟨rfl, rfl, rfl, rfl⟩
  | gattPoll =>
    refine ⟨[], b.gattPoll.2, rfl, ?_⟩
    unfold Ble.gattPoll
    split
    · exact .refl b
    · exact .nothing rfl Iff.rfl Iff.rfl rfl fun _ => ⟨rfl, rfl, rfl, rfl⟩
  | _ => exact ⟨[], _, rfl, .nothing rfl Iff.rfl Iff.rfl rfl fun _ => ⟨rfl, rfl, rfl, rfl⟩⟩

/-- **Any operation but the one that sets them** leaves the data alone. -/
theorem run_dataKept (hw : Hw) {op : BleOp} (hop : op.configures = false) {b b' : Ble} (hb : b.Bounds)
    (h : (op.run hw b).res = .ok b') : b.DataKept b' := by
  have happ : op.ofApp = true → b.DataKept b' := by
    intro happ
    obtain ⟨log, b₁, hrun, hspends⟩ := ofApp_spends hw happ b
    rw [hrun] at h
    cases h
    exact hspends.data hop
  cases op with
  | nextEvent =>
    cases h
    exact ⟨rfl, rfl, rfl, rfl⟩
  | advTick env =>
    have hdone := opDone hw (.advTick env) hb
    generalize BleOp.run hw (.advTick env) b = x at hdone h
    cases hdone with
    | silent hsilent => cases hsilent
    | adv hbounds heff =>
      cases h
      rw [heff.frame]
      exact ⟨rfl, rfl, rfl, rfl⟩
  | scanTick env =>
    have hdone := opDone hw (.scanTick env) hb
    generalize BleOp.run hw (.scanTick env) b = x at hdone h
    cases hdone with
    | silent hsilent => cases hsilent
    | scan hbounds heff =>
      cases h
      rw [heff.frame]
      exact ⟨rfl, rfl, rfl, rfl⟩
  | connTick env =>
    have hdone := opDone hw (.connTick env) hb
    generalize BleOp.run hw (.connTick env) b = x at hdone h
    cases hdone with
    | silent hsilent => cases hsilent
    | panicked hopen hlog => cases h
    | closed hlog =>
      cases h
      exact ⟨rfl, rfl, rfl, rfl⟩
    | kept hconn hpeer hlog =>
      cases h
      exact ⟨rfl, rfl, rfl, rfl⟩
  | _ => exact happ rfl

/-- **Any operation but `next_event`** pushes three events at most, and pops none. -/
theorem run_enqueues (hw : Hw) {op : BleOp} (hop : op ≠ .nextEvent) (b : Ble) :
    Ble.Enqueues False 3 b.events (op.run hw b) id := by
  have happ : op.ofApp = true → Ble.Enqueues False 3 b.events (op.run hw b) id := by
    intro happ
    obtain ⟨log, b₁, hrun, hspends⟩ := ofApp_spends hw happ b
    rw [hrun]
    have hfew := hspends.paid
    have hcredit := b.credit_le
    exact ⟨show (pushed log).length ≤ 3 by omega, by rintro _ ⟨⟩; exact hspends.queue,
      False.elim⟩
  cases op with
  | nextEvent => exact absurd rfl hop
  | advTick env => exact (b.advTick_enqueues env).mono (by decide)
  | scanTick env => exact b.scanTick_enqueues env
  | connTick env =>
    exact Ble.Enqueues.bind (k := 2) (m := 1) (b.connTick_enqueues hw env) fun _ _ => .pure rfl
  | _ => exact happ rfl

/-- Any operation but a connection event returns. -/
theorem run_returns (hw : Hw) {op : BleOp} (hop : ∀ env, op ≠ .connTick env) {b : Ble} (hb : b.Bounds) :
    ∃ b', (op.run hw b).res = .ok b' := by
  have happ : op.ofApp = true → ∃ b', (op.run hw b).res = .ok b' := by
    intro happ
    obtain ⟨log, b', hrun, _⟩ := ofApp_spends hw happ b
    rw [hrun]
    exact ⟨b', rfl⟩
  cases op with
  | nextEvent => exact ⟨_, rfl⟩
  | advTick env =>
    obtain ⟨log, b', hrun, _⟩ := Ble.advTick_effect hb env
    exact ⟨b', congrArg Logged.res hrun⟩
  | scanTick env =>
    obtain ⟨log, b', hrun, _⟩ := Ble.scanTick_effect hb env
    exact ⟨b', congrArg Logged.res hrun⟩
  | connTick env => exact absurd rfl (hop env)
  | _ => exact happ rfl

end NrfBle
