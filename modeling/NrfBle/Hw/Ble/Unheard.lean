/-
  What the radio lets through to the stack.

  1. **The connection of a stack is a connection.**  It was opened by `Conn::new`, and since then there
     have been events and calls of the host and nothing else: whatever it is and does in a run of the
     stack, it is and does in such a run of its own (`Run.driven`).  So what holds in every run of a
     connection holds of the stack.

  2. **Nothing gets through to it** (`stack_hears_nothing`).  It opens unencrypted, and a connection that is
     not encrypted reads empty PDUs only, so it never is.  The application hears of no data, no control PDU
     and no channel, its requests are never answered, and the first PDU with a payload ends a slave's link.
-/
import Mathlib.Tactic
import NrfBle.Hw.Conn.Unheard
import NrfBle.Hw.Ble.Lifecycle
import NrfBle.Hw.Ble.Queue

namespace NrfBle

open Checked

variable {hw : Hw}

/-! ## The connection of a stack -/

/-- A run of a connection since it was opened, of events and calls of the host. -/
def Conn.hosted (hw : Hw) (params : ConnectReqData) (firstChannel : UInt8) (now : UInt32) (role : ConnRole)
    (ops : List Op) : Logged Act Conn := (Conn.new params firstChannel now role).runOps hw ops

/-- Some such run leads to the connection. -/
def Conn.Driven (hw : Hw) (c : Conn) : Prop :=
  ∃ params firstChannel now role ops, (∀ op ∈ ops, Op.ofHost op = true) ∧
    (Conn.hosted hw params firstChannel now role ops).res = .ok c

/-- Some such run does this. -/
def Act.Driven (hw : Hw) (act : Act) : Prop :=
  ∃ params firstChannel now role ops, (∀ op ∈ ops, Op.ofHost op = true) ∧
    act ∈ (Conn.hosted hw params firstChannel now role ops).log

namespace Conn

theorem Driven.new (params : ConnectReqData) (firstChannel : UInt8) (now : UInt32) (role : ConnRole) :
    (Conn.new params firstChannel now role).Driven hw :=
  ⟨params, firstChannel, now, role, [], List.forall_mem_nil _, rfl⟩

/-- One more operation, behind a run that got this far. -/
theorem runOps_snoc {c c' : Conn} {ops : List Op} (h : (c.runOps hw ops).res = .ok c') (op : Op) :
    c.runOps hw (ops ++ [op]) = (c'.runOp hw op).prepend (c.runOps hw ops).log := by
  induction ops generalizing c with
  | nil =>
    cases h
    exact Logged.bind_pure _
  | cons first ops ih =>
    have h : (c.runOp hw first >>= fun d => d.runOps hw ops).res = .ok c' := h
    rw [Logged.bind_res] at h
    obtain ⟨d, hd, h⟩ := bind_eq_ok.mp h
    show (c.runOp hw first >>= fun d => d.runOps hw (ops ++ [op])) =
      (c'.runOp hw op).prepend (c.runOp hw first >>= fun d => d.runOps hw ops).log
    rw [Logged.bind_of_ok hd, Logged.bind_of_ok hd, ih h]
    exact Logged.ext (List.append_assoc ..).symm rfl

/-- One operation of the host. -/
theorem Driven.runOp {c : Conn} (h : c.Driven hw) (op : Op) (hop : op.ofHost = true) :
    (c.runOp hw op).Only (Act.Driven hw) (Driven hw) := by
  obtain ⟨params, firstChannel, now, role, ops, hops, hrun⟩ := h
  have hall : ∀ op' ∈ ops ++ [op], Op.ofHost op' = true := by
    intro op' hmem
    rcases List.mem_append.mp hmem with hmem | hmem
    · exact hops op' hmem
    · rw [List.mem_singleton.mp hmem]
      exact hop
  have hsnoc := runOps_snoc hrun op
  constructor
  · intro act hact
    refine ⟨params, firstChannel, now, role, ops ++ [op], hall, ?_⟩
    unfold hosted
    rw [hsnoc]
    exact List.mem_append_right _ hact
  · intro c' hc'
    refine ⟨params, firstChannel, now, role, ops ++ [op], hall, ?_⟩
    unfold hosted
    rw [hsnoc]
    exact hc'

theorem Driven.call {c : Conn} (h : c.Driven hw) (call : LocalCall) : (call.run c).Driven hw :=
  (h.runOp (.call call) rfl).returned _ rfl

end Conn

/-- What the connection does, it does in a run of its own. -/
def BleAct.Driven (hw : Hw) : BleAct → Prop
  | .conn act => act.Driven hw
  | _ => True

namespace Ble

/-- The open connection is in a state of a run of its own. -/
def LinkDriven (hw : Hw) (b : Ble) : Prop := ∀ c, b.conn = some c → c.Driven hw

theorem LinkDriven.of_conn {b b' : Ble} (h : b.LinkDriven hw) (hconn : b'.conn = b.conn) :
    b'.LinkDriven hw := fun c hc => h c (hconn.symm.trans hc)

theorem LinkDriven.closed {b : Ble} (hconn : b.conn = none) : b.LinkDriven hw := by
  intro c hc
  rw [hconn] at hc
  cases hc

theorem LinkDriven.opened {b : Ble} {c : Conn} (hconn : b.conn = some c) (h : c.Driven hw) :
    b.LinkDriven hw := by
  intro c' hc'
  cases hconn.symm.trans hc'
  exact h

theorem driven_of_alone {log : List BleAct} (h : ∀ act, .conn act ∉ log) : ∀ a ∈ log, a.Driven hw := by
  intro a ha
  cases a with
  | conn act => exact absurd ha (h act)
  | setChannel | transmit | push => trivial

/-- A program without actions of the connection. -/
theorem only_of_alone {α : Type} {x : Logged BleAct α} {post : α → Prop} (halone : ∀ act, .conn act ∉ x.log)
    (h : ∀ a, x.res = .ok a → post a) : x.Only (BleAct.Driven hw) post := ⟨driven_of_alone halone, h⟩

theorem advTick_driven {b : Ble} (hb : b.Bounds) (h : b.LinkDriven hw) (env : AdvEnv) :
    (b.advTick env).Only (BleAct.Driven hw) (LinkDriven hw) := by
  have hpushes : Enqueues True 2 b.events (b.advTick env) id := b.advTick_enqueues env
  refine only_of_alone (hpushes.alone trivial) ?_
  obtain ⟨log, b', hrun, _, heff⟩ := advTick_effect hb env
  rw [hrun]
  rintro _ ⟨⟩
  have hlink := heff.link
  cases hopens : b.advOpens env with
  | none =>
    rw [hopens] at hlink
    exact h.of_conn hlink.1
  | some params =>
    rw [hopens] at hlink
    obtain ⟨⟨c, hconn, channel, rfl⟩, _⟩ := hlink
    exact .opened hconn (.new ..)

theorem scanTick_driven {b : Ble} (hb : b.Bounds) (h : b.LinkDriven hw) (env : ScanEnv) :
    (b.scanTick env).Only (BleAct.Driven hw) (LinkDriven hw) := by
  have hpushes : Enqueues True 3 b.events (b.scanTick env) id := b.scanTick_enqueues env
  refine only_of_alone (hpushes.alone trivial) ?_
  obtain ⟨log, b', hrun, _, heff⟩ := scanTick_effect hb env
  rw [hrun]
  rintro _ ⟨⟩
  have hlink := heff.link
  cases hopens : b.scanOpens env with
  | none =>
    rw [hopens] at hlink
    exact h.of_conn hlink.1
  | some target =>
    rw [hopens] at hlink
    obtain ⟨⟨c, hconn, channel, rfl⟩, _⟩ := hlink
    -- the initiator notes whom it connects to
    exact .opened hconn ((Conn.Driven.new ..).call (.setPeer target))

theorem closeLink_driven (b : Ble) (reason : DisconnectReason) :
    (b.closeLink reason).Only (BleAct.Driven hw) (fun r => r.2.LinkDriven hw) := by
  rw [closeLink_eq]
  refine only_of_alone ?_ ?_
  · intro act hmem
    simp at hmem
  · rintro _ ⟨⟩
    exact .closed rfl

theorem connReport_driven {b : Ble} (h : b.LinkDriven hw) (evt : ConnEvent) :
    (b.connReport evt).Only (BleAct.Driven hw) (LinkDriven hw) := by
  have hpushes : Enqueues True 1 b.events (b.connReport evt) id := b.connReport_enqueues evt
  refine only_of_alone (hpushes.alone trivial) ?_
  obtain ⟨log, events, hrun, _⟩ := b.connReport_quietly evt
  rw [hrun]
  rintro _ ⟨⟩
  exact h.of_conn rfl

theorem connDeliver_driven {b : Ble} (h : b.LinkDriven hw) :
    b.connDeliver.Only (BleAct.Driven hw) (fun r => r.2.LinkDriven hw) := by
  have hpushes : Enqueues True 1 b.events b.connDeliver Prod.snd := b.connDeliver_enqueues
  refine only_of_alone (hpushes.alone trivial) ?_
  cases hc : b.conn with
  | none =>
    unfold connDeliver
    rw [hc]
    rintro _ ⟨⟩
    exact h
  | some c =>
    obtain ⟨log, events, hrun, _⟩ := connDeliver_quietly hc
    rw [hrun]
    rintro _ ⟨⟩
    exact .opened rfl ((h c hc).call .clearRxData)

/-- A tick of the connection is one event, and the clearing of the data it was told of. -/
theorem connTick_driven {b : Ble} (h : b.LinkDriven hw) (env : ConnEnv) :
    (b.connTick hw env).Only (BleAct.Driven hw) (fun r => r.2.LinkDriven hw) := by
  unfold connTick
  split
  · exact closeLink_driven _ _
  rename_i c hc
  split
  · exact closeLink_driven _ _
  have hevent : (c.event hw env.windows).Only (Act.Driven hw) (fun r => r.2.Driven hw) := by
    have hop := (h c hc).runOp (.event env.windows) rfl
    constructor
    · intro act hact
      refine hop.logged act ?_
      show act ∈ (c.event hw env.windows >>= fun r => pure r.2).log
      rw [Logged.bind_log fun _ => rfl]
      exact hact
    · intro r hr
      refine hop.returned r.2 ?_
      show (c.event hw env.windows >>= fun r => pure r.2).res = _
      rw [Logged.bind_res, hr]
      rfl
  refine (hevent.within (Q := BleAct.Driven hw) (g := BleAct.conn) fun _ ha => ha).bind ?_
  rintro ⟨answer, c'⟩ hc'
  dsimp only
  split
  · exact closeLink_driven _ _
  · exact closeLink_driven _ _
  · exact (connReport_driven (.opened rfl hc') _).bind fun _ hb' => connDeliver_driven hb'

end Ble

/-- **Whatever is done to the connection of a stack** is an event or a call of its host. -/
theorem run_driven (op : BleOp) {b : Ble} (hb : b.Bounds) (h : b.LinkDriven hw) :
    (op.run hw b).Only (BleAct.Driven hw) (Ble.LinkDriven hw) := by
  cases op with
  | call call =>
    have honLink := call.run_onLink b
    have hcall : (call.run b).Only (BleAct.Driven hw) (fun r => r.2.LinkDriven hw) := by
      generalize call.run b = x at honLink
      cases honLink with
      | aside hlog hconn =>
        refine Ble.only_of_alone hlog ?_
        rintro _ ⟨⟩
        exact h.of_conn hconn
      | call op hc hconn =>
        refine Ble.only_of_alone (fun _ hmem => by cases hmem) ?_
        rintro _ ⟨⟩
        exact .opened hconn ((h _ hc).call op)
      | @encrypt c c' acts answer b' hc hrun hconn =>
        have hop := (h c hc).runOp .gapEncrypt rfl
        have hx : c.runOp hw .gapEncrypt = ⟨acts, .ok c'⟩ := by
          show (c.gapEncrypt >>= fun r => pure r.2) = _
          rw [hrun]
          exact Logged.ext (List.append_nil _) rfl
        rw [hx] at hop
        constructor
        · exact List.forall_mem_map.mpr hop.logged
        · rintro _ ⟨⟩
          exact .opened hconn (hop.returned c' rfl)
    exact hcall.bind fun _ hr => .pure hr
  | advTick env => exact Ble.advTick_driven hb h env
  | scanTick env => exact Ble.scanTick_driven hb h env
  | connTick env => exact (Ble.connTick_driven h env).bind fun _ hr => .pure hr
  | gapRotateRpa now =>
    refine .pure (h.of_conn ?_)
    unfold Ble.gapRotateRpa
    split <;> rfl
  | gapBondSave peer ltk irk =>
    refine .pure ?_
    unfold Ble.gapBondSave
    split
    · exact h
    · rename_i c hc
      exact .opened rfl ((h c hc).call (.gapBondSave peer ltk irk))
  | gattPoll =>
    refine .pure ?_
    unfold Ble.gattPoll
    split
    · exact h
    · rename_i c hc
      exact .opened rfl ((h c hc).call .gattTakeResult)
  | _ => exact .pure (h.of_conn rfl)

/-- **The connection of a stack is a connection**: in every run, panic or not, it does what it does in a run
    of its own, and it is in a state of one. -/
theorem Run.driven {moves : List Move} {r : Except Panic Ble} (h : Run hw moves r) :
    (⟨actsOf moves, r⟩ : Logged BleAct Ble).Only (BleAct.Driven hw)
      (fun b => b.Bounds ∧ b.LinkDriven hw) := by
  induction h with
  | start => exact .pure (a := Ble.new) ⟨Ble.bounds_new, .closed rfl⟩
  | step op h ih =>
    refine Logged.Only.bind (f := fun b => op.run hw b) ih ?_
    rintro b ⟨hb, hdriven⟩
    have hop := run_driven op hb hdriven
    exact ⟨hop.logged, fun b' hb' => ⟨run_bounds hw op hb hb', hop.returned b' hb'⟩⟩

/-! ## What it hears -/

theorem Conn.Driven.untouched {c : Conn} (h : c.Driven hw) : c.Untouched := by
  obtain ⟨params, firstChannel, now, role, ops, hops, hrun⟩ := h
  exact (Conn.runOps_untouched hops (.new params firstChannel now role)).returned c hrun

theorem Act.Driven.withoutData {act : Act} (h : act.Driven hw) : act.WithoutData := by
  obtain ⟨params, firstChannel, now, role, ops, hops, hmem⟩ := h
  exact (Conn.runOps_untouched hops (.new params firstChannel now role)).logged act hmem

/-- No news but the end of a link, and that not by the peer's request. -/
def BleAct.Unheard : BleAct → Prop
  | .push evt => ∃ reason, evt = .disconnected reason ∧ reason ≠ .remoteTerminate
  | _ => True

namespace Ble

theorem closeLink_unheard (b : Ble) {reason : DisconnectReason} (h : reason ≠ .remoteTerminate) :
    (b.closeLink reason).Only BleAct.Unheard (fun _ => True) := by
  rw [closeLink_eq]
  refine ⟨?_, fun _ _ => trivial⟩
  rintro a (_ | ⟨_, _ | ⟨_, ⟨⟩⟩⟩)
  · trivial
  · exact ⟨reason, rfl, h⟩

/-- A tick of an untouched connection reports nothing of the event. -/
theorem connTick_unheard {b : Ble} (h : ∀ c, b.conn = some c → c.Untouched) (env : ConnEnv) :
    (b.connTick hw env).Only BleAct.Unheard (fun _ => True) := by
  unfold connTick
  split
  · exact b.closeLink_unheard (by decide)
  rename_i c hc
  split
  · exact b.closeLink_unheard (by decide)
  have huntouched := h c hc
  have hevent : (c.event hw env.windows).Only Act.WithoutData
      (fun r => Conn.Unheard r.1 ∧ r.2.Unread c.inner) := Conn.Unread.event ⟨rfl, huntouched.clear⟩ _
  refine (hevent.within (Q := BleAct.Unheard) (g := BleAct.conn) fun _ _ => trivial).bind ?_
  rintro ⟨answer, c'⟩ ⟨hanswer, hunread⟩
  rcases hanswer with rfl | rfl | ⟨e, rfl⟩
  · -- nothing to report, and no data
    dsimp only [connReport]
    rw [Logged.pure_bind]
    unfold connDeliver
    dsimp only
    rw [if_neg (by rw [(hunread.untouched huntouched).rxData]; decide)]
    exact .pure trivial
  · exact closeLink_unheard _ (by decide)
  · exact closeLink_unheard _ (by decide)

/-- A PDU with a payload, heard first in a slave's event, ends the link or panics. -/
theorem connTick_rejects {b : Ble} {c : Conn} {env : ConnEnv} {tag : Nat} {buf : Buf 64} {now : UInt32}
    {ws : List Window} (hconn : b.conn = some c) (hclear : c.encrypted = false) (hslave : c.role = .slave)
    (hin : ¬ b.TimedOut env) (hws : env.windows = ⟨.packet tag buf, now⟩ :: ws)
    (hlen : buf.bytes.getD 1 0 &&& 0x7F ≠ 0) :
    (∃ p, (b.connTick hw env).res = .error p) ∨
      ∃ log b', b.connTick hw env = ⟨log ++ [.push (.disconnected .localError)], .ok (false, b')⟩ := by
  unfold connTick
  rw [hconn]
  dsimp only
  rw [if_neg (fun hge => hin ⟨c, hconn, hge⟩), hws]
  rcases Conn.event_rejects hw hclear hslave tag hlen now ws with ⟨p, hres⟩ | ⟨c', hres⟩
  · left
    exact ⟨p, by rw [Logged.bind_of_error
      (show ((c.event hw (⟨.packet tag buf, now⟩ :: ws)).within BleAct.conn).res = _ from hres)]⟩
  · right
    rw [Logged.bind_of_ok
      (show ((c.event hw (⟨.packet tag buf, now⟩ :: ws)).within BleAct.conn).res = _ from hres)]
    dsimp only
    rw [closeLink_eq]
    exact ⟨_ ++ [.setChannel 37], _, by rw [List.append_assoc]; rfl⟩

/-- What there is to hear for an application: no answer to a request, no data, no news but the end of the
    link; and a slave's link ends with the first PDU that has a payload. -/
structure HearsNothing (hw : Hw) (b : Ble) : Prop where
  clear : ∀ c, b.conn = some c → c.encrypted = false
  answers : b.gattPoll.1 = none
  data : b.connRxData = .ok []
  news : ∀ env, ∀ a ∈ (b.connTick hw env).log, a.Unheard
  rejects : ∀ c env tag buf now ws, b.conn = some c → c.role = .slave → ¬ b.TimedOut env →
    env.windows = ⟨.packet tag buf, now⟩ :: ws → buf.bytes.getD 1 0 &&& 0x7F ≠ 0 →
    (∃ p, (b.connTick hw env).res = .error p) ∨
      ∃ log b', b.connTick hw env = ⟨log ++ [.push (.disconnected .localError)], .ok (false, b')⟩

theorem LinkDriven.hearsNothing {b : Ble} (h : b.LinkDriven hw) : b.HearsNothing hw where
  clear := fun c hc => (h c hc).untouched.clear
  answers := by
    unfold gattPoll
    split
    · rfl
    · rename_i c hc
      dsimp only [Conn.gattTakeResult]
      rw [if_neg (by rw [(h c hc).untouched.gattResult]; decide)]
  data := by
    unfold connRxData
    split
    · rfl
    · rename_i c hc
      rw [(h c hc).untouched.rxData]
      rfl
  news := fun env => (connTick_unheard (fun c hc => (h c hc).untouched) env).logged
  rejects := fun c _ _ _ _ _ hc hslave hin hws hlen =>
    connTick_rejects hc (h c hc).untouched.clear hslave hin hws hlen

end Ble

/-- **Nothing gets through to the stack**, whatever is called, ticked and on the air: no connection accepts
    a PDU with a payload, enters a handler or becomes encrypted, and the application hears nothing of it. -/
theorem stack_hears_nothing (hw : Hw) (ops : List BleOp) :
    (∀ act, .conn act ∈ actsOf (history hw ops).1 → act.WithoutData) ∧
      ∀ b, (history hw ops).2 = .ok b → b.HearsNothing hw := by
  have hdriven := (Run.of_history hw ops).driven
  constructor
  · intro act hact
    have hact : act.Driven hw := hdriven.logged _ hact
    exact hact.withoutData
  · intro b hb
    exact (hdriven.returned b hb).2.hearsNothing

/-- A central connects and sends its `LL_VERSION_IND`. -/
def versionEnv : ConnEnv := ⟨0, [.of 0 [0x03, 6, 0x0C, 9, 0, 0, 1, 2] (by decide)], 0⟩

/-- The link is dropped for it, with a local error. -/
theorem stack_hears_nothing_version :
    ∃ b log b', (history Hw.standIn acceptOne).2 = .ok b ∧
      b.connTick Hw.standIn versionEnv = ⟨log ++ [.push (.disconnected .localError)], .ok (false, b')⟩ := by
  have hrun : ((history Hw.standIn acceptOne).2 >>= fun b => (b.connTick Hw.standIn versionEnv).res.map
      fun r => (r.1, b.conn.map fun c => (c.role, c.timeout, c.lastRx))) =
      .ok (false, some (.slave, 2000, 0)) := by decide +kernel
  obtain ⟨b, hb, hrun⟩ := bind_eq_ok.mp hrun
  have hheard := (stack_hears_nothing Hw.standIn acceptOne).2 b hb
  cases hres : (b.connTick Hw.standIn versionEnv).res with
  | error p =>
    rw [hres] at hrun
    cases hrun
  | ok r =>
    rw [hres] at hrun
    obtain ⟨-, hopen⟩ := Prod.mk.inj (Except.ok.inj hrun)
    obtain ⟨c, hconn, hc⟩ := Option.map_eq_some_iff.mp hopen
    obtain ⟨hslave, htimes⟩ := Prod.mk.inj hc
    obtain ⟨htimeout, hlast⟩ := Prod.mk.inj htimes
    have hin : ¬ b.TimedOut versionEnv := by
      rintro ⟨c', hconn', hge⟩
      cases hconn.symm.trans hconn'
      rw [htimeout, hlast] at hge
      exact absurd hge (by decide)
    rcases hheard.rejects c versionEnv 0 _ 0 [] hconn hslave hin rfl (by decide) with
      ⟨p, hp⟩ | ⟨log, b', htick⟩
    · cases hres.symm.trans hp
    · exact ⟨b, log, b', hb, htick⟩

end NrfBle
