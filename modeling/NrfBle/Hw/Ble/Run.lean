/-
  Runs of the stack: any calls and ticks, in any order, on whatever the air brings.

  A run is told as its HISTORY, the latest move first: each `Move` has the operation, the state it
  found and what it did.  A run ends where an operation panics.  What "the application saved", "the
  scan was started for" and "the events so far" mean are then functions of the history.

  Three facts hold in every run, each from its step lemma:

  * the bounds (`Run.bounds`), so advertising and scanning never panic (`ticks_never_panic`);
  * a move opens the link, closes it, or keeps it (`LinkDone`, read off `OpDone`);
  * the beginning of a history is the history of a run (`Run.of_append`).
-/
import Mathlib.Tactic
import NrfBle.Hw.Ble.Calls

namespace NrfBle

open Checked

/-- An operation of the application, with what it reads of the outside. -/
inductive BleOp
  | call (call : ApiCall)
  | gapAddressSet (addr : Buf 6) (addrType : AddrType)
  | gapPrivacySet (irk : Buf 16)
  | gapRotateRpa (now : UInt32)
  | gapAcceptListAdd (addr : Buf 6) (addrType : AddrType)
  | gapAcceptListClear
  | gapBondSave (peer : Buf 6) (ltk : Buf 16) (irk : Option (Buf 16))
  | gattPoll
  | nextEvent
  | advTick (env : AdvEnv)
  | scanTick (env : ScanEnv)
  | connTick (env : ConnEnv)

/-- Carry out an operation. -/
def BleOp.run (hw : Hw) : BleOp → Ble → Logged BleAct Ble
  | .call api, b => do
    let r ← api.run b
    return r.2
  | .gapAddressSet addr addrType, b => return b.gapAddressSet addr addrType
  | .gapPrivacySet irk, b => return b.gapPrivacySet irk
  | .gapRotateRpa now, b => return (b.gapRotateRpa hw now).2
  | .gapAcceptListAdd addr addrType, b => return (b.gapAcceptListAdd addr addrType).2
  | .gapAcceptListClear, b => return b.gapAcceptListClear
  | .gapBondSave peer ltk irk, b => return b.gapBondSave peer ltk irk
  | .gattPoll, b => return b.gattPoll.2
  | .nextEvent, b => return b.popEvent.2
  | .advTick env, b => b.advTick env
  | .scanTick env, b => b.scanTick env
  | .connTick env, b => do
    let r ← b.connTick hw env
    return r.2

/-- One operation of a run: what it found, and what it did. -/
structure Move where
  op : BleOp
  before : Ble
  log : List BleAct

/-- The runs of the stack, by their histories, and what they end in. -/
inductive Run (hw : Hw) : List Move → Except Panic Ble → Prop
  | start : Run hw [] (.ok Ble.new)
  | step {moves : List Move} {b : Ble} (op : BleOp) (h : Run hw moves (.ok b)) :
      Run hw (⟨op, b, (op.run hw b).log⟩ :: moves) (op.run hw b).res

/-- The run of these operations, the latest first, as far as it gets. -/
def history (hw : Hw) : List BleOp → List Move × Except Panic Ble
  | [] => ([], .ok Ble.new)
  | op :: ops =>
    match history hw ops with
    | (moves, .ok b) => (⟨op, b, (op.run hw b).log⟩ :: moves, (op.run hw b).res)
    | (moves, .error p) => (moves, .error p)

/-- One more operation, of a run that got this far. -/
theorem history_cons {hw : Hw} {ops : List BleOp} {b : Ble} (h : (history hw ops).2 = .ok b) (op : BleOp) :
    history hw (op :: ops) = (⟨op, b, (op.run hw b).log⟩ :: (history hw ops).1, (op.run hw b).res) := by
  rw [history]
  generalize history hw ops = run at h ⊢
  obtain ⟨moves, r⟩ := run
  cases h
  rfl

/-- An `adv_tick` in which this PDU is received. -/
def BleOp.advHears (pdu : AdvPdu) : BleOp := .advTick ⟨0, 0, .of pdu, 0, 0⟩

/-- A `scan_tick` in which this PDU is received, and nothing else. -/
def BleOp.scanHears (pdu : AdvPdu) : BleOp :=
  .scanTick ⟨0, .silent, 0, 0, .of pdu, 0, 0, .silent, 0, .silent⟩

/-- Every sequence of operations has its run. -/
theorem Run.of_history (hw : Hw) (ops : List BleOp) : Run hw (history hw ops).1 (history hw ops).2 := by
  induction ops with
  | nil => exact .start
  | cons op ops ih =>
    rw [history]
    split
    · rename_i moves b h
      rw [h] at ih
      exact .step op ih
    · rename_i moves p h
      rw [h] at ih
      exact ih

/-! ## What an operation does -/

/-- The operations that do nothing but write a field or two. -/
def BleOp.isSilent : BleOp → Bool
  | .call _ | .advTick _ | .scanTick _ | .connTick _ => false
  | _ => true

/-- The operation opens a connection: by a `CONNECT_REQ` received or sent. -/
def BleOp.opens : BleOp → Ble → Bool
  | .advTick env, b => (b.advOpens env).isSome
  | .scanTick env, b => (b.scanOpens env).isSome
  | _, _ => false

/-- The operation drives the connection. -/
def BleOp.isConnTick : BleOp → Bool
  | .connTick _ => true
  | _ => false

/-- The connection after a bond was saved, if the operation saves one. -/
def BleOp.bonded : BleOp → Option Conn → Option Conn
  | .gapBondSave peer ltk irk, conn =>
    conn.map (fun c => { c with bondStore := c.bondStore.save peer ltk irk })
  | _, conn => conn

open Ble in
/-- **What an operation can do**, from a state within bounds. -/
inductive OpDone (b : Ble) : BleOp → Logged BleAct Ble → Prop
  | call {call : ApiCall} {log : List BleAct} {b' : Ble} (heff : CallEffect call.startsScan b log b') :
      OpDone b (.call call) ⟨log, .ok b'⟩
  | silent {op : BleOp} {b' : Ble} (hop : op.isSilent = true) (hbounds : b'.Bounds)
      (hscan : ScanKept b b') (hlink : SameLink (op.bonded b.conn) b'.conn) : OpDone b op ⟨[], .ok b'⟩
  | adv {env : AdvEnv} {log : List BleAct} {b' : Ble} (hbounds : b'.Bounds)
      (heff : AdvEffect (b.advOpens env) env.connNow b log b') : OpDone b (.advTick env) ⟨log, .ok b'⟩
  | scan {env : ScanEnv} {log : List BleAct} {b' : Ble} (hbounds : b'.Bounds)
      (heff : ScanEffect (b.scanOpens env) env.connNow b log b') : OpDone b (.scanTick env) ⟨log, .ok b'⟩
  | panicked {env : ConnEnv} {log : List BleAct} {p : Panic} (hopen : b.conn.isSome)
      (hlog : linkEvents log = []) : OpDone b (.connTick env) ⟨log, .error p⟩
  | closed {env : ConnEnv} {log : List BleAct} {compare : UInt32} {events : Events}
      (hlog : linkEvents log = [.disconnected]) :
      OpDone b (.connTick env) ⟨log, .ok { b with conn := none, compare := compare, events := events }⟩
  | kept {env : ConnEnv} {log : List BleAct} {c c' : Conn} {compare : UInt32} {events : Events}
      (hconn : b.conn = some c) (hpeer : c.SamePeer c') (hlog : linkEvents log = []) :
      OpDone b (.connTick env)
        ⟨log, .ok { b with conn := some c', compare := compare, events := events }⟩

/-- The operations without a log. -/
theorem opDone_silent (hw : Hw) {op : BleOp} {b : Ble} (hb : b.Bounds) (hop : op.isSilent = true) :
    OpDone b op (op.run hw b) := by
  cases op with
  | call | advTick | scanTick | connTick => cases hop
  | gapRotateRpa now =>
    show OpDone b _ (pure (b.gapRotateRpa hw now).2)
    unfold Ble.gapRotateRpa
    cases b.irk with
    | none => exact .silent hop hb (.refl b) (.refl _)
    | some irk => exact .silent hop { hb with } ⟨rfl, Iff.rfl⟩ (.refl _)
  | gapBondSave peer ltk irk =>
    show OpDone b _ (pure (b.gapBondSave peer ltk irk))
    unfold Ble.gapBondSave
    cases hconn : b.conn with
    | none =>
      refine .silent hop hb (.refl b) ?_
      rw [hconn]
      trivial
    | some c =>
      refine .silent hop { hb with } ⟨rfl, Iff.rfl⟩ ?_
      rw [hconn]
      exact .refl _
  | gattPoll =>
    show OpDone b _ (pure b.gattPoll.2)
    unfold Ble.gattPoll
    cases hconn : b.conn with
    | none => exact .silent hop hb (.refl b) (Ble.SameLink.refl b.conn)
    | some c =>
      refine .silent hop { hb with } ⟨rfl, Iff.rfl⟩ ?_
      show Ble.SameLink b.conn (some _)
      rw [hconn]
      exact ⟨rfl, rfl, rfl⟩
  | _ => exact .silent hop { hb with } ⟨rfl, Iff.rfl⟩ (Ble.SameLink.refl b.conn)

theorem opDone (hw : Hw) (op : BleOp) {b : Ble} (hb : b.Bounds) : OpDone b op (op.run hw b) := by
  cases op with
  | call call =>
    obtain ⟨log, answer, b', h, heff⟩ := call.run_effect b
    show OpDone b _ (call.run b >>= fun r => pure r.2)
    rw [h, Logged.mk_ok_bind, Logged.pure_eq_mk, Logged.prepend_mk, List.append_nil]
    exact .call heff
  | advTick env =>
    obtain ⟨log, b', h, hbounds, heff⟩ := Ble.advTick_effect hb env
    show OpDone b _ (b.advTick env)
    rw [h]
    exact .adv hbounds heff
  | scanTick env =>
    obtain ⟨log, b', h, hbounds, heff⟩ := Ble.scanTick_effect hb env
    show OpDone b _ (b.scanTick env)
    rw [h]
    exact .scan hbounds heff
  | connTick env =>
    have hdone := b.connTick_done hw env
    show OpDone b _ (b.connTick hw env >>= fun r => pure r.2)
    generalize b.connTick hw env = x at hdone ⊢
    cases hdone with
    | panicked hopen hin => exact .panicked hopen (linkEvents_conn _)
    | closed hreason =>
      rw [Logged.mk_ok_bind, Logged.pure_eq_mk, Logged.prepend_mk, List.append_nil]
      refine .closed ?_
      rw [linkEvents_append, linkEvents_conn]
      rfl
    | kept hconn hin hevent frame quiet data =>
      rw [Logged.mk_ok_bind, Logged.pure_eq_mk, Logged.prepend_mk, List.append_nil, frame]
      obtain ⟨hpeer, _⟩ := Conn.event_outcome hevent
      exact .kept hconn ⟨hpeer.role, hpeer.peerAddr, hpeer.bondStore⟩ quiet.linkEvents
  | _ => exact opDone_silent hw hb rfl

/-! ## The link -/

/-- **What an operation can do to the link.** -/
inductive LinkDone (op : BleOp) (b : Ble) : Logged BleAct Ble → Prop
  | opened {log : List BleAct} {b' : Ble} {c : Conn} (hop : op.opens b = true) (hconn : b'.conn = some c)
      (hbonds : c.bondStore = RamBondStore.new) (hlog : linkEvents log = [.connected])
      (hdrive : op.isConnTick = false) : LinkDone op b ⟨log, .ok b'⟩
  | closed {log : List BleAct} {b' : Ble} (hdrive : op.isConnTick = true) (hconn : b'.conn = none)
      (hlog : linkEvents log = [.disconnected]) : LinkDone op b ⟨log, .ok b'⟩
  | kept {log : List BleAct} {b' : Ble} (hop : op.opens b = false)
      (hdrive : op.isConnTick = true → b.conn.isSome)
      (hlink : Ble.SameLink (op.bonded b.conn) b'.conn) (hlog : linkEvents log = []) :
      LinkDone op b ⟨log, .ok b'⟩
  | panicked {log : List BleAct} {p : Panic} (hdrive : op.isConnTick = true) (hconn : b.conn.isSome)
      (hlog : linkEvents log = []) : LinkDone op b ⟨log, .error p⟩

/-- A tick that opens a connection in one case only. -/
theorem LinkDone.of_opened {α : Type} {opens : Option α} {new : α → Conn → Prop} {op : BleOp} {b b' : Ble}
    {log : List BleAct} (h : Ble.Opened opens new b.conn b'.conn log) (hop : op.opens b = opens.isSome)
    (hdrive : op.isConnTick = false) (hsame : op.bonded b.conn = b.conn)
    (hnew : ∀ a c, new a c → c.bondStore = RamBondStore.new) : LinkDone op b ⟨log, .ok b'⟩ := by
  cases opens with
  | some a =>
    obtain ⟨⟨c, hc, hca⟩, hlog⟩ := h
    exact .opened hop hc (hnew a c hca) hlog hdrive
  | none =>
    refine .kept hop (by rw [hdrive]; rintro ⟨⟩) ?_ h.2
    rw [hsame, h.1]
    exact .refl _

/-- **Every operation**, from any state within bounds. -/
theorem linkDone (hw : Hw) (op : BleOp) {b : Ble} (hb : b.Bounds) : LinkDone op b (op.run hw b) := by
  have hdone := opDone hw op hb
  generalize op.run hw b = x at hdone ⊢
  cases hdone with
  | call heff => exact .kept rfl (by rintro ⟨⟩) heff.link heff.quiet.linkEvents
  | silent hop hbounds hscan hlink =>
    have hplain : op.opens b = false ∧ op.isConnTick = false := by
      cases op <;> first | exact ⟨rfl, rfl⟩ | cases hop
    exact .kept hplain.1 (by rw [hplain.2]; rintro ⟨⟩) hlink rfl
  | adv hbounds heff =>
    refine .of_opened heff.link rfl rfl rfl ?_
    rintro params c ⟨channel, rfl⟩
    rfl
  | scan hbounds heff =>
    refine .of_opened heff.link rfl rfl rfl ?_
    rintro target c ⟨channel, rfl⟩
    rfl
  | panicked hopen hlog => exact .panicked rfl hopen hlog
  | closed hlog => exact .closed rfl rfl hlog
  | kept hconn hpeer hlog =>
    refine .kept rfl (fun _ => by rw [hconn]; rfl) ?_ hlog
    rw [hconn]
    exact hpeer

/-! ## The bounds -/

/-- An operation that returns keeps the bounds. -/
theorem run_bounds (hw : Hw) (op : BleOp) {b b' : Ble} (hb : b.Bounds) (h : (op.run hw b).res = .ok b') :
    b'.Bounds := by
  have hdone := opDone hw op hb
  generalize op.run hw b = x at hdone h
  cases hdone with
  | call heff => cases h; exact heff.bounds hb
  | silent hop hbounds hscan hlink => cases h; exact hbounds
  | adv hbounds heff => cases h; exact hbounds
  | scan hbounds heff => cases h; exact hbounds
  | panicked hopen hlog => cases h
  | closed hlog => cases h; exact { hb with }
  | kept hconn hpeer hlog => cases h; exact { hb with }

/-- **The bounds hold in every run.** -/
theorem Run.bounds {hw : Hw} {moves : List Move} {r : Except Panic Ble} (h : Run hw moves r) :
    ∀ b, r = .ok b → b.Bounds := by
  induction h with
  | start => rintro b ⟨⟩; exact Ble.bounds_new
  | step op _ ih => exact fun b' hb' => run_bounds hw op (ih _ rfl) hb'

/-- **Advertising and scanning never panic**: in every state a run reaches the bounds hold, and a tick
    returns whatever the clock reads and the radio delivers. -/
theorem ticks_never_panic {hw : Hw} {moves : List Move} {b : Ble} (h : Run hw moves (.ok b)) :
    (b.advDataLen ≤ 31 ∧ b.scanRspLen ≤ 31 ∧
      (b.advParams.advType = .connectableDirected → b.advParams.peerAddr.isSome) ∧
      b.advChannelIdx < 3) ∧
    (∀ env, ∃ b', (b.advTick env).res = .ok b') ∧ ∀ env, ∃ b', (b.scanTick env).res = .ok b' := by
  have hb := h.bounds b rfl
  refine ⟨⟨hb.advDataLen, hb.scanRspLen, hb.directed, hb.advChannelIdx⟩, ?_, ?_⟩
  · intro env
    obtain ⟨log, b', hrun, _⟩ := Ble.advTick_effect hb env
    exact ⟨b', by rw [hrun]⟩
  · intro env
    obtain ⟨log, b', hrun, _⟩ := Ble.scanTick_effect hb env
    exact ⟨b', by rw [hrun]⟩

/-- A directed advertiser with a peer ticks. -/
theorem directed_tick_returns :
    ∃ b, Run Hw.standIn
        [⟨.call (.gapAdvStart { advType := .connectableDirected, peerAddr := some (Buf.zero 6) } 0),
          Ble.new, [.push .advStarted]⟩] (.ok b) ∧
      ∀ env, ∃ b', (b.advTick env).res = .ok b' := by
  have hstart : Run Hw.standIn [] (.ok Ble.new) := .start
  have hrun := Run.step (.call (.gapAdvStart
    { advType := .connectableDirected, peerAddr := some (Buf.zero 6) } 0)) hstart
  exact ⟨_, hrun, (ticks_never_panic hrun).2.1⟩

/-- The beginning of a history. -/
theorem Run.of_append {hw : Hw} {later moves : List Move} {r : Except Panic Ble}
    (h : Run hw (later ++ moves) r) : ∃ r', Run hw moves r' := by
  induction later generalizing r with
  | nil => exact ⟨r, h⟩
  | cons m later ih =>
    cases h with
    | step op h => exact ih h

end NrfBle
