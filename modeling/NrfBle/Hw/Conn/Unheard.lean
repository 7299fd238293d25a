/-
  What the radio lets through to a connection: empty PDUs.

  The driver reports `2 + ((buf[1] >> 1) & 0x3F)` bytes of a packet, and the decoder takes a slice only if
  it is as long as the length byte says, `2 + (buf[1] & 0x3F)`.  The two agree when the low seven bits of
  the length byte are all equal.  All clear is the empty PDU; all set is a slice of 65 bytes out of 64,
  which panics (`listen_clear`).  So on a link that is not encrypted nothing with a payload is decoded, no
  handler is entered, and it takes a handler to encrypt the link.

  1. **One event** — it accepts empty PDUs only, and what a PDU would be handled with (`inner`) is as it
     was (`Unread.event`); the listening loop by induction on its windows.
  2. **Runs** — in a run of events and calls of the host no data and no answer ever turns up
     (`runOps_untouched`).
  3. **Both ends** — under the driver's rule the ideal link is `Conn::event` at both ends
     (`LinkPair.event_receivePoll`), and nothing arrives on it (`LinkPair.events_receivePoll`).
-/
import Mathlib.Tactic
import NrfBle.Hw.Conn.DataLink

namespace NrfBle

open Checked

variable {hw : Hw}

/-! ## What is decoded -/

/-- A measured payload that fits the buffer is the one of the length byte iff there is none. -/
theorem measured_iff (b1 : UInt8) (h : ((b1 >>> 1) &&& 0x3F).toNat ≤ 62) :
    ((b1 >>> 1) &&& 0x3F).toNat = (b1 &&& 0b111111).toNat ↔ b1 &&& 0x7F = 0 := by
  obtain ⟨b1⟩ := b1
  revert b1
  decide +kernel

theorem measured_empty {b1 : UInt8} (h : b1 &&& 0x7F = 0) : ((b1 >>> 1) &&& 0x3F).toNat = 0 := by
  obtain ⟨b1⟩ := b1
  revert b1
  decide +kernel

namespace Conn

/-- **A packet on a link that is not encrypted**: the empty PDU is decoded, any other one rejected, or the
    slice is out of range. -/
theorem listen_clear (hw : Hw) {c : Conn} (hclear : c.encrypted = false) (tag : Nat) (buf : Buf 64) :
    (buf.bytes.getD 1 0 &&& 0x7F = 0 ∧ c.listen hw (.packet tag buf) =
      .ok (some (.ok (DataPdu.ofBytes (buf.bytes.getD 0 0) [])), { c with rxBuf := buf })) ∨
    (buf.bytes.getD 1 0 &&& 0x7F ≠ 0 ∧
      ((∃ e, c.listen hw (.packet tag buf) = .ok (some (.error e), { c with rxBuf := buf })) ∨
        ∃ p, c.listen hw (.packet tag buf) = .error p)) := by
  obtain ⟨b0, b1, rest, hbytes⟩ : ∃ b0 b1 rest, buf.bytes = b0 :: b1 :: rest := by
    have hsize := buf.size
    match hb : buf.bytes with
    | [] => rw [hb] at hsize; cases hsize
    | [_] => rw [hb] at hsize; cases hsize
    | b0 :: b1 :: rest => exact ⟨b0, b1, rest, rfl⟩
  have hrest : rest.length = 62 := by
    have hsize := buf.size
    rw [hbytes, List.length_cons, List.length_cons] at hsize
    omega
  have hrx : rx hw { c with rxBuf := buf } = (true, { c with rxBuf := buf }) :=
    if_neg (by rw [hclear]; exact Bool.false_ne_true)
  have hlen : Radio.pduLen buf.bytes = .ok (2 + ((b1 >>> 1) &&& 0x3F).toNat) := by
    rw [hbytes]
    rfl
  rw [listen_packet, hlen, ok_bind, hbytes]
  unfold receiveAt
  rw [hrx]
  dsimp only
  rw [if_pos rfl]
  rcases Nat.lt_or_ge 62 ((b1 >>> 1) &&& 0x3F).toNat with hbig | hfits
  · refine .inr ⟨?_, .inr ⟨.range, ?_⟩⟩
    · intro hempty
      rw [measured_empty (show b1 &&& 0x7F = 0 from hempty)] at hbig
      omega
    · have hup : buf.upto (2 + ((b1 >>> 1) &&& 0x3F).toNat) = .error .range := by
        unfold Buf.upto slice
        rw [if_neg (by rw [buf.size]; omega)]
      rw [hup]
      rfl
  · rw [buf.upto_of_le (by omega), ok_bind, hbytes,
      Nat.add_comm 2, List.take_succ_cons, List.take_succ_cons, DataPdu.decode_cons, List.length_take, hrest,
      Nat.min_eq_left hfits, ok_bind]
    by_cases hempty : b1 &&& 0x7F = 0
    · refine .inl ⟨hempty, ?_⟩
      rw [if_pos ((measured_iff b1 hfits).mpr hempty), measured_empty hempty]
      rfl
    · refine .inr ⟨hempty, .inl ⟨.invalidLength, ?_⟩⟩
      rw [if_neg (fun h => hempty ((measured_iff b1 hfits).mp h))]
      rfl

end Conn

/-! ## One event -/

/-- No handler is entered, and what is accepted is empty. -/
def Act.WithoutData : Act → Prop
  | .accept _ _ pdu => pdu.payload = []
  | .ctrl _ _ => False
  | .l2cap _ _ _ _ => False
  | _ => True

namespace Conn

/-- What a PDU of the peer is handled with: the connection without its place in the link, its buffers and
    what waits to be sent. -/
def inner (c : Conn) : Conn :=
  { c with
    interval := 0, timeout := 0, accum := IntervalAccum.new125ms, anchor := 0, channel := 0
    sn := false, nesn := false, eventCounter := 0, lastRx := 0, txBuf := Buf.zero 64
    rxBuf := Buf.zero 64, ccm := Ccm.new, txFragOffset := 0, txPending := false
    pendingControl := none }

/-- The connection is not encrypted, and has this inside. -/
structure Unread (c i : Conn) : Prop where
  inner : c.inner = i
  clear : c.encrypted = false

variable {i : Conn}

/-- What is decoded is empty. -/
theorem Unread.listen {c c' : Conn} (h : c.Unread i) {r : Reception}
    {got : Option (Except Error DataPdu)} (hheard : c.listen hw r = .ok (got, c')) :
    c'.Unread i ∧ ∀ pdu, got = some (.ok pdu) → pdu.payload = [] := by
  have hf := listen_frame hheard
  have h' : c'.Unread i := by
    rw [hf]
    exact ⟨h.inner, h.clear⟩
  refine ⟨h', ?_⟩
  rintro pdu rfl
  cases r with
  | timeout | crcError => cases hheard
  | packet tag buf =>
    rcases listen_clear hw h.clear tag buf with ⟨-, heq⟩ | ⟨-, ⟨e, heq⟩ | ⟨p, heq⟩⟩
    · cases heq.symm.trans hheard
      rfl
    · cases heq.symm.trans hheard
    · cases heq.symm.trans hheard

theorem Unread.lift_listen {c : Conn} (h : c.Unread i) (r : Reception) :
    (Logged.lift (c.listen hw r)).Only Act.WithoutData
      (fun x => x.2.Unread i ∧ ∀ pdu, x.1 = some (.ok pdu) → pdu.payload = []) :=
  .lift fun _ hx => h.listen hx

theorem Unread.acknowledge {c : Conn} (h : c.Unread i) (sn : Bool) : (c.acknowledge sn).Unread i := by
  rw [acknowledge_eq]
  exact ⟨h.inner, h.clear⟩

/-- An empty PDU is accepted, and that is all. -/
theorem Unread.slaveHandle {c : Conn} (h : c.Unread i) (tag : Nat) {pdu : DataPdu}
    (hempty : pdu.payload = []) (before : ConnEvent) :
    (c.slaveHandle hw tag pdu before).Only Act.WithoutData
      (fun x => x.1 = .ok before ∧ x.2.Unread i) := by
  unfold Conn.slaveHandle
  refine (Logged.Only.emit (show (Act.accept c tag pdu).WithoutData from hempty)).bind ?_
  intro _ _
  dsimp only
  rw [hempty]
  exact .pure ⟨rfl, h.acknowledge pdu.sn⟩

theorem Unread.masterHandle {c : Conn} (h : c.Unread i) (tag : Nat) {pdu : DataPdu}
    (hempty : pdu.payload = []) :
    (c.masterHandle hw tag pdu).Only Act.WithoutData (fun x => x.1 = .idle ∧ x.2.Unread i) := by
  unfold Conn.masterHandle
  refine (Logged.Only.emit (show (Act.accept c tag pdu).WithoutData from hempty)).bind ?_
  intro _ _
  dsimp only
  rw [hempty]
  exact .pure ⟨rfl, h.acknowledge pdu.sn⟩

/-- The listening loop of a slave: nothing came, nothing valid, or empty PDUs only. -/
theorem Unread.slaveLoop {c : Conn} (h : c.Unread i) (ws : List Window) (handled : Nat)
    (before : ConnEvent) :
    (Conn.slaveLoop hw ws handled before c).Only Act.WithoutData
      (fun x => (x.1 = .silent ∨ x.1 = .invalid ∨ x.1 = .done before) ∧ x.2.Unread i) := by
  induction ws generalizing handled c with
  | nil => exact .pure ⟨.inl rfl, h⟩
  | cons w ws ih =>
    refine (h.lift_listen w.rx).bind ?_
    rintro ⟨got, c₁⟩ ⟨h₁, hempty⟩
    match got with
    | none => exact .pure ⟨.inl rfl, h₁⟩
    | some (.error _) => exact .pure ⟨.inr (.inl rfl), h₁⟩
    | some (.ok pdu) =>
      have hlast : ({ c₁ with lastRx := w.now } : Conn).Unread i := ⟨h₁.inner, h₁.clear⟩
      refine (hlast.slaveHandle w.rx.tag (hempty pdu rfl) before).bind ?_
      rintro ⟨step, c₂⟩ ⟨rfl, h₂⟩
      dsimp only
      split
      · exact .pure ⟨.inr (.inr rfl), h₂⟩
      · exact ih h₂ (handled + 1)

theorem Unread.respond {c : Conn} (h : c.Unread i) :
    (c.respond hw).Only Act.WithoutData (Unread · i) := by
  rcases respond_spec hw c with ⟨hlog, p, hp⟩ | ⟨t, kind, hlog, _, _, hres⟩
  · refine ⟨by rw [hlog]; exact List.forall_mem_nil _, ?_⟩
    intro c' hc'
    rw [hp] at hc'
    cases hc'
  · refine ⟨by rw [hlog]; exact List.forall_mem_singleton.mpr trivial, ?_⟩
    intro c' hc'
    rw [hres c' hc']
    exact ⟨h.inner, h.clear⟩

/-- What an event comes to in which nothing is read. -/
def Unheard (answer : Except Error ConnEvent) : Prop :=
  answer = .ok .idle ∨ answer = .ok (.disconnected .hostTerminate) ∨ ∃ e, answer = .error e

theorem Unread.sendTerminate {c : Conn} (h : c.Unread i) :
    c.sendTerminate.Only Act.WithoutData (fun x => Unheard x.1 ∧ x.2.Unread i) := by
  unfold Conn.sendTerminate
  dsimp only
  rw [transmitRaw_of_le _ _ (by omega)]
  constructor
  · rintro a (_ | ⟨_, _ | ⟨_, ⟨⟩⟩⟩) <;> trivial
  · rintro _ ⟨⟩
    exact ⟨.inr (.inl rfl), h.inner, h.clear⟩

theorem Unread.eventMaster {c : Conn} (h : c.Unread i) (ws : List Window) :
    (c.eventMaster hw ws).Only Act.WithoutData (fun x => Unheard x.1 ∧ x.2.Unread i) := by
  unfold Conn.eventMaster
  split
  · exact h.sendTerminate
  · refine h.respond.bind ?_
    intro c₁ h₁
    match ws with
    | [] => exact .pure ⟨.inl rfl, h₁⟩
    | w :: _ =>
      refine (h₁.lift_listen w.rx).bind ?_
      rintro ⟨got, c₂⟩ ⟨h₂, hempty⟩
      have hlast : ({ c₂ with lastRx := w.now } : Conn).Unread i := ⟨h₂.inner, h₂.clear⟩
      match got with
      | none => exact .pure ⟨.inl rfl, h₂⟩
      | some (.error _) => exact .pure ⟨.inl rfl, hlast⟩
      | some (.ok pdu) =>
        refine (hlast.masterHandle w.rx.tag (hempty pdu rfl)).bind ?_
        rintro ⟨result, c₃⟩ ⟨rfl, h₃⟩
        exact .pure ⟨.inl rfl, h₃⟩

theorem Unread.eventSlave {c : Conn} (h : c.Unread i) (ws : List Window) :
    (c.eventSlave hw ws).Only Act.WithoutData (fun x => Unheard x.1 ∧ x.2.Unread i) := by
  refine (h.slaveLoop ws 0 .idle).bind ?_
  rintro ⟨fin, c₁⟩ ⟨hfin, h₁⟩
  rcases hfin with rfl | rfl | rfl
  · exact .pure ⟨.inl rfl, h₁⟩
  · exact .pure ⟨.inr (.inr ⟨_, rfl⟩), h₁⟩
  · dsimp only
    split
    · exact h₁.sendTerminate
    · refine h₁.respond.bind ?_
      intro c₂ h₂
      exact .pure ⟨.inl rfl, h₂⟩

/-- **An event of a link that is not encrypted** accepts empty PDUs, enters no handler, comes to nothing, to
    the end the host asked for or to an error, and leaves everything a PDU is handled with as it was. -/
theorem Unread.event {c : Conn} (h : c.Unread i) (ws : List Window) :
    (c.event hw ws).Only Act.WithoutData (fun x => Unheard x.1 ∧ x.2.Unread i) := by
  have hbegin : (Logged.lift c.beginEvent).Only Act.WithoutData (Unread · i) := by
    refine .lift fun c' hc' => ?_
    rw [beginEvent_frame hc', if_neg (by rw [h.clear]; exact Bool.false_ne_true)]
    exact ⟨h.inner, h.clear⟩
  refine hbegin.bind ?_
  intro c' h'
  refine (Logged.Only.emit (show (Act.tick c).WithoutData from trivial)).bind ?_
  intro _ _
  split
  · exact .pure ⟨.inr (.inr ⟨_, rfl⟩), h'⟩
  · split
    · exact h'.eventMaster ws
    · exact h'.eventSlave ws

/-- A slave's event that hears a PDU with a payload first comes to an error, or panics. -/
theorem event_rejects (hw : Hw) {c : Conn} (hclear : c.encrypted = false) (hslave : c.role = .slave) (tag : Nat)
    {buf : Buf 64} (hlen : buf.bytes.getD 1 0 &&& 0x7F ≠ 0) (now : UInt32) (ws : List Window) :
    (∃ p, (c.event hw (⟨.packet tag buf, now⟩ :: ws)).res = .error p) ∨
      ∃ c', (c.event hw (⟨.packet tag buf, now⟩ :: ws)).res = .ok (.error .invalidPdu, c') := by
  cases hb : c.beginEvent with
  | error p =>
    rw [event_stuck hb]
    exact .inl ⟨p, rfl⟩
  | ok c₁ =>
    have hclear₁ : c₁.encrypted = false := by rw [beginEvent_frame hb]; exact hclear
    rw [event_slave hslave hb]
    dsimp only [Logged.prepend]
    unfold Conn.eventSlave Conn.slaveLoop
    dsimp only
    rcases listen_clear hw hclear₁ tag buf with ⟨hempty, -⟩ | ⟨-, ⟨e, heq⟩ | ⟨p, heq⟩⟩
    · exact absurd hempty hlen
    · rw [heq]
      exact .inr ⟨_, rfl⟩
    · rw [heq]
      exact .inl ⟨p, rfl⟩

end Conn

/-! ## Runs -/

/-- What the stack does with its connection: events and calls of the host.  The handlers are entered from
    within an event. -/
def Op.ofHost : Op → Bool
  | .event _ | .gapEncrypt | .call _ => true
  | .llControl _ | .l2cap _ _ => false

/-- Nothing of the peer has reached the connection. -/
structure Conn.Untouched (c : Conn) : Prop where
  clear : c.encrypted = false
  rxData : c.rxDataLen = 0
  gattResult : c.gattResultLen = 0

theorem Conn.Untouched.new (params : ConnectReqData) (firstChannel : UInt8) (now : UInt32) (role : ConnRole) :
    (Conn.new params firstChannel now role).Untouched := ⟨rfl, rfl, rfl⟩

theorem Conn.Unread.untouched {c c' : Conn} (h : c'.Unread c.inner) (hc : c.Untouched) : c'.Untouched where
  clear := h.clear
  rxData := (congrArg Conn.rxDataLen h.inner).trans hc.rxData
  gattResult := (congrArg Conn.gattResultLen h.inner).trans hc.gattResult

theorem LocalCall.run_untouched (call : LocalCall) {c : Conn} (h : c.Untouched) : (call.run c).Untouched := by
  cases call with
  | l2capConnect psm =>
    show (c.l2capConnect psm).Untouched
    unfold Conn.l2capConnect
    split <;> exact ⟨h.clear, h.rxData, h.gattResult⟩
  | l2capSend data =>
    show (c.l2capSend data).2.Untouched
    rcases c.l2capSend_spec data with ⟨e, heq⟩ | ⟨coc, txAtt, _, _, heq⟩ <;> rw [heq] <;>
      exact ⟨h.clear, h.rxData, h.gattResult⟩
  | gapPair =>
    show c.gapPair.Untouched
    unfold Conn.gapPair
    split <;> exact ⟨h.clear, h.rxData, h.gattResult⟩
  | gattTakeResult => exact ⟨h.clear, h.rxData, rfl⟩
  | clearRxData => exact ⟨h.clear, rfl, h.gattResult⟩
  | _ => exact ⟨h.clear, h.rxData, h.gattResult⟩

namespace Conn

theorem Untouched.gapEncrypt {c : Conn} (h : c.Untouched) :
    c.gapEncrypt.Only Act.WithoutData (fun x => x.2.Untouched) := by
  unfold Conn.gapEncrypt
  split
  · exact .pure h
  · split
    · exact .pure h
    · refine (Logged.Only.emit (show Act.bondKey.WithoutData from trivial)).bind ?_
      intro _ _
      exact .pure ⟨h.clear, h.rxData, h.gattResult⟩

theorem runOp_untouched {c : Conn} (h : c.Untouched) {op : Op} (hop : op.ofHost = true) :
    (c.runOp hw op).Only Act.WithoutData Untouched := by
  cases op with
  | event ws =>
    have hunread : c.Unread c.inner := ⟨rfl, h.clear⟩
    exact (hunread.event ws).bind fun _ hx => .pure (hx.2.untouched h)
  | gapEncrypt => exact h.gapEncrypt.bind fun _ hx => .pure hx
  | call call => exact .pure (call.run_untouched h)
  | llControl | l2cap => cases hop

/-- **Runs of events and calls of the host** leave an untouched connection untouched. -/
theorem runOps_untouched {ops : List Op} (hops : ∀ op ∈ ops, op.ofHost = true) {c : Conn}
    (h : c.Untouched) : (Conn.runOps hw ops c).Only Act.WithoutData Untouched := by
  induction ops generalizing c with
  | nil => exact .pure h
  | cons op ops ih =>
    refine (runOp_untouched h (hops op List.mem_cons_self)).bind ?_
    intro c₁ h₁
    exact ih (fun op' hop' => hops op' (List.mem_cons_of_mem _ hop')) h₁

end Conn

/-! ## Both ends -/

namespace Conn

/-- The windows in which these packets are heard, with the clock standing. -/
def hearing (c : Conn) (heard : List (List UInt8)) : List Window :=
  heard.map fun air => ⟨.packet 0 (packetBuf air), c.lastRx⟩

theorem hearing_congr {c d : Conn} (h : c.lastRx = d.lastRx) : c.hearing = d.hearing := by
  funext heard
  unfold hearing
  rw [h]

/-- A window measures by the driver's rule. -/
theorem listen_heard (hw : Hw) (c : Conn) (air : List UInt8) :
    c.listen hw (.packet 0 (packetBuf air)) =
      c.receiveAt hw (packetBuf air) (LengthRule.receivePoll air) := by
  match air with
  | [] => rfl
  | [_] => rfl
  | _ :: _ :: _ => rfl

/-- A master hears the first of the packets in its window. -/
theorem masterHears_receivePoll {m m₁ : Conn} (hterm : m.terminatePending = false)
    (hres : (m.respond hw).res = .ok m₁) (air : List UInt8) (rest : List (List UInt8)) :
    (m.eventMaster hw (m₁.hearing (air :: rest))).res.map Prod.snd =
      (m₁.masterHears hw LengthRule.receivePoll air).res := by
  rw [show m₁.hearing (air :: rest) = ⟨.packet 0 (packetBuf air), m₁.lastRx⟩ :: m₁.hearing rest from rfl]
  unfold eventMaster masterHears
  rw [if_neg (by rw [hterm]; exact Bool.false_ne_true), Logged.bind_of_ok hres]
  dsimp only
  rw [listen_heard]
  cases hheard : m₁.receiveAt hw (packetBuf air) (LengthRule.receivePoll air) with
  | error p => rfl
  | ok r =>
    obtain ⟨got, m₂⟩ := r
    have hlast : { m₂ with lastRx := m₁.lastRx } = m₂ := by
      rw [← listen_heard] at hheard
      rw [listen_frame hheard]
    match got with
    | none => rfl
    | some (.error _) => exact congrArg Except.ok hlast
    | some (.ok pdu) =>
      rw [Logged.lift_ok_bind, Logged.lift_ok_bind]
      dsimp only
      rw [hlast]
      show (m₂.masterHandle hw 0 pdu >>= _).res.map _ = _
      rw [Logged.bind_res, Logged.bind_res]
      cases (m₂.masterHandle hw 0 pdu).res <;> rfl

/-- A packet that announces no more data is the one window of a slave's event. -/
theorem slaveHears_receivePoll {s : Conn} (hclear : s.encrypted = false) {b0 : UInt8}
    (hmd : b0 &&& 0b10000 = 0) (payload : List UInt8) :
    s.slaveHears hw LengthRule.receivePoll (dataAir b0 payload) =
      (s.eventSlave hw (s.hearing [dataAir b0 payload]) >>= fun r => pure r.2) := by
  rw [show s.hearing [dataAir b0 payload] =
    [⟨.packet 0 (packetBuf (dataAir b0 payload)), s.lastRx⟩] from rfl]
  unfold slaveHears eventSlave slaveLoop
  dsimp only
  rw [← listen_heard]
  rcases listen_clear hw hclear 0 (packetBuf (dataAir b0 payload)) with
    ⟨-, heq⟩ | ⟨-, ⟨e, heq⟩ | ⟨p, heq⟩⟩
  · rw [heq, Logged.lift_ok_bind, Logged.lift_ok_bind]
    have hpdu : (DataPdu.ofBytes ((packetBuf (dataAir b0 payload)).bytes.getD 0 0) []).md = false := by
      show ((b0 &&& 0b10000) != 0) = false
      rw [hmd]
      rfl
    dsimp only
    generalize DataPdu.ofBytes _ _ = pdu at hpdu ⊢
    show _ = ((slaveHandle hw { s with rxBuf := packetBuf (dataAir b0 payload) } 0 pdu .idle >>= _) >>= _) >>= _
    generalize slaveHandle hw { s with rxBuf := packetBuf (dataAir b0 payload) } 0 pdu .idle = x
    obtain ⟨log, p | ⟨step, s₁⟩⟩ := x
    · rfl
    · cases step with
      | error reason => simp
      | ok result =>
        simp only [Logged.mk_ok_bind, Logged.pure_eq_mk, Logged.prepend_mk, List.append_nil, hpdu,
          Bool.not_false, Bool.true_or, if_true]
        rw [Logged.prepend_bind]
        refine congrArg (Logged.prepend log) ?_
        split
        · rfl
        · rw [Logged.bind_assoc]
          exact (Logged.bind_pure _).symm
  · rw [heq]
    rfl
  · rw [heq]
    rfl

/-- What a link that is not encrypted puts on the air: one packet, which announces no more data. -/
theorem respond_clear {c c' : Conn} (hclear : c.encrypted = false) (h : (c.respond hw).res = .ok c') :
    ∃ b0 payload, b0 &&& 0b10000 = 0 ∧ airs (c.respond hw).log = [dataAir b0 payload] := by
  rcases respond_spec hw c with ⟨_, p, hp⟩ | ⟨t, kind, hlog, _⟩
  · rw [hp] at h
    cases h
  · have hmem : Act.tx t ∈ (c.respond hw).log := by
      rw [hlog]
      exact List.mem_singleton_self _
    obtain ⟨c₁, kind₁, llid, payload, h62, hfront, hmem, henc, -⟩ := respond_tx hmem
    obtain ⟨hair, -⟩ := tx_clear hw (henc.trans hclear) kind₁ h62 hfront
    have hone : (c₁.tx hw kind₁ (2 + payload.length)).log = [.tx t] := by
      unfold tx at hmem ⊢
      rw [if_neg (by rw [henc, hclear]; exact Bool.false_ne_true), transmitRaw_of_le _ _ (by omega)] at hmem ⊢
      rw [List.mem_singleton.mp hmem]
      rfl
    refine ⟨_, payload, c.txHeader_md llid, ?_⟩
    rw [hlog, ← hone]
    exact hair

/-- Without a window a master's event is its sending half. -/
theorem eventMaster_sends {m m₁ : Conn} (hterm : m.terminatePending = false)
    (hres : (m.respond hw).res = .ok m₁) :
    m.eventMaster hw [] = ⟨(m.respond hw).log, .ok (.ok .idle, m₁)⟩ := by
  unfold eventMaster
  rw [if_neg (by rw [hterm]; exact Bool.false_ne_true), Logged.bind_of_ok hres]
  exact Logged.ext (List.append_nil _) rfl

end Conn

open Conn in
/-- **Under the driver's rule the ideal link is `Conn::event` at both ends**: the master's event without
    its window sends, the slave's hears that and answers, and the master hears the oldest answer. -/
theorem LinkPair.event_receivePoll {p : LinkPair} (hm : p.master.role = .master)
    (hs : p.slave.role = .slave) (hclear : p.master.encrypted = false)
    (hclear' : p.slave.encrypted = false) (hterm : p.master.terminatePending = false) :
    p.event hw LengthRule.receivePoll = (do
      let sending := p.master.event hw []
      let _ ← sending.res
      let answer := p.slave.event hw (p.slave.hearing (airs sending.log))
      let (_, s) ← answer.res
      let heard := p.inbox ++ airs answer.log
      let (_, m) ← (p.master.event hw (p.master.hearing heard)).res
      return ⟨m, s, heard.tail⟩) := by
  unfold LinkPair.event
  cases hb : p.master.beginEvent with
  | error e =>
    dsimp only
    rw [event_stuck hb]
    rfl
  | ok m =>
    have hframe := beginEvent_frame hb
    have hmterm : m.terminatePending = false := by rw [hframe]; exact hterm
    have hmclear : m.encrypted = false := by rw [hframe]; exact hclear
    cases hres : (m.respond hw).res with
    | error e =>
      have hsend : (m.eventMaster hw []).res = .error e := by
        unfold eventMaster
        rw [if_neg (by rw [hmterm]; exact Bool.false_ne_true), Logged.bind_of_error hres]
      rw [ok_bind, event_master hm hb]
      dsimp only [Logged.prepend]
      rw [hsend]
      rfl
    | ok m₁ =>
      obtain ⟨b0, payload, hmd, hair⟩ := respond_clear hmclear hres
      have hsend := eventMaster_sends hmterm hres
      have hlast : p.master.lastRx = m₁.lastRx := by
        rcases respond_spec hw m with ⟨_, q, hq⟩ | ⟨_, _, _, _, _, hkept⟩
        · rw [hq] at hres
          cases hres
        · rw [hkept m₁ hres, hframe]
      have hsent : airs (p.master.event hw []).log = [dataAir b0 payload] := by
        rw [event_master hm hb, hsend, ← hair]
        rfl
      dsimp only
      rw [ok_bind, hsend, hsent, hearing_congr hlast, event_master hm hb, hsend]
      dsimp only [Logged.prepend]
      rw [ok_bind, ok_bind, hair]
      cases hbs : p.slave.beginEvent with
      | error e =>
        rw [event_stuck hbs]
        rfl
      | ok s =>
        have hsframe := beginEvent_frame hbs
        have hsclear : s.encrypted = false := by rw [hsframe]; exact hclear'
        have hslast : p.slave.lastRx = s.lastRx := by rw [hsframe]
        have hall : slaveHearsAll hw LengthRule.receivePoll [dataAir b0 payload] s =
            (s.eventSlave hw (s.hearing [dataAir b0 payload]) >>= fun r => pure r.2) := by
          rw [← slaveHears_receivePoll hsclear hmd payload]
          exact Logged.bind_pure _
        rw [ok_bind, hall, event_slave hs hbs, hearing_congr hslast]
        generalize s.eventSlave hw (s.hearing [dataAir b0 payload]) = answer
        obtain ⟨log, q | ⟨r, s₁⟩⟩ := answer
        · rfl
        · have hlog : airs (Act.tick p.slave :: log) = airs log := rfl
          rw [Logged.mk_ok_bind, Logged.pure_eq_mk, Logged.prepend_mk, List.append_nil, Logged.prepend_mk,
            List.singleton_append]
          dsimp only
          rw [ok_bind, ok_bind, hlog]
          dsimp only
          cases p.inbox ++ airs log with
          | nil =>
            rw [event_master hm hb, show m₁.hearing [] = [] from rfl, hsend]
            rfl
          | cons air rest =>
            rw [event_master hm hb]
            dsimp only [Logged.prepend]
            rw [← masterHears_receivePoll hmterm hres air rest]
            cases (m.eventMaster hw (m₁.hearing (air :: rest))).res <;> rfl

/-- **Nothing arrives** on a link whose packets the driver measures: after any number of events what a PDU
    is handled with is at both ends as it was. -/
theorem LinkPair.events_receivePoll {p p' : LinkPair} {n : Nat} (hm : p.master.role = .master)
    (hs : p.slave.role = .slave) (hclear : p.master.encrypted = false)
    (hclear' : p.slave.encrypted = false) (hterm : p.master.terminatePending = false)
    (h : p.events hw LengthRule.receivePoll n = .ok p') :
    p'.master.Unread p.master.inner ∧ p'.slave.Unread p.slave.inner := by
  induction n generalizing p with
  | zero =>
    cases h
    exact ⟨⟨rfl, hclear⟩, ⟨rfl, hclear'⟩⟩
  | succ n ih =>
    obtain ⟨p₁, h₁, hrest⟩ := bind_eq_ok.mp h
    rw [event_receivePoll hm hs hclear hclear' hterm] at h₁
    obtain ⟨_, _, h₁⟩ := bind_eq_ok.mp h₁
    obtain ⟨⟨rs, s⟩, hslave, h₁⟩ := bind_eq_ok.mp h₁
    obtain ⟨⟨rm, m⟩, hmaster, h₁⟩ := bind_eq_ok.mp h₁
    cases h₁
    obtain ⟨-, hunread⟩ := (Conn.Unread.event ⟨rfl, hclear⟩ _).returned _ hmaster
    obtain ⟨-, hunread'⟩ := (Conn.Unread.event ⟨rfl, hclear'⟩ _).returned _ hslave
    have hkept := ih (p := ⟨m, s, _⟩) ((congrArg Conn.role hunread.inner).trans hm)
      ((congrArg Conn.role hunread'.inner).trans hs) hunread.clear hunread'.clear
      ((congrArg Conn.terminatePending hunread.inner).trans hterm) hrest
    rw [hunread.inner, hunread'.inner] at hkept
    exact hkept

end NrfBle
