/-
  The LL encryption handshake, both roles together.

  Four control PDUs have to travel alternately: `LL_ENC_REQ` from the master, `LL_ENC_RSP` from the
  slave, `LL_START_ENC_REQ` and `LL_START_ENC_RSP`.  The replies are all in `handle_ll_control`, and
  `handle_ll_control` is only called by the SLAVE's half of `event`.  `event_master` looks at a
  control PDU for `LL_TERMINATE_IND` and otherwise just reports its opcode, so the handshake ends
  with an `LL_ENC_RSP` that nobody reads.

  `LinkPair` composes the two roles over an ideal link: every packet that is sent is heard by the other
  side, whole and in order.  How long the radio says it is comes from a rule, `LengthRule`, and what is
  said here holds under every one: the length on the air, or the source's own (`LengthRule.receivePoll`),
  under which the link is `Conn::event` at both ends (`Unheard`).
  A master event sends first and hears one packet at its end; packets of the slave it has not heard yet
  wait in `inbox`.  The clock plays no part here.
-/
import Mathlib.Tactic
import NrfBle.Hw.Conn.Channel

namespace NrfBle

open Checked

/-! ## The two roles over an ideal link -/

/-- The packet at the front of an otherwise empty receive buffer. -/
def packetBuf (air : List UInt8) : Buf 64 :=
  (Buf.zero 64).splice 0 (air.take 64) (by rw [List.length_take]; omega)

/-- What the radio says the length of a packet is, by its bytes on the air. -/
abbrev LengthRule := List UInt8 → Nat

/-- The rule of `Radio::receive_poll`: `2 + ((buf[1] >> 1) & 0x3F)`. -/
def LengthRule.receivePoll : LengthRule := Conn.driverLength

/-- The packets that went on the air. -/
def airs (log : List Act) : List (List UInt8) :=
  log.filterMap (fun a => a.sent.bind TxRec.air)

namespace Conn

/-- The second half of `Conn::event_master`: one packet is heard. -/
def masterHears (hw : Hw) (rule : LengthRule) (m : Conn) (air : List UInt8) : Logged Act Conn := do
  let (got, m) ← Logged.lift (m.receiveAt hw (packetBuf air) (rule air))
  match got with
  | some (.ok pdu) =>
    let (_, m) ← m.masterHandle hw 0 pdu
    return m
  | _ => return m

/-- The slave's half of `Conn::event`: one packet is heard and answered. -/
def slaveHears (hw : Hw) (rule : LengthRule) (s : Conn) (air : List UInt8) : Logged Act Conn := do
  let (got, s) ← Logged.lift (s.receiveAt hw (packetBuf air) (rule air))
  match got with
  | some (.ok pdu) =>
    let (step, s) ← s.slaveHandle hw 0 pdu .idle
    match step with
    | .error _ => return s
    | .ok _ =>
      if s.terminatePending then
        let (_, s) ← s.sendTerminate
        return s
      else s.respond hw
  | _ => return s

/-- The slave hears packets one after the other. -/
def slaveHearsAll (hw : Hw) (rule : LengthRule) : List (List UInt8) → Conn → Logged Act Conn
  | [], s => return s
  | air :: rest, s => do
    let s ← s.slaveHears hw rule air
    slaveHearsAll hw rule rest s

end Conn

/-- A master and a slave, and what the slave has sent and the master has not heard. -/
structure LinkPair where
  master : Conn
  slave : Conn
  inbox : List (List UInt8)

namespace LinkPair

/-- One connection event of both: the master sends, the slave hears and answers, the master hears the
    oldest packet. -/
def event (hw : Hw) (rule : LengthRule) (p : LinkPair) : Except Panic LinkPair := do
  let m ← p.master.beginEvent
  -- without a window the event of a master is its sending half
  let sending := m.eventMaster hw []
  let (_, m) ← sending.res
  let s ← p.slave.beginEvent
  let answer := Conn.slaveHearsAll hw rule (airs sending.log) s
  let s ← answer.res
  match p.inbox ++ airs answer.log with
  | [] => return ⟨m, s, []⟩
  | air :: inbox =>
    let m ← (m.masterHears hw rule air).res
    return ⟨m, s, inbox⟩

/-- `n` connection events. -/
def events (hw : Hw) (rule : LengthRule) : Nat → LinkPair → Except Panic LinkPair
  | 0, p => return p
  | n + 1, p => do
    let p ← p.event hw rule
    events hw rule n p

end LinkPair

/-! ## What a master's event leaves alone -/

/-- Role and encryption are as before. -/
structure SameMode (c c' : Conn) : Prop where
  role : c'.role = c.role
  encrypted : c'.encrypted = c.encrypted

theorem SameMode.refl (c : Conn) : SameMode c c := ⟨rfl, rfl⟩

theorem SameMode.trans {c c' c'' : Conn} (h : SameMode c c') (h' : SameMode c' c'') :
    SameMode c c'' := ⟨h'.role.trans h.role, h'.encrypted.trans h.encrypted⟩

theorem SameMode.of_link {c c' : Conn} (h : c'.link = c.link) : SameMode c c' :=
  ⟨congrArg Link.role h, congrArg Link.encrypted h⟩

namespace Conn

variable {hw : Hw}

theorem beginEvent_mode {c c' : Conn} (h : c.beginEvent = .ok c') : SameMode c c' := by
  have hf := beginEvent_frame h
  exact ⟨by rw [hf], by rw [hf]⟩

theorem rx_mode (hw : Hw) (c : Conn) : SameMode c (c.rx hw).2 := by
  unfold rx
  split <;> exact ⟨rfl, rfl⟩

theorem receiveAt_mode {c c' : Conn} {buf : Buf 64} {len : Nat}
    {got : Option (Except Error DataPdu)} (h : c.receiveAt hw buf len = .ok (got, c')) :
    SameMode c c' := by
  have hrx := rx_mode hw { c with rxBuf := buf }
  unfold receiveAt at h
  dsimp only at h
  split at h
  · obtain ⟨_, _, h⟩ := bind_eq_ok.mp h
    obtain ⟨_, _, h⟩ := bind_eq_ok.mp h
    cases h
    exact ⟨hrx.role, hrx.encrypted⟩
  · cases h
    exact ⟨hrx.role, hrx.encrypted⟩

theorem listen_mode {c c' : Conn} {r : Reception} {got : Option (Except Error DataPdu)}
    (h : c.listen hw r = .ok (got, c')) : SameMode c c' := by
  have hf := listen_frame h
  exact ⟨by rw [hf], by rw [hf]⟩

theorem respond_mode {c c' : Conn} (h : (c.respond hw).res = .ok c') : SameMode c c' := by
  rcases respond_spec hw c with ⟨_, p, hp⟩ | ⟨t, kind, _, _, _, hres⟩
  · rw [hp] at h
    cases h
  · have hf := hres c' h
    exact ⟨by rw [hf], by rw [hf]⟩

theorem sendTerminate_mode {c c' : Conn} {r : Except Error ConnEvent}
    (h : c.sendTerminate.res = .ok (r, c')) : SameMode c c' := by
  obtain ⟨t, r', c₁, heq, _, hf⟩ := sendTerminate_spec c
  rw [heq] at h
  cases h
  exact ⟨by rw [hf], by rw [hf]⟩

/-- **A master handles no control PDU**: whatever it decodes, role and encryption stay. -/
theorem masterHandle_mode {c c' : Conn} {tag : Nat} {pdu : DataPdu} {r : ConnEvent}
    (h : (c.masterHandle hw tag pdu).res = .ok (r, c')) : SameMode c c' := by
  unfold masterHandle at h
  rw [Logged.emit_bind] at h
  dsimp only at h
  have hack : SameMode c (c.acknowledge pdu.sn) := by
    rw [acknowledge_eq]
    exact ⟨rfl, rfl⟩
  split at h
  · cases h
    exact hack
  · split at h
    · split at h <;> (cases h; exact hack)
    · rw [Logged.bind_res] at h
      obtain ⟨⟨c₁, r₁⟩, hd, h⟩ := bind_eq_ok.mp h
      cases h
      exact hack.trans (.of_link (handleL2cap_effect hd).link)

/-- The event of a master, in its own words: it sends, and handles at most one PDU. -/
theorem eventMaster_mode {c c' : Conn} {ws : List Window} {r : Except Error ConnEvent}
    (h : (c.eventMaster hw ws).res = .ok (r, c')) : SameMode c c' := by
  unfold eventMaster at h
  split at h
  · exact sendTerminate_mode h
  · rw [Logged.bind_res] at h
    obtain ⟨c₁, h₁, h⟩ := bind_eq_ok.mp h
    have hmode := respond_mode h₁
    split at h
    · cases h
      exact hmode
    · rename_i w _
      rw [Logged.bind_res] at h
      obtain ⟨⟨got, c₂⟩, h₂, h⟩ := bind_eq_ok.mp h
      replace hmode := hmode.trans (listen_mode h₂)
      dsimp only at h
      split at h
      · cases h
        exact hmode
      · cases h
        exact ⟨hmode.role, hmode.encrypted⟩
      · rw [Logged.bind_res] at h
        obtain ⟨⟨r₃, c₃⟩, h₃, h⟩ := bind_eq_ok.mp h
        cases h
        have h₃ := masterHandle_mode h₃
        exact ⟨h₃.role.trans hmode.role, h₃.encrypted.trans hmode.encrypted⟩

theorem masterHears_mode {rule : LengthRule} {m m' : Conn} {air : List UInt8}
    (h : (m.masterHears hw rule air).res = .ok m') : SameMode m m' := by
  unfold masterHears at h
  rw [Logged.bind_res] at h
  obtain ⟨⟨got, m₁⟩, h₁, h⟩ := bind_eq_ok.mp h
  have hmode := receiveAt_mode h₁
  dsimp only at h
  split at h
  · rw [Logged.bind_res] at h
    obtain ⟨⟨r₂, m₂⟩, h₂, h⟩ := bind_eq_ok.mp h
    cases h
    exact hmode.trans (masterHandle_mode h₂)
  · cases h
    exact hmode

/-- `Conn::event` of a master, with anything in its windows. -/
theorem event_mode {c c' : Conn} {ws : List Window} {r : Except Error ConnEvent}
    (hrole : c.role = .master) (h : (c.event hw ws).res = .ok (r, c')) : SameMode c c' := by
  unfold event at h
  rw [Logged.bind_res] at h
  obtain ⟨c₁, h₁, h⟩ := bind_eq_ok.mp h
  have hmode := beginEvent_mode h₁
  rw [Logged.emit_bind] at h
  dsimp only at h
  split at h
  · cases h
    exact hmode
  · rw [hmode.role, hrole] at h
    exact hmode.trans (eventMaster_mode h)

end Conn

/-! ## Runs -/

/-- One connection event of the pair. -/
theorem LinkPair.event_mode {hw : Hw} {rule : LengthRule} {p p' : LinkPair}
    (h : p.event hw rule = .ok p') :
    SameMode p.master p'.master := by
  unfold LinkPair.event at h
  obtain ⟨m, hm, h⟩ := bind_eq_ok.mp h
  dsimp only at h
  obtain ⟨⟨r, m₁⟩, hm₁, h⟩ := bind_eq_ok.mp h
  obtain ⟨s, _, h⟩ := bind_eq_ok.mp h
  obtain ⟨s₁, _, h⟩ := bind_eq_ok.mp h
  have hmode := (Conn.beginEvent_mode hm).trans (Conn.eventMaster_mode hm₁)
  split at h
  · cases h
    exact hmode
  · obtain ⟨m₂, hm₂, h⟩ := bind_eq_ok.mp h
    cases h
    exact hmode.trans (Conn.masterHears_mode hm₂)

theorem LinkPair.events_mode {hw : Hw} {rule : LengthRule} {p p' : LinkPair} {n : Nat}
    (h : p.events hw rule n = .ok p') :
    SameMode p.master p'.master := by
  induction n generalizing p with
  | zero => cases h; exact .refl _
  | succ n ih =>
    obtain ⟨p₁, h₁, h⟩ := bind_eq_ok.mp h
    exact (LinkPair.event_mode h₁).trans (ih h)

/-- A run of events of a master, whatever its windows bring. -/
theorem runEvents_mode {hw : Hw} {c c' : Conn} {wss : List (List Window)} (hrole : c.role = .master)
    (h : (Conn.runOps hw (wss.map Op.event) c).res = .ok c') : SameMode c c' := by
  induction wss generalizing c with
  | nil => cases h; exact .refl _
  | cons ws wss ih =>
    rw [List.map_cons, Conn.runOps, Logged.bind_res] at h
    obtain ⟨c₁, h₁, h⟩ := bind_eq_ok.mp h
    rw [Conn.runOp, Logged.bind_res] at h₁
    obtain ⟨⟨r, c₂⟩, h₂, h₁⟩ := bind_eq_ok.mp h₁
    cases h₁
    have hmode := Conn.event_mode hrole h₂
    exact hmode.trans (ih (hmode.role.trans hrole) h)

/-- A connected master and slave with one key, unencrypted and with nothing to send. -/
structure HandshakeStart (m s : Conn) : Prop where
  master : m.role = .master
  slave : s.role = .slave
  stk : m.smp.stk = s.smp.stk
  masterClear : m.encrypted = false
  slaveClear : s.encrypted = false
  masterIdle : m.txPending = false ∧ m.pendingControl = none
  slaveIdle : s.txPending = false ∧ s.pendingControl = none

/-- **The encryption handshake never completes.**  From every such pair, after `queue_encrypt_req` on
    the master: no number of connection events over the ideal link ends with both sides encrypted,
    however long the radio says the packets are; nor does the master become encrypted in any run of its
    own events, whatever it receives. -/
theorem handshake_never_completes (hw : Hw) (rule : LengthRule) (m s : Conn) (h : HandshakeStart m s) :
    (∀ n p', LinkPair.events hw rule n ⟨m.queueEncryptReq, s, []⟩ = .ok p' →
      ¬ (p'.master.encrypted = true ∧ p'.slave.encrypted = true)) ∧
    (∀ (wss : List (List Window)) (c' : Conn),
      (Conn.runOps hw (wss.map Op.event) m.queueEncryptReq).res = .ok c' → c'.encrypted = false) := by
  constructor
  · rintro n p' hp ⟨hm, _⟩
    have hmode := (LinkPair.events_mode hp).encrypted
    rw [hm] at hmode
    rw [show (m.queueEncryptReq).encrypted = m.encrypted from rfl, h.masterClear] at hmode
    cases hmode
  · intro wss c' hc
    have hrole : m.queueEncryptReq.role = .master := h.master
    exact (runEvents_mode hrole hc).encrypted.trans h.masterClear

theorem HandshakeStart.sample : HandshakeStart (Conn.sample .master) (Conn.sample .slave) :=
  ⟨rfl, rfl, rfl, rfl, rfl, ⟨rfl, rfl⟩, ⟨rfl, rfl⟩⟩

/-- Two new connections run eight events, and not both are encrypted. -/
theorem handshake_eight_events :
    ∃ p', LinkPair.events Hw.standIn List.length 8
        ⟨(Conn.sample .master).queueEncryptReq, Conn.sample .slave, []⟩ = .ok p' ∧
      ¬ (p'.master.encrypted = true ∧ p'.slave.encrypted = true) := by
  obtain ⟨p', hp⟩ : Returns (LinkPair.events Hw.standIn List.length 8
      ⟨(Conn.sample .master).queueEncryptReq, Conn.sample .slave, []⟩) := by decide +kernel
  exact ⟨p', hp, (handshake_never_completes Hw.standIn List.length _ _ HandshakeStart.sample).1 8 p' hp⟩

/-- The slave receives the `LL_ENC_REQ` and sends its `LL_ENC_RSP`; eight events later neither side is
    encrypted, and neither has anything left to send. -/
theorem handshake_stops_at_enc_rsp :
    (LinkPair.events Hw.standIn List.length 8
      ⟨(Conn.sample .master).queueEncryptReq, Conn.sample .slave, []⟩).toOption.any
        (fun p => p.slave.wantEncrypt && !p.master.encrypted && !p.slave.encrypted &&
          p.master.pendingControl.isNone && p.slave.pendingControl.isNone && p.inbox.isEmpty) =
      true := by
  decide +kernel

end NrfBle
