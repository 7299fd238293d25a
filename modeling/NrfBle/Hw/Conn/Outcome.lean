/-
  What one connection event can report, and what it leaves of the connection for good.

  `Conn::event` says how the event went; the host acts on the answer.  Two facts about it are needed
  there, both by walking through the event once:

  * an event that ends the link does so for one of two reasons, the peer's or the host's request
    (`event_outcome`): it never reports a supervision timeout, which is the host's own finding;
  * whatever is received, the role, the peer address and the bonds stay (`SamePeer`).
-/
import Mathlib.Tactic
import NrfBle.Hw.Conn.Run

namespace NrfBle

open Checked

namespace Conn

/-- What a connection keeps from its first event to its last. -/
structure SamePeer (c c' : Conn) : Prop where
  role : c'.role = c.role
  peerAddr : c'.peerAddr = c.peerAddr
  bondStore : c'.bondStore = c.bondStore

theorem SamePeer.refl (c : Conn) : SamePeer c c := ⟨rfl, rfl, rfl⟩

theorem SamePeer.trans {c c' c'' : Conn} (h : SamePeer c c') (h' : SamePeer c' c'') : SamePeer c c'' :=
  ⟨h'.role.trans h.role, h'.peerAddr.trans h.peerAddr, h'.bondStore.trans h.bondStore⟩

theorem SamePeer.of_link {c c' : Conn} (h : c'.link = c.link) : SamePeer c c' :=
  ⟨congrArg Link.role h, congrArg Link.peerAddr h, congrArg Link.bondStore h⟩

/-! ## The result of a handler -/

/-- The event did not end the link. -/
def Open (evt : ConnEvent) : Prop := ∀ reason, evt ≠ .disconnected reason

theorem open_idle : Open .idle := fun _ h => by cases h
theorem open_data : Open .data := fun _ h => by cases h

theorem handleAtt_open {c c' : Conn} {att : List UInt8} {result result' : ConnEvent}
    (h : Open result) (hrun : c.handleAtt att result = .ok (c', result')) : Open result' := by
  have hreport : result' = result ∨ result' = .data → Open result' := by
    rintro (rfl | rfl)
    · exact h
    · exact open_data
  cases handleAtt_cases hrun with
  | empty | response | replied => exact h
  | received _ _ _ hevent => exact hreport hevent
  | written _ _ _ _ hevent => exact hreport hevent

theorem reassemble_open {c c' : Conn} {body : List UInt8} {result result' : ConnEvent}
    (h : Open result) (hrun : c.reassemble handleAtt body result = .ok (c', result')) :
    Open result' := by
  rcases reassemble_cases hrun with ⟨_, _, ⟨_, rfl⟩ | ⟨_, _, hatt, _⟩⟩
  · exact h
  · exact handleAtt_open h hatt

theorem rxCocSdu_open {c c' : Conn} {body : List UInt8} {result result' : ConnEvent}
    (h : Open result) (hrun : c.rxCocSdu body result = .ok (c', result')) : Open result' := by
  cases rxCocSdu_cases hrun with
  | ignored | kept => exact h
  | finished => exact open_data

/-- A data PDU never ends the link. -/
theorem handleL2cap_open {hw : Hw} {c c' : Conn} {payload : List UInt8} {llid : UInt8}
    {result result' : ConnEvent} (h : Open result)
    (hrun : c.handleL2cap hw payload llid result = .ok (c', result')) : Open result' := by
  cases handleL2cap_cases hrun with
  | continued _ hr => exact reassemble_open h hr
  | dropped => exact h
  | smp => exact h
  | signaling => exact h
  | att _ hr => exact reassemble_open h hr
  | coc _ hr => exact rxCocSdu_open h hr
  | unknown => exact fun _ hne => by cases hne

/-! ## The walk through an event -/

/-- The link was ended by one of the two requests. -/
def Requested (reason : DisconnectReason) : Prop :=
  reason = .remoteTerminate ∨ reason = .hostTerminate

/-- The answer of an event: an error, or an outcome that ends the link on request only. -/
def Answered : Except Error ConnEvent → Prop
  | .error _ => True
  | .ok evt => ∀ reason, evt = .disconnected reason → Requested reason

theorem Answered.of_open {evt : ConnEvent} (h : Open evt) : Answered (.ok evt) :=
  fun reason hr => absurd hr (h reason)

variable {hw : Hw}

theorem respond_peer {c c' : Conn} (h : (c.respond hw).res = .ok c') : SamePeer c c' := by
  rcases respond_spec hw c with ⟨_, p, hp⟩ | ⟨t, kind, _, _, _, hres⟩
  · rw [hp] at h; cases h
  · rw [hres c' h]; exact ⟨rfl, rfl, rfl⟩

theorem acknowledge_peer (c : Conn) (sn : Bool) : SamePeer c (c.acknowledge sn) := by
  rw [acknowledge_eq]; exact ⟨rfl, rfl, rfl⟩

theorem listen_peer {c c' : Conn} {r : Reception} {got : Option (Except Error DataPdu)}
    (h : c.listen hw r = .ok (got, c')) : SamePeer c c' := by
  rw [listen_frame h]; exact ⟨rfl, rfl, rfl⟩

theorem sendTerminate_outcome {c c' : Conn} {answer : Except Error ConnEvent}
    (h : c.sendTerminate.res = .ok (answer, c')) : SamePeer c c' ∧ Answered answer := by
  obtain ⟨t, r, c₁, hx, _, hframe⟩ := sendTerminate_spec c
  have hanswer : answer = .ok (.disconnected .hostTerminate) := by
    unfold sendTerminate at h
    rw [Logged.emit_bind, Logged.bind_res] at h
    obtain ⟨_, _, h⟩ := bind_eq_ok.mp h
    cases h
    rfl
  rw [hx] at h
  cases h
  refine ⟨by rw [hframe]; exact ⟨rfl, rfl, rfl⟩, ?_⟩
  rw [hanswer]
  rintro reason ⟨⟩
  exact .inr rfl

theorem handleLlControl_outcome {c c' : Conn} {payload : List UInt8}
    {answer : Except DisconnectReason Unit}
    (h : (c.handleLlControl hw payload).res = .ok (answer, c')) :
    SamePeer c c' ∧ ∀ reason, answer = .error reason → reason = .remoteTerminate := by
  have hframe := ((handleLlControl_spec hw c payload).2 answer c' h).frame
  refine ⟨by rw [hframe]; exact ⟨rfl, rfl, rfl⟩, ?_⟩
  rintro reason rfl
  unfold handleLlControl at h
  rw [Logged.emit_bind] at h
  dsimp only at h
  split at h
  · cases h
  · split at h
    · cases h; rfl
    · rw [Logged.bind_res] at h
      obtain ⟨_, _, h⟩ := bind_eq_ok.mp h
      cases h

theorem deliver_outcome {c c' : Conn} {tag : Nat} {pdu : DataPdu} {result result' : ConnEvent}
    (hopen : Open result) (h : (c.deliver hw tag pdu result).res = .ok (c', result')) :
    SamePeer c c' ∧ Open result' := by
  have hrun : c.handleL2cap hw (pdu.payload.take 64) pdu.llid result = .ok (c', result') := h
  exact ⟨.of_link (handleL2cap_effect hrun).link, handleL2cap_open hopen hrun⟩

theorem slaveHandle_outcome {c c' : Conn} {tag : Nat} {pdu : DataPdu} {result : ConnEvent}
    {step : Except DisconnectReason ConnEvent} (hopen : Open result)
    (h : (c.slaveHandle hw tag pdu result).res = .ok (step, c')) :
    SamePeer c c' ∧ (∀ evt, step = .ok evt → Open evt) ∧
      ∀ reason, step = .error reason → Requested reason := by
  have hack := c.acknowledge_peer pdu.sn
  rcases slaveHandle_cases hw c tag pdu with hx | ⟨op, rest, hx⟩ | hx <;> rw [hx] at h
  · cases h
    exact ⟨hack, by rintro evt ⟨⟩; exact hopen, by rintro reason ⟨⟩⟩
  · obtain ⟨⟨answer, c₁⟩, hc, h⟩ := bind_eq_ok.mp h
    obtain ⟨hpeer, hreason⟩ := handleLlControl_outcome hc
    cases h
    refine ⟨hack.trans hpeer, ?_, ?_⟩
    · intro evt hevt reason hne
      cases answer <;> cases hevt
      cases hne
    · intro reason hr
      cases answer <;> cases hr
      exact .inl (hreason reason rfl)
  · obtain ⟨⟨c₁, result₁⟩, hd, h⟩ := bind_eq_ok.mp h
    obtain ⟨hpeer, hopen₁⟩ := deliver_outcome hopen
      (show ((c.acknowledge pdu.sn).deliver hw tag pdu result).res = .ok (c₁, result₁) from hd)
    cases h
    exact ⟨hack.trans hpeer, by rintro evt ⟨⟩; exact hopen₁, by rintro reason ⟨⟩⟩

/-- The loop, by induction on its windows: each round keeps the peer and an open result. -/
theorem slaveLoop_outcome (ws : List Window) (handled : Nat) (result : ConnEvent) (c c' : Conn)
    (fin : LoopEnd) (hopen : Open result)
    (h : (slaveLoop hw ws handled result c).res = .ok (fin, c')) :
    SamePeer c c' ∧ (∀ evt, fin = .done evt → Open evt) ∧
      ∀ reason, fin = .disconnected reason → Requested reason := by
  induction ws generalizing handled result c with
  | nil =>
    cases h
    exact ⟨.refl _, (by rintro evt ⟨⟩), (by rintro reason ⟨⟩)⟩
  | cons w ws ih =>
    cases slaveLoop_cases h with
    | silent heard => exact ⟨listen_peer heard, (by rintro evt ⟨⟩), (by rintro reason ⟨⟩)⟩
    | invalid heard => exact ⟨listen_peer heard, (by rintro evt ⟨⟩), (by rintro reason ⟨⟩)⟩
    | ended heard handles =>
      obtain ⟨hpeer, _, hreason⟩ := slaveHandle_outcome hopen handles
      refine ⟨(listen_peer heard).trans ⟨hpeer.role, hpeer.peerAddr, hpeer.bondStore⟩,
        (by rintro evt ⟨⟩), ?_⟩
      rintro reason ⟨⟩
      exact hreason _ rfl
    | last heard handles _ =>
      obtain ⟨hpeer, hevt, _⟩ := slaveHandle_outcome hopen handles
      refine ⟨(listen_peer heard).trans ⟨hpeer.role, hpeer.peerAddr, hpeer.bondStore⟩, ?_,
        (by rintro reason ⟨⟩)⟩
      rintro evt ⟨⟩
      exact hevt _ rfl
    | next heard handles _ rest =>
      obtain ⟨hpeer, hevt, _⟩ := slaveHandle_outcome hopen handles
      obtain ⟨hpeer', hevt', hreason'⟩ := ih _ _ _ (hevt _ rfl) rest
      have hsame := (listen_peer heard).trans ⟨hpeer.role, hpeer.peerAddr, hpeer.bondStore⟩
      exact ⟨hsame.trans hpeer', hevt', hreason'⟩

theorem eventSlave_outcome {c c' : Conn} {ws : List Window} {answer : Except Error ConnEvent}
    (h : (c.eventSlave hw ws).res = .ok (answer, c')) : SamePeer c c' ∧ Answered answer := by
  unfold eventSlave at h
  rw [Logged.bind_res] at h
  obtain ⟨⟨fin, c₁⟩, hloop, h⟩ := bind_eq_ok.mp h
  obtain ⟨hpeer, hevt, hreason⟩ := slaveLoop_outcome ws 0 .idle c c₁ fin open_idle hloop
  dsimp only at h
  split at h
  · cases h; exact ⟨hpeer, .of_open open_idle⟩
  · cases h; exact ⟨hpeer, trivial⟩
  · rename_i reason
    cases h
    refine ⟨hpeer, ?_⟩
    rintro reason' ⟨⟩
    exact hreason reason rfl
  · rename_i result
    split at h
    · obtain ⟨hpeer', hanswer⟩ := sendTerminate_outcome h
      exact ⟨hpeer.trans hpeer', hanswer⟩
    · rw [Logged.bind_res] at h
      obtain ⟨c₂, hr, h⟩ := bind_eq_ok.mp h
      cases h
      exact ⟨hpeer.trans (respond_peer hr), .of_open (hevt result rfl)⟩

theorem masterHandle_outcome {c c' : Conn} {tag : Nat} {pdu : DataPdu} {evt : ConnEvent}
    (h : (c.masterHandle hw tag pdu).res = .ok (evt, c')) : SamePeer c c' ∧ Answered (.ok evt) := by
  have hack := c.acknowledge_peer pdu.sn
  unfold masterHandle at h
  rw [Logged.emit_bind] at h
  dsimp only at h
  split at h
  · cases h; exact ⟨hack, .of_open open_idle⟩
  · split at h
    · split at h
      · cases h
        refine ⟨hack, ?_⟩
        rintro reason ⟨⟩
        exact .inl rfl
      · cases h
        refine ⟨hack, ?_⟩
        rintro reason ⟨⟩
    · rw [Logged.bind_res] at h
      obtain ⟨⟨c₁, result₁⟩, hd, h⟩ := bind_eq_ok.mp h
      obtain ⟨hpeer, hopen⟩ := deliver_outcome open_idle hd
      cases h
      exact ⟨hack.trans hpeer, .of_open hopen⟩

theorem eventMaster_outcome {c c' : Conn} {ws : List Window} {answer : Except Error ConnEvent}
    (h : (c.eventMaster hw ws).res = .ok (answer, c')) : SamePeer c c' ∧ Answered answer := by
  unfold eventMaster at h
  split at h
  · exact sendTerminate_outcome h
  · rw [Logged.bind_res] at h
    obtain ⟨c₁, hr, h⟩ := bind_eq_ok.mp h
    have hresp := respond_peer hr
    split at h
    · cases h; exact ⟨hresp, .of_open open_idle⟩
    · rename_i w _
      rw [Logged.bind_res] at h
      obtain ⟨⟨got, c₂⟩, hl, h⟩ := bind_eq_ok.mp h
      have hlisten := hresp.trans (listen_peer hl)
      dsimp only at h
      split at h
      · cases h; exact ⟨hlisten, .of_open open_idle⟩
      · cases h
        exact ⟨⟨hlisten.role, hlisten.peerAddr, hlisten.bondStore⟩, .of_open open_idle⟩
      · rw [Logged.bind_res] at h
        obtain ⟨⟨evt, c₃⟩, hm, h⟩ := bind_eq_ok.mp h
        obtain ⟨hpeer, hanswer⟩ := masterHandle_outcome hm
        cases h
        exact ⟨hlisten.trans ⟨hpeer.role, hpeer.peerAddr, hpeer.bondStore⟩, hanswer⟩

/-- **The outcome of a connection event**: role, peer and bonds are the ones of before, and a link
    that is ended is ended on request. -/
theorem event_outcome {c c' : Conn} {ws : List Window} {answer : Except Error ConnEvent}
    (h : (c.event hw ws).res = .ok (answer, c')) : SamePeer c c' ∧ Answered answer := by
  unfold event at h
  rw [Logged.bind_res] at h
  obtain ⟨c₁, hb, h⟩ := bind_eq_ok.mp h
  have hbegin : SamePeer c c₁ := by
    rw [beginEvent_frame hb]; exact ⟨rfl, rfl, rfl⟩
  rw [Logged.emit_bind] at h
  dsimp only at h
  split at h
  · cases h; exact ⟨hbegin, trivial⟩
  · split at h
    · obtain ⟨hpeer, hanswer⟩ := eventMaster_outcome h
      exact ⟨hbegin.trans hpeer, hanswer⟩
    · obtain ⟨hpeer, hanswer⟩ := eventSlave_outcome h
      exact ⟨hbegin.trans hpeer, hanswer⟩

end Conn

end NrfBle
