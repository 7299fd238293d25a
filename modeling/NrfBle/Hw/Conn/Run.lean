/-
  Runs of a connection: any sequence of connection events, of received PDUs that reach a handler,
  and of local calls, from any state.

  `runOps` executes such a sequence and returns the final state together with the log of what was
  done.  The properties of runs are not proved on these programs but on a STEP RELATION, `Step`,
  that says once what a connection can do next and what that logs.  `runOps_follows` is the bridge:
  the log of every run, also of one that panics half-way, is a trace of `Step`, and the state the
  run returns is the one the trace ends in.

  A system state carries one ghost bit besides the connection: an answer is OWED from the start of
  an event until `respond` is called.  So a trace has at most one response per event.
-/
import Mathlib.Tactic
import NrfBle.Hw.Conn.Event

namespace NrfBle

open Checked

/-! ## Local calls -/

/-- The calls the host can make on a connection, apart from `gap_encrypt`. -/
inductive LocalCall
  | queueNotify (data : List UInt8)
  | queueL2cap (l2 : List UInt8) (cid : UInt16)
  | l2capConnect (psm : UInt16)
  | l2capSend (data : List UInt8)
  | gattSendRequest (att : List UInt8)
  | gattTakeResult
  | queueEncryptReq
  | terminate
  | setPeer (peer : Buf 6)
  | gapPair
  | gapBondSave (peer : Buf 6) (ltk : Buf 16) (irk : Option (Buf 16))
  | clearRxData
  | setPasskey (passkey : Option UInt32)
  | enableSc

namespace Conn

/-- The connection's part of `Ble::gap_pair`. -/
def gapPair (c : Conn) : Conn :=
  match c.role with
  | .master =>
    let r := c.smp.buildPairingRequest
    sendSmp { c with smp := r.2 } r.1.bytes
  | .slave => { c with smp := { c.smp with state := .idle } }

/-- The connection's part of `Ble::gap_encrypt`: the session key of a stored bond. -/
def gapEncrypt (c : Conn) : Logged Act (Except Error Unit × Conn) :=
  match c.role with
  | .slave => return (.error .invalidParam, c)
  | .master =>
    match c.bondStore.find c.peerAddr with
    | none => return (.error .notRunning, c)
    | some bond => do
      Logged.emit .bondKey
      return (.ok (), queueEncryptReq { c with smp := { c.smp with stk := bond.ltk } })

end Conn

/-- The effect of a local call. -/
def LocalCall.run : LocalCall → Conn → Conn
  | .queueNotify data, c => c.queueNotify data
  | .queueL2cap l2 cid, c => c.queueL2cap l2 cid
  | .l2capConnect psm, c => c.l2capConnect psm
  | .l2capSend data, c => (c.l2capSend data).2
  | .gattSendRequest att, c => c.gattSendRequest att
  | .gattTakeResult, c => c.gattTakeResult.2
  | .queueEncryptReq, c => c.queueEncryptReq
  | .terminate, c => { c with terminatePending := true }
  | .setPeer peer, c => { c with peerAddr := peer }
  | .gapPair, c => c.gapPair
  | .gapBondSave peer ltk irk, c => { c with bondStore := c.bondStore.save peer ltk irk }
  | .clearRxData, c => { c with rxDataLen := 0 }
  | .setPasskey passkey, c => { c with smp := c.smp.setPasskey passkey }
  | .enableSc, c => { c with smp := c.smp.enableSc }

/-- What a local call can change of the parts the runs below are about: `want_encrypt` is never
    taken back, the session key stays, and of the link only `terminate_pending`, the peer address
    and the bonds. -/
structure LocalEffect (c c' : Conn) : Prop where
  link : c'.link = { c.link with
    terminatePending := c'.terminatePending, peerAddr := c'.peerAddr, bondStore := c'.bondStore }
  wants : c.wantEncrypt = true → c'.wantEncrypt = true
  stk : c'.smp.stk = c.smp.stk

theorem LocalCall.run_effect (call : LocalCall) (c : Conn) : LocalEffect c (call.run c) := by
  cases call with
  | l2capConnect psm =>
    show LocalEffect c (c.l2capConnect psm)
    unfold Conn.l2capConnect
    split <;> exact ⟨rfl, id, rfl⟩
  | l2capSend data =>
    show LocalEffect c (c.l2capSend data).2
    rcases c.l2capSend_spec data with ⟨e, h⟩ | ⟨coc, txAtt, _, _, h⟩ <;> rw [h] <;>
      exact ⟨rfl, id, rfl⟩
  | gapPair =>
    show LocalEffect c c.gapPair
    unfold Conn.gapPair
    split <;> exact ⟨rfl, id, rfl⟩
  | queueEncryptReq => exact ⟨rfl, fun _ => rfl, rfl⟩
  | _ => exact ⟨rfl, id, rfl⟩

/-! ## Runs -/

/-- One thing that happens to a connection. -/
inductive Op
  /-- A connection event, with what its listening windows bring. -/
  | event (ws : List Window)
  /-- A received LL control PDU reaches its handler. -/
  | llControl (payload : List UInt8)
  /-- A received data PDU reaches its handler. -/
  | l2cap (llid : UInt8) (payload : List UInt8)
  | gapEncrypt
  | call (call : LocalCall)

namespace Conn

/-- Execute one operation. -/
def runOp (hw : Hw) (c : Conn) : Op → Logged Act Conn
  | .event ws => do
    let (_, c) ← c.event hw ws
    return c
  | .llControl payload => do
    let (_, c) ← c.handleLlControl hw payload
    return c
  | .l2cap llid payload => do
    Logged.emit (.l2cap c none llid payload)
    let (c, _) ← Logged.lift (c.handleL2cap hw payload llid .idle)
    return c
  | .gapEncrypt => do
    let (_, c) ← c.gapEncrypt
    return c
  | .call call => return call.run c

/-- Execute a sequence of operations. -/
def runOps (hw : Hw) : List Op → Conn → Logged Act Conn
  | [], c => return c
  | op :: ops, c => do
    let c ← c.runOp hw op
    runOps hw ops c

end Conn

/-! ## The step relation -/

/-- A connection, and whether it owes an answer. -/
structure Sys where
  conn : Conn
  owes : Bool

/-- The state a program leaves, or the one it started in when it stopped. -/
def stateAfter {α : Type} (x : Except Panic α) (f : α → Conn) (c : Conn) : Conn :=
  match x with
  | .ok a => f a
  | .error _ => c

/-- The PDU is a data fragment. -/
def Act.isFragment : Act → Bool
  | .tx t => t.kind = .fragment
  | _ => false

/-- The state `respond` leaves.  When it stops in `tx`, behind a fragment, the sequence number has
    turned already. -/
def Conn.afterRespond (hw : Hw) (c : Conn) : Conn :=
  match (c.respond hw).res with
  | .ok c' => c'
  -- behind a fragment `sn` has turned, before anything else it has not
  | .error _ => { c with sn := (c.respond hw).log.any Act.isFragment ^^ c.sn }

/-- **What a connection can do next.** -/
inductive Step (hw : Hw) : Sys → List Act → Sys → Prop
  /-- An event begins. -/
  | tick {c c' : Conn} {o : Bool} : c.beginEvent = .ok c' → Step hw ⟨c, o⟩ [.tick c] ⟨c', true⟩
  /-- The radio was heard: only the receive buffer, the cipher and the clock change. -/
  | heard (c : Conn) (o : Bool) (rxBuf : Buf 64) (ccm : Ccm) (lastRx : UInt32) :
      Step hw ⟨c, o⟩ [] ⟨{ c with rxBuf := rxBuf, ccm := ccm, lastRx := lastRx }, o⟩
  /-- A decoded PDU is taken note of. -/
  | accept (c : Conn) (o : Bool) (tag : Nat) (pdu : DataPdu) :
      Step hw ⟨c, o⟩ [.accept c tag pdu] ⟨c.acknowledge pdu.sn, o⟩
  /-- A decoded PDU is taken note of and delivered to L2CAP. -/
  | deliver (c : Conn) (o : Bool) (tag : Nat) (pdu : DataPdu) (result : ConnEvent)
      (hne : pdu.payload ≠ []) (hllid : pdu.llid ≠ llidControl) :
      Step hw ⟨c, o⟩
        [.accept c tag pdu, .l2cap (c.acknowledge pdu.sn) (some tag) pdu.llid (pdu.payload.take 64)]
        ⟨stateAfter ((c.acknowledge pdu.sn).handleL2cap hw (pdu.payload.take 64) pdu.llid result)
          Prod.fst (c.acknowledge pdu.sn), o⟩
  /-- A data PDU reaches its handler in some other way. -/
  | l2cap (c : Conn) (o : Bool) (llid : UInt8) (payload : List UInt8) (result : ConnEvent) :
      Step hw ⟨c, o⟩ [.l2cap c none llid payload]
        ⟨stateAfter (c.handleL2cap hw payload llid result) Prod.fst c, o⟩
  /-- A control PDU reaches its handler. -/
  | ctrl (c : Conn) (o : Bool) (payload : List UInt8) :
      Step hw ⟨c, o⟩ (c.handleLlControl hw payload).log
        ⟨stateAfter (c.handleLlControl hw payload).res Prod.snd c, o⟩
  /-- The answer of an event. -/
  | respond (c : Conn) :
      Step hw ⟨c, true⟩ (c.respond hw).log ⟨c.afterRespond hw, false⟩
  /-- The last PDU of an event that ends the link. -/
  | terminate (c : Conn) (o : Bool) :
      Step hw ⟨c, o⟩ c.sendTerminate.log ⟨stateAfter c.sendTerminate.res Prod.snd c, o⟩
  /-- The session key of a stored bond is taken over. -/
  | bondKey (c : Conn) (o : Bool) (ltk : Buf 16) :
      Step hw ⟨c, o⟩ [.bondKey]
        ⟨Conn.queueEncryptReq { c with smp := { c.smp with stk := ltk } }, o⟩
  /-- A local call. -/
  | call (c : Conn) (o : Bool) (call : LocalCall) : Step hw ⟨c, o⟩ [] ⟨call.run c, o⟩

/-- `respond` as a step: nothing at all, or one record and its effect. -/
theorem Conn.afterRespond_spec (hw : Hw) (c : Conn) :
    ((c.respond hw).log = [] ∧ c.afterRespond hw = c) ∨
    (∃ t kind, (c.respond hw).log = [.tx t] ∧ Sent c kind t ∧ t.sn = c.sn ∧
      c.afterRespond hw = { c with
        ccm := (c.afterRespond hw).ccm, txBuf := (c.afterRespond hw).txBuf
        txFragOffset := (c.afterRespond hw).txFragOffset
        txPending := (c.afterRespond hw).txPending
        pendingControl := (c.afterRespond hw).pendingControl
        sn := if kind = .fragment then !c.sn else c.sn }) := by
  rcases respond_spec hw c with ⟨hlog, p, hp⟩ | ⟨t, kind, hlog, hsent, hsn, hres⟩
  · left
    refine ⟨hlog, ?_⟩
    unfold afterRespond
    rw [hp, hlog]
    show ({ c with sn := false ^^ c.sn } : Conn) = c
    rw [Bool.false_xor]
  · right
    refine ⟨t, kind, hlog, hsent, hsn, ?_⟩
    cases h : (c.respond hw).res with
    | ok c' =>
      have hafter : c.afterRespond hw = c' := by unfold afterRespond; rw [h]
      rw [hafter]
      exact hres c' h
    | error p =>
      have hafter : c.afterRespond hw =
          { c with sn := if kind = .fragment then !c.sn else c.sn } := by
        unfold afterRespond
        rw [h, hlog]
        have hany : [Act.tx t].any Act.isFragment = decide (kind = .fragment) := by
          rw [List.any_cons, List.any_nil, Bool.or_false, ← hsent.kind]; rfl
        dsimp only
        rw [hany]
        cases kind <;> simp
      rw [hafter]

/-- Delivering a data PDU leaves the link layer alone, also when the handler stops. -/
theorem link_deliver (hw : Hw) (c : Conn) (payload : List UInt8) (llid : UInt8)
    (result : ConnEvent) :
    (stateAfter (c.handleL2cap hw payload llid result) Prod.fst c).link = c.link := by
  cases h : c.handleL2cap hw payload llid result with
  | error p => rfl
  | ok r => exact (Conn.handleL2cap_effect h).link

/-- Handling a control PDU is one branch for its opcode, or changes nothing. -/
theorem handleLlControl_after (hw : Hw) (c : Conn) (payload : List UInt8) :
    stateAfter (c.handleLlControl hw payload).res Prod.snd c = c ∨
      ∃ op rest c', payload = op :: rest ∧ (c.controlStep hw op payload).res = .ok c' ∧
        stateAfter (c.handleLlControl hw payload).res Prod.snd c = c' := by
  cases payload with
  | nil => exact .inl rfl
  | cons op rest =>
    by_cases hterm : op = llControlTerminateInd
    · subst hterm
      exact .inl rfl
    · rw [(Conn.handleLlControl_cons hw c op rest hterm).2]
      cases hstep : (c.controlStep hw op (op :: rest)).res with
      | error p => exact .inl rfl
      | ok c' => exact .inr ⟨op, rest, c', rfl, hstep, rfl⟩

/-- Handling a control PDU has its effect also when it stops: what stops is no START_ENC PDU. -/
theorem controlEffect_after (hw : Hw) (c : Conn) (payload : List UInt8) :
    Conn.ControlEffect (Conn.startsEnc payload) c
      (stateAfter (c.handleLlControl hw payload).res Prod.snd c) := by
  obtain ⟨_, heff⟩ := Conn.handleLlControl_spec hw c payload
  cases h : (c.handleLlControl hw payload).res with
  | ok r => exact heff r.1 r.2 h
  | error p =>
    have hunsafe : ¬ Conn.ControlSafe payload := by
      rw [← Conn.returns_handleLlControl hw c, h]
      exact not_returns_error p
    have hstart : Conn.startsEnc payload = false := by
      match payload with
      | [] => rfl
      | op :: rest =>
        rcases Bool.eq_false_or_eq_true (Conn.isStartEnc op) with hs | hs
        · have hop : op = llControlStartEncReq ∨ op = llControlStartEncRsp := of_decide_eq_true hs
          rcases hop with rfl | rfl <;> exact absurd trivial hunsafe
        · exact hs
    rw [hstart]
    exact .refl c

/-! ## Runs are traces -/

section Follows

variable {hw : Hw}

theorem listen_follows (c : Conn) (o : Bool) (r : Reception) :
    Follows (Step hw) ⟨c, o⟩ (Logged.lift (c.listen hw r)) (fun a s => s = ⟨a.2, o⟩) := by
  refine .lift_silent (fun a => ⟨a.2, o⟩) ?_
  rintro ⟨got, c'⟩ h
  have hs : Step hw ⟨c, o⟩ [] ⟨{ c with rxBuf := c'.rxBuf, ccm := c'.ccm, lastRx := c.lastRx }, o⟩ :=
    .heard c o c'.rxBuf c'.ccm c.lastRx
  have hc' : ({ c with rxBuf := c'.rxBuf, ccm := c'.ccm, lastRx := c.lastRx } : Conn) = c' :=
    (Conn.listen_frame h).symm
  rw [hc'] at hs
  exact ⟨hs, rfl⟩

theorem handleLlControl_follows (c : Conn) (o : Bool) (payload : List UInt8) :
    Follows (Step hw) ⟨c, o⟩ (c.handleLlControl hw payload) (fun a s => s = ⟨a.2, o⟩) := by
  refine .of_step (.ctrl c o payload) ?_
  intro a h
  rw [h]; rfl

theorem respond_follows (c : Conn) :
    Follows (Step hw) ⟨c, true⟩ (c.respond hw) (fun a s => s = ⟨a, false⟩) := by
  refine .of_step (.respond c) ?_
  intro a h
  unfold Conn.afterRespond
  rw [h]

theorem sendTerminate_follows (c : Conn) (o : Bool) :
    Follows (Step hw) ⟨c, o⟩ c.sendTerminate (fun a s => s = ⟨a.2, o⟩) := by
  refine .of_step (.terminate c o) ?_
  intro a h
  rw [h]; rfl

/-- Taking note of a PDU and delivering it is one step. -/
theorem deliver_follows {β : Type} (c : Conn) (o : Bool) (tag : Nat) (pdu : DataPdu)
    (result : ConnEvent) (hne : pdu.payload ≠ []) (hllid : pdu.llid ≠ llidControl)
    (f : Conn × ConnEvent → β) (g : β → Conn) (hg : ∀ a, g (f a) = a.1) :
    Follows (Step hw) ⟨c, o⟩
      (Logged.emit (.accept c tag pdu) >>= fun _ =>
        (c.acknowledge pdu.sn).deliver hw tag pdu result >>= fun a => pure (f a))
      (fun b s => s = ⟨g b, o⟩) := by
  have hx : (Logged.emit (Act.accept c tag pdu) >>= fun _ =>
      (c.acknowledge pdu.sn).deliver hw tag pdu result >>= fun a => pure (f a)) =
      ⟨[.accept c tag pdu,
        .l2cap (c.acknowledge pdu.sn) (some tag) pdu.llid (pdu.payload.take 64)],
        (c.acknowledge pdu.sn).handleL2cap hw (pdu.payload.take 64) pdu.llid result >>=
          fun a => .ok (f a)⟩ := by
    unfold Conn.deliver
    cases (c.acknowledge pdu.sn).handleL2cap hw (pdu.payload.take 64) pdu.llid result <;> rfl
  rw [hx]
  refine .of_step (.deliver c o tag pdu result hne hllid) ?_
  intro b h
  obtain ⟨a, ha, h⟩ := bind_eq_ok.mp h
  cases h
  rw [ha, hg]; rfl

theorem slaveHandle_follows (c : Conn) (o : Bool) (tag : Nat) (pdu : DataPdu)
    (result : ConnEvent) :
    Follows (Step hw) ⟨c, o⟩ (c.slaveHandle hw tag pdu result) (fun a s => s = ⟨a.2, o⟩) := by
  have haccept : Follows (Step hw) ⟨c, o⟩ (Logged.emit (.accept c tag pdu))
      (fun _ s => s = ⟨c.acknowledge pdu.sn, o⟩) :=
    .of_step (.accept c o tag pdu) (fun _ _ => rfl)
  unfold Conn.slaveHandle
  dsimp only
  split
  · refine haccept.bind ?_
    rintro _ _ _ rfl
    exact .pure rfl
  · split
    · refine haccept.bind ?_
      rintro _ _ _ rfl
      refine (handleLlControl_follows _ o _).bind ?_
      rintro ⟨answer, c'⟩ _ _ rfl
      cases answer <;> exact .pure rfl
    · rename_i hpay hllid
      exact deliver_follows c o tag pdu result (by rintro h; rw [h] at hpay; cases hpay) hllid
        (fun a => (Except.ok a.2, a.1)) Prod.snd (fun _ => rfl)

theorem masterHandle_follows (c : Conn) (o : Bool) (tag : Nat) (pdu : DataPdu) :
    Follows (Step hw) ⟨c, o⟩ (c.masterHandle hw tag pdu) (fun a s => s = ⟨a.2, o⟩) := by
  have haccept : Follows (Step hw) ⟨c, o⟩ (Logged.emit (.accept c tag pdu))
      (fun _ s => s = ⟨c.acknowledge pdu.sn, o⟩) :=
    .of_step (.accept c o tag pdu) (fun _ _ => rfl)
  unfold Conn.masterHandle
  dsimp only
  split
  · refine haccept.bind ?_
    rintro _ _ _ rfl
    exact .pure rfl
  · split
    · refine haccept.bind ?_
      rintro _ _ _ rfl
      split <;> exact .pure rfl
    · rename_i hpay hllid
      exact deliver_follows c o tag pdu .idle (by rintro h; rw [h] at hpay; cases hpay) hllid
        (fun a => (a.2, a.1)) Prod.snd (fun _ => rfl)

/-- The listening loop keeps owing its answer: induction on the windows. -/
theorem slaveLoop_follows (o : Bool) (ws : List Window) (handled : Nat) (result : ConnEvent)
    (c : Conn) :
    Follows (Step hw) ⟨c, o⟩ (Conn.slaveLoop hw ws handled result c) (fun a s => s = ⟨a.2, o⟩) := by
  induction ws generalizing handled result c with
  | nil => exact .pure rfl
  | cons w ws ih =>
    refine (listen_follows c o w.rx).bind ?_
    rintro ⟨got, c₁⟩ _ _ rfl
    match got with
    | none => exact .pure rfl
    | some (.error _) => exact .pure rfl
    | some (.ok pdu) =>
      -- the clock is read before the PDU is handled
      refine .after_silent (.heard c₁ o c₁.rxBuf c₁.ccm w.now) ?_
      refine (slaveHandle_follows _ o w.rx.tag pdu result).bind ?_
      rintro ⟨step, c₂⟩ _ _ rfl
      match step with
      | .error reason => exact .pure rfl
      | .ok result' =>
        dsimp only
        split
        · exact .pure rfl
        · exact ih _ _ _

theorem eventMaster_follows (c : Conn) (ws : List Window) :
    Follows (Step hw) ⟨c, true⟩ (c.eventMaster hw ws) (fun a s => s.conn = a.2) := by
  unfold Conn.eventMaster
  split
  · exact (sendTerminate_follows c true).mono (fun a s h => by rw [h])
  · refine (respond_follows c).bind ?_
    rintro c₁ _ _ rfl
    match ws with
    | [] => exact .pure rfl
    | w :: _ =>
      refine (listen_follows c₁ false w.rx).bind ?_
      rintro ⟨got, c₂⟩ _ _ rfl
      match got with
      | none => exact .pure rfl
      | some (.error _) =>
        exact .after_silent (.heard c₂ false c₂.rxBuf c₂.ccm w.now) (.pure rfl)
      | some (.ok pdu) =>
        refine .after_silent (.heard c₂ false c₂.rxBuf c₂.ccm w.now) ?_
        refine (masterHandle_follows _ false w.rx.tag pdu).bind ?_
        rintro ⟨result, c₃⟩ _ _ rfl
        exact .pure rfl

theorem eventSlave_follows (c : Conn) (ws : List Window) :
    Follows (Step hw) ⟨c, true⟩ (c.eventSlave hw ws) (fun a s => s.conn = a.2) := by
  refine (slaveLoop_follows true ws 0 .idle c).bind ?_
  rintro ⟨fin, c₁⟩ _ _ rfl
  cases fin with
  | silent => exact .pure rfl
  | invalid => exact .pure rfl
  | disconnected reason => exact .pure rfl
  | done result =>
    dsimp only
    split
    · exact (sendTerminate_follows c₁ true).mono (fun a s h => by rw [h])
    · refine (respond_follows c₁).bind ?_
      rintro c₂ _ _ rfl
      exact .pure rfl

theorem event_follows (c : Conn) (o : Bool) (ws : List Window) :
    Follows (Step hw) ⟨c, o⟩ (c.event hw ws) (fun a s => s.conn = a.2) := by
  have hlift : Follows (Step hw) ⟨c, o⟩ (Logged.lift c.beginEvent) (fun _ s => s = ⟨c, o⟩) :=
    .lift (fun _ _ => rfl)
  refine hlift.bind ?_
  rintro c' _ hbegin rfl
  have htick : Follows (Step hw) ⟨c, o⟩ (Logged.emit (.tick c)) (fun _ s => s = ⟨c', true⟩) :=
    .of_step (.tick hbegin) (fun _ _ => rfl)
  refine htick.bind ?_
  rintro _ _ _ rfl
  split
  · exact .pure rfl
  · split
    · exact eventMaster_follows c' ws
    · exact eventSlave_follows c' ws

theorem gapEncrypt_follows (c : Conn) (o : Bool) :
    Follows (Step hw) ⟨c, o⟩ c.gapEncrypt (fun a s => s = ⟨a.2, o⟩) := by
  unfold Conn.gapEncrypt
  split
  · exact .pure rfl
  · split
    · exact .pure rfl
    · rename_i bond _
      refine .of_step (.bondKey c o bond.ltk) ?_
      intro a h
      cases h
      rfl

theorem runOp_follows (c : Conn) (o : Bool) (op : Op) :
    Follows (Step hw) ⟨c, o⟩ (c.runOp hw op) (fun c' s => s.conn = c') := by
  cases op with
  | event ws =>
    refine (event_follows c o ws).bind ?_
    rintro ⟨_, c₁⟩ s _ rfl
    exact .pure rfl
  | llControl payload =>
    refine (handleLlControl_follows c o payload).bind ?_
    rintro ⟨_, c₁⟩ _ _ rfl
    exact .pure rfl
  | l2cap llid payload =>
    have hx : c.runOp hw (.l2cap llid payload) =
        ⟨[.l2cap c none llid payload],
          c.handleL2cap hw payload llid .idle >>= fun a => .ok a.1⟩ := by
      unfold Conn.runOp
      dsimp only
      cases c.handleL2cap hw payload llid .idle <;> rfl
    rw [hx]
    refine .of_step (.l2cap c o llid payload .idle) ?_
    intro c' h
    obtain ⟨a, ha, h⟩ := bind_eq_ok.mp h
    cases h
    rw [ha]; rfl
  | gapEncrypt =>
    refine (gapEncrypt_follows c o).bind ?_
    rintro ⟨_, c₁⟩ _ _ rfl
    exact .pure rfl
  | call call => exact .of_step (.call c o call) (fun a h => by cases h; rfl)

/-- **Runs are traces.**  What a run logs, panic or not, is a trace of the step relation, and the
    state it returns is where the trace ends. -/
theorem runOps_follows (ops : List Op) (c : Conn) (o : Bool) :
    Follows (Step hw) ⟨c, o⟩ (Conn.runOps hw ops c) (fun c' s => s.conn = c') := by
  induction ops generalizing c o with
  | nil => exact .pure rfl
  | cons op ops ih =>
    refine (runOp_follows c o op).bind ?_
    rintro _ ⟨c₁, o₁⟩ _ rfl
    exact ih c₁ o₁

end Follows

/-- **The invariant rule for runs.**  What holds at the start and is kept by every step holds of
    the log of every run, and in the state the run returns. -/
theorem runOps_invariant (hw : Hw) {I : List Act → Sys → Prop} (ops : List Op) (c : Conn)
    (hinit : I [] ⟨c, false⟩)
    (hstep : ∀ log s acts s', I log s → Step hw s acts s' → I (log ++ acts) s') :
    (∃ s, I (Conn.runOps hw ops c).log s) ∧
      ∀ c', (Conn.runOps hw ops c).res = .ok c' → ∃ o, I (Conn.runOps hw ops c).log ⟨c', o⟩ := by
  obtain ⟨hlog, hres⟩ := (runOps_follows ops c false).invariant hinit hstep
  refine ⟨hlog, ?_⟩
  intro c' h
  obtain ⟨⟨_, o⟩, hI, rfl⟩ := hres c' h
  exact ⟨o, hI⟩

/-! ## Reading a log -/

/-- The PDU an action hands to the radio. -/
def Act.sent : Act → Option TxRec
  | .tx t => some t
  | _ => none

theorem mem_of_sent {log : List Act} {t : TxRec} (h : t ∈ log.filterMap Act.sent) :
    Act.tx t ∈ log := by
  obtain ⟨a, ha, hat⟩ := List.mem_filterMap.mp h
  cases a with
  | tx t' => rw [← Option.some.inj hat]; exact ha
  | _ => cases hat

/-! ## A concrete connection -/

/-- The connection of the repository's own tests. -/
def Conn.sample (role : ConnRole) : Conn :=
  Conn.new ⟨0x1234ABCD, 0x654321, 1, 0, 24, 0, 2000, ⟨[0xFF, 0xFF, 0xFF, 0xFF, 0x1F], rfl⟩, 13, 2⟩
    37 0 role

/-- A window in which a packet with these bytes is received. -/
def Window.of (tag : Nat) (bytes : List UInt8) (h : bytes.length ≤ 64) : Window :=
  ⟨.packet tag ((Buf.zero 64).splice 0 bytes (by omega)), 0⟩

end NrfBle
