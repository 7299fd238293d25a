/-
  The counts of a connection stay within its buffers.

  Nine counts say how far a buffer is filled or how much may be put into one, and each handler clips
  them in its own way.  `Levels.Held` is what they keep for all of the handlers; how much of a message
  is collected is a matter of its own (`Levels.Between`): between two calls it is less than the message
  needs, and while a call goes on it may be all of it, up to the buffer.
-/
import Mathlib.Tactic
import NrfBle.Hw.Conn.Mtu
import NrfBle.Hw.Conn.Credits

namespace NrfBle

open Checked

variable {hw : Hw}

/-! ## The two invariants -/

/-- The open channel keeps to the limits of this side. -/
def Coc.Limited (coc : Coc) : Prop := coc.mtu ≤ cocMtu ∧ coc.mps ≤ cocMps

namespace Levels

/-- What is counted is in its buffer. -/
structure Held (l : Levels) : Prop where
  coc : ∀ coc, l.coc = some coc → coc.Limited
  rxData : l.rxDataLen ≤ 244
  gattResult : l.gattResultLen ≤ 64
  txAtt : l.txAttLen ≤ 251

/-- A message is not collected, or not all of it. -/
def Between (l : Levels) : Prop := l.rxL2capLen = 0 ∨ l.rxL2capLen < min l.rxL2capMsgLen 256

variable {l : Levels}

theorem Held.withTxAtt (h : l.Held) {n : Nat} (hn : n ≤ 251) : { l with txAttLen := n }.Held :=
  ⟨h.coc, h.rxData, h.gattResult, hn⟩

theorem Held.withRxData (h : l.Held) {n : Nat} (hn : n ≤ 244) : { l with rxDataLen := n }.Held :=
  ⟨h.coc, hn, h.gattResult, h.txAtt⟩

theorem Held.withGattResult (h : l.Held) {n : Nat} (hn : n ≤ 64) (attMtu : UInt16) :
    { l with gattResultLen := n, attMtu := attMtu }.Held := ⟨h.coc, h.rxData, hn, h.txAtt⟩

theorem Held.withCoc (h : l.Held) {coc : Option Coc} (hcoc : ∀ k, coc = some k → k.Limited) :
    { l with coc := coc }.Held := ⟨hcoc, h.rxData, h.gattResult, h.txAtt⟩

end Levels

open Levels

/-! ## The channel -/

theorem Coc.limited_new (psm : UInt16) : (Coc.new psm).Limited := ⟨UInt16.le_refl _, UInt16.le_refl _⟩

/-- A frame of the channel does not touch the limits. -/
theorem Coc.Limited.collect {coc coc' : Coc} {body : List UInt8} (h : coc.Limited)
    (hcollect : coc.collect body = .ok coc') : coc'.Limited := by
  have hframe := Coc.collect_frame hcollect
  unfold Coc.CollectFrame at hframe
  rw [hframe]
  exact h

/-- A signaling message lowers them. -/
theorem Coc.limited_signaled {coc : Option Coc} (h : ∀ k, coc = some k → k.Limited) (s : CocSignal) :
    ∀ k, Coc.signaled s coc = some k → k.Limited := by
  intro k hk
  cases s with
  | request psm peerCid mtu mps credits =>
    cases hk
    exact ⟨Std.min_le_right, Std.min_le_right⟩
  | response peerCid mtu mps credits result =>
    cases coc with
    | none => cases hk
    | some coc =>
      obtain ⟨hmtu, hmps⟩ := h coc rfl
      unfold Coc.signaled at hk
      dsimp only at hk
      split at hk
      · cases hk
        exact ⟨UInt16.le_trans Std.min_le_left hmtu, UInt16.le_trans Std.min_le_left hmps⟩
      · cases hk
  | credit cid credits =>
    cases coc with
    | none => cases hk
    | some coc =>
      have hcoc := h coc rfl
      cases hk
      show (if _ then _ else _ : Coc).Limited
      split
      · exact hcoc
      · exact hcoc
  | finish cid =>
    cases coc with
    | none => cases hk
    | some coc =>
      unfold Coc.signaled at hk
      dsimp only at hk
      split at hk
      · cases hk
      · exact h k hk
  | other => exact h k hk

namespace Conn

/-! ## The handlers -/

theorem held_write {c : Conn} (h : c.levels.Held) (handle : UInt16) (value : List UInt8)
    (result : ConnEvent) : (c.write handle value result).2.1.levels.Held := by
  unfold Conn.write
  split
  · exact h.withRxData (Nat.min_le_right _ _)
  · split
    · exact h
    · exact h

theorem held_attWrite {c c' : Conn} (hc : c.levels.Held) {att : List UInt8} {result result' : ConnEvent}
    {answer : Except Error Unit} (h : c.attWrite att result = .ok (answer, c', result')) :
    c'.levels.Held := by
  obtain ⟨handle, _, h⟩ := bind_eq_ok.mp h
  obtain ⟨value, _, h⟩ := bind_eq_ok.mp h
  have hwrite := held_write hc handle value result
  rw [show c.write handle value result = (answer, c', result') from Except.ok.inj h] at hwrite
  exact hwrite

theorem held_takeResponse {c c' : Conn} (hc : c.levels.Held) {op : UInt8} {att : List UInt8}
    (h : c.takeResponse op att = .ok c') : c'.levels.Held := by
  obtain ⟨attMtu, _, h⟩ := bind_eq_ok.mp h
  cases h
  exact hc.withGattResult (Nat.min_le_right _ _) attMtu

theorem held_takeNotification {c c' : Conn} (hc : c.levels.Held) {att : List UInt8}
    (h : c.takeNotification att = .ok c') : c'.levels.Held := by
  obtain ⟨_, _, h⟩ := bind_eq_ok.mp h
  obtain ⟨len, _, h⟩ := bind_eq_ok.mp h
  obtain ⟨_, _, h⟩ := bind_eq_ok.mp h
  cases h
  exact hc.withRxData (show min len 20 ≤ 244 by omega)

theorem held_queueAtt {c : Conn} (h : c.levels.Held) (att : List UInt8) : (c.queueAtt att).levels.Held :=
  h.withTxAtt (Nat.min_le_right _ _)

theorem held_queueSignaling {c : Conn} (h : c.levels.Held) (msg : List UInt8) :
    (c.queueSignaling msg).levels.Held :=
  h.withTxAtt ((Nat.min_le_right _ _).trans (by decide))

theorem held_sendSmp {c : Conn} (h : c.levels.Held) (out : List UInt8) : (c.sendSmp out).levels.Held :=
  h.withTxAtt (Nat.min_le_right _ _)

theorem held_handleAtt {c c' : Conn} (hc : c.levels.Held) {att : List UInt8} {result result' : ConnEvent}
    (h : c.handleAtt att result = .ok (c', result')) : c'.levels.Held := by
  unfold Conn.handleAtt at h
  split at h
  · cases h
    exact hc
  · split at h
    · obtain ⟨c₁, h₁, h⟩ := bind_eq_ok.mp h
      cases h
      exact held_takeResponse hc h₁
    · split at h
      · obtain ⟨c₁, h₁, h⟩ := bind_eq_ok.mp h
        cases h
        exact held_takeNotification hc h₁
      · split at h
        · obtain ⟨⟨answer, c₁, r₁⟩, h₁, h⟩ := bind_eq_ok.mp h
          have hwritten := held_attWrite hc h₁
          cases answer <;> (cases h; exact held_queueAtt hwritten _)
        · split at h
          · obtain ⟨⟨answer, c₁, r₁⟩, h₁, h⟩ := bind_eq_ok.mp h
            cases h
            exact held_attWrite hc h₁
          · obtain ⟨rsp, _, h⟩ := bind_eq_ok.mp h
            cases h
            exact held_queueAtt hc rsp

theorem held_smpRandom (hw : Hw) {c : Conn} (h : c.levels.Held) (body : List UInt8) :
    (c.smpRandom hw body).levels.Held := by
  unfold Conn.smpRandom
  split
  · dsimp only
    split
    · exact h.withTxAtt (Nat.min_le_right _ _)
    · exact h.withTxAtt (Nat.min_le_right _ _)
  · exact h.withTxAtt (Nat.min_le_right _ _)

theorem held_handleSmp (hw : Hw) {c : Conn} (h : c.levels.Held) (body : List UInt8) :
    (c.handleSmp hw body).levels.Held := by
  unfold Conn.handleSmp
  -- each branch queues a PDU or leaves the counts alone
  repeat' split
  all_goals first | exact h | exact h.withTxAtt (Nat.min_le_right _ _) | exact held_smpRandom hw h _

theorem held_handleLeSignaling {c c' : Conn} (hc : c.levels.Held) {body : List UInt8}
    (h : c.handleLeSignaling body = .ok c') : c'.levels.Held := by
  have hcoc : ∀ k, c'.coc = some k → k.Limited := by
    rw [handleLeSignaling_coc h]
    exact Coc.limited_signaled hc.coc _
  rcases handleLeSignaling_cases h with rfl | ⟨coc, msg, _, rfl⟩ | ⟨_, coc, _, rfl, _⟩ | rfl
  · exact hc
  · exact held_queueSignaling (c := { c with coc := some coc }) (hc.withCoc hcoc) msg
  · exact hc.withCoc hcoc
  · exact hc.withCoc hcoc

theorem held_rxCocSdu {c c' : Conn} (hc : c.levels.Held) {body : List UInt8}
    {result result' : ConnEvent} (h : c.rxCocSdu body result = .ok (c', result')) : c'.levels.Held := by
  cases rxCocSdu_cases h with
  | ignored => exact hc
  | kept hcoc _ hcollect =>
    refine hc.withCoc ?_
    rintro k ⟨⟩
    exact (hc.coc _ hcoc).collect hcollect
  | @finished coc coc' hcoc _ hcollect =>
    have hopen : ({ c with coc := some { coc' with rxSduLen := 0, rxSduTotal := 0 } } : Conn).levels.Held := by
      refine hc.withCoc ?_
      rintro k ⟨⟩
      have hlimited := (hc.coc coc hcoc).collect hcollect
      exact ⟨hlimited.1, hlimited.2⟩
    exact (held_queueSignaling hopen _).withRxData (Nat.min_le_right _ _)

theorem held_reassemble {c c' : Conn} (hc : c.levels.Held) {body : List UInt8}
    {result result' : ConnEvent} (h : c.reassemble Conn.handleAtt body result = .ok (c', result')) :
    c'.levels.Held := by
  rcases reassemble_cases h with ⟨b, n, ⟨rfl, _⟩ | ⟨msg, c₁, hatt, rfl⟩⟩
  · exact ⟨hc.coc, hc.rxData, hc.gattResult, hc.txAtt⟩
  · have hbefore : ({ c with rxL2cap := b, rxL2capLen := n } : Conn).levels.Held :=
      ⟨hc.coc, hc.rxData, hc.gattResult, hc.txAtt⟩
    have hafter := held_handleAtt hbefore hatt
    exact ⟨hafter.coc, hafter.rxData, hafter.gattResult, hafter.txAtt⟩

theorem held_handleL2cap {c c' : Conn} (hc : c.levels.Held) {payload : List UInt8} {llid : UInt8}
    {result result' : ConnEvent} (h : c.handleL2cap hw payload llid result = .ok (c', result')) :
    c'.levels.Held := by
  have hread : ∀ msgLen cid, (c.headerRead msgLen cid).levels.Held := fun _ _ =>
    ⟨hc.coc, hc.rxData, hc.gattResult, hc.txAtt⟩
  cases handleL2cap_cases h with
  | continued _ hrun => exact held_reassemble hc hrun
  | dropped => exact hc
  | @smp l₀ l₁ d₀ d₁ body _ _ =>
    have hafter := held_handleSmp hw (hread (ofLe16 l₀ l₁) (ofLe16 d₀ d₁)) body
    exact ⟨hafter.coc, hafter.rxData, hafter.gattResult, hafter.txAtt⟩
  | signaling _ hrun =>
    have hafter := held_handleLeSignaling (hread _ _) hrun
    exact ⟨hafter.coc, hafter.rxData, hafter.gattResult, hafter.txAtt⟩
  | att _ hrun => exact held_reassemble (hread _ _) hrun
  | coc _ hrun => exact held_rxCocSdu (hread _ _) hrun
  | unknown => exact hread _ _

/-! ## What is collected -/

theorem between_reassemble {att : AttHandler} {c c' : Conn} {body : List UInt8}
    {result result' : ConnEvent} (h : c.reassemble att body result = .ok (c', result')) :
    c'.levels.Between := by
  obtain ⟨room, _, h⟩ := bind_eq_ok.mp h
  obtain ⟨b, _, h⟩ := bind_eq_ok.mp h
  dsimp only at h
  split at h
  · obtain ⟨msg, _, h⟩ := bind_eq_ok.mp h
    obtain ⟨⟨c₁, r₁⟩, _, h⟩ := bind_eq_ok.mp h
    cases h
    exact .inl rfl
  · rename_i hmore
    cases h
    exact .inr (Nat.lt_of_not_le hmore)

/-- **After each data PDU** nothing is collected, or not all of a message. -/
theorem between_handleL2cap {c c' : Conn} (hc : c.levels.Between) {payload : List UInt8} {llid : UInt8}
    {result result' : ConnEvent} (h : c.handleL2cap hw payload llid result = .ok (c', result')) :
    c'.levels.Between := by
  cases handleL2cap_cases h with
  | continued _ hrun => exact between_reassemble hrun
  | dropped => exact hc
  | smp | signaling | unknown => exact .inl rfl
  | att _ hrun => exact between_reassemble hrun
  | coc _ hrun =>
    have hlen := congrArg Conn.rxL2capLen (rxCocSdu_frame hrun)
    exact .inl hlen

/-- An ATT handler that stops when more is collected than the buffer holds. -/
def AttHandler.guarded (att : AttHandler) : AttHandler := fun c msg result =>
  if c.rxL2capLen ≤ 256 then att c msg result else .error .index

/-- While a data PDU is handled no more is collected than the buffer holds, either: a handler in the
    place of `handle_att` need not look. -/
theorem handleL2capWith_guarded (att : AttHandler) (hw : Hw) {c : Conn} (hlen : c.rxL2capLen ≤ 256)
    (payload : List UInt8) (llid : UInt8) (result : ConnEvent) :
    c.handleL2capWith att.guarded hw payload llid result = c.handleL2capWith att hw payload llid result := by
  have hreassemble : ∀ {c : Conn} (body : List UInt8), c.rxL2capLen ≤ 256 →
      c.reassemble att.guarded body result = c.reassemble att body result := by
    intro c body hlen
    obtain ⟨b, _, hspec⟩ := reassemble_spec hlen body
    rw [hspec att.guarded result, hspec att result]
    unfold AttHandler.guarded
    dsimp only
    rw [if_pos (Nat.min_le_right _ _)]
  cases hfirst : c.isFirst llid with
  | false =>
    rw [handleL2cap_continuation att.guarded hw hfirst, handleL2cap_continuation att hw hfirst]
    exact hreassemble payload hlen
  | true =>
    rcases short_or_header payload with hshort | ⟨l₀, l₁, d₀, d₁, body, rfl⟩
    · rw [handleL2cap_short att.guarded hw hfirst hshort, handleL2cap_short att hw hfirst hshort]
    · rw [handleL2cap_first att.guarded hw hfirst, handleL2cap_first att hw hfirst]
      unfold startMessage
      dsimp only
      rw [hreassemble body (Nat.zero_le _)]

/-! ## Calls and control PDUs -/

theorem held_call {c : Conn} (hc : c.levels.Held) (call : LocalCall) : (call.run c).levels.Held := by
  cases call with
  | queueNotify data =>
    have hlen : min data.length attPayloadMax ≤ 244 := Nat.min_le_right _ _
    exact hc.withTxAtt (show 3 + min data.length attPayloadMax ≤ 251 by omega)
  | queueL2cap l2 cid => exact hc.withTxAtt (Nat.min_le_right _ _)
  | l2capConnect psm =>
    show (c.l2capConnect psm).levels.Held
    unfold Conn.l2capConnect
    split
    · exact hc
    · refine held_queueSignaling (c := { c with coc := some (Coc.new psm) }) (hc.withCoc ?_) _
      rintro k ⟨⟩
      exact Coc.limited_new psm
  | l2capSend data =>
    show (c.l2capSend data).2.levels.Held
    rcases c.l2capSend_spec data with ⟨e, hx⟩ | ⟨coc, txAtt, hcoc, hlen, hx⟩
    · rw [hx]
      exact hc
    · rw [hx]
      refine (hc.withCoc ?_).withTxAtt hlen
      rintro k ⟨⟩
      exact hc.coc coc hcoc
  | gattSendRequest att => exact held_queueAtt hc att
  | gattTakeResult => exact hc.withGattResult (Nat.zero_le _) _
  | gapPair =>
    show c.gapPair.levels.Held
    unfold Conn.gapPair
    split
    · exact held_sendSmp hc _
    · exact hc
  | clearRxData => exact hc.withRxData (Nat.zero_le _)
  | _ => exact hc

/-- A call does not collect. -/
theorem between_call {c : Conn} (hc : c.levels.Between) (call : LocalCall) :
    (call.run c).levels.Between := by
  obtain ⟨hlen, hmsg, _⟩ := call.run_frame c
  show (call.run c).rxL2capLen = 0 ∨ (call.run c).rxL2capLen < min (call.run c).rxL2capMsgLen 256
  rw [hlen, hmsg]
  exact hc

theorem takeLengths_pduMax {c c' : Conn} {payload : List UInt8} (h : c.takeLengths payload = .ok c') :
    c'.txPduMax ≤ 251 := by
  obtain ⟨_, _, h⟩ := bind_eq_ok.mp h
  obtain ⟨_, _, h⟩ := bind_eq_ok.mp h
  cases h
  exact Nat.min_le_right _ _

/-- A length PDU sets the largest payload, at most to 251; no other control PDU does. -/
theorem controlStep_pduMax {c c' : Conn} (hc : c.txPduMax ≤ 251) {op : UInt8} {payload : List UInt8}
    (h : (c.controlStep hw op payload).res = .ok c') : c'.txPduMax ≤ 251 := by
  rcases controlStep_cases h with ⟨_, hupdate⟩ | ⟨c₁, htake, hc'⟩ | hc'
  · have hmax := congrArg txPduMax (takeUpdate_frame hupdate)
    exact hmax.le.trans hc
  · have hmax := congrArg txPduMax hc'
    have htaken : c₁.txPduMax ≤ 251 := takeLengths_pduMax htake
    exact hmax.le.trans htaken
  · have hmax := congrArg txPduMax hc'
    exact hmax.le.trans hc

theorem handleLlControl_pduMax (hw : Hw) {c : Conn} (hc : c.txPduMax ≤ 251) (payload : List UInt8) :
    (stateAfter (c.handleLlControl hw payload).res Prod.snd c).txPduMax ≤ 251 := by
  rcases handleLlControl_after hw c payload with hsame | ⟨op, rest, c', _, hstep, hafter⟩
  · rwa [hsame]
  · rw [hafter]
    exact controlStep_pduMax hc hstep

end Conn

/-! ## Runs -/

theorem Step.held {s s' : Sys} {acts : List Act} (h : Step hw s acts s') (hc : s.conn.levels.Held) :
    s'.conn.levels.Held :=
  h.levels_invariant (fun _ _ _ _ _ hrun hc => Conn.held_handleL2cap hc hrun)
    (fun _ call hc => Conn.held_call hc call) hc

theorem Step.between {s s' : Sys} {acts : List Act} (h : Step hw s acts s') (hc : s.conn.levels.Between) :
    s'.conn.levels.Between :=
  h.levels_invariant (fun _ _ _ _ _ hrun hc => Conn.between_handleL2cap hc hrun)
    (fun _ call hc => Conn.between_call hc call) hc

/-- The largest payload is of the link layer, which only a control PDU writes. -/
theorem Step.pduMax {s s' : Sys} {acts : List Act} (h : Step hw s acts s') (hc : s.conn.txPduMax ≤ 251) :
    s'.conn.txPduMax ≤ 251 := by
  cases h with
  | tick hb =>
    have hmax := congrArg Conn.txPduMax (Conn.beginEvent_frame hb)
    exact hmax.le.trans hc
  | heard | bondKey => exact hc
  | accept c o tag pdu =>
    show (c.acknowledge pdu.sn).txPduMax ≤ 251
    rw [Conn.acknowledge_eq]
    exact hc
  | deliver c o tag pdu result hne hllid =>
    have hmax := congrArg Link.txPduMax
      (link_deliver hw (c.acknowledge pdu.sn) (pdu.payload.take 64) pdu.llid result)
    have hack : (c.acknowledge pdu.sn).txPduMax = c.txPduMax := by rw [Conn.acknowledge_eq]
    exact hmax.le.trans (hack.le.trans hc)
  | l2cap c o llid payload result =>
    have hmax := congrArg Link.txPduMax (link_deliver hw c payload llid result)
    exact hmax.le.trans hc
  | ctrl c o payload => exact Conn.handleLlControl_pduMax hw hc payload
  | respond c =>
    rcases c.afterRespond_spec hw with ⟨_, hf⟩ | ⟨_, _, _, _, _, hf⟩
    all_goals
      have hmax := congrArg Conn.txPduMax hf
      exact hmax.le.trans hc
  | terminate c o =>
    obtain ⟨t, r, c', hx, _, hf⟩ := c.sendTerminate_spec
    have hmax := congrArg Conn.txPduMax hf
    rw [hx]
    exact hmax.le.trans hc
  | call c o call =>
    have hmax := congrArg Link.txPduMax (call.run_effect c).link
    exact hmax.le.trans hc

/-- The counts of a connection, and the limits it has agreed on. -/
structure Conn.InBounds (c : Conn) : Prop where
  rxL2cap : c.rxL2capLen ≤ 256
  rxL2capMsg : c.rxL2capLen = 0 ∨ c.rxL2capLen < min c.rxL2capMsgLen 256
  rxSdu : ∀ coc, c.coc = some coc → coc.rxSduLen ≤ 256
  rxData : c.rxDataLen ≤ 244
  gattResult : c.gattResultLen ≤ 64
  txAtt : c.txAttLen ≤ 251
  txPdu : c.txPduMax ≤ 251
  attMtu : 23 ≤ c.attMtu.toNat ∧ c.attMtu.toNat ≤ 247
  coc : ∀ coc, c.coc = some coc → coc.mtu.toNat ≤ 247 ∧ coc.mps.toNat ≤ 251

/-- **The counts stay within the buffers**, in every reachable state; and while a data PDU is handled
    no handler in the place of `handle_att` finds more collected than the buffer holds. -/
theorem reachable_inBounds {c : Conn} (h : Reachable hw c) :
    c.InBounds ∧ ∀ (att : Conn.AttHandler) payload llid result,
      c.handleL2capWith (Conn.AttHandler.guarded att) hw payload llid result =
        c.handleL2capWith att hw payload llid result := by
  have hrx := h.rxBounded
  have hmtu : c.attMtu.toNat = 23 := congrArg UInt16.toNat h.mtuDefault
  have hheld : c.levels.Held := by
    refine h.invariant (I := fun c => c.levels.Held) ?_ (fun _ _ _ hstep hc => hstep.held hc)
    exact fun _ _ _ _ => ⟨fun k hk => (by cases hk), Nat.zero_le _, Nat.zero_le _, Nat.zero_le _⟩
  have hbetween : c.levels.Between :=
    h.invariant (I := fun c => c.levels.Between) (fun _ _ _ _ => .inl rfl)
      (fun _ _ _ hstep hc => hstep.between hc)
  have hpdu : c.txPduMax ≤ 251 :=
    h.invariant (I := fun c => c.txPduMax ≤ 251) (fun _ _ _ _ => (by decide : 27 ≤ 251))
      (fun _ _ _ hstep hc => hstep.pduMax hc)
  refine ⟨⟨hrx.l2cap, hbetween, hrx.sdu, hheld.rxData, hheld.gattResult, hheld.txAtt, hpdu, by omega,
    ?_⟩, fun att payload llid result => Conn.handleL2capWith_guarded att hw hrx.l2cap payload llid result⟩
  intro coc hcoc
  have hlimited := hheld.coc coc hcoc
  exact ⟨UInt16.le_iff_toNat_le.mp hlimited.1, UInt16.le_iff_toNat_le.mp hlimited.2⟩

/-- The first fragment of a Read Request has come: one byte of three is collected. -/
theorem collecting_inBounds :
    ∃ c, (Conn.runOps Hw.standIn [.l2cap 2 [3, 0, 4, 0, 0x0A]] (Conn.sample .slave)).res = .ok c ∧
      c.rxL2capLen = 1 ∧ c.rxL2capMsgLen = 3 ∧ c.InBounds := by
  refine ⟨_, rfl, by decide +kernel, by decide +kernel, ?_⟩
  exact (@reachable_inBounds Hw.standIn _ ⟨_, _, _, _, [.l2cap 2 [3, 0, 4, 0, 0x0A]], rfl⟩).1

end NrfBle
