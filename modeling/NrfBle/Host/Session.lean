/-
  A host at the other end of the HCI layer (`src/hci.rs`).

  A session is a list of turns.  In a turn the host sends a command over the transport, or the stack
  under the layer does something: a tick, or a call of the firmware; then `tick` collects the events of
  the stack, and `next_event` is asked until it has none left, and every packet goes back to the host.

  The host is a framer (`H4Framer`) and `HciPacket.hostEvent`.  What it reads is what an abstract
  controller tells it (`heardAll`), whose one state is the address that was set last: to a command one
  answer, and to a turn of the stack one event for each report, connection and disconnection that the
  stack pushed, in this order (`hci_session`).  `Between` is what holds between two turns.
-/
import Mathlib.Tactic
import NrfBle.Host.Replies
import NrfBle.Host.Stream
import NrfBle.Host.Enable

namespace NrfBle

open Checked RingBuffer

/-- A command that a host can build. -/
structure HostCommand where
  ogf : UInt8
  ocf : UInt16
  params : List UInt8
  group : ogf < 64
  field : ocf < 1024
  fits : params.length ≤ 255

namespace HostCommand

/-- The two bytes of its opcode. -/
def op (c : HostCommand) : UInt8 × UInt8 :=
  ((c.ocf &&& 0xFF).toUInt8, ((c.ocf >>> 8) &&& 0x03).toUInt8 ||| (c.ogf &&& 0x3F) <<< 2)

/-- Its answer, by the address set last. -/
def answer (c : HostCommand) (own : Buf 6) : HostEvent := Hci.answerTo own c.op c.ogf c.ocf

/-- The address behind it. -/
def setsAddress (c : HostCommand) (own : Buf 6) : Buf 6 := Hci.addressAfter own c.ogf c.ocf c.params

/-- Its bytes on the transport. -/
def bytes (c : HostCommand) : Except Panic (List UInt8) := do
  let packet ← HciPacket.command c.ogf c.ocf c.params
  return packet.h4Bytes

end HostCommand

/-- What happens in a turn. -/
inductive HostTurn
  | command (c : HostCommand) (now : UInt32)
  | stack (op : BleOp) (hop : op ≠ .nextEvent)

/-- What a turn leaves: what the stack did, what was sent to the host, and the stack. -/
structure TurnDone where
  acts : List BleAct
  sent : List HciPacket
  after : Ble

/-- The stack's part of a log. -/
def stackActs (log : List HciAct) : List BleAct :=
  log.filterMap fun a => match a with
    | .ble act => some act
    | .event _ => none

namespace Hci

/-- `next_event` until there is none, for at most `fuel` packets. -/
def drain : Nat → Hci → List HciPacket × Hci
  | 0, h => ([], h)
  | fuel + 1, h =>
    match h.popEvent with
    | (none, h) => ([], h)
    | (some packet, h) => (packet :: (drain fuel h).1, (drain fuel h).2)

end Hci

namespace HostTurn

/-- What happens, up to the events that wait. -/
def run (hw : Hw) : HostTurn → Hci → Ble → Logged HciAct (Hci × Ble)
  | .command c now, h, b => do
    let bytes ← Logged.lift c.bytes
    h.serve b (bytes.map fun byte => (byte, now))
  | .stack op _, h, b => do
    let b ← (op.run hw b).within .ble
    return (h, b)

/-- A whole turn. -/
def turn (hw : Hw) (t : HostTurn) (h : Hci) (b : Ble) : Except Panic (TurnDone × Hci × Ble) := do
  let x := t.run hw h b >>= fun r => r.1.tick r.2
  let (h, b) ← x.res
  let (sent, h) := h.drain 17
  return (⟨stackActs x.log, sent, b⟩, h, b)

/-- What the host is to hear of a turn. -/
def heard (own : Buf 6) : HostTurn → TurnDone → List HostEvent
  | .command c _, _ => [c.answer own]
  | .stack _ _, done => (pushed done.acts).filterMap (Hci.told done.after.connIsMaster)

/-- The address behind a turn. -/
def setsAddress (own : Buf 6) : HostTurn → Buf 6
  | .command c _ => c.setsAddress own
  | .stack _ _ => own

end HostTurn

/-- Turn after turn. -/
def session (hw : Hw) : List HostTurn → Hci → Ble → Except Panic (List TurnDone × Hci × Ble)
  | [], h, b => return ([], h, b)
  | t :: ts, h, b => do
    let (done, h, b) ← t.turn hw h b
    let (rest, h, b) ← session hw ts h b
    return (done :: rest, h, b)

/-- What the abstract controller tells. -/
def heardAll : Buf 6 → List (HostTurn × TurnDone) → List HostEvent
  | _, [] => []
  | own, (t, done) :: rest => t.heard own done ++ heardAll (t.setsAddress own) rest

/-- What a host reads of the bytes it receives. -/
def hostReads (bytes : List UInt8) : Except Panic (List HostEvent) := do
  let (answers, _) ← H4Framer.new.feedAll bytes
  return answers.filterMap (Option.bind · HciPacket.hostEvent)

/-! ## The host's end -/

/-- What is read depends on what the transport shows. -/
theorem filterMap_hostEvent_congr {as bs : List (Option HciPacket)}
    (h : as.map (Option.map HciPacket.view) = bs.map (Option.map HciPacket.view)) :
    as.filterMap (Option.bind · HciPacket.hostEvent) =
      bs.filterMap (Option.bind · HciPacket.hostEvent) := by
  induction as generalizing bs with
  | nil =>
    cases bs with
    | nil => rfl
    | cons b bs => cases h
  | cons a as ih =>
    cases bs with
    | nil => cases h
    | cons b bs =>
      obtain ⟨hhead, htail⟩ := List.cons.inj h
      have hsame : Option.bind a HciPacket.hostEvent = Option.bind b HciPacket.hostEvent := by
        cases a with
        | none =>
          cases b with
          | none => rfl
          | some q => cases hhead
        | some p =>
          cases b with
          | none => cases hhead
          | some q => exact HciPacket.hostEvent_congr (Option.some.inj hhead)
      rw [List.filterMap_cons, List.filterMap_cons, hsame, ih htail]

/-- A packet is read with its last byte. -/
theorem feedAll_carries {f : H4Framer} (h : f.Idle) {packet : HciPacket} {evt : HostEvent}
    (hcarries : Carries packet evt) :
    ∃ answers f', f.feedAll packet.h4Bytes = .ok (answers, f') ∧ f'.Idle ∧
      answers.filterMap (Option.bind · HciPacket.hostEvent) = [evt] := by
  obtain ⟨answers, f', hfeed, hidle, hview⟩ := H4Framer.feedAll_built h hcarries.built
  refine ⟨answers, f', hfeed, hidle, ?_⟩
  have hsame : answers.map (Option.map HciPacket.view) =
      (List.replicate packet.len none ++ [some packet]).map (Option.map HciPacket.view) := by
    rw [hview, List.map_append, List.map_replicate]
    rfl
  have hnone : (List.replicate packet.len (none : Option HciPacket)).filterMap
      (Option.bind · HciPacket.hostEvent) = [] :=
    List.filterMap_replicate_of_none rfl
  have hlast : [some packet].filterMap (Option.bind · HciPacket.hostEvent) = [evt] :=
    List.filterMap_cons_some
      (show Option.bind (some packet) HciPacket.hostEvent = some evt from hcarries.reads)
  rw [filterMap_hostEvent_congr hsame, List.filterMap_append, hnone, hlast]
  rfl

/-- **The host reads what the packets say.** -/
theorem hostReads_carries {packets : List HciPacket} {events : List HostEvent}
    (h : List.Forall₂ Carries packets events) :
    hostReads (packets.flatMap HciPacket.h4Bytes) = .ok events := by
  have hall : ∀ f : H4Framer, f.Idle →
      ∃ answers f', f.feedAll (packets.flatMap HciPacket.h4Bytes) = .ok (answers, f') ∧
        answers.filterMap (Option.bind · HciPacket.hostEvent) = events := by
    induction h with
    | nil => exact fun f _ => ⟨[], f, rfl, rfl⟩
    | cons hcarries _ ih =>
      intro f hf
      obtain ⟨answers, f₁, hfeed, hidle, hread⟩ := feedAll_carries hf hcarries
      obtain ⟨answers', f', hrest, hread'⟩ := ih f₁ hidle
      refine ⟨_, f', by rw [List.flatMap_cons]; exact H4Framer.feedAll_append hfeed hrest, ?_⟩
      rw [List.filterMap_append, hread, hread']
      rfl
  obtain ⟨answers, f', hfeed, hread⟩ := hall _ H4Framer.idle_new
  unfold hostReads
  rw [hfeed, ok_bind]
  dsimp only
  rw [hread]
  rfl

/-! ## The layer's end -/

namespace Hci

/-- The framer of the layer returns the packet with the last byte. -/
theorem serve_of_feedAll {h h' : Hci} {b b' : Ble} {now : UInt32} {bytes : List UInt8} {n : Nat}
    {packet : HciPacket} {f : H4Framer} {log : List HciAct}
    (hfeed : h.framer.feedAll bytes = .ok (List.replicate n none ++ [some packet], f))
    (hrun : ({ h with framer := f } : Hci).onPacket b packet now = ⟨log, .ok (h', b')⟩) :
    h.serve b (bytes.map fun byte => (byte, now)) = ⟨log, .ok (h', b')⟩ := by
  induction bytes generalizing h n with
  | nil =>
    have hnil := (Prod.mk.inj (Except.ok.inj hfeed)).1
    exact absurd hnil.symm (List.append_ne_nil_of_right_ne_nil _ (List.cons_ne_nil _ _))
  | cons byte bytes ih =>
    obtain ⟨⟨answer, f₁⟩, hbyte, hfeed⟩ := bind_eq_ok.mp hfeed
    obtain ⟨⟨answers, f₂⟩, hrest, hfeed⟩ := bind_eq_ok.mp hfeed
    obtain ⟨hanswers, rfl⟩ := Prod.mk.inj (Except.ok.inj hfeed)
    rw [List.map_cons, serve, feed_eq hbyte, Logged.lift_ok_bind]
    cases n with
    | succ n =>
      obtain ⟨rfl, rfl⟩ := List.cons.inj hanswers
      exact ih hrest hrun
    | zero =>
      obtain ⟨rfl, rfl⟩ := List.cons.inj hanswers
      cases bytes with
      | nil =>
        cases hrest
        dsimp only
        rw [hrun]
        exact Logged.ext (List.append_nil _) rfl
      | cons next bytes =>
        -- a byte more would have been answered
        obtain ⟨⟨answer, f₃⟩, _, hrest⟩ := bind_eq_ok.mp hrest
        obtain ⟨⟨answers, f₄⟩, _, hrest⟩ := bind_eq_ok.mp hrest
        cases hrest

/-- **Draining** returns what waits, in order. -/
theorem drain_eq (fuel : Nat) {q : List HciPacket} {h : Hci} (hq : Ring.Sim h.events q false)
    (hfuel : q.length < fuel) :
    ∃ events, h.drain fuel = (q, { h with events := events }) ∧ Ring.Sim events [] false := by
  induction fuel generalizing h q with
  | zero => omega
  | succ fuel ih =>
    cases q with
    | nil =>
      obtain ⟨hnone, hempty⟩ := Ring.pop_nil_sim hq
      have hpop : h.popEvent = (none, { h with events := h.events.pop.2 }) := by
        rw [← hnone]
        rfl
      rw [drain, hpop]
      exact ⟨_, rfl, hempty⟩
    | cons packet q =>
      obtain ⟨hsome, hrest⟩ := Ring.pop_cons_sim hq
      have hpop : h.popEvent = (some packet, { h with events := h.events.pop.2 }) := by
        rw [← hsome]
        rfl
      obtain ⟨events, hdrain, hempty⟩ := ih (h := { h with events := _ }) hrest
        (Nat.lt_of_succ_lt_succ hfuel)
      rw [drain, hpop]
      dsimp only
      rw [hdrain]
      exact ⟨events, rfl, hempty⟩

end Hci

/-- Between two turns nothing waits and no packet is half read. -/
structure Between (h : Hci) (b : Ble) : Prop where
  bounds : b.Bounds
  events : Ring.Sim b.events [] false
  packets : Ring.Sim h.events [] false
  framer : h.framer.Idle

theorem between_new : Between Hci.new Ble.new :=
  ⟨Ble.bounds_new, Ring.sim_empty (by decide), Ring.sim_empty (by decide), H4Framer.idle_new⟩

theorem stackActs_append (xs ys : List HciAct) : stackActs (xs ++ ys) = stackActs xs ++ stackActs ys :=
  List.filterMap_append

theorem stackActs_ble (acts : List BleAct) : stackActs (acts.map .ble) = acts := by
  unfold stackActs
  rw [List.filterMap_map]
  exact List.filterMap_some

theorem stackActs_event (packets : List HciPacket) : stackActs (packets.map .event) = [] := by
  unfold stackActs
  rw [List.filterMap_map]
  exact List.filterMap_eq_nil_iff.mpr fun _ _ => rfl

/-- The opcode is in the body. -/
theorem HciPacket.op_congr {p q : HciPacket} (h : p.body = q.body) (hp : 2 ≤ p.len) (hq : 2 ≤ q.len) :
    p.op = q.op ∧ p.opcode = q.opcode := by
  have hbyte : ∀ (packet : HciPacket) (i : Nat), i < packet.len →
      packet.payload.bytes.getD i 0 = packet.body.getD i 0 := by
    intro packet i hi
    unfold HciPacket.body
    rw [List.getD_eq_getElem?_getD, List.getD_eq_getElem?_getD, List.getElem?_take_of_lt hi]
  unfold HciPacket.op HciPacket.opcode
  rw [hbyte p 0 (by omega), hbyte p 1 (by omega), hbyte q 0 (by omega), hbyte q 1 (by omega), h]
  exact ⟨rfl, rfl⟩

namespace HostTurn

/-- **A command** reaches its handler, and is answered by one packet. -/
theorem command_run (hw : Hw) (c : HostCommand) (now : UInt32) {h : Hci} {b : Ble}
    (hbetween : Between h b) :
    ∃ acts packet h' b', (command c now).run hw h b =
        ⟨acts.map .ble ++ [.event packet], .ok (h', b')⟩ ∧
      Carries packet (c.answer h.ownAddr) ∧ h'.events = Hci.pushPackets h.events [packet] ∧
      h'.framer.Idle ∧ h'.ownAddr = c.setsAddress h.ownAddr ∧ Hci.Called b acts b' := by
  obtain ⟨packet, hcmd, hbuilt⟩ := HciPacket.command_ok c.ogf c.ocf c.fits
  have hparts : packet.packetType = hciCommand ∧ packet.len = 3 + c.params.length ∧
      packet.body.drop 3 = c.params := by
    obtain ⟨payload, hw', hpacket⟩ := bind_eq_ok.mp hcmd
    cases hpacket
    have hbody : (HciPacket.mk hciCommand payload (3 + c.params.length)).body =
        [_, _, UInt8.ofNat c.params.length] ++ c.params := HciPacket.body_of_write rfl hw'
    rw [hbody]
    exact ⟨rfl, rfl, rfl⟩
  obtain ⟨htype, hplen, hparams⟩ := hparts
  have hfits := c.fits
  obtain ⟨kind, hkind, hframe, hlen, hroom⟩ := hbuilt.frame
  obtain ⟨got, f, hfeed, hidle, hgot⟩ := H4Framer.feedAll_frame hbetween.framer hframe (by omega)
  -- what the framer returns is the packet that was built
  have hgotLen : got.len = packet.len := hgot.len.trans hlen
  obtain ⟨hop, hopcode⟩ := HciPacket.op_congr hgot.body (show 2 ≤ got.len by omega)
    (show 2 ≤ packet.len by omega)
  rw [op_command hcmd] at hop
  rw [HciPacket.opcode_command c.group c.field hcmd] at hopcode
  obtain ⟨acts, reply, h', b', hrun, hcarries, hevents, hframer, hown, hcalled⟩ :=
    ({ h with framer := f } : Hci).handleCommand_replied b got now (by omega) (by omega)
  rw [hop, hopcode] at hcarries
  rw [hopcode, hgot.body, hparams] at hown
  have honPacket : ({ h with framer := f } : Hci).onPacket b got now =
      ⟨acts.map .ble ++ [.event reply], .ok (h', b')⟩ := by
    unfold Hci.onPacket
    rw [if_pos (hgot.packetType.trans (hkind.symm.trans htype)), hrun]
  refine ⟨acts, reply, h', b', ?_, hcarries, hevents, by rw [hframer]; exact hidle, hown, hcalled⟩
  have hbytes : c.bytes = .ok (kind.type :: packet.body) := by
    unfold HostCommand.bytes
    rw [hcmd, ok_bind, HciPacket.h4Bytes, hkind]
    rfl
  unfold run
  dsimp only
  rw [hbytes, Logged.lift_ok_bind]
  exact Hci.serve_of_feedAll hfeed honPacket

/-- The rest of a turn: what waits is told, and everything is sent. -/
theorem finish (hw : Hw) {t : HostTurn} {h h₁ : Hci} {b b₁ : Ble} {log : List HciAct}
    {q : List BleEvent} {packets : List HciPacket} (hrun : t.run hw h b = ⟨log, .ok (h₁, b₁)⟩)
    (hbounds : b₁.Bounds) (hq : Ring.Sim b₁.events q false)
    (hpackets : Ring.Sim h₁.events packets false) (hidle : h₁.framer.Idle)
    (hroom : packets.length + q.length < 16) :
    ∃ more h' b', t.turn hw h b = .ok (⟨stackActs log, packets ++ more, b'⟩, h', b') ∧
      List.Forall₂ Carries more (q.filterMap (Hci.told b'.connIsMaster)) ∧ Between h' b' ∧
      h'.ownAddr = h₁.ownAddr := by
  obtain ⟨more, h₂, events, htick, hqueues, hempty, hcarries⟩ := h₁.tick_carries hq
  have hfew : more.length ≤ q.length := by
    rw [hcarries.length_eq]
    exact List.length_filterMap_le _ _
  have hwait : Ring.Sim h₂.events (packets ++ more) false := by
    rw [hqueues.events]
    exact Ring.foldl_push_sim hpackets (show packets.length + more.length < 16 by omega)
  obtain ⟨rest, hdrain, hdrained⟩ := Hci.drain_eq 17 hwait
    (by rw [List.length_append]; omega)
  refine ⟨more, { h₂ with events := rest }, { b₁ with events := events }, ?_, hcarries,
    ⟨{ hbounds with }, hempty, hdrained, ?_⟩, hqueues.ownAddr⟩
  · unfold turn
    dsimp only
    rw [hrun, Logged.mk_ok_bind, htick, Logged.prepend_mk, ok_bind]
    dsimp only
    rw [hdrain, stackActs_append, stackActs_event, List.append_nil]
    rfl
  · show h₂.framer.Idle
    rw [hqueues.framer]
    exact hidle

/-- What comes of a turn: the host is sent what it is to hear; only a connection event stops it. -/
inductive Outcome (hw : Hw) (t : HostTurn) (h : Hci) (b : Ble) : Except Panic (TurnDone × Hci × Ble) → Prop
  | stopped {p : Panic} {env : ConnEnv} {hop : BleOp.connTick env ≠ .nextEvent}
      (hturn : t = .stack (.connTick env) hop) (hpanic : (b.connTick hw env).res = .error p) :
      Outcome hw t h b (.error p)
  | done {d : TurnDone} {h' : Hci} {b' : Ble} (hsent : List.Forall₂ Carries d.sent (t.heard h.ownAddr d))
      (hbetween : Between h' b') (hown : h'.ownAddr = t.setsAddress h.ownAddr) :
        Outcome hw t h b (.ok (d, h', b'))

/-- **A turn.** -/
theorem turn_outcome (hw : Hw) (t : HostTurn) {h : Hci} {b : Ble} (hbetween : Between h b) :
    Outcome hw t h b (t.turn hw h b) := by
  cases t with
  | command c now =>
    obtain ⟨acts, packet, h₁, b₁, hrun, hcarries, hevents, hidle, hown, hbounds, _, hspends⟩ :=
      command_run hw c now hbetween
    have hpaid := hspends.paid
    have hcredit := b.credit_le
    have hq : Ring.Sim b₁.events ([] ++ pushed acts) false := by
      rw [hspends.queue]
      exact Ring.foldl_push_sim hbetween.events (show 0 + (pushed acts).length < 8 by omega)
    have hpacket : Ring.Sim h₁.events ([] ++ [packet]) false := by
      rw [hevents]
      exact Ring.foldl_push_sim hbetween.packets (show 0 + 1 < 16 by decide)
    obtain ⟨more, h', b', hdone, hmore, hbetween', hown'⟩ := finish hw hrun (hbounds hbetween.bounds) hq
      hpacket hidle (show 1 + (pushed acts).length < 16 by omega)
    -- no start and no stop is told
    have hsilent : (pushed acts).filterMap (Hci.told b'.connIsMaster) = [] := by
      refine List.filterMap_eq_nil_iff.mpr fun evt hevt => ?_
      obtain rfl | rfl := hspends.started evt hevt
      · rfl
      · rfl
    rw [List.nil_append, hsilent] at hmore
    cases hmore
    rw [hdone]
    exact .done (.cons hcarries .nil) hbetween' (hown'.trans hown)
  | stack op hop =>
    have henq := run_enqueues hw hop b
    have hbounds : ∀ b₁, (op.run hw b).res = .ok b₁ → b₁.Bounds :=
      fun b₁ => run_bounds hw op hbetween.bounds
    rcases hx : op.run hw b with ⟨acts, p | b₁⟩
    · have hstopped : (stack op hop).turn hw h b = .error p := by
        unfold turn run
        dsimp only
        rw [hx]
        rfl
      rw [hstopped]
      by_cases htick : ∃ env, op = .connTick env
      · obtain ⟨env, rfl⟩ := htick
        refine .stopped rfl ?_
        have hres : (b.connTick hw env >>= fun r => pure r.2).res = .error p := congrArg Logged.res hx
        rw [Logged.bind_res] at hres
        cases htick : (b.connTick hw env).res with
        | error q =>
          rw [htick] at hres
          cases hres
          rfl
        | ok r =>
          rw [htick] at hres
          cases hres
      · obtain ⟨b₁, hres⟩ := run_returns hw (not_exists.mp htick) hbetween.bounds
        rw [hx] at hres
        cases hres
    · rw [hx] at henq hbounds
      have hrun : (stack op hop).run hw h b = ⟨acts.map .ble ++ [], .ok (h, b₁)⟩ := by
        unfold run
        dsimp only
        rw [hx]
        rfl
      have hfew : (pushed acts).length ≤ 3 := henq.few
      have hq : Ring.Sim b₁.events ([] ++ pushed acts) false := by
        rw [show b₁.events = _ from henq.queue b₁ rfl]
        exact Ring.foldl_push_sim hbetween.events (show 0 + (pushed acts).length < 8 by omega)
      obtain ⟨more, h', b', hdone, hmore, hbetween', hown'⟩ := finish hw hrun (hbounds b₁ rfl) hq
        hbetween.packets hbetween.framer (show 0 + (pushed acts).length < 16 by omega)
      rw [hdone]
      refine .done ?_ hbetween' hown'
      show List.Forall₂ Carries more ((pushed (stackActs _)).filterMap (Hci.told b'.connIsMaster))
      rw [List.append_nil, stackActs_ble]
      exact hmore

end HostTurn

/-! ## The session -/

/-- Turn after turn, the host is sent what it is to hear. -/
theorem session_carries (hw : Hw) (turns : List HostTurn) {h h' : Hci} {b b' : Ble} {dones : List TurnDone}
    (hbetween : Between h b) (hsession : session hw turns h b = .ok (dones, h', b')) :
    dones.length = turns.length ∧
      List.Forall₂ Carries (dones.flatMap TurnDone.sent) (heardAll h.ownAddr (turns.zip dones)) := by
  induction turns generalizing h b dones with
  | nil =>
    cases hsession
    exact ⟨rfl, .nil⟩
  | cons t turns ih =>
    have houtcome := t.turn_outcome hw hbetween
    obtain ⟨⟨done, h₁, b₁⟩, hturn, hsession⟩ := bind_eq_ok.mp hsession
    obtain ⟨⟨rest, h₂, b₂⟩, hrest, hsession⟩ := bind_eq_ok.mp hsession
    cases hsession
    rw [hturn] at houtcome
    cases houtcome with
    | done hsent hbetween₁ hown =>
      obtain ⟨hlen, hsent'⟩ := ih hbetween₁ hrest
      rw [hown] at hsent'
      exact ⟨congrArg Nat.succ hlen, List.rel_append hsent hsent'⟩

/-- A session that stops does so in a turn with a connection event, which panics. -/
theorem session_stops (hw : Hw) (turns : List HostTurn) {h : Hci} {b : Ble} {p : Panic}
    (hbetween : Between h b) (hsession : session hw turns h b = .error p) :
    ∃ before env hop after dones h' b', turns = before ++ .stack (.connTick env) hop :: after ∧
      session hw before h b = .ok (dones, h', b') ∧ (b'.connTick hw env).res = .error p := by
  induction turns generalizing h b with
  | nil => cases hsession
  | cons t turns ih =>
    have houtcome := t.turn_outcome hw hbetween
    rw [session] at hsession
    rcases hturn : t.turn hw h b with q | ⟨done, h₁, b₁⟩
    · rw [hturn] at hsession houtcome
      cases hsession
      cases houtcome with
      | stopped ht hpanic =>
        subst ht
        exact ⟨[], _, _, turns, [], h, b, rfl, rfl, hpanic⟩
    · rw [hturn] at hsession houtcome
      cases houtcome with
      | done hsent hbetween₁ hown =>
        rcases hrest : session hw turns h₁ b₁ with q | r
        · rw [ok_bind] at hsession
          dsimp only at hsession
          rw [hrest] at hsession
          cases hsession
          obtain ⟨before, env, hop, after, dones, h', b', rfl, hfront, hpanic⟩ := ih hbetween₁ hrest
          refine ⟨t :: before, env, hop, after, done :: dones, h', b', rfl, ?_, hpanic⟩
          rw [session, hturn, ok_bind]
          dsimp only
          rw [hfront]
          rfl
        · rw [ok_bind] at hsession
          dsimp only at hsession
          rw [hrest] at hsession
          cases hsession

/-- **A session.**  Whatever turns there were, the host reads, off the bytes it was sent, exactly what
    the abstract controller tells: one answer to each command, with its opcode and status 0, and one
    event to each report, connection and disconnection of the stack, in order.  What stops a session
    is a turn with a connection event that panics. -/
theorem hci_session (hw : Hw) (turns : List HostTurn) :
    (∀ dones h b, session hw turns Hci.new Ble.new = .ok (dones, h, b) →
      dones.length = turns.length ∧
        hostReads ((dones.flatMap TurnDone.sent).flatMap HciPacket.h4Bytes) =
          .ok (heardAll (Buf.zero 6) (turns.zip dones))) ∧
      ∀ p, session hw turns Hci.new Ble.new = .error p →
        ∃ before env hop after dones h b, turns = before ++ .stack (.connTick env) hop :: after ∧
          session hw before Hci.new Ble.new = .ok (dones, h, b) ∧
          (b.connTick hw env).res = .error p := by
  constructor
  · intro dones h b hsession
    obtain ⟨hlen, hsent⟩ := session_carries hw turns between_new hsession
    exact ⟨hlen, hostReads_carries hsent⟩
  · intro p hsession
    exact session_stops hw turns between_new hsession

/-- `LE Set Random Address`. -/
def setAddress : HostCommand := ⟨0x08, 0x0005, [1, 2, 3, 4, 5, 6], by decide, by decide, by decide⟩

/-- The read of the address, in the group the layer has it in. -/
def readAddress : HostCommand := ⟨0x03, 0x0009, [], by decide, by decide, by decide⟩

def setThenRead : List HostTurn := [.command setAddress 0, .command readAddress 0]

theorem heardAll_setThenRead {dones : List TurnDone} (hlen : dones.length = 2) :
    heardAll (Buf.zero 6) (setThenRead.zip dones) =
      [.commandComplete (0x05, 0x20) 0 [], .commandComplete (0x09, 0x0C) 0 [1, 2, 3, 4, 5, 6]] := by
  obtain ⟨d, e, rfl⟩ := List.length_eq_two.mp hlen
  show [setAddress.answer (Buf.zero 6), readAddress.answer (setAddress.setsAddress (Buf.zero 6))] = _
  decide +kernel

/-- The address that was set is read back. -/
theorem hci_session_set_then_read :
    ∃ dones h b, session Hw.standIn setThenRead Hci.new Ble.new = .ok (dones, h, b) ∧
      hostReads ((dones.flatMap TurnDone.sent).flatMap HciPacket.h4Bytes) =
        .ok [.commandComplete (0x05, 0x20) 0 [], .commandComplete (0x09, 0x0C) 0 [1, 2, 3, 4, 5, 6]] := by
  have hsession := hci_session Hw.standIn setThenRead
  -- what is not to be computed
  generalize session Hw.standIn setThenRead Hci.new Ble.new = x at hsession ⊢
  obtain ⟨htold, hstops⟩ := hsession
  rcases x with p | ⟨dones, h, b⟩
  · obtain ⟨before, env, hop, after, _, _, _, hturns, _⟩ := hstops p rfl
    have hmem : HostTurn.stack (.connTick env) hop ∈ setThenRead := by
      rw [hturns]
      exact List.mem_append_right _ List.mem_cons_self
    simp [setThenRead] at hmem
  · obtain ⟨hlen, hreads⟩ := htold dones h b rfl
    refine ⟨dones, h, b, rfl, hreads.trans ?_⟩
    rw [heardAll_setThenRead hlen]

end NrfBle
