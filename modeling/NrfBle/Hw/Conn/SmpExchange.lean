/-
  Two connections that pair with each other.

  The first half composes the two state machines: every SMP PDU one side queues is handed, without
  its L2CAP header, to the other side's `handle_smp`, in any interleaving of sending and delivering.
  The exchange is two PDUs long.  The master's request is answered by a response, and the handler of
  the response sends nothing: the first confirm value is only ever sent in ANSWER to a confirm value.
  Both sides end up waiting for it (`pairing_stalls`).

  The second half puts L2CAP back in.  `handle_smp` and `gap_pair` build the four-byte header
  themselves and hand header and PDU to `queue_l2cap` as the message; `tx_fragment` puts a second
  header in front.  The receiver takes one off.  What `handle_smp` is called with is the PDU behind
  its own header (`smp_pdu_arrives_with_header`).
-/
import Mathlib.Tactic
import NrfBle.Lib.Duplex
import NrfBle.Hw.Conn.Pairing
import NrfBle.Hw.Conn.Reassembly

namespace NrfBle

open Checked Duplex

/-! ## The slot as an SMP outbox -/

/-- An SMP PDU behind the L2CAP header its sender builds. -/
def withHeader (p : List UInt8) : List UInt8 :=
  le16 (UInt16.ofNat p.length) ++ le16 l2capSmpCid ++ p

theorem withHeader_length (p : List UInt8) : (withHeader p).length = 4 + p.length := by
  unfold withHeader
  rw [List.length_append, List.length_append, le16_length, le16_length]

namespace Conn

/-- The SMP PDU in the slot, without that header. -/
def queuedSmp (c : Conn) : Option (List UInt8) := (c.queuedOn l2capSmpCid).map (List.drop 4)

/-- What `sendSmp` leaves in the slot. -/
theorem sendSmp_sending (c : Conn) {p : List UInt8} (h : p.length ≤ 17) :
    Sending (c.sendSmp p) (withHeader p) l2capSmpCid 0 := by
  have hlen := withHeader_length p
  exact .queueL2cap c (show (withHeader p).length ≤ 251 by omega) l2capSmpCid

/-- The PDU in a slot that holds one behind its header. -/
theorem queuedSmp_of_sending {c : Conn} {p : List UInt8}
    (h : Sending c (withHeader p) l2capSmpCid 0) : c.queuedSmp = some p := by
  unfold queuedSmp
  rw [h.queuedOn]
  rfl

/-- The PDU that `handle_smp` queues, if any. -/
def smpOut (hw : Hw) (c : Conn) : List UInt8 → Option (List UInt8)
  | [] => none
  | op :: rest =>
    if op = smpPairingFailed then none
    else if op = smpSecurityRequest then some c.smp.buildPairingRequest.1.bytes
    else if op = smpPairingRequest then
      if rest.length < 6 then none else some Smp.pairingResponse.bytes
    else if op = smpPairingResponse then none
    else if op = smpPairingConfirm then
      if rest.length < 16 then none
      else
        let smp := (c.smp.handleConfirm ((op :: rest).take 17)).2
        some (smp.buildConfirm hw smp.iat smp.ia smp.ra).1
    else if op = smpPairingRandom then
      let r := c.smp.handleRandom hw ((op :: rest).take 17)
      some (r.1.toOption.getD (Smp.buildFailed r.2.pairingFailed))
    else none

/-- What happened to the slot: a PDU was queued behind its header, or nothing was. -/
def SmpSlot (c c' : Conn) : Option (List UInt8) → Prop
  | some p => p.length ≤ 17 ∧ Sending c' (withHeader p) l2capSmpCid 0
  | none => c'.txPending = c.txPending ∧ c'.queuedSmp = c.queuedSmp

theorem smpSlot_sendSmp (c c₁ : Conn) {p : List UInt8} (h : p.length ≤ 17) :
    SmpSlot c (c₁.sendSmp p) (some p) := ⟨h, sendSmp_sending c₁ h⟩

theorem handleRandom_length {hw : Hw} {s s' : Smp} {data rnd : List UInt8}
    (h : s.handleRandom hw data = (.ok rnd, s')) : rnd.length = 17 := by
  have hok : 17 ≤ data.length ∧ s.Verifies hw (Smp.valueOf data) := by
    rw [← s.handleRandom_isOk hw data, h]
    rfl
  rw [s.handleRandom_verified hw hok.1 hok.2] at h
  cases h
  rw [Smp.buildRandom, List.length_cons, s.ownRandom.size]

/-- The Pairing Random branch: the later writes leave the slot alone. -/
theorem smpRandom_slot (hw : Hw) (c : Conn) (body : List UInt8) :
    SmpSlot c (c.smpRandom hw body) (some ((c.smp.handleRandom hw (body.take 17)).1.toOption.getD
      (Smp.buildFailed (c.smp.handleRandom hw (body.take 17)).2.pairingFailed))) := by
  unfold smpRandom
  cases hr : c.smp.handleRandom hw (body.take 17) with
  | mk answer s =>
    cases answer with
    | ok rnd =>
      have hrnd : rnd.length ≤ 17 := Nat.le_of_eq (handleRandom_length hr)
      have h := sendSmp_sending { c with smp := s } hrnd
      dsimp only
      split <;> exact ⟨hrnd, h.length, h.bytes, h.offset, h.pending, h.cid⟩
    | error e =>
      have hfailed : (Smp.buildFailed s.pairingFailed).length ≤ 17 := show 2 ≤ 17 by omega
      have h := sendSmp_sending { c with smp := s } hfailed
      exact ⟨hfailed, h.length, h.bytes, h.offset, h.pending, h.cid⟩

/-- **What `handle_smp` does to the slot.** -/
theorem handleSmp_slot (hw : Hw) (c : Conn) (body : List UInt8) :
    SmpSlot c (c.handleSmp hw body) (c.smpOut hw body) := by
  cases body with
  | nil => exact ⟨rfl, rfl⟩
  | cons op rest =>
    unfold handleSmp smpOut
    dsimp only
    by_cases hf : op = smpPairingFailed
    · rw [if_pos hf, if_pos hf]; exact ⟨rfl, rfl⟩
    rw [if_neg hf, if_neg hf]
    by_cases hs : op = smpSecurityRequest
    · rw [if_pos hs, if_pos hs]
      exact smpSlot_sendSmp c _ (by rw [Buf.size]; omega)
    rw [if_neg hs, if_neg hs]
    by_cases hq : op = smpPairingRequest
    · rw [if_pos hq, if_pos hq]
      rcases Nat.lt_or_ge rest.length 6 with hlen | hlen
      · rw [c.smp.handlePairingRequest_short (by rw [List.length_take, List.length_cons]; omega),
          if_pos hlen]
        exact ⟨rfl, rfl⟩
      · rw [c.smp.handlePairingRequest_long (by rw [List.length_take, List.length_cons]; omega),
          if_neg (by omega)]
        exact smpSlot_sendSmp c _ (by rw [Buf.size]; omega)
    rw [if_neg hq, if_neg hq]
    by_cases hr : op = smpPairingResponse
    · rw [if_pos hr, if_pos hr]
      split <;> exact ⟨rfl, rfl⟩
    rw [if_neg hr, if_neg hr]
    by_cases hc : op = smpPairingConfirm
    · rw [if_pos hc, if_pos hc]
      rcases Nat.lt_or_ge rest.length 16 with hlen | hlen
      · rw [c.smp.handleConfirm_short (by rw [List.length_take, List.length_cons]; omega),
          if_pos hlen]
        exact ⟨rfl, rfl⟩
      · rw [c.smp.handleConfirm_long (by rw [List.length_take, List.length_cons]; omega),
          if_neg (by omega)]
        refine smpSlot_sendSmp c _ ?_
        unfold Smp.buildConfirm
        rw [List.length_cons, Buf.size]
    rw [if_neg hc, if_neg hc]
    by_cases hn : op = smpPairingRandom
    · rw [if_pos hn, if_pos hn]
      exact smpRandom_slot hw c (op :: rest)
    · rw [if_neg hn, if_neg hn]
      exact ⟨rfl, rfl⟩

/-- A PDU that `handle_smp` queues is in the slot, behind its header. -/
theorem handleSmp_sending {hw : Hw} {c : Conn} {body p : List UInt8} (h : c.smpOut hw body = some p) :
    p.length ≤ 17 ∧ Sending (c.handleSmp hw body) (withHeader p) l2capSmpCid 0 := by
  have hslot := c.handleSmp_slot hw body
  rw [h] at hslot
  exact hslot

/-- `gap_pair` on a master queues the pairing request. -/
theorem gapPair_sending {c : Conn} (h : c.role = .master) :
    Sending c.gapPair (withHeader c.smp.buildPairingRequest.1.bytes) l2capSmpCid 0 := by
  unfold gapPair
  rw [h]
  exact sendSmp_sending _ (by rw [Buf.size]; omega)

/-- A received request is answered. -/
theorem handleSmp_request (hw : Hw) (c : Conn) {rest : List UInt8} (h : 6 ≤ rest.length) :
    (c.handleSmp hw (smpPairingRequest :: rest)).queuedSmp = some Smp.pairingResponse.bytes := by
  have hout : c.smpOut hw (smpPairingRequest :: rest) = some Smp.pairingResponse.bytes := by
    unfold smpOut
    dsimp only
    rw [if_neg (by decide), if_neg (by decide), if_pos rfl, if_neg (by omega)]
  exact queuedSmp_of_sending (handleSmp_sending hout).2

/-- A received response is not. -/
theorem handleSmp_response (hw : Hw) (c : Conn) (rest : List UInt8) :
    (c.handleSmp hw (smpPairingResponse :: rest)).queuedSmp = c.queuedSmp := by
  have hslot := c.handleSmp_slot hw (smpPairingResponse :: rest)
  have hout : c.smpOut hw (smpPairingResponse :: rest) = none := rfl
  rw [hout] at hslot
  exact hslot.2

/-- The state a request or a response leads to. -/
theorem handleSmp_state (hw : Hw) (c : Conn) {op : UInt8} {rest : List UInt8}
    (hop : op = smpPairingRequest ∨ op = smpPairingResponse) (h : 6 ≤ rest.length) :
    (c.handleSmp hw (op :: rest)).smp.state = .waitConfirm := by
  have hview := congrArg PairingView.state (c.handleSmp_view hw (op :: rest))
  refine hview.trans ?_
  unfold smpEvent
  dsimp only
  rcases hop with rfl | rfl
  · rw [if_neg (by decide), if_neg (by decide), if_pos rfl, if_neg (by omega)]
    rfl
  · rw [if_neg (by decide), if_neg (by decide), if_neg (by decide), if_pos rfl, if_neg (by omega)]
    rfl

end Conn

/-! ## The exchange, abstractly -/

/-- The PDUs of the exchange. -/
inductive PairingMsg
  | request
  | response
  deriving DecidableEq, Repr

/-- An end of the exchange: its state, and what it has queued. -/
structure PairingEnd where
  state : SmpState
  slot : Option PairingMsg
  deriving DecidableEq, Repr

/-- A request is answered, a response is not. -/
def pairingParty : Party Empty PairingEnd PairingMsg where
  call k := k.elim
  take a := a.slot.map (fun m => (m, { a with slot := none }))
  receive
    | .request, _ => ⟨.waitConfirm, some .response⟩
    | .response, a => { a with state := .waitConfirm }

/-- How far the exchange is. -/
inductive Stage
  | asked
  | requestSent
  | answered
  | responseSent
  | stalled

/-- Both ends at a stage. -/
def Stage.net : Stage → Net PairingEnd PairingMsg
  | .asked => .ends ⟨.idle, some .request⟩ ⟨.idle, none⟩ [] []
  | .requestSent => .ends ⟨.idle, none⟩ ⟨.idle, none⟩ [] [.request]
  | .answered => .ends ⟨.idle, none⟩ ⟨.waitConfirm, some .response⟩ [] []
  | .responseSent => .ends ⟨.idle, none⟩ ⟨.waitConfirm, none⟩ [.response] []
  | .stalled => .ends ⟨.waitConfirm, none⟩ ⟨.waitConfirm, none⟩ [] []

/-- The PDUs that are still to be sent. -/
def Stage.left : Stage → List PairingMsg
  | .asked => [.request, .response]
  | .requestSent | .answered => [.response]
  | .responseSent | .stalled => []

/-- The moves that change something, one at each stage but the last. -/
def Stage.next : Stage → Move Empty → Stage
  | .asked, .send .left => .requestSent
  | .requestSent, .deliver .right => .answered
  | .answered, .send .right => .responseSent
  | .responseSent, .deliver .left => .stalled
  | k, _ => k

/-- **One move** keeps the stage or takes it to the next one. -/
theorem Stage.step (k : Stage) (m : Move Empty) :
    pairingParty.step k.net m = (k.next m).net ∧
      pairingParty.sends k.net m ++ (k.next m).left = k.left := by
  cases m with
  | call s e => exact e.elim
  | send s =>
    cases s <;> cases k <;>
      exact ⟨Net.ext_sides (fun r => by cases r <;> rfl) (fun r => by cases r <;> rfl), rfl⟩
  | deliver s =>
    cases s <;> cases k <;>
      exact ⟨Net.ext_sides (fun r => by cases r <;> rfl) (fun r => by cases r <;> rfl), rfl⟩

/-- **A run** goes from stage to stage, and has sent what was left to send and is not any more. -/
theorem Stage.run (k : Stage) (moves : List (Move Empty)) :
    pairingParty.run moves k.net = (moves.foldl Stage.next k).net ∧
      pairingParty.traffic moves k.net ++ (moves.foldl Stage.next k).left = k.left := by
  induction moves generalizing k with
  | nil => exact ⟨rfl, rfl⟩
  | cons m ms ih =>
    obtain ⟨hstep, hsends⟩ := k.step m
    obtain ⟨hrun, htraffic⟩ := ih (k.next m)
    refine ⟨?_, ?_⟩
    · rw [List.foldl_cons, ← hrun, ← hstep]; rfl
    · rw [Party.traffic, hstep, List.foldl_cons, List.append_assoc, htraffic, hsends]

/-! ## The exchange of the two connections -/

/-- A connection as a party: it sends what the SMP code queued, without the header, and hands what
    arrives to `handle_smp`. -/
def smpParty (hw : Hw) : Party Empty Conn (List UInt8) where
  call k := k.elim
  take c := c.queuedSmp.map (fun p => (p, { c with txPending := false }))
  receive p c := c.handleSmp hw p

/-- The PDUs, given the request. -/
def PairingMsg.encode (req : Buf 7) : PairingMsg → List UInt8
  | .request => req.bytes
  | .response => Smp.pairingResponse.bytes

/-- The connection is at this point of the exchange. -/
structure AtEnd (req : Buf 7) (c : Conn) (a : PairingEnd) : Prop where
  state : c.smp.state = a.state
  slot : c.queuedSmp = a.slot.map (PairingMsg.encode req)

theorem Conn.queuedSmp_sent (c : Conn) :
    ({ c with txPending := false } : Conn).queuedSmp = none := by
  unfold Conn.queuedSmp
  rw [Conn.queuedOn_sent]
  rfl

theorem smpParty_idle (hw : Hw) {c : Conn} (h : c.queuedSmp = none) : (smpParty hw).take c = none := by
  show c.queuedSmp.map _ = none
  rw [h]
  rfl

/-- **`handle_smp` takes the steps of the exchange.** -/
theorem smpParty_simulates (hw : Hw) (req : Buf 7) {rest : List UInt8}
    (hreq : req.bytes = smpPairingRequest :: rest) :
    Simulates (smpParty hw) pairingParty (AtEnd req) (PairingMsg.encode req) where
  call k := k.elim
  idle {c a} h hnone := by
    have hslot : a.slot = none := Option.map_eq_none_iff.mp hnone
    apply smpParty_idle
    rw [h.slot, hslot]
    rfl
  send {c a m a'} h hsome := by
    obtain ⟨m₀, hslot, hm⟩ := Option.map_eq_some_iff.mp hsome
    cases hm
    refine ⟨{ c with txPending := false }, ?_, h.state, c.queuedSmp_sent⟩
    show c.queuedSmp.map _ = _
    rw [h.slot, hslot]
    rfl
  receive {c a} m h := by
    cases m with
    | request =>
      have hlen : 6 ≤ rest.length := by
        have hsize := req.size
        rw [hreq, List.length_cons] at hsize
        omega
      show AtEnd req (c.handleSmp hw req.bytes) _
      rw [hreq]
      exact ⟨c.handleSmp_state hw (.inl rfl) hlen, c.handleSmp_request hw hlen⟩
    | response =>
      exact ⟨c.handleSmp_state hw (.inr rfl) (by decide),
        (c.handleSmp_response hw _).trans h.slot⟩

/-- A master and a slave on which no pairing has begun. -/
structure FreshPair (m s : Conn) : Prop where
  master : m.role = .master
  slave : s.role = .slave
  passkey : m.smp.passkey = s.smp.passkey
  masterIdle : m.smp.state = .idle
  slaveIdle : s.smp.state = .idle
  nothingQueued : s.queuedSmp = none

/-- The master on the left has just called `gap_pair`. -/
def pairingStart (m s : Conn) : Net Conn (List UInt8) := .ends m.gapPair s [] []

/-- The beginning of the exchange. -/
theorem FreshPair.related {m s : Conn} (h : FreshPair m s) :
    Related (AtEnd m.smp.buildPairingRequest.1) (PairingMsg.encode m.smp.buildPairingRequest.1)
      (pairingStart m s) Stage.asked.net where
  state
    | .left => by
      refine ⟨?_, Conn.queuedSmp_of_sending (Conn.gapPair_sending h.master)⟩
      show m.gapPair.smp.state = .idle
      unfold Conn.gapPair
      rw [h.master]
      exact h.masterIdle
    | .right => ⟨h.slaveIdle, h.nothingQueued⟩
  flight
    | .left => rfl
    | .right => rfl

/-- Pairing completes: no run sends more than some number of PDUs, and one that has delivered all of
    them leaves both sides waiting for the encryption to start. -/
def PairingCompletes (hw : Hw) (m s : Conn) : Prop :=
  ∃ bound, ∀ moves, ((smpParty hw).traffic moves (pairingStart m s)).length ≤ bound ∧
    ((smpParty hw).Quiet ((smpParty hw).run moves (pairingStart m s)) →
      ∀ side, (((smpParty hw).run moves (pairingStart m s)).state side).smp.state =
        .waitingStartEnc)

/-- Everything sent and delivered. -/
def pairingMoves : List (Move Empty) := [.send .left, .deliver .right, .send .right, .deliver .left]

/-- No stage has an end in `WaitingStartEnc`, and at a quiet one both ends wait for a confirm value. -/
theorem Stage.states (k : Stage) (side : Side) :
    (k.net.state side).state ≠ .waitingStartEnc ∧
      (pairingParty.Quiet k.net → (k.net.state side).state = .waitConfirm) := by
  refine ⟨by cases k <;> cases side <;> decide, ?_⟩
  intro hq
  cases k with
  | asked => cases (hq .left).2
  | requestSent => cases (hq .right).1
  | answered => cases (hq .right).2
  | responseSent => cases (hq .left).1
  | stalled => cases side <;> rfl

/-- **Pairing stalls.**  Between a master and a slave on which no pairing has begun, whatever the
    order of sending and delivering, at most the request and the response are sent, neither side
    ever waits for the encryption to start, and once nothing is left to send or deliver both wait
    for a confirm value that nobody sends. -/
theorem pairing_stalls (hw : Hw) (m s : Conn) (h : FreshPair m s) :
    ¬ PairingCompletes hw m s ∧
      ∀ moves, ((smpParty hw).traffic moves (pairingStart m s) <+:
          [m.smp.buildPairingRequest.1.bytes, Smp.pairingResponse.bytes]) ∧
        ∀ side,
          (((smpParty hw).run moves (pairingStart m s)).state side).smp.state ≠ .waitingStartEnc ∧
          ((smpParty hw).Quiet ((smpParty hw).run moves (pairingStart m s)) →
            (((smpParty hw).run moves (pairingStart m s)).state side).smp.state = .waitConfirm) := by
  have hsim := smpParty_simulates hw m.smp.buildPairingRequest.1 rfl
  refine ⟨?_, ?_⟩
  · rintro ⟨bound, hall⟩
    have hrel := hsim.run h.related pairingMoves
    rw [(Stage.asked.run pairingMoves).1] at hrel
    have hquiet : pairingParty.Quiet Stage.stalled.net := by
      intro side
      cases side <;> exact ⟨rfl, rfl⟩
    have hdone := (hall pairingMoves).2 ((hsim.quiet_iff hrel).mpr hquiet) .left
    rw [(hrel.state .left).state] at hdone
    cases hdone
  · intro moves
    have hrel := hsim.run h.related moves
    have htraffic := hsim.traffic h.related moves
    obtain ⟨hrun, hleft⟩ := Stage.asked.run moves
    rw [hrun] at hrel
    refine ⟨?_, ?_⟩
    · refine ⟨(moves.foldl Stage.next .asked).left.map
        (PairingMsg.encode m.smp.buildPairingRequest.1), ?_⟩
      rw [htraffic, ← List.map_append, hleft]
      rfl
    · intro side
      rw [hsim.quiet_iff hrel, (hrel.state side).state]
      exact Stage.states _ side

theorem FreshPair.sample : FreshPair (Conn.sample .master) (Conn.sample .slave) :=
  ⟨rfl, rfl, rfl, rfl, rfl, rfl⟩

/-- Two new connections: the request and the response go over, and that is all. -/
theorem pairing_stalls_sample :
    ((smpParty Hw.standIn).traffic pairingMoves
        (pairingStart (Conn.sample .master) (Conn.sample .slave)) <+:
      [[1, 3, 0, 1, 16, 1, 1], [2, 3, 0, 1, 16, 1, 1]]) ∧
    ¬ PairingCompletes Hw.standIn (Conn.sample .master) (Conn.sample .slave) :=
  have h := pairing_stalls Hw.standIn _ _ FreshPair.sample
  ⟨(h.2 pairingMoves).1, h.1⟩

/-- After the response has been delivered nothing is left to send, and the master is waiting for a
    confirm value. -/
theorem pairing_ends_in_waitConfirm :
    FreshPair (Conn.sample .master) (Conn.sample .slave) ∧
      ¬ PairingCompletes Hw.standIn (Conn.sample .master) (Conn.sample .slave) := by
  refine ⟨FreshPair.sample, ?_⟩
  rintro ⟨bound, hall⟩
  have hquiet : (smpParty Hw.standIn).Quiet ((smpParty Hw.standIn).run pairingMoves
      (pairingStart (Conn.sample .master) (Conn.sample .slave))) := by
    intro side
    cases side with
    | left => exact ⟨rfl, smpParty_idle _ (by decide +kernel)⟩
    | right => exact ⟨rfl, smpParty_idle _ (by decide +kernel)⟩
  have hstate : (((smpParty Hw.standIn).run pairingMoves
      (pairingStart (Conn.sample .master) (Conn.sample .slave))).state .left).smp.state =
        .waitConfirm := by decide +kernel
  have hdone := (hall pairingMoves).2 hquiet .left
  rw [hstate] at hdone
  cases hdone

/-! ## Through L2CAP

  `handle_l2cap` over the SMP handler as well, so that "it is called once, with this body" can be said
  of every handler put in its place. -/

/-- What is done with an SMP message. -/
abbrev SmpHandler := Conn → List UInt8 → Conn

namespace Conn

/-- `Conn::handle_l2cap`, over the SMP and the ATT handler. -/
def handleL2capVia (smp : SmpHandler) (att : AttHandler) (hw : Hw) (c : Conn) (payload : List UInt8)
    (llid : UInt8) (result : ConnEvent) : Except Panic (Conn × ConnEvent) :=
  if c.isFirst llid then
    if payload.length < 4 then return (c, result)
    else do
      let msgLen ← rd16 payload 0
      let cid ← rd16 payload 2
      let body ← slice payload 4 payload.length
      if cid = l2capSmpCidLocal then
        let c := { c with rxL2capLen := 0, rxL2capMsgLen := msgLen.toNat, rxL2capCid := cid }
        return ({ smp c body with rxL2capLen := 0 }, result)
      else c.startMessage att hw msgLen cid body result
  else c.reassemble att payload result

/-- With `handle_smp` it is `handle_l2cap`. -/
theorem handleL2capVia_handleSmp (att : AttHandler) (hw : Hw) (c : Conn) (payload : List UInt8)
    (llid : UInt8) (result : ConnEvent) :
    c.handleL2capVia (handleSmp hw) att hw payload llid result =
      c.handleL2capWith att hw payload llid result := by
  unfold handleL2capVia handleL2capWith
  split
  · split
    · rfl
    · congr 1; funext msgLen
      congr 1; funext cid
      congr 1; funext body
      unfold startMessage
      split
      · rfl
      · rfl
  · rfl

/-- Hand fragments to it, in order. -/
def feedVia (smp : SmpHandler) (att : AttHandler) (hw : Hw) :
    List Fragment → Conn → ConnEvent → Except Panic (Conn × ConnEvent)
  | [], d, result => return (d, result)
  | f :: fs, d, result => do
    let (d, result) ← d.handleL2capVia smp att hw f.payload f.llid result
    feedVia smp att hw fs d result

/-- With `handle_smp` this is `feed`. -/
theorem feedVia_handleSmp (att : AttHandler) (hw : Hw) (fs : List Fragment) (d : Conn)
    (result : ConnEvent) : feedVia (handleSmp hw) att hw fs d result = feed att hw fs d result := by
  induction fs generalizing d result with
  | nil => rfl
  | cons f fs ih =>
    show (d.handleL2capVia (handleSmp hw) att hw f.payload f.llid result >>= fun r =>
      feedVia (handleSmp hw) att hw fs r.1 r.2) = _
    rw [handleL2capVia_handleSmp, feed]
    congr 1
    funext r
    exact ih r.1 r.2

/-- The SMP handler is called once and with this body, and nothing else happens. -/
def CallsSmpOnce (hw : Hw) (d : Conn) (fs : List Fragment) (body : List UInt8) : Prop :=
  ∃ d₀, ∀ (smp : SmpHandler) (att : AttHandler) (result : ConnEvent),
    feedVia smp att hw fs d result = .ok ({ smp d₀ body with rxL2capLen := 0 }, result)

/-- It cannot be called once with two bodies: a handler may write down how long its argument is. -/
theorem CallsSmpOnce.length_unique {hw : Hw} {fs : List Fragment} {d : Conn} {b₁ b₂ : List UInt8}
    (h₁ : CallsSmpOnce hw d fs b₁) (h₂ : CallsSmpOnce hw d fs b₂) : b₁.length = b₂.length := by
  obtain ⟨d₁, h₁⟩ := h₁
  obtain ⟨d₂, h₂⟩ := h₂
  have heq := (h₁ (fun c body => { c with rxDataLen := body.length }) handleAtt .idle).symm.trans
    (h₂ (fun c body => { c with rxDataLen := body.length }) handleAtt .idle)
  exact congrArg (fun r => r.1.rxDataLen) (Except.ok.inj heq)

/-- A PDU that starts an SMP message. -/
theorem handleL2capVia_smp (smp : SmpHandler) (att : AttHandler) (hw : Hw) {c : Conn} {llid : UInt8}
    (h : c.isFirst llid = true) (l₀ l₁ d₀ d₁ : UInt8) (hcid : ofLe16 d₀ d₁ = l2capSmpCidLocal)
    (body : List UInt8) (result : ConnEvent) :
    c.handleL2capVia smp att hw (l₀ :: l₁ :: d₀ :: d₁ :: body) llid result =
      .ok ({ smp { c with
        rxL2capLen := 0, rxL2capMsgLen := (ofLe16 l₀ l₁).toNat, rxL2capCid := l2capSmpCidLocal }
          body with rxL2capLen := 0 }, result) := by
  have hlen : ¬ (l₀ :: l₁ :: d₀ :: d₁ :: body).length < 4 := by
    simp only [List.length_cons]; omega
  have hbody : slice (l₀ :: l₁ :: d₀ :: d₁ :: body) 4 (l₀ :: l₁ :: d₀ :: d₁ :: body).length =
      .ok body := by
    rw [slice_of_le (by simp only [List.length_cons]; omega) (Nat.le_refl _), List.take_length]
    rfl
  unfold handleL2capVia
  rw [if_pos h, if_neg hlen, hbody]
  show (if ofLe16 d₀ d₁ = l2capSmpCidLocal then _ else _) = _
  rw [if_pos hcid, hcid]
  rfl

/-- An SMP message in one fragment reaches the handler as a whole. -/
theorem callsSmpOnce_whole (hw : Hw) (d : Conn) (m : List UInt8) :
    CallsSmpOnce hw d [wholeMessage m l2capSmpCid] m := by
  refine ⟨{ d with
    rxL2capLen := 0, rxL2capMsgLen := (UInt16.ofNat m.length).toNat
    rxL2capCid := l2capSmpCidLocal }, ?_⟩
  intro smp att result
  have hfirst : d.isFirst llidDataComplete = true := decide_eq_true (.inl (by decide))
  rw [feedVia]
  show (d.handleL2capVia smp att hw (le16 _ ++ le16 _ ++ m) llidDataComplete result >>= _) = _
  rw [le16_eq, le16_eq]
  show (d.handleL2capVia smp att hw (_ :: _ :: _ :: _ :: m) llidDataComplete result >>= _) = _
  rw [handleL2capVia_smp smp att hw hfirst _ _ _ _ (ofLe16_le16 l2capSmpCid), ofLe16_le16]
  rfl

/-- The connection `c` queues the SMP PDU `p` and becomes `c'`. -/
inductive QueuesSmp (hw : Hw) (c : Conn) : Conn → List UInt8 → Prop
  | gapPair (h : c.role = .master) : QueuesSmp hw c c.gapPair c.smp.buildPairingRequest.1.bytes
  | handleSmp {body p : List UInt8} (h : c.smpOut hw body = some p) :
    QueuesSmp hw c (c.handleSmp hw body) p

theorem QueuesSmp.sending {hw : Hw} {c c' : Conn} {p : List UInt8} (h : QueuesSmp hw c c' p) :
    p.length ≤ 17 ∧ Sending c' (withHeader p) l2capSmpCid 0 := by
  cases h with
  | gapPair h => exact ⟨by rw [Buf.size]; omega, gapPair_sending h⟩
  | handleSmp h => exact handleSmp_sending h

end Conn

/-- **An SMP PDU does not survive L2CAP.**  Whatever SMP PDU `p` a connection with a PDU size of at
    least 27 queues, it goes out in one fragment, and that fragment makes any other connection call
    its SMP handler once: with the PDU behind the header its sender built, and not with `p`.  That
    is what the program's `handle_smp` gets. -/
theorem smp_pdu_arrives_with_header (hw : Hw) (c c' d : Conn) (p : List UInt8)
    (h : c.QueuesSmp hw c' p) (hpdu : 27 ≤ c'.txPduMax) :
    ∃ f c'', (∀ fuel, 0 < fuel → c'.drain fuel = .ok ([f], c'')) ∧ c''.txPending = false ∧
      d.CallsSmpOnce hw [f] (withHeader p) ∧ ¬ d.CallsSmpOnce hw [f] p ∧
      ∃ d₀ : Conn, ∀ att result, Conn.feed att hw [f] d result =
        .ok ({ d₀.handleSmp hw (withHeader p) with rxL2capLen := 0 }, result) := by
  obtain ⟨hlen, hsending⟩ := h.sending
  have hwith := withHeader_length p
  obtain ⟨c'', hidle, hdrain⟩ := hsending.drain_whole (by omega) (by omega)
  have hcalls := Conn.callsSmpOnce_whole hw d (withHeader p)
  refine ⟨wholeMessage (withHeader p) l2capSmpCid, c'', hdrain, hidle, hcalls, ?_, ?_⟩
  · intro hp
    have := hcalls.length_unique hp
    omega
  · obtain ⟨d₀, hall⟩ := hcalls
    refine ⟨d₀, ?_⟩
    intro att result
    rw [← Conn.feedVia_handleSmp]
    exact hall _ att result

/-- The pairing request of a new master. -/
theorem request_arrives_with_header :
    ∃ f c'', (Conn.sample .master).gapPair.drain 1 = .ok ([f], c'') ∧
      (Conn.sample .slave).CallsSmpOnce Hw.standIn [f] [7, 0, 6, 0, 1, 3, 0, 1, 16, 1, 1] ∧
      ¬ (Conn.sample .slave).CallsSmpOnce Hw.standIn [f] [1, 3, 0, 1, 16, 1, 1] := by
  obtain ⟨f, c'', hdrain, _, hcalls, hnot, _⟩ := smp_pdu_arrives_with_header Hw.standIn
    (Conn.sample .master) _ (Conn.sample .slave) _ (.gapPair rfl) (by decide)
  exact ⟨f, c'', hdrain 1 (by decide), hcalls, hnot⟩

/-- The request goes over, and the slave, that would answer it, takes it for a PDU with the opcode 7
    and does nothing. -/
theorem request_not_understood :
    ((Conn.sample .master).gapPair.drain 1).map Prod.fst =
        .ok [⟨3, [11, 0, 6, 0, 7, 0, 6, 0, 1, 3, 0, 1, 16, 1, 1]⟩] ∧
      ((Conn.feed Conn.handleAtt Hw.standIn [⟨3, [11, 0, 6, 0, 7, 0, 6, 0, 1, 3, 0, 1, 16, 1, 1]⟩]
        (Conn.sample .slave) .idle).toOption.any
          (fun r => !r.1.txPending && !r.1.pairingInProgress)) = true ∧
      ((Conn.sample .slave).handleSmp Hw.standIn [1, 3, 0, 1, 16, 1, 1]).txPending = true ∧
      ¬ (Conn.sample .slave).CallsSmpOnce Hw.standIn
        [⟨3, [11, 0, 6, 0, 7, 0, 6, 0, 1, 3, 0, 1, 16, 1, 1]⟩] [1, 3, 0, 1, 16, 1, 1] := by
  refine ⟨by decide +kernel, by decide +kernel, by decide +kernel, ?_⟩
  intro h
  have hcalls := Conn.callsSmpOnce_whole Hw.standIn (Conn.sample .slave)
    [7, 0, 6, 0, 1, 3, 0, 1, 16, 1, 1]
  cases hcalls.length_unique h

end NrfBle
