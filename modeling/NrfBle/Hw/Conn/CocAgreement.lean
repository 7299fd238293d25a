/-
  Two connections that open a channel with each other, or both at once.

  Each may call `l2cap_connect` whenever it has no channel, and the signaling messages go over in any
  order of sending and delivering.  A connection has ONE channel record, which a received request
  overwrites, and ONE slot, in which the answer to it overwrites an own request not yet sent.

  Of a connection the exchange depends on little: the PSM of the record, whether the peer's channel id
  is known, and what is queued.  That is the abstract party, `openingParty`, and `signaling_simulates`
  says that `l2cap_connect` and `handle_le_signaling` are its moves.  Its runs go through sixteen
  situations, `Opening`.  They all end in an open channel; but when two requests crossed, each end has
  the PSM of the OTHER end's request.  So the ends agree iff no request was sent while a request for
  another PSM was on its way to the sender (`coc_agree_iff`).
-/
import Mathlib.Tactic
import NrfBle.Lib.Duplex
import NrfBle.Hw.Conn.Credits
import NrfBle.Hw.Conn.Reassembly

namespace NrfBle

open Checked Duplex

/-! ## The exchange, abstractly -/

/-- The messages of the exchange. -/
inductive OpenMsg
  | request (psm : UInt16)
  | response
  deriving DecidableEq, Repr

/-- An end of the exchange. -/
structure OpenEnd where
  /-- The PSM of the channel record, and whether the peer's channel id is known. -/
  channel : Option (UInt16 × Bool)
  slot : Option OpenMsg
  deriving DecidableEq, Repr

/-- A request is made only without a channel, and always answered. -/
def openingParty : Party UInt16 OpenEnd OpenMsg where
  call psm a := if a.channel.isSome then a else ⟨some (psm, false), some (.request psm)⟩
  take a := a.slot.map (fun m => (m, { a with slot := none }))
  receive
    | .request psm, _ => ⟨some (psm, true), some .response⟩
    | .response, a => { a with channel := a.channel.map (fun ch => (ch.1, true)) }

/-- How far the exchange is, for two ends `s` and the other; `p` is the PSM that `s` asked for and `q`
    the one that the other asked for. -/
inductive Opening
  /-- Nobody asked. -/
  | idle
  /-- `s` asked. -/
  | asked (s : Side) (p : UInt16)
  /-- Both asked, and neither request is sent. -/
  | bothAsked (s : Side) (p q : UInt16)
  /-- The request of `s` is on its way. -/
  | sent (s : Side) (p : UInt16)
  /-- The same, and the other asked as well. -/
  | sentToAsker (s : Side) (p q : UInt16)
  /-- The other took the request and queued its answer. -/
  | answered (s : Side) (p : UInt16)
  /-- The answer is on its way. -/
  | answering (s : Side) (p : UInt16)
  /-- Both requests are on their way. -/
  | crossed (s : Side) (p q : UInt16)
  /-- The other took the request of `s` and queued its answer; its own request is on its way. -/
  | heard (s : Side) (p q : UInt16)
  /-- The answer is on its way behind it. -/
  | followed (s : Side) (p q : UInt16)
  /-- Both took a request and queued an answer. -/
  | bothHeard (s : Side) (p q : UInt16)
  /-- The answer to `s` is on its way. -/
  | halfAnswered (s : Side) (p q : UInt16)
  /-- Both answers are on their way. -/
  | bothAnswering (s : Side) (p q : UInt16)
  /-- Only the answer of `s` is left, and queued. -/
  | lastQueued (s : Side) (p q : UInt16)
  /-- Only the answer of `s` is left, and on its way. -/
  | lastSent (s : Side) (p q : UInt16)
  /-- `s` has a channel for `p`, the other one for `q`. -/
  | opened (s : Side) (p q : UInt16)

namespace Opening

/-- Both ends, and what is on its way. -/
def net : Opening → Net OpenEnd OpenMsg
  | .idle => .ends ⟨none, none⟩ ⟨none, none⟩ [] []
  | .asked s p => .seenFrom s ⟨some (p, false), some (.request p)⟩ ⟨none, none⟩ [] []
  | .bothAsked s p q =>
    .seenFrom s ⟨some (p, false), some (.request p)⟩ ⟨some (q, false), some (.request q)⟩ [] []
  | .sent s p => .seenFrom s ⟨some (p, false), none⟩ ⟨none, none⟩ [] [.request p]
  | .sentToAsker s p q =>
    .seenFrom s ⟨some (p, false), none⟩ ⟨some (q, false), some (.request q)⟩ [] [.request p]
  | .answered s p => .seenFrom s ⟨some (p, false), none⟩ ⟨some (p, true), some .response⟩ [] []
  | .answering s p => .seenFrom s ⟨some (p, false), none⟩ ⟨some (p, true), none⟩ [.response] []
  | .crossed s p q =>
    .seenFrom s ⟨some (p, false), none⟩ ⟨some (q, false), none⟩ [.request q] [.request p]
  | .heard s p q =>
    .seenFrom s ⟨some (p, false), none⟩ ⟨some (p, true), some .response⟩ [.request q] []
  | .followed s p q =>
    .seenFrom s ⟨some (p, false), none⟩ ⟨some (p, true), none⟩ [.request q, .response] []
  | .bothHeard s p q =>
    .seenFrom s ⟨some (q, true), some .response⟩ ⟨some (p, true), some .response⟩ [] []
  | .halfAnswered s p q =>
    .seenFrom s ⟨some (q, true), some .response⟩ ⟨some (p, true), none⟩ [.response] []
  | .bothAnswering s p q =>
    .seenFrom s ⟨some (q, true), none⟩ ⟨some (p, true), none⟩ [.response] [.response]
  | .lastQueued s p q => .seenFrom s ⟨some (q, true), some .response⟩ ⟨some (p, true), none⟩ [] []
  | .lastSent s p q => .seenFrom s ⟨some (q, true), none⟩ ⟨some (p, true), none⟩ [] [.response]
  | .opened s p q => .seenFrom s ⟨some (p, true), none⟩ ⟨some (q, true), none⟩ [] []

/-- The moves that change something. -/
def next : Opening → Move UInt16 → Opening
  | .idle, .call r k => .asked r k
  | .asked s p, .call r k => if r = s then .asked s p else .bothAsked s p k
  | .asked s p, .send r => if r = s then .sent s p else .asked s p
  | .bothAsked s p q, .send r => if r = s then .sentToAsker s p q else .sentToAsker s.other q p
  | .sent s p, .call r k => if r = s then .sent s p else .sentToAsker s p k
  | .sent s p, .deliver r => if r = s then .sent s p else .answered s p
  | .sentToAsker s p q, .send r => if r = s then .sentToAsker s p q else .crossed s p q
  -- the other's own request is overwritten
  | .sentToAsker s p q, .deliver r => if r = s then .sentToAsker s p q else .answered s p
  | .answered s p, .send r => if r = s then .answered s p else .answering s p
  | .answering s p, .deliver r => if r = s then .opened s p p else .answering s p
  | .crossed s p q, .deliver r => if r = s then .heard s.other q p else .heard s p q
  | .heard s p q, .send r => if r = s then .heard s p q else .followed s p q
  | .heard s p q, .deliver r => if r = s then .bothHeard s p q else .heard s p q
  | .followed s p q, .deliver r => if r = s then .halfAnswered s p q else .followed s p q
  | .bothHeard s p q, .send r => if r = s then .halfAnswered s.other q p else .halfAnswered s p q
  | .halfAnswered s p q, .send r => if r = s then .bothAnswering s p q else .halfAnswered s p q
  | .halfAnswered s p q, .deliver r => if r = s then .lastQueued s p q else .halfAnswered s p q
  | .bothAnswering s p q, .deliver r => if r = s then .lastSent s p q else .lastSent s.other q p
  | .lastQueued s p q, .send r => if r = s then .lastSent s p q else .lastQueued s p q
  | .lastSent s p q, .deliver r => if r = s then .lastSent s p q else .opened s q p
  | k, _ => k

/-- **One move.** -/
theorem step (k : Opening) (m : Move UInt16) : openingParty.step k.net m = (k.next m).net := by
  cases m with
  | call r psm =>
    cases r <;> cases k with
    | idle => exact Net.ext_sides (fun r => by cases r <;> rfl) (fun r => by cases r <;> rfl)
    | _ s =>
      cases s <;> exact Net.ext_sides (fun r => by cases r <;> rfl) (fun r => by cases r <;> rfl)
  | send r =>
    cases r <;> cases k with
    | idle => exact Net.ext_sides (fun r => by cases r <;> rfl) (fun r => by cases r <;> rfl)
    | _ s =>
      cases s <;> exact Net.ext_sides (fun r => by cases r <;> rfl) (fun r => by cases r <;> rfl)
  | deliver r =>
    cases r <;> cases k with
    | idle => exact Net.ext_sides (fun r => by cases r <;> rfl) (fun r => by cases r <;> rfl)
    | _ s =>
      cases s <;> exact Net.ext_sides (fun r => by cases r <;> rfl) (fun r => by cases r <;> rfl)

/-- The requests that crossed, if any did, were for one PSM. -/
def same : Opening → Prop
  | .crossed _ p q => p = q
  | .heard _ p q => p = q
  | .followed _ p q => p = q
  | .bothHeard _ p q => p = q
  | .halfAnswered _ p q => p = q
  | .bothAnswering _ p q => p = q
  | .lastQueued _ p q => p = q
  | .lastSent _ p q => p = q
  | .opened _ p q => p = q
  | _ => True

end Opening

/-- No request is sent while a request for another PSM is on its way to its sender. -/
def noCrossing (v : Net OpenEnd OpenMsg) : Move UInt16 → Prop
  | .send s => ∀ p q, (v.state s).slot = some (.request p) → .request q ∈ v.flight s → p = q
  | _ => True

/-- The ends agree: no channel, or one PSM and both ids known. -/
def OpenEnd.Agree (a b : OpenEnd) : Prop :=
  (a.channel = none ∧ b.channel = none) ∨
    ∃ p, a.channel = some (p, true) ∧ b.channel = some (p, true)

namespace Opening

/-- A request crosses nothing when nothing is on its way to its sender. -/
theorem same_of_flight {v : Net OpenEnd OpenMsg} {r : Side} {before after : Prop}
    (h : v.flight r = []) (hsame : after ↔ before) : after ↔ noCrossing v (.send r) ∧ before := by
  refine hsame.trans (and_iff_right ?_).symm
  intro p q _ hmem
  rw [h] at hmem
  cases hmem

/-- Nor does a response, or nothing. -/
theorem same_of_slot {v : Net OpenEnd OpenMsg} {r : Side} {before after : Prop}
    (h : ∀ p, (v.state r).slot ≠ some (.request p)) (hsame : after ↔ before) :
    after ↔ noCrossing v (.send r) ∧ before :=
  hsame.trans (and_iff_right (fun p _ hslot _ => absurd hslot (h p))).symm

/-- A request does cross one that is on its way to its sender. -/
theorem same_of_crossing {v : Net OpenEnd OpenMsg} {r : Side} {p q : UInt16}
    (hslot : (v.state r).slot = some (.request q)) (hflight : v.flight r = [.request p]) :
    p = q ↔ noCrossing v (.send r) ∧ True := by
  constructor
  · rintro rfl
    refine ⟨?_, trivial⟩
    intro p' q' hp' hq'
    rw [hflight] at hq'
    cases hslot.symm.trans hp'
    cases List.mem_singleton.mp hq'
    rfl
  · rintro ⟨hno, _⟩
    exact (hno q p hslot (by rw [hflight]; exact List.mem_singleton.mpr rfl)).symm

/-- **Only sending a request across another one makes a difference.** -/
theorem next_same (k : Opening) (m : Move UInt16) :
    (k.next m).same ↔ noCrossing k.net m ∧ k.same := by
  cases m with
  | call r psm =>
    refine Iff.trans ?_ (and_iff_right trivial).symm
    cases r <;> cases k with
    | idle => exact Iff.rfl
    | _ s => cases s <;> exact Iff.rfl
  | deliver r =>
    refine Iff.trans ?_ (and_iff_right trivial).symm
    cases r <;> cases k with
    | idle => exact Iff.rfl
    | _ s => cases s <;> first | exact Iff.rfl | exact eq_comm | exact iff_of_true rfl trivial
  | send r =>
    cases r <;> cases k with
    | idle => exact same_of_flight rfl Iff.rfl
    | _ s =>
      cases s <;> first
        | exact same_of_flight rfl Iff.rfl
        | exact same_of_flight rfl eq_comm
        | exact same_of_slot (fun _ h => by cases h) Iff.rfl
        | exact same_of_crossing rfl rfl

/-- **A run**, and whether requests for different PSMs crossed in it. -/
theorem run (k : Opening) (moves : List (Move UInt16)) :
    openingParty.run moves k.net = (moves.foldl next k).net ∧
      (openingParty.Along noCrossing moves k.net ∧ k.same ↔ (moves.foldl next k).same) := by
  induction moves generalizing k with
  | nil => exact ⟨rfl, and_iff_right trivial⟩
  | cons m ms ih =>
    obtain ⟨hrun, hsame⟩ := ih (k.next m)
    rw [← k.step m] at hrun hsame
    refine ⟨hrun, ?_⟩
    rw [List.foldl_cons, ← hsame, next_same]
    show (noCrossing k.net m ∧ openingParty.Along noCrossing ms (openingParty.step k.net m)) ∧ k.same ↔
      _
    tauto

/-- **Where a run ends**: without a channel, or with one at each end. -/
theorem agree_iff (k : Opening) (h : openingParty.Quiet k.net) :
    (k.net.state .left).Agree (k.net.state .right) ↔ k.same := by
  cases k with
  | idle => exact iff_of_true (.inl ⟨rfl, rfl⟩) trivial
  | opened s p q =>
    have hagree : ∀ p q : UInt16,
        OpenEnd.Agree ⟨some (p, true), none⟩ ⟨some (q, true), none⟩ ↔ p = q := by
      intro p q
      constructor
      · rintro (⟨hnone, _⟩ | ⟨_, hp, hq⟩)
        · cases hnone
        · cases hp
          cases hq
          rfl
      · rintro rfl
        exact .inr ⟨p, rfl, rfl⟩
    cases s with
    | left => exact hagree p q
    | right => exact (hagree q p).trans eq_comm
  | _ s =>
    -- something is queued or on its way
    exfalso
    cases s <;> first
      | cases (h .left).1; done
      | cases (h .left).2; done
      | cases (h .right).1; done
      | cases (h .right).2

end Opening

/-! ## The two connections -/

/-- A connection as a party: `l2cap_connect` is its call, a queued signaling message what it sends. -/
def signalingParty : Party UInt16 Conn (List UInt8) where
  call psm c := c.l2capConnect psm
  take c := (c.queuedOn l2capSignalingCid).map (fun m => (m, { c with txPending := false }))
  receive m c := stateAfter (c.handleLeSignaling m) id c

/-- The messages, as they are sent. -/
def OpenMsg.encode : OpenMsg → List UInt8
  | .request psm =>
    [leCreditBasedConnectionReq, 0] ++ le16 psm ++ le16 cocLocalCid ++ le16 cocMtu ++ le16 cocMps ++
      le16 cocCredits
  | .response =>
    [leCreditBasedConnectionRsp, 0] ++ le16 cocLocalCid ++ le16 cocMtu ++ le16 cocMps ++
      le16 cocCredits ++ le16 0

theorem OpenMsg.encode_length (m : OpenMsg) : m.encode.length = 12 := by
  cases m <;> rfl

/-- The connection is at this point of the exchange. -/
structure AtOpening (c : Conn) (a : OpenEnd) : Prop where
  channel : c.coc.map (fun coc => (coc.psm, coc.localCid, coc.peerCid)) =
    a.channel.map (fun ch => (ch.1, cocLocalCid, if ch.2 then cocLocalCid else 0))
  slot : c.queuedOn l2capSignalingCid = a.slot.map OpenMsg.encode

/-- What the exchange knows of a channel record. -/
theorem AtOpening.of_coc {c : Conn} {a : OpenEnd} {coc : Coc} (h : AtOpening c a)
    (hcoc : c.coc = some coc) :
    coc.localCid = cocLocalCid ∧
      ∃ known, a.channel = some (coc.psm, known) ∧ coc.peerCid = if known then cocLocalCid else 0 := by
  have hchannel := h.channel
  rw [hcoc] at hchannel
  obtain ⟨⟨psm, known⟩, hch, heq⟩ := Option.map_eq_some_iff.mp hchannel.symm
  obtain ⟨hpsm, hids⟩ := Prod.mk.inj heq
  obtain ⟨hlocal, hpeer⟩ := Prod.mk.inj hids
  exact ⟨hlocal.symm, known, by rw [hch, ← hpsm], hpeer.symm⟩

/-- And the other way round. -/
theorem AtOpening.of_channel {c : Conn} {a : OpenEnd} {psm : UInt16} {known : Bool}
    (h : AtOpening c a) (hch : a.channel = some (psm, known)) :
    ∃ coc, c.coc = some coc ∧ coc.psm = psm ∧ coc.localCid = cocLocalCid ∧
      coc.peerCid = if known then cocLocalCid else 0 := by
  have hchannel := h.channel
  rw [hch] at hchannel
  obtain ⟨coc, hcoc, heq⟩ := Option.map_eq_some_iff.mp hchannel
  obtain ⟨hpsm, hids⟩ := Prod.mk.inj heq
  obtain ⟨hlocal, hpeer⟩ := Prod.mk.inj hids
  exact ⟨coc, hcoc, hpsm, hlocal, hpeer⟩

theorem AtOpening.none_iff {c : Conn} {a : OpenEnd} (h : AtOpening c a) :
    c.coc = none ↔ a.channel = none := by
  rw [← Option.map_eq_none_iff, h.channel, Option.map_eq_none_iff]

theorem AtOpening.isSome_eq {c : Conn} {a : OpenEnd} (h : AtOpening c a) :
    c.coc.isSome = a.channel.isSome := by
  have hsome := congrArg Option.isSome h.channel
  rwa [Option.isSome_map, Option.isSome_map] at hsome

/-- `queue_signaling` puts a message into the slot. -/
theorem Sending.queueSignaling (c : Conn) {m : List UInt8} (h : m.length ≤ 247) :
    Sending (c.queueSignaling m) m l2capSignalingCid 0 := by
  have hmin : min m.length (l2capPayloadMax - 4) = m.length := Nat.min_eq_left h
  exact ⟨hmin, c.take_fillSlot m (hmin.trans_le (h.trans (by decide))) hmin, rfl, rfl, rfl⟩

/-- A request is taken whatever the channel record says, and answered. -/
theorem handleLeSignaling_request (c : Conn) (psm : UInt16) :
    c.handleLeSignaling (OpenMsg.request psm).encode =
      .ok (Conn.queueSignaling { c with coc := some { Coc.new psm with
        peerCid := cocLocalCid, mtu := cocMtu, mps := cocMps, credits := cocCredits } }
        OpenMsg.response.encode) := by
  have hread : c.handleLeSignaling (OpenMsg.request psm).encode =
      .ok (Conn.queueSignaling { c with coc := some {
        Coc.new (ofLe16 (UInt8.ofNat (psm.toNat % 256)) (UInt8.ofNat (psm.toNat / 256 % 256))) with
          peerCid := cocLocalCid, mtu := cocMtu, mps := cocMps, credits := cocCredits } }
        OpenMsg.response.encode) := rfl
  rw [hread, ofLe16_le16]

/-- A response completes the channel record. -/
theorem handleLeSignaling_response {c : Conn} {coc : Coc} (hcoc : c.coc = some coc) :
    c.handleLeSignaling OpenMsg.response.encode =
      .ok { c with coc := some { coc with
        peerCid := cocLocalCid, mtu := min coc.mtu cocMtu, mps := min coc.mps cocMps
        peerCredits := cocCredits } } := by
  unfold Conn.handleLeSignaling
  rw [hcoc]
  rfl

/-- **`l2cap_connect` and `handle_le_signaling` are the moves of the exchange.** -/
theorem signaling_simulates : Simulates signalingParty openingParty AtOpening OpenMsg.encode where
  call {c a} psm h := by
    show AtOpening (c.l2capConnect psm)
      (if a.channel.isSome then a else ⟨some (psm, false), some (.request psm)⟩)
    unfold Conn.l2capConnect
    rw [h.isSome_eq]
    split
    · exact h
    · have hlen : (OpenMsg.request psm).encode.length ≤ 247 := by
        rw [OpenMsg.encode_length]
        omega
      exact ⟨rfl, (Sending.queueSignaling _ hlen).queuedOn⟩
  idle {c a} h hnone := by
    have hslot : a.slot = none := Option.map_eq_none_iff.mp hnone
    show (c.queuedOn l2capSignalingCid).map _ = none
    rw [h.slot, hslot]
    rfl
  send {c a m a'} h hsome := by
    obtain ⟨m₀, hslot, hm⟩ := Option.map_eq_some_iff.mp hsome
    cases hm
    refine ⟨{ c with txPending := false }, ?_, h.channel, c.queuedOn_sent _⟩
    show (c.queuedOn l2capSignalingCid).map _ = _
    rw [h.slot, hslot]
    rfl
  receive {c a} m h := by
    cases m with
    | request psm =>
      show AtOpening (stateAfter (c.handleLeSignaling (OpenMsg.request psm).encode) id c) _
      rw [handleLeSignaling_request]
      exact ⟨rfl, (Sending.queueSignaling _ (by decide)).queuedOn⟩
    | response =>
      show AtOpening (stateAfter (c.handleLeSignaling OpenMsg.response.encode) id c)
        { a with channel := a.channel.map (fun ch => (ch.1, true)) }
      cases hcoc : c.coc with
      | none =>
        have hsame : c.handleLeSignaling OpenMsg.response.encode = .ok c := by
          unfold Conn.handleLeSignaling
          rw [hcoc]
          rfl
        rw [hsame, h.none_iff.mp hcoc]
        refine ⟨?_, h.slot⟩
        show c.coc.map _ = none
        rw [hcoc]
        rfl
      | some coc =>
        obtain ⟨hlocal, known, hch, _⟩ := h.of_coc hcoc
        rw [handleLeSignaling_response hcoc, hch]
        refine ⟨?_, h.slot⟩
        show some (coc.psm, coc.localCid, cocLocalCid) = some (coc.psm, cocLocalCid, cocLocalCid)
        rw [hlocal]

/-! ## Agreement -/

/-- The ends of the channel agree: there is none, or both are for one PSM and each knows the id of the
    other. -/
def CocAgree (c d : Conn) : Prop :=
  (c.coc = none ∧ d.coc = none) ∨
    ∃ a b, c.coc = some a ∧ d.coc = some b ∧ a.psm = b.psm ∧ a.peerCid = b.localCid ∧
      b.peerCid = a.localCid

theorem AtOpening.agree_iff {c d : Conn} {a b : OpenEnd} (hc : AtOpening c a) (hd : AtOpening d b) :
    CocAgree c d ↔ a.Agree b := by
  have hknown : ∀ known : Bool, cocLocalCid = (if known then cocLocalCid else 0) → known = true := by
    decide
  constructor
  · rintro (⟨hcn, hdn⟩ | ⟨x, y, hx, hy, hpsm, hxy, hyx⟩)
    · exact .inl ⟨hc.none_iff.mp hcn, hd.none_iff.mp hdn⟩
    · obtain ⟨hxlocal, xknown, hxch, hxpeer⟩ := hc.of_coc hx
      obtain ⟨hylocal, yknown, hych, hypeer⟩ := hd.of_coc hy
      have hxk := hknown xknown (by rw [← hxpeer, hxy, hylocal])
      have hyk := hknown yknown (by rw [← hypeer, hyx, hxlocal])
      rw [hxk] at hxch
      rw [hyk, ← hpsm] at hych
      exact .inr ⟨x.psm, hxch, hych⟩
  · rintro (⟨han, hbn⟩ | ⟨p, ha, hb⟩)
    · exact .inl ⟨hc.none_iff.mpr han, hd.none_iff.mpr hbn⟩
    · obtain ⟨x, hx, hxpsm, hxlocal, hxpeer⟩ := hc.of_channel ha
      obtain ⟨y, hy, hypsm, hylocal, hypeer⟩ := hd.of_channel hb
      exact .inr ⟨x, y, hx, hy, hxpsm.trans hypsm.symm, hxpeer.trans hylocal.symm,
        hypeer.trans hxlocal.symm⟩

/-- The PSM a signaling message asks for, if it is a request. -/
def requestedPsm (m : List UInt8) : Option UInt16 :=
  match signalOf m with
  | .request psm _ _ _ _ => some psm
  | _ => none

/-- No request is sent while a request for another PSM is on its way to its sender. -/
def NoCrossing (w : Net Conn (List UInt8)) : Move UInt16 → Prop
  | .send s => ∀ m ∈ (w.state s).queuedOn l2capSignalingCid, ∀ m' ∈ w.flight s, ∀ p q,
    requestedPsm m = some p → requestedPsm m' = some q → p = q
  | _ => True

theorem requestedPsm_request (psm : UInt16) :
    requestedPsm (OpenMsg.request psm).encode = some psm := by
  have hread : requestedPsm (OpenMsg.request psm).encode = some
      (ofLe16 (UInt8.ofNat (psm.toNat % 256)) (UInt8.ofNat (psm.toNat / 256 % 256))) := rfl
  rw [hread, ofLe16_le16]

theorem request_of_requestedPsm {m : OpenMsg} {p : UInt16} (h : requestedPsm m.encode = some p) :
    m = .request p := by
  cases m with
  | request psm =>
    rw [requestedPsm_request] at h
    cases h
    rfl
  | response => cases h

/-- The two conditions on a move are one. -/
theorem noCrossing_iff {w : Net Conn (List UInt8)} {v : Net OpenEnd OpenMsg} (m : Move UInt16)
    (h : Related AtOpening OpenMsg.encode w v) : NoCrossing w m ↔ noCrossing v m := by
  cases m with
  | call s psm => exact Iff.rfl
  | deliver s => exact Iff.rfl
  | send s =>
    show (∀ m ∈ (w.state s).queuedOn l2capSignalingCid, ∀ m' ∈ w.flight s, ∀ p q,
      requestedPsm m = some p → requestedPsm m' = some q → p = q) ↔ _
    rw [(h.state s).slot, h.flight s]
    constructor
    · intro hno p q hslot hmem
      refine hno (OpenMsg.request p).encode ?_ (OpenMsg.request q).encode
        (List.mem_map_of_mem hmem) p q (requestedPsm_request p) (requestedPsm_request q)
      rw [hslot]
      rfl
    · intro hno m hm m' hm' p q hp hq
      obtain ⟨msg, hslot, rfl⟩ := Option.map_eq_some_iff.mp hm
      obtain ⟨msg', hmem, rfl⟩ := List.mem_map.mp hm'
      rw [request_of_requestedPsm hp] at hslot
      rw [request_of_requestedPsm hq] at hmem
      exact hno p q hslot hmem

/-- Two connections without a channel, and nothing about one queued. -/
structure FreshEnds (l r : Conn) : Prop where
  left : l.coc = none ∧ l.queuedOn l2capSignalingCid = none
  right : r.coc = none ∧ r.queuedOn l2capSignalingCid = none

theorem FreshEnds.related {l r : Conn} (h : FreshEnds l r) :
    Related AtOpening OpenMsg.encode (.ends l r [] []) Opening.idle.net where
  state
    | .left => ⟨by show l.coc.map _ = none; rw [h.left.1]; rfl, h.left.2⟩
    | .right => ⟨by show r.coc.map _ = none; rw [h.right.1]; rfl, h.right.2⟩
  flight
    | .left => rfl
    | .right => rfl

/-- **Both ends agree on the channel iff no requests for different PSMs crossed.**  For every
    interleaving of `l2cap_connect` calls, sending and delivering between two connections without a
    channel, after which nothing is queued or on its way: there is no channel, or there is one with
    one PSM at both ends and each end knows the id of the other, iff no request was sent while a
    request for another PSM was on its way to its sender. -/
theorem coc_agree_iff (l r : Conn) (moves : List (Move UInt16)) (h : FreshEnds l r)
    (hquiet : signalingParty.Quiet (signalingParty.run moves (.ends l r [] []))) :
    CocAgree ((signalingParty.run moves (.ends l r [] [])).state .left)
        ((signalingParty.run moves (.ends l r [] [])).state .right) ↔
      signalingParty.Along NoCrossing moves (.ends l r [] []) := by
  have hrel := signaling_simulates.run h.related moves
  obtain ⟨hrun, hsame⟩ := Opening.idle.run moves
  rw [hrun] at hrel
  have hq := (signaling_simulates.quiet_iff hrel).mp hquiet
  calc CocAgree _ _
      ↔ OpenEnd.Agree _ _ := (hrel.state .left).agree_iff (hrel.state .right)
    _ ↔ (moves.foldl Opening.next .idle).same := Opening.agree_iff _ hq
    _ ↔ openingParty.Along noCrossing moves Opening.idle.net ∧ Opening.idle.same := hsame.symm
    _ ↔ openingParty.Along noCrossing moves Opening.idle.net := and_iff_left trivial
    _ ↔ signalingParty.Along NoCrossing moves (.ends l r [] []) :=
      (signaling_simulates.along_iff noCrossing_iff h.related moves).symm

theorem FreshEnds.sample : FreshEnds (Conn.sample .master) (Conn.sample .slave) :=
  ⟨⟨rfl, rfl⟩, ⟨rfl, rfl⟩⟩

/-- The left one asks and is answered. -/
def oneRequest : List (Move UInt16) :=
  [.call .left 0x80, .send .left, .deliver .right, .send .right, .deliver .left]

/-- Then both have the channel it asked for. -/
theorem coc_agree_one_request :
    CocAgree
      ((signalingParty.run oneRequest (.ends (Conn.sample .master) (Conn.sample .slave) [] [])).state
        .left)
      ((signalingParty.run oneRequest (.ends (Conn.sample .master) (Conn.sample .slave) [] [])).state
        .right) := by
  refine (coc_agree_iff _ _ oneRequest FreshEnds.sample ?_).mpr ?_
  · intro side
    cases side with
    | left => exact ⟨rfl, rfl⟩
    | right => exact ⟨rfl, rfl⟩
  · refine ⟨trivial, ?_, trivial, ?_, trivial, trivial⟩
    · intro m _ m' hm'
      cases hm'
    · intro m _ m' hm'
      cases hm'

/-- Both ask, for different PSMs, and both requests are sent before one arrives. -/
def crossingRequests : List (Move UInt16) :=
  [.call .left 0x80, .call .right 0x81, .send .left, .send .right, .deliver .left, .deliver .right,
    .send .left, .send .right, .deliver .left, .deliver .right]

/-- Each end has the PSM of the other's request. -/
theorem crossing_requests_disagree :
    FreshEnds (Conn.sample .master) (Conn.sample .slave) ∧
      signalingParty.Quiet (signalingParty.run crossingRequests
        (.ends (Conn.sample .master) (Conn.sample .slave) [] [])) ∧
      ¬ CocAgree
        ((signalingParty.run crossingRequests
          (.ends (Conn.sample .master) (Conn.sample .slave) [] [])).state .left)
        ((signalingParty.run crossingRequests
          (.ends (Conn.sample .master) (Conn.sample .slave) [] [])).state .right) := by
  have hleft : ((signalingParty.run crossingRequests
      (.ends (Conn.sample .master) (Conn.sample .slave) [] [])).state .left).coc.map Coc.psm =
        some 0x81 := by decide +kernel
  have hright : ((signalingParty.run crossingRequests
      (.ends (Conn.sample .master) (Conn.sample .slave) [] [])).state .right).coc.map Coc.psm =
        some 0x80 := by decide +kernel
  refine ⟨FreshEnds.sample, ?_, ?_⟩
  · intro side
    cases side with
    | left => exact ⟨rfl, rfl⟩
    | right => exact ⟨rfl, rfl⟩
  · rintro (⟨hnone, _⟩ | ⟨a, b, ha, hb, hpsm, _⟩)
    · rw [hnone] at hleft
      cases hleft
    · rw [ha] at hleft
      rw [hb] at hright
      have hleft' : a.psm = 0x81 := Option.some.inj hleft
      have hright' : b.psm = 0x80 := Option.some.inj hright
      rw [hleft', hright'] at hpsm
      cases hpsm

end NrfBle
