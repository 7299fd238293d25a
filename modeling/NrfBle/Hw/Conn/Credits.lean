/-
  Credits of a channel: who grants them and where they go.

  Three layers.  A signaling message is a `CocSignal`, and what it does to the channel record is
  `Coc.signaled`; `handleLeSignaling_coc` says that `handle_le_signaling` does just that.  Around it,
  `CocStep` is everything that can happen to a connection, seen from its channel record: a signaling
  message, `l2cap_connect`, `l2cap_send`, or something that leaves the credits alone.  Every step of the
  connection is made of such steps (`Step.cocReach`), and so is every run (`runOps_credits`).  And
  beside the connection runs a `Ledger`, the bookkeeping a peer would do: what it granted when the
  channel was opened, plus what it granted later, minus the frames it got.

  The ledger and the record part ways in one place.  A request brings the peer's credits into
  `credits`, the counter `l2cap_send` draws on; a response brings them into `peer_credits`, which
  nothing reads.  An initiator has no credits until the peer sends some more.
-/
import Mathlib.Tactic
import NrfBle.Hw.Conn.Safety

namespace NrfBle

open Checked

/-! ## Signaling, as the channel record sees it -/

/-- What a signaling message is to the channel. -/
inductive CocSignal
  /-- `LE_CREDIT_BASED_CONNECTION_REQ`. -/
  | request (psm peerCid mtu mps credits : UInt16)
  /-- `LE_CREDIT_BASED_CONNECTION_RSP`. -/
  | response (peerCid mtu mps credits result : UInt16)
  /-- `LE_FLOW_CONTROL_CREDIT`. -/
  | credit (cid credits : UInt16)
  /-- `LE_CREDIT_BASED_CONNECTION_END`. -/
  | finish (cid : UInt16)
  /-- Anything else, or too short. -/
  | other
  deriving DecidableEq, Repr

/-- The 16-bit field at `i`. -/
def fieldAt (body : List UInt8) (i : Nat) : UInt16 := ofLe16 (body.getD i 0) (body.getD (i + 1) 0)

theorem getD_of_idx {xs : List UInt8} {i : Nat} {x : UInt8} (h : idx xs i = .ok x) :
    xs.getD i 0 = x := by
  unfold idx at h
  rw [List.getD_eq_getElem?_getD]
  split at h
  · rename_i y hy
    cases h
    rw [hy]
    rfl
  · cases h

theorem rd16_eq_fieldAt {body : List UInt8} {i : Nat} {x : UInt16} (h : rd16 body i = .ok x) :
    x = fieldAt body i := by
  obtain ⟨lo, hlo, h⟩ := bind_eq_ok.mp h
  obtain ⟨hi, hhi, h⟩ := bind_eq_ok.mp h
  cases h
  unfold fieldAt
  rw [getD_of_idx hlo, getD_of_idx hhi]

/-- Read a signaling message. -/
def signalOf (body : List UInt8) : CocSignal :=
  if body.length < 4 then .other
  else if body.getD 0 0 = leCreditBasedConnectionReq then
    if body.length < 12 then .other
    else .request (fieldAt body 2) (fieldAt body 4) (fieldAt body 6) (fieldAt body 8) (fieldAt body 10)
  else if body.getD 0 0 = leCreditBasedConnectionRsp then
    .response (fieldAt body 2) (fieldAt body 4) (fieldAt body 6) (fieldAt body 8) (fieldAt body 10)
  else if body.getD 0 0 = leFlowControlCredit then
    if body.length ≥ 6 then .credit (fieldAt body 2) (fieldAt body 4) else .other
  else if body.getD 0 0 = leCreditBasedConnectionEnd then .finish (fieldAt body 2)
  else .other

/-- What a message does to the channel record. -/
def Coc.signaled : CocSignal → Option Coc → Option Coc
  | .request psm peerCid mtu mps credits, _ =>
    some { Coc.new psm with
      peerCid := peerCid, mtu := min mtu cocMtu, mps := min mps cocMps, credits := credits }
  | .response peerCid mtu mps credits result, some coc =>
    if result = 0 then
      some { coc with
        peerCid := peerCid, mtu := min coc.mtu mtu, mps := min coc.mps mps, peerCredits := credits }
    else none
  | .credit cid credits, some coc =>
    some (if coc.hasCid cid then { coc with credits := satAdd16 coc.credits credits } else coc)
  | .finish cid, some coc => if coc.hasCid cid then none else some coc
  | .response .., none => none
  | .credit .., none => none
  | .finish _, none => none
  | .other, coc => coc

namespace Conn

theorem cocRequest_coc {c c' : Conn} {body : List UInt8} (h : c.cocRequest body = .ok c') :
    c'.coc = Coc.signaled
      (if body.length < 12 then .other else .request (fieldAt body 2) (fieldAt body 4)
        (fieldAt body 6) (fieldAt body 8) (fieldAt body 10)) c.coc := by
  unfold cocRequest at h
  split at h
  · rename_i hlen
    cases h
    rw [if_pos hlen]
    rfl
  · rename_i hlen
    obtain ⟨psm, hpsm, h⟩ := bind_eq_ok.mp h
    obtain ⟨peerCid, hcid, h⟩ := bind_eq_ok.mp h
    obtain ⟨mtu, hmtu, h⟩ := bind_eq_ok.mp h
    obtain ⟨mps, hmps, h⟩ := bind_eq_ok.mp h
    obtain ⟨credits, hcredits, h⟩ := bind_eq_ok.mp h
    cases h
    rw [if_neg hlen, ← rd16_eq_fieldAt hpsm, ← rd16_eq_fieldAt hcid, ← rd16_eq_fieldAt hmtu,
      ← rd16_eq_fieldAt hmps, ← rd16_eq_fieldAt hcredits]
    rfl

theorem cocResponse_coc {c c' : Conn} {coc : Coc} {body : List UInt8}
    (h : c.cocResponse coc body = .ok c') :
    c'.coc = Coc.signaled (.response (fieldAt body 2) (fieldAt body 4) (fieldAt body 6)
      (fieldAt body 8) (fieldAt body 10)) (some coc) := by
  obtain ⟨peerCid, hcid, h⟩ := bind_eq_ok.mp h
  obtain ⟨mtu, hmtu, h⟩ := bind_eq_ok.mp h
  obtain ⟨mps, hmps, h⟩ := bind_eq_ok.mp h
  obtain ⟨credits, hcredits, h⟩ := bind_eq_ok.mp h
  obtain ⟨result, hresult, h⟩ := bind_eq_ok.mp h
  rw [← rd16_eq_fieldAt hcid, ← rd16_eq_fieldAt hmtu, ← rd16_eq_fieldAt hmps,
    ← rd16_eq_fieldAt hcredits, ← rd16_eq_fieldAt hresult]
  unfold Coc.signaled
  dsimp only
  split at h
  · rename_i hzero
    cases h
    rw [if_pos hzero]
  · rename_i hzero
    cases h
    rw [if_neg hzero]

theorem cocCredit_coc {c c' : Conn} {coc : Coc} {body : List UInt8} (hcoc : c.coc = some coc)
    (h : c.cocCredit coc body = .ok c') :
    c'.coc = Coc.signaled
      (if body.length ≥ 6 then .credit (fieldAt body 2) (fieldAt body 4) else .other) (some coc) := by
  unfold cocCredit at h
  split at h
  · rename_i hlen
    obtain ⟨cid, hcid, h⟩ := bind_eq_ok.mp h
    obtain ⟨credits, hcredits, h⟩ := bind_eq_ok.mp h
    rw [if_pos hlen, ← rd16_eq_fieldAt hcid, ← rd16_eq_fieldAt hcredits]
    unfold Coc.signaled
    dsimp only
    split at h
    · rename_i hmine
      cases h
      rw [if_pos hmine]
    · rename_i hmine
      cases h
      rw [if_neg hmine, hcoc]
  · rename_i hlen
    cases h
    rw [if_neg hlen, hcoc]
    rfl

theorem cocEnd_coc {c c' : Conn} {coc : Coc} {body : List UInt8} (hcoc : c.coc = some coc)
    (h : c.cocEnd coc body = .ok c') :
    c'.coc = Coc.signaled (.finish (fieldAt body 2)) (some coc) := by
  obtain ⟨cid, hcid, h⟩ := bind_eq_ok.mp h
  rw [← rd16_eq_fieldAt hcid]
  unfold Coc.signaled
  dsimp only
  split at h
  · rename_i hmine
    cases h
    rw [if_pos hmine]
  · rename_i hmine
    cases h
    rw [if_neg hmine, hcoc]

/-- **`handle_le_signaling` does to the channel record what the message says.** -/
theorem handleLeSignaling_coc {c c' : Conn} {body : List UInt8}
    (h : c.handleLeSignaling body = .ok c') :
    c'.coc = Coc.signaled (signalOf body) c.coc := by
  unfold handleLeSignaling at h
  unfold signalOf
  by_cases hlen : body.length < 4
  · rw [if_pos hlen] at h ⊢
    cases h
    rfl
  rw [if_neg hlen] at h ⊢
  obtain ⟨code, hcode, h⟩ := bind_eq_ok.mp h
  rw [getD_of_idx hcode]
  split at h
  · rw [if_pos (by decide)]
    exact cocRequest_coc h
  · rename_i coc hcoc
    rw [if_neg (by decide), if_pos (by decide), hcoc]
    exact cocResponse_coc h
  · rename_i coc hcoc
    rw [if_neg (by decide), if_neg (by decide), if_pos (by decide), hcoc]
    exact cocCredit_coc hcoc h
  · rename_i coc hcoc
    rw [if_neg (by decide), if_neg (by decide), if_neg (by decide), if_pos (by decide), hcoc]
    exact cocEnd_coc hcoc h
  · -- an unknown code, or a message for a channel there is not
    rename_i code _ _ hreq hrsp hcredit hend
    cases h
    have hreq' : ¬ code = leCreditBasedConnectionReq := hreq
    rw [if_neg hreq']
    cases hcoc : c.coc with
    | none => split <;> (try split) <;> (try split) <;> rfl
    | some coc =>
      have hrsp' : ¬ code = leCreditBasedConnectionRsp := fun he => hrsp coc he hcoc
      have hcredit' : ¬ code = leFlowControlCredit := fun he => hcredit coc he hcoc
      have hend' : ¬ code = leCreditBasedConnectionEnd := fun he => hend coc he hcoc
      rw [if_neg hrsp', if_neg hcredit', if_neg hend']
      rfl

end Conn

/-! ## Sending -/

/-- One credit less. -/
theorem toNat_pred {n : UInt16} (h : n ≠ 0) : 0 < n.toNat ∧ (n - 1).toNat = n.toNat - 1 := by
  have hpos : 0 < n.toNat := by
    rcases Nat.eq_zero_or_pos n.toNat with h0 | hpos
    · exact absurd (UInt16.toNat.inj h0) h
    · exact hpos
  exact ⟨hpos, UInt16.toNat_sub_of_le n 1 (UInt16.le_iff_toNat_le.mpr hpos)⟩

namespace Conn

/-- Data of a length `l2cap_send` takes. -/
def Fits (c : Conn) (data : List UInt8) : Prop :=
  ∀ coc, c.coc = some coc → data.length ≤ coc.mtu.toNat ∧ data.length + 2 ≤ l2capPayloadMax

/-- **When `l2cap_send` accepts**, and what is queued then. -/
theorem l2capSend_accepts {c : Conn} {coc : Coc} {data : List UInt8} (hcoc : c.coc = some coc)
    (hmtu : data.length ≤ coc.mtu.toNat) (hslot : data.length + 2 ≤ l2capPayloadMax)
    (hcredits : coc.credits ≠ 0) :
    (c.l2capSend data).1 = .ok () ∧
      (c.l2capSend data).2.coc = some { coc with credits := coc.credits - 1 } ∧
      (c.l2capSend data).2.txAttLen = data.length + 2 := by
  unfold l2capSend
  rw [hcoc]
  dsimp only
  rw [dif_neg (by omega), if_neg hcredits]
  exact ⟨rfl, rfl, rfl⟩

/-- Otherwise it changes nothing. -/
theorem l2capSend_refuses {c : Conn} {data : List UInt8}
    (h : ∀ coc, c.coc = some coc → data.length ≤ coc.mtu.toNat →
      data.length + 2 ≤ l2capPayloadMax → coc.credits = 0) :
    ∃ e, c.l2capSend data = (.error e, c) := by
  unfold l2capSend
  split
  · exact ⟨_, rfl⟩
  · rename_i coc hcoc
    split
    · exact ⟨_, rfl⟩
    · rename_i hlen
      rw [if_pos (h coc hcoc (by omega) (by omega))]
      exact ⟨_, rfl⟩

/-- `l2cap_send` accepts iff there is a channel that the data fits, with credits. -/
theorem l2capSend_isOk (c : Conn) (data : List UInt8) :
    (c.l2capSend data).1.isOk = true ↔
      ∃ coc, c.coc = some coc ∧ data.length ≤ coc.mtu.toNat ∧
        data.length + 2 ≤ l2capPayloadMax ∧ coc.credits ≠ 0 := by
  constructor
  · intro hok
    by_contra hnot
    have hrefuse : ∀ coc, c.coc = some coc → data.length ≤ coc.mtu.toNat →
        data.length + 2 ≤ l2capPayloadMax → coc.credits = 0 := by
      intro coc hcoc hmtu hslot
      by_contra hcredits
      exact hnot ⟨coc, hcoc, hmtu, hslot, hcredits⟩
    obtain ⟨e, he⟩ := l2capSend_refuses hrefuse
    rw [he] at hok
    cases hok
  · rintro ⟨coc, hcoc, hmtu, hslot, hcredits⟩
    rw [(l2capSend_accepts hcoc hmtu hslot hcredits).1]
    rfl

/-- Send one after the other; are all accepted? -/
def sendAll : List (List UInt8) → Conn → Bool
  | [], _ => true
  | data :: datas, c => (c.l2capSend data).1.isOk && sendAll datas (c.l2capSend data).2

/-- `l2cap_send` may send `n` more frames: of any data that fits, `n` in a row and no more. -/
def MaySend (c : Conn) (n : Nat) : Prop :=
  ∀ datas, (∀ data ∈ datas, c.Fits data) → (c.sendAll datas = true ↔ datas.length ≤ n)

/-- **The credits say how many frames may be sent**: induction on what is sent. -/
theorem maySend_credits {c : Conn} {coc : Coc} (hcoc : c.coc = some coc) :
    c.MaySend coc.credits.toNat := by
  intro datas hfits
  induction datas generalizing c coc with
  | nil => exact iff_of_true rfl (Nat.zero_le _)
  | cons data datas ih =>
    obtain ⟨hmtu, hslot⟩ := hfits data (List.mem_cons_self ..) coc hcoc
    rw [sendAll, List.length_cons, Bool.and_eq_true]
    by_cases hzero : coc.credits = 0
    · have hrefuse : ∀ coc', c.coc = some coc' → data.length ≤ coc'.mtu.toNat →
          data.length + 2 ≤ l2capPayloadMax → coc'.credits = 0 := by
        intro coc' hcoc' _ _
        cases hcoc.symm.trans hcoc'
        exact hzero
      obtain ⟨e, he⟩ := l2capSend_refuses hrefuse
      rw [he, hzero]
      refine iff_of_false ?_ (Nat.not_succ_le_zero _)
      rintro ⟨hok, _⟩
      cases hok
    · obtain ⟨hok, hnext, _⟩ := l2capSend_accepts hcoc hmtu hslot hzero
      obtain ⟨hpos, hdec⟩ := toNat_pred hzero
      have hrest := ih hnext (by
        intro data' hmem coc' hcoc'
        cases hnext.symm.trans hcoc'
        exact hfits data' (List.mem_cons_of_mem _ hmem) coc hcoc)
      rw [hok, hrest]
      dsimp only
      rw [hdec]
      constructor
      · rintro ⟨_, hle⟩
        omega
      · intro hle
        exact ⟨rfl, by omega⟩

end Conn

/-! ## Steps, and the books beside them -/

/-- What happens to a channel. -/
inductive CocEvent
  | signal (s : CocSignal)
  | connect (psm : UInt16)
  | send (data : List UInt8)
  /-- Something that leaves the credits alone. -/
  | other
  deriving DecidableEq, Repr

/-- What can happen to a connection, seen from its channel. -/
inductive CocStep (c : Conn) : CocEvent → Conn → Prop
  | signaling {body : List UInt8} {c' : Conn} (h : c.handleLeSignaling body = .ok c') :
    CocStep c (.signal (signalOf body)) c'
  | connect (psm : UInt16) : CocStep c (.connect psm) (c.l2capConnect psm)
  | send (data : List UInt8) : CocStep c (.send data) (c.l2capSend data).2
  | frame {body : List UInt8} {result result' : ConnEvent} {c' : Conn}
    (h : c.rxCocSdu body result = .ok (c', result')) : CocStep c .other c'
  | other {c' : Conn} (h : c'.coc = c.coc) : CocStep c .other c'

/-- The peer's books. -/
structure Ledger where
  /-- Our request to open a channel has not been answered. -/
  awaiting : Bool
  /-- Credits granted and not used. -/
  budget : Nat
  deriving DecidableEq, Repr

/-- Grant credits, up to 65535. -/
def Ledger.grant (l : Ledger) (credits : UInt16) : Ledger :=
  { l with budget := min (l.budget + credits.toNat) 65535 }

/-- What goes into the books. -/
def Ledger.after (l : Ledger) (c : Conn) : CocEvent → Ledger
  | .signal (.request _ _ _ _ credits) => ⟨false, credits.toNat⟩
  | .signal (.response _ _ _ credits result) =>
    -- only the answer to a request opens the channel and brings credits
    if l.awaiting = true ∧ c.coc.isSome = true ∧ result = 0 then
      { l.grant credits with awaiting := false }
    else l
  | .signal (.credit cid credits) => if c.isCoc cid then l.grant credits else l
  | .connect _ => if c.coc.isSome then l else ⟨true, 0⟩
  | .send data => if (c.l2capSend data).1.isOk then { l with budget := l.budget - 1 } else l
  | _ => l

/-- A run from a connection without a channel, and the books, along which `ok` holds. -/
inductive CocRun (ok : Ledger → Conn → CocEvent → Prop) (c₀ : Conn) : Ledger → Conn → Prop
  | start (h : c₀.coc = none) : CocRun ok c₀ ⟨false, 0⟩ c₀
  | step {l : Ledger} {c c' : Conn} {e : CocEvent} (hrun : CocRun ok c₀ l c) (hstep : CocStep c e c')
    (hok : ok l c e) : CocRun ok c₀ (l.after c e) c'

/-- The two things that go wrong do not happen: a response that opens a channel brings no credits, and
    data that is sent leaves room for its length in a frame of `mps` bytes. -/
def FlowOk (l : Ledger) (c : Conn) : CocEvent → Prop
  | .signal (.response _ _ _ credits result) =>
    l.awaiting = true → c.coc.isSome = true → result = 0 → credits = 0
  | .send data => ∀ coc, c.coc = some coc → coc.credits ≠ 0 → data.length ≤ coc.mtu.toNat →
    data.length + 2 ≤ coc.mps.toNat
  | _ => True

/-- The books are right. -/
def Balanced (l : Ledger) (c : Conn) : Prop := ∀ coc, c.coc = some coc → coc.credits.toNat = l.budget

theorem toNat_satAdd16 (a b : UInt16) : (satAdd16 a b).toNat = min (a.toNat + b.toNat) 65535 := by
  unfold satAdd16
  rw [UInt16.toNat_ofNat']
  omega

/-- The fields a frame of the channel can change. -/
def Coc.CollectFrame (coc coc' : Coc) : Prop :=
  coc' = { coc with rxSdu := coc'.rxSdu, rxSduLen := coc'.rxSduLen, rxSduTotal := coc'.rxSduTotal }

theorem Coc.append_frame {coc coc' : Coc} {chunk : List UInt8}
    (h : coc.append chunk = .ok coc') : coc.CollectFrame coc' := by
  obtain ⟨room, _, h⟩ := bind_eq_ok.mp h
  obtain ⟨rxSdu, _, h⟩ := bind_eq_ok.mp h
  cases h
  rfl

theorem Coc.collect_frame {coc coc' : Coc} {body : List UInt8}
    (h : coc.collect body = .ok coc') : coc.CollectFrame coc' := by
  unfold Coc.collect at h
  split at h
  · obtain ⟨total, _, h⟩ := bind_eq_ok.mp h
    obtain ⟨chunk, _, h⟩ := bind_eq_ok.mp h
    have happend := Coc.append_frame h
    exact happend
  · exact Coc.append_frame h

/-- A frame of the channel leaves the credits alone. -/
theorem rxCocSdu_credits {c c' : Conn} {body : List UInt8} {result result' : ConnEvent}
    (h : c.rxCocSdu body result = .ok (c', result')) :
    c'.coc.map Coc.credits = c.coc.map Coc.credits := by
  cases Conn.rxCocSdu_cases h with
  | ignored => rfl
  | kept hcoc _ hcollect =>
    rw [hcoc]
    have hcredits := congrArg Coc.credits (Coc.collect_frame hcollect)
    exact congrArg some hcredits
  | finished hcoc _ hcollect =>
    have hcredits := congrArg Coc.credits (Coc.collect_frame hcollect)
    rw [hcoc]
    exact congrArg some hcredits

/-- **A signaling message keeps the books right**, unless it opens a channel with credits. -/
theorem Balanced.signaled {l : Ledger} {c c' : Conn} {s : CocSignal} (h : Balanced l c)
    (hc' : c'.coc = Coc.signaled s c.coc) (hok : FlowOk l c (.signal s)) :
    Balanced (l.after c (.signal s)) c' := by
  intro coc' hcoc'
  rw [hc'] at hcoc'
  cases s with
  | request psm peerCid mtu mps credits => cases hcoc'; rfl
  | response peerCid mtu mps credits result =>
    cases hcoc : c.coc with
    | none => rw [hcoc] at hcoc'; cases hcoc'
    | some coc =>
      have hbal := h coc hcoc
      rw [hcoc] at hcoc'
      unfold Coc.signaled at hcoc'
      dsimp only at hcoc'
      split at hcoc'
      · rename_i hzero
        cases hcoc'
        show coc.credits.toNat = _
        unfold Ledger.after
        dsimp only
        split
        · rename_i hopens
          rw [hok hopens.1 hopens.2.1 hzero]
          show coc.credits.toNat = min (l.budget + 0) 65535
          have hlt := coc.credits.toNat_lt
          omega
        · exact hbal
      · cases hcoc'
  | credit cid credits =>
    cases hcoc : c.coc with
    | none => rw [hcoc] at hcoc'; cases hcoc'
    | some coc =>
      have hbal := h coc hcoc
      have hmine : c.isCoc cid = coc.hasCid cid := by
        unfold Conn.isCoc
        rw [hcoc]
        rfl
      rw [hcoc] at hcoc'
      cases hcoc'
      unfold Ledger.after
      dsimp only
      rw [hmine]
      split
      · show (satAdd16 coc.credits credits).toNat = min (l.budget + credits.toNat) 65535
        rw [toNat_satAdd16, hbal]
      · exact hbal
  | finish cid =>
    cases hcoc : c.coc with
    | none => rw [hcoc] at hcoc'; cases hcoc'
    | some coc =>
      rw [hcoc] at hcoc'
      unfold Coc.signaled at hcoc'
      dsimp only at hcoc'
      split at hcoc'
      · cases hcoc'
      · cases hcoc'
        exact h _ hcoc
  | other => exact h coc' hcoc'

/-- **One step keeps the books right.** -/
theorem Balanced.step {l : Ledger} {c c' : Conn} {e : CocEvent} (h : Balanced l c)
    (hstep : CocStep c e c') (hok : FlowOk l c e) : Balanced (l.after c e) c' := by
  cases hstep with
  | signaling hs => exact h.signaled (Conn.handleLeSignaling_coc hs) hok
  | connect psm =>
    intro coc' hcoc'
    unfold Conn.l2capConnect at hcoc'
    unfold Ledger.after
    dsimp only
    split at hcoc'
    · rename_i hsome
      rw [if_pos hsome]
      exact h coc' hcoc'
    · rename_i hnone
      rw [if_neg hnone]
      cases hcoc'
      rfl
  | send data =>
    unfold Ledger.after
    dsimp only
    split
    · rename_i haccepted
      obtain ⟨coc, hcoc, hmtu, hslot, hcredits⟩ := (c.l2capSend_isOk data).mp haccepted
      obtain ⟨_, hnext, _⟩ := Conn.l2capSend_accepts hcoc hmtu hslot hcredits
      intro coc' hcoc'
      cases hnext.symm.trans hcoc'
      show (coc.credits - 1).toNat = l.budget - 1
      rw [(toNat_pred hcredits).2, h coc hcoc]
    · rename_i hrefused
      rcases c.l2capSend_spec data with ⟨e, he⟩ | ⟨coc, txAtt, _, _, hx⟩
      · rw [he]
        exact h
      · rw [hx] at hrefused
        exact absurd rfl hrefused
  | frame hframe =>
    intro coc' hcoc'
    have hcredits := rxCocSdu_credits hframe
    rw [hcoc'] at hcredits
    obtain ⟨coc, hcoc, heq⟩ := Option.map_eq_some_iff.mp hcredits.symm
    show coc'.credits.toNat = l.budget
    rw [← heq]
    exact h coc hcoc
  | other hsame => exact fun coc' hcoc' => h coc' (hsame ▸ hcoc')

/-- **Every run keeps the books right.** -/
theorem CocRun.balanced {c₀ c : Conn} {l : Ledger} (h : CocRun FlowOk c₀ l c) : Balanced l c := by
  induction h with
  | start h =>
    intro coc hcoc
    rw [h] at hcoc
    cases hcoc
  | step _ hstep hok ih => exact ih.step hstep hok

/-! ## Every run of a connection is one -/

/-- Some run of this kind leads from one connection to the other. -/
def CocReach (c₀ c : Conn) : Prop := ∃ l, CocRun (fun _ _ _ => True) c₀ l c

theorem CocReach.step {c₀ c c' : Conn} {e : CocEvent} (h : CocReach c₀ c) (hstep : CocStep c e c') :
    CocReach c₀ c' := by
  obtain ⟨l, hrun⟩ := h
  exact ⟨_, hrun.step hstep trivial⟩

theorem CocReach.of_coc_eq {c₀ c c' : Conn} (h : CocReach c₀ c) (hcoc : c'.coc = c.coc) :
    CocReach c₀ c' := h.step (.other hcoc)

theorem reassemble_coc {c c' : Conn} {body : List UInt8} {result result' : ConnEvent}
    (h : c.reassemble Conn.handleAtt body result = .ok (c', result')) : c'.coc = c.coc :=
  (Conn.reassemble_frame h).coc

theorem CocReach.headerRead {c₀ c : Conn} (hreach : CocReach c₀ c) (msgLen cid : UInt16) :
    CocReach c₀ (c.headerRead msgLen cid) := hreach.of_coc_eq rfl

/-- A received data PDU. -/
theorem CocReach.handleL2cap {hw : Hw} {c₀ c c' : Conn} {payload : List UInt8} {llid : UInt8}
    {result result' : ConnEvent} (hreach : CocReach c₀ c)
    (h : c.handleL2cap hw payload llid result = .ok (c', result')) : CocReach c₀ c' := by
  cases Conn.handleL2cap_cases h with
  | continued _ hrun => exact hreach.of_coc_eq (reassemble_coc hrun)
  | dropped => exact hreach
  | smp => exact hreach.of_coc_eq (Conn.handleSmp_coc hw (c.headerRead _ _) _)
  | signaling _ hrun => exact ((hreach.headerRead _ _).step (.signaling hrun)).of_coc_eq rfl
  | att _ hrun =>
    have hsame := reassemble_coc hrun
    exact hreach.of_coc_eq hsame
  | coc _ hrun => exact (hreach.headerRead _ _).step (.frame hrun)
  | unknown => exact hreach.headerRead _ _

theorem CocReach.deliver {hw : Hw} {c₀ c : Conn} (hreach : CocReach c₀ c) (payload : List UInt8)
    (llid : UInt8) (result : ConnEvent) :
    CocReach c₀ (stateAfter (c.handleL2cap hw payload llid result) Prod.fst c) := by
  cases hx : c.handleL2cap hw payload llid result with
  | error p => exact hreach
  | ok r => exact hreach.handleL2cap hx

/-- A local call. -/
theorem CocReach.call {c₀ c : Conn} (hreach : CocReach c₀ c) (call : LocalCall) :
    CocReach c₀ (call.run c) := by
  cases call with
  | l2capConnect psm => exact hreach.step (.connect psm)
  | l2capSend data => exact hreach.step (.send data)
  | gapPair =>
    refine hreach.of_coc_eq ?_
    show c.gapPair.coc = c.coc
    unfold Conn.gapPair
    split <;> rfl
  | _ => exact hreach.of_coc_eq rfl

/-- **Every step of a connection is made of these steps.** -/
theorem Step.cocReach {hw : Hw} {c₀ : Conn} {s s' : Sys} {acts : List Act} (h : Step hw s acts s')
    (hreach : CocReach c₀ s.conn) : CocReach c₀ s'.conn := by
  rcases h.rx_cases with ⟨_, hcoc⟩ | ⟨c, payload, llid, result, _, hcoc, heq⟩ | ⟨call, heq⟩
  · exact hreach.of_coc_eq hcoc
  · rw [heq]
    exact (hreach.of_coc_eq hcoc).deliver payload llid result
  · rw [heq]
    exact hreach.call call

theorem runOps_cocReach (hw : Hw) {c c' : Conn} {ops : List Op} (hnew : c.coc = none)
    (h : (Conn.runOps hw ops c).res = .ok c') : CocReach c c' := by
  obtain ⟨_, hres⟩ := runOps_invariant hw (I := fun _ s => CocReach c s.conn) ops c
    ⟨_, .start hnew⟩ (fun _ _ _ _ hreach hstep => hstep.cocReach hreach)
  obtain ⟨_, hreach⟩ := hres c' h
  exact hreach

/-- A run keeps the flow, or there is a first step that does not. -/
theorem CocRun.flow_or {c₀ c : Conn} {l : Ledger} (h : CocRun (fun _ _ _ => True) c₀ l c) :
    CocRun FlowOk c₀ l c ∨
      ∃ l₁ c₁ e c₂, CocRun FlowOk c₀ l₁ c₁ ∧ CocStep c₁ e c₂ ∧ ¬ FlowOk l₁ c₁ e := by
  induction h with
  | start h => exact .inl (.start h)
  | @step l c c' e _ hstep _ ih =>
    rcases ih with hrun | hbroken
    · by_cases hok : FlowOk l c e
      · exact .inl (hrun.step hstep hok)
      · exact .inr ⟨l, c, e, c', hrun, hstep, hok⟩
    · exact .inr hbroken

/-- **The runs of a connection**: at the end the books say how many frames it may send, unless a step
    on the way was one that goes wrong, from a state in which they still were right. -/
theorem runOps_credits (hw : Hw) {c c' : Conn} {ops : List Op} (hnew : c.coc = none)
    (h : (Conn.runOps hw ops c).res = .ok c') :
    (∃ l, CocRun FlowOk c l c' ∧ (c'.coc.isSome = true → c'.MaySend l.budget)) ∨
      ∃ l₁ c₁ e c₂, Balanced l₁ c₁ ∧ CocStep c₁ e c₂ ∧ ¬ FlowOk l₁ c₁ e := by
  obtain ⟨l, hrun⟩ := runOps_cocReach hw hnew h
  rcases hrun.flow_or with hflow | ⟨l₁, c₁, e, c₂, hflow, hstep, hbroken⟩
  · refine .inl ⟨l, hflow, fun hsome => ?_⟩
    obtain ⟨coc, hcoc⟩ := Option.isSome_iff_exists.mp hsome
    rw [← hflow.balanced coc hcoc]
    exact Conn.maySend_credits hcoc
  · exact .inr ⟨l₁, c₁, e, c₂, hflow.balanced, hstep, hbroken⟩

/-! ## The credits are exact -/

/-- **Credits are exact** in every run in which no response opens a channel with credits and no data is
    sent that needs a frame longer than `mps`: `l2cap_send` may send as many frames as the peer's
    books say, refuses without changing anything when that is none, and queues no frame longer than
    `mps`. -/
theorem credits_exact (c₀ c : Conn) (l : Ledger) (h : CocRun FlowOk c₀ l c) :
    (c.coc.isSome = true → c.MaySend l.budget) ∧
      (l.budget = 0 → ∀ data, ∃ e, c.l2capSend data = (.error e, c)) ∧
      ∀ data coc, FlowOk l c (.send data) → c.coc = some coc →
        (c.l2capSend data).1.isOk = true → (c.l2capSend data).2.txAttLen ≤ coc.mps.toNat := by
  have hbal := h.balanced
  refine ⟨?_, ?_, ?_⟩
  · intro hsome
    obtain ⟨coc, hcoc⟩ := Option.isSome_iff_exists.mp hsome
    rw [← hbal coc hcoc]
    exact Conn.maySend_credits hcoc
  · intro hzero data
    refine Conn.l2capSend_refuses ?_
    intro coc hcoc _ _
    exact UInt16.toNat.inj ((hbal coc hcoc).trans hzero)
  · intro data coc hok hcoc haccepted
    obtain ⟨coc', hcoc', hmtu, hslot, hcredits⟩ := (c.l2capSend_isOk data).mp haccepted
    cases hcoc.symm.trans hcoc'
    rw [(Conn.l2capSend_accepts hcoc hmtu hslot hcredits).2.2]
    exact hok coc hcoc hcredits hmtu

/-- The connection a signaling message leaves. -/
def Conn.signaled (c : Conn) (body : List UInt8) : Conn := (c.handleLeSignaling body).toOption.getD c

/-- A request to open the channel 0x80, with this much per frame and this many credits. -/
def sampleRequest (mps credits : UInt8) : List UInt8 :=
  [0x14, 0, 0x80, 0, 0x40, 0, 247, 0, mps, 0, credits, 0]

/-- A response that opens it, with eight credits. -/
def sampleResponse : List UInt8 := [0x15, 0, 0x40, 0, 247, 0, 251, 0, 8, 0, 0, 0]

/-- An acceptor that was granted two credits and has used one may send one more frame. -/
theorem credits_exact_acceptor :
    ∃ c, CocRun FlowOk (Conn.sample .slave) ⟨false, 1⟩ c ∧ c.MaySend 1 := by
  have hsignal : (Conn.sample .slave).handleLeSignaling (sampleRequest 251 2) =
      .ok ((Conn.sample .slave).signaled (sampleRequest 251 2)) := rfl
  have hopen : CocRun FlowOk (Conn.sample .slave) ⟨false, 2⟩
      ((Conn.sample .slave).signaled (sampleRequest 251 2)) :=
    .step (.start rfl) (.signaling hsignal) trivial
  have hsend : FlowOk ⟨false, 2⟩ ((Conn.sample .slave).signaled (sampleRequest 251 2))
      (.send [1, 2, 3]) := by
    intro coc hcoc _ _
    cases hcoc
    decide
  have hrun := hopen.step (.send [1, 2, 3]) hsend
  have hbooks : (⟨false, 2⟩ : Ledger).after
      ((Conn.sample .slave).signaled (sampleRequest 251 2)) (.send [1, 2, 3]) = ⟨false, 1⟩ := by
    decide +kernel
  rw [hbooks] at hrun
  exact ⟨_, hrun, (credits_exact _ _ _ hrun).1 rfl⟩

/-- An initiator that was granted eight credits may send nothing; and an acceptor whose peer takes
    frames of 23 bytes sends one of 102. -/
theorem credits_not_exact :
    (∃ c, CocRun (fun _ _ _ => True) (Conn.sample .master) ⟨false, 8⟩ c ∧ c.coc.isSome = true ∧
      ¬ c.MaySend 8) ∧
    (∃ c coc, CocRun (fun _ _ _ => True) (Conn.sample .slave) ⟨false, 8⟩ c ∧ c.coc = some coc ∧
      (c.l2capSend (List.replicate 100 0)).1.isOk = true ∧
      ¬ (c.l2capSend (List.replicate 100 0)).2.txAttLen ≤ coc.mps.toNat) := by
  refine ⟨⟨((Conn.sample .master).l2capConnect 0x80).signaled sampleResponse, ?_, rfl, ?_⟩,
    ⟨(Conn.sample .slave).signaled (sampleRequest 23 8), _, ?_, rfl, by decide +kernel,
      by decide +kernel⟩⟩
  · have hsignal : ((Conn.sample .master).l2capConnect 0x80).handleLeSignaling sampleResponse =
        .ok (((Conn.sample .master).l2capConnect 0x80).signaled sampleResponse) := rfl
    exact .step (.step (.start rfl) (.connect 0x80) trivial) (.signaling hsignal) trivial
  · intro hmay
    have hone := hmay [[1]] (by
      intro data hdata coc hcoc
      cases List.mem_singleton.mp hdata
      cases hcoc
      decide)
    have hrefused : (((Conn.sample .master).l2capConnect 0x80).signaled sampleResponse).sendAll [[1]] =
        false := by decide +kernel
    rw [hrefused] at hone
    exact Bool.false_ne_true (hone.mpr (by decide))
  · have hsignal : (Conn.sample .slave).handleLeSignaling (sampleRequest 23 8) =
        .ok ((Conn.sample .slave).signaled (sampleRequest 23 8)) := rfl
    exact .step (.start rfl) (.signaling hsignal) trivial

end NrfBle
