/-
  Which received bytes crash a connection.

  The handlers index their input at fixed offsets.  Most branches look at the length first; a few
  do not, and there a short PDU is a panic.  This file says exactly which PDUs those are, in every
  state a connection can reach.

  A handler that collects bytes subtracts its fill level from the buffer size, so the fill levels
  must stay within the buffers.  That is the invariant, `RxBounded`: the reassembler and the
  credit-based channel keep it, and nothing else writes the two counters.  Given it, a PDU is safe
  iff it is not one of
  * an ATT request that is shorter than its opcode needs, once it is complete (`AttSafe`);
  * a credit-based connection response of fewer than twelve bytes, while a channel is open;
  * an `LL_LENGTH_REQ` or `LL_LENGTH_RSP` of fewer than seven bytes, or an
    `LL_CONNECTION_UPDATE_REQ` of exactly ten (`ControlSafe`).
-/
import Mathlib.Tactic
import NrfBle.Hw.Conn.Run

namespace NrfBle

open Checked

variable {hw : Hw}

/-! ## The fill levels -/

/-- The fill levels of the two receive buffers are within the buffers. -/
structure RxBounded (c : Conn) : Prop where
  l2cap : c.rxL2capLen ≤ 256
  sdu : ∀ coc, c.coc = some coc → coc.rxSduLen ≤ 256

theorem RxBounded.of_eq {c c' : Conn} (h : RxBounded c) (hlen : c'.rxL2capLen = c.rxL2capLen)
    (hcoc : c'.coc = c.coc) : RxBounded c' where
  l2cap := hlen ▸ h.l2cap
  sdu := fun coc hc => h.sdu coc (hcoc ▸ hc)

theorem RxBounded.headerRead {c : Conn} (hc : RxBounded c) (msgLen cid : UInt16) :
    RxBounded (c.headerRead msgLen cid) := ⟨Nat.zero_le _, hc.sdu⟩

/-- A collected SDU is never longer than its buffer. -/
theorem Coc.append_bounded {coc coc' : Coc} {chunk : List UInt8}
    (h : coc.append chunk = .ok coc') : coc'.rxSduLen ≤ 256 := by
  obtain ⟨room, hroom, h⟩ := bind_eq_ok.mp h
  obtain ⟨rxSdu, hwrite, h⟩ := bind_eq_ok.mp h
  cases h
  have hle := (Buf.write_eq_ok.mp hwrite).1
  rw [List.length_take] at hle
  show coc.rxSduLen + min chunk.length room ≤ 256
  omega

theorem Coc.collect_bounded {coc coc' : Coc} {body : List UInt8}
    (h : coc.collect body = .ok coc') : coc'.rxSduLen ≤ 256 := by
  unfold Coc.collect at h
  split at h
  · obtain ⟨total, _, h⟩ := bind_eq_ok.mp h
    obtain ⟨chunk, _, h⟩ := bind_eq_ok.mp h
    exact Coc.append_bounded h
  · exact Coc.append_bounded h

/-- A channel with room takes any piece. -/
theorem Coc.returns_append {coc : Coc} (h : coc.rxSduLen ≤ 256) (chunk : List UInt8) :
    Returns (coc.append chunk) := by
  refine returns_bind.mpr ⟨_, sub_of_le h, returns_bind.mpr ?_⟩
  obtain ⟨b, hb⟩ := (coc.rxSdu.returns_write).mpr
    (show coc.rxSduLen + (chunk.take (min chunk.length (256 - coc.rxSduLen))).length ≤ 256 by
      rw [List.length_take]; omega)
  exact ⟨b, hb, returns_pure _⟩

theorem Coc.returns_collect {coc : Coc} (h : coc.rxSduLen ≤ 256) (body : List UInt8)
    (hbody : coc.rxSduLen = 0 → 2 ≤ body.length) : Returns (coc.collect body) := by
  unfold Coc.collect
  split
  · rename_i h0
    have hlen := hbody h0
    refine returns_bind.mpr ⟨_, rd16_of_lt (by omega), ?_⟩
    exact returns_bind.mpr ⟨_, slice_of_le hlen (Nat.le_refl _), Coc.returns_append (by exact h) _⟩
  · exact Coc.returns_append h _

namespace Conn

/-! ## The handlers keep the fill levels -/

/-- The fields an SMP message can change. -/
def SmpFrame (c c' : Conn) : Prop :=
  c' = { c with
    smp := c'.smp, txAtt := c'.txAtt, txAttLen := c'.txAttLen, txFragOffset := c'.txFragOffset
    txPending := c'.txPending, txCid := c'.txCid, wantEncrypt := c'.wantEncrypt
    pairingInProgress := c'.pairingInProgress, pendingControl := c'.pendingControl }

theorem smpRandom_frame (hw : Hw) (c : Conn) (body : List UInt8) :
    SmpFrame c (c.smpRandom hw body) := by
  unfold smpRandom
  split
  · dsimp only
    split <;> rfl
  · rfl

theorem handleSmp_frame (hw : Hw) (c : Conn) (body : List UInt8) :
    SmpFrame c (c.handleSmp hw body) := by
  unfold handleSmp
  repeat' split
  all_goals first | rfl | exact smpRandom_frame hw c _

theorem handleSmp_coc (hw : Hw) (c : Conn) (body : List UInt8) :
    (c.handleSmp hw body).coc = c.coc := by
  have hcoc := congrArg Conn.coc (handleSmp_frame hw c body)
  exact hcoc

/-- No part of an SDU is collected: the record is gone, new, or holds as much as before. -/
def NothingCollected (c c' : Conn) : Prop :=
  ∀ coc', c'.coc = some coc' →
    coc'.rxSduLen = 0 ∨ ∃ coc, c.coc = some coc ∧ coc'.rxSduLen = coc.rxSduLen

theorem handleLeSignaling_nothingCollected {c c' : Conn} {body : List UInt8}
    (h : c.handleLeSignaling body = .ok c') : NothingCollected c c' := by
  intro coc' hcoc'
  rcases handleLeSignaling_cases h with rfl | ⟨_, _, hnew, rfl⟩ | ⟨coc, _, hold, rfl, hlen⟩ | rfl
  · exact .inr ⟨coc', hcoc', rfl⟩
  · cases hcoc'
    exact .inl hnew
  · cases hcoc'
    exact .inr ⟨coc, hold, hlen⟩
  · cases hcoc'

theorem l2capConnect_nothingCollected (c : Conn) (psm : UInt16) :
    NothingCollected c (c.l2capConnect psm) := by
  intro coc' hcoc'
  unfold l2capConnect at hcoc'
  split at hcoc'
  · exact .inr ⟨coc', hcoc', rfl⟩
  · cases hcoc'
    exact .inl rfl

theorem l2capSend_nothingCollected (c : Conn) (data : List UInt8) :
    NothingCollected c (c.l2capSend data).2 := by
  intro coc' hcoc'
  rcases c.l2capSend_spec data with ⟨e, hx⟩ | ⟨coc, txAtt, hcoc, _, hx⟩ <;> rw [hx] at hcoc'
  · exact .inr ⟨coc', hcoc', rfl⟩
  · cases hcoc'
    exact .inr ⟨coc, hcoc, rfl⟩

theorem NothingCollected.bounded {c c' : Conn} (h : NothingCollected c c') (hc : RxBounded c) :
    ∀ coc, c'.coc = some coc → coc.rxSduLen ≤ 256 := by
  intro coc' hcoc'
  rcases h coc' hcoc' with hzero | ⟨coc, hcoc, hlen⟩
  · omega
  · rw [hlen]
    exact hc.sdu coc hcoc

theorem rxCocSdu_bounded {c c' : Conn} {body : List UInt8} {result result' : ConnEvent}
    (hc : RxBounded c) (h : c.rxCocSdu body result = .ok (c', result')) : RxBounded c' := by
  cases rxCocSdu_cases h with
  | ignored => exact hc
  | kept _ _ hcollect =>
    refine ⟨hc.l2cap, ?_⟩
    intro coc hcoc
    cases hcoc
    exact Coc.collect_bounded hcollect
  | finished =>
    refine ⟨hc.l2cap, ?_⟩
    intro coc hcoc
    cases hcoc
    exact Nat.zero_le _

theorem reassemble_bounded {c c' : Conn} {body : List UInt8} {result result' : ConnEvent}
    (hc : RxBounded c) (h : c.reassemble handleAtt body result = .ok (c', result')) : RxBounded c' := by
  obtain ⟨b, _, hspec⟩ := reassemble_spec hc.l2cap body
  rw [hspec handleAtt result] at h
  dsimp only at h
  split at h
  · obtain ⟨⟨c₁, r₁⟩, hatt, h⟩ := bind_eq_ok.mp h
    cases h
    refine ⟨Nat.zero_le _, ?_⟩
    intro coc hcoc
    exact hc.sdu coc ((handleAtt_frame hatt).coc ▸ hcoc)
  · cases h
    exact ⟨Nat.min_le_right _ _, hc.sdu⟩

theorem handleL2cap_bounded {c c' : Conn} {payload : List UInt8} {llid : UInt8}
    {result result' : ConnEvent} (hc : RxBounded c)
    (h : c.handleL2cap hw payload llid result = .ok (c', result')) : RxBounded c' := by
  cases handleL2cap_cases h with
  | continued _ hrun => exact reassemble_bounded hc hrun
  | dropped => exact hc
  | @smp l₀ l₁ d₀ d₁ body _ _ =>
    have hsmp := handleSmp_coc hw (c.headerRead (ofLe16 l₀ l₁) (ofLe16 d₀ d₁)) body
    exact ⟨Nat.zero_le _, fun coc hcoc => hc.sdu coc (hsmp.symm.trans hcoc)⟩
  | signaling _ hrun =>
    have hsdu := (handleLeSignaling_nothingCollected hrun).bounded (hc.headerRead _ _)
    exact ⟨Nat.zero_le _, hsdu⟩
  | att _ hrun => exact reassemble_bounded (hc.headerRead _ _) hrun
  | coc _ hrun => exact rxCocSdu_bounded (hc.headerRead _ _) hrun
  | unknown => exact hc.headerRead _ _

end Conn

/-! ## Runs keep the fill levels -/

theorem RxBounded.deliver {c : Conn} (h : RxBounded c) (payload : List UInt8) (llid : UInt8)
    (result : ConnEvent) :
    RxBounded (stateAfter (c.handleL2cap hw payload llid result) Prod.fst c) := by
  cases hx : c.handleL2cap hw payload llid result with
  | error p => exact h
  | ok r => exact Conn.handleL2cap_bounded h hx

/-- A call collects nothing and agrees on no MTU. -/
theorem LocalCall.run_frame (c : Conn) (call : LocalCall) :
    (call.run c).rxL2capLen = c.rxL2capLen ∧ (call.run c).rxL2capMsgLen = c.rxL2capMsgLen ∧
      (call.run c).attMtu = c.attMtu := by
  cases call with
  | l2capConnect psm =>
    show (c.l2capConnect psm).rxL2capLen = _ ∧ (c.l2capConnect psm).rxL2capMsgLen = _ ∧
      (c.l2capConnect psm).attMtu = _
    unfold Conn.l2capConnect
    split <;> exact ⟨rfl, rfl, rfl⟩
  | l2capSend data =>
    show (c.l2capSend data).2.rxL2capLen = _ ∧ (c.l2capSend data).2.rxL2capMsgLen = _ ∧
      (c.l2capSend data).2.attMtu = _
    rcases c.l2capSend_spec data with ⟨e, hx⟩ | ⟨coc, txAtt, _, _, hx⟩ <;> rw [hx] <;>
      exact ⟨rfl, rfl, rfl⟩
  | gapPair =>
    show c.gapPair.rxL2capLen = _ ∧ c.gapPair.rxL2capMsgLen = _ ∧ c.gapPair.attMtu = _
    unfold Conn.gapPair
    split <;> exact ⟨rfl, rfl, rfl⟩
  | _ => exact ⟨rfl, rfl, rfl⟩

theorem RxBounded.call {c : Conn} (h : RxBounded c) (call : LocalCall) :
    RxBounded (call.run c) := by
  refine ⟨(call.run_frame c).1.le.trans h.l2cap, ?_⟩
  cases call with
  | l2capConnect psm => exact (c.l2capConnect_nothingCollected psm).bounded h
  | l2capSend data => exact (c.l2capSend_nothingCollected data).bounded h
  | gapPair =>
    intro coc hcoc
    have hsame : c.gapPair.coc = c.coc := by
      unfold Conn.gapPair
      split <;> rfl
    exact h.sdu coc (hsame ▸ hcoc)
  | _ => exact h.sdu

/-- What a connection counts above the link layer, and its open channel. -/
structure Levels where
  rxL2capLen : Nat
  rxL2capMsgLen : Nat
  coc : Option Coc
  rxDataLen : Nat
  gattResultLen : Nat
  txAttLen : Nat
  attMtu : UInt16

def Conn.levels (c : Conn) : Levels :=
  ⟨c.rxL2capLen, c.rxL2capMsgLen, c.coc, c.rxDataLen, c.gattResultLen, c.txAttLen, c.attMtu⟩

/-- **What a step can do above the link layer**: nothing, handle a data PDU, or make a local call. -/
theorem Step.levels_cases {s s' : Sys} {acts : List Act} (h : Step hw s acts s') :
    s'.conn.levels = s.conn.levels ∨
      (∃ c payload llid result, c.levels = s.conn.levels ∧
        s'.conn = stateAfter (c.handleL2cap hw payload llid result) Prod.fst c) ∨
      ∃ call : LocalCall, s'.conn = call.run s.conn := by
  cases h with
  | tick hb =>
    have hlevels := congrArg Conn.levels (Conn.beginEvent_frame hb)
    exact .inl hlevels
  | heard | bondKey => exact .inl rfl
  | accept c o tag pdu =>
    refine .inl ?_
    show (c.acknowledge pdu.sn).levels = c.levels
    rw [Conn.acknowledge_eq]
    rfl
  | deliver c o tag pdu result hne hllid =>
    refine .inr (.inl ⟨c.acknowledge pdu.sn, _, _, result, ?_, rfl⟩)
    rw [Conn.acknowledge_eq]
    rfl
  | l2cap c o llid payload result => exact .inr (.inl ⟨c, payload, llid, result, rfl, rfl⟩)
  | ctrl c o payload =>
    have hlevels := congrArg Conn.levels (controlEffect_after hw c payload).frame
    exact .inl hlevels
  | respond c =>
    rcases c.afterRespond_spec hw with ⟨_, hf⟩ | ⟨_, _, _, _, _, hf⟩
    all_goals
      have hlevels := congrArg Conn.levels hf
      exact .inl hlevels
  | terminate c o =>
    obtain ⟨t, r, c', hx, _, hf⟩ := c.sendTerminate_spec
    have hlevels := congrArg Conn.levels hf
    rw [hx]
    exact .inl hlevels
  | call c o call => exact .inr (.inr ⟨call, rfl⟩)

/-- **What data PDUs and local calls keep** of the counts, every step keeps. -/
theorem Step.levels_invariant {I : Levels → Prop} {s s' : Sys} {acts : List Act}
    (h : Step hw s acts s')
    (hdeliver : ∀ (c : Conn) payload llid result r, c.handleL2cap hw payload llid result = .ok r →
      I c.levels → I r.1.levels)
    (hcall : ∀ (c : Conn) (call : LocalCall), I c.levels → I (call.run c).levels)
    (hs : I s.conn.levels) : I s'.conn.levels := by
  rcases h.levels_cases with hlevels | ⟨c, payload, llid, result, hlevels, heq⟩ | ⟨call, heq⟩
  · rwa [hlevels]
  · rw [← hlevels] at hs
    rw [heq]
    cases hrun : c.handleL2cap hw payload llid result with
    | error p => exact hs
    | ok r => exact hdeliver c payload llid result r hrun hs
  · rw [heq]
    exact hcall s.conn call hs

/-- The same of what is being received. -/
theorem Step.rx_cases {s s' : Sys} {acts : List Act} (h : Step hw s acts s') :
    (s'.conn.rxL2capLen = s.conn.rxL2capLen ∧ s'.conn.coc = s.conn.coc) ∨
      (∃ c payload llid result, c.rxL2capLen = s.conn.rxL2capLen ∧ c.coc = s.conn.coc ∧
        s'.conn = stateAfter (c.handleL2cap hw payload llid result) Prod.fst c) ∨
      ∃ call : LocalCall, s'.conn = call.run s.conn := by
  rcases h.levels_cases with hlevels | ⟨c, payload, llid, result, hlevels, heq⟩ | hcall
  · exact .inl ⟨congrArg Levels.rxL2capLen hlevels, congrArg Levels.coc hlevels⟩
  · exact .inr (.inl ⟨c, payload, llid, result, congrArg Levels.rxL2capLen hlevels,
      congrArg Levels.coc hlevels, heq⟩)
  · exact .inr (.inr hcall)

/-- **Every step keeps the fill levels.** -/
theorem Step.rxBounded {s s' : Sys} {acts : List Act} (h : Step hw s acts s')
    (hc : RxBounded s.conn) : RxBounded s'.conn := by
  rcases h.rx_cases with ⟨hlen, hcoc⟩ | ⟨c, payload, llid, result, hlen, hcoc, heq⟩ | ⟨call, heq⟩
  · exact hc.of_eq hlen hcoc
  · rw [heq]
    exact (hc.of_eq hlen hcoc).deliver payload llid result
  · rw [heq]
    exact hc.call call

/-- A state some run of a new connection ends in. -/
def Reachable (hw : Hw) (c : Conn) : Prop :=
  ∃ params firstChannel now role ops,
    (Conn.runOps hw ops (Conn.new params firstChannel now role)).res = .ok c

/-- **What every step keeps** holds in every reachable state. -/
theorem Reachable.invariant {I : Conn → Prop} {c : Conn} (h : Reachable hw c)
    (hnew : ∀ params firstChannel now role, I (Conn.new params firstChannel now role))
    (hstep : ∀ s acts s', Step hw s acts s' → I s.conn → I s'.conn) : I c := by
  obtain ⟨params, firstChannel, now, role, ops, hrun⟩ := h
  obtain ⟨_, hres⟩ := runOps_invariant hw (I := fun _ s => I s.conn) ops
    (Conn.new params firstChannel now role) (hnew params firstChannel now role)
    (fun _ s acts s' hc h => hstep s acts s' h hc)
  obtain ⟨_, hc⟩ := hres c hrun
  exact hc

theorem Reachable.rxBounded {c : Conn} (h : Reachable hw c) : RxBounded c :=
  h.invariant (fun _ _ _ _ => ⟨Nat.zero_le _, fun _ hcoc => (by cases hcoc)⟩)
    (fun _ _ _ hstep hc => hstep.rxBounded hc)

/-! ## When the handlers return -/

namespace Conn

/-- The signaling message is not the one that is read beyond its end: a connection response of four
    to eleven bytes while a channel is open. -/
def SignalingSafe (c : Conn) (body : List UInt8) : Prop :=
  ¬ (c.coc.isSome = true ∧ body.head? = some leCreditBasedConnectionRsp ∧ 4 ≤ body.length ∧
    body.length < 12)

theorem returns_cocRequest (c : Conn) (body : List UInt8) : Returns (c.cocRequest body) := by
  unfold cocRequest
  split
  · exact returns_pure _
  · rw [returns_rd16_bind fun _ => returns_rd16_bind fun _ => returns_rd16_bind fun _ =>
      returns_rd16_bind fun _ => returns_rd16_bind fun _ => iff_true_intro (returns_pure _)]
    simp only [and_true]
    omega

theorem returns_cocResponse (c : Conn) (coc : Coc) (body : List UInt8) :
    Returns (c.cocResponse coc body) ↔ 12 ≤ body.length := by
  unfold cocResponse
  rw [returns_rd16_bind fun _ => returns_rd16_bind fun _ => returns_rd16_bind fun _ =>
    returns_rd16_bind fun _ => returns_rd16_bind fun _ => iff_true_intro ?_]
  · simp only [and_true]; omega
  · split <;> exact returns_pure _

theorem returns_cocCredit (c : Conn) (coc : Coc) (body : List UInt8) :
    Returns (c.cocCredit coc body) := by
  unfold cocCredit
  split
  · rw [returns_rd16_bind fun _ => returns_rd16_bind fun _ => iff_true_intro ?_]
    · simp only [and_true]; omega
    · split <;> exact returns_pure _
  · exact returns_pure _

theorem returns_cocEnd (c : Conn) (coc : Coc) {body : List UInt8} (h : 4 ≤ body.length) :
    Returns (c.cocEnd coc body) := by
  unfold cocEnd
  rw [returns_rd16_bind fun _ => iff_true_intro ?_]
  · simp only [and_true]; omega
  · split <;> exact returns_pure _

theorem returns_handleLeSignaling (c : Conn) (body : List UInt8) :
    Returns (c.handleLeSignaling body) ↔ c.SignalingSafe body := by
  unfold handleLeSignaling
  split
  · exact iff_of_true (returns_pure _) (fun h => absurd h.2.2.1 (by omega))
  · rename_i hlen
    match body with
    | [] => exact absurd (by simp) hlen
    | code :: rest =>
      rw [idx_cons_zero, ok_bind]
      -- only the response branch can fail; elsewhere the opcode or the channel does not match
      split
      · refine iff_of_true (returns_cocRequest c _) (fun h => ?_)
        exact absurd (Option.some.inj h.2.1) (by decide)
      · rename_i coc heq
        rw [returns_cocResponse]
        constructor
        · exact fun h12 hbad => absurd hbad.2.2.2 (by omega)
        · intro hsafe
          by_contra h12
          exact hsafe ⟨by rw [heq]; rfl, rfl, by omega, by omega⟩
      · refine iff_of_true (returns_cocCredit c _ _) (fun h => ?_)
        exact absurd (Option.some.inj h.2.1) (by decide)
      · refine iff_of_true (returns_cocEnd c _ (by omega)) (fun h => ?_)
        exact absurd (Option.some.inj h.2.1) (by decide)
      · rename_i hreq hrsp hcredit hend
        refine iff_of_true (returns_pure _) (fun h => ?_)
        obtain ⟨coc, hcoc⟩ := Option.isSome_iff_exists.mp h.1
        exact hrsp coc (Option.some.inj h.2.1) hcoc

theorem returns_rxCocSdu {c : Conn} (hc : RxBounded c) (body : List UInt8) (result : ConnEvent) :
    Returns (c.rxCocSdu body result) := by
  unfold rxCocSdu
  split
  · exact returns_pure _
  · rename_i coc heq
    split
    · exact returns_pure _
    · rename_i hshort
      obtain ⟨coc', hcoc'⟩ := Coc.returns_collect (hc.sdu coc heq) body
        (fun h0 => by by_contra h; exact hshort ⟨h0, by omega⟩)
      refine returns_bind.mpr ⟨coc', hcoc', ?_⟩
      split <;> exact returns_pure _

/-- The bytes collected for a message that announces `msgLen` of them are safe: they are not all
    there yet, or the message is empty, or ATT can serve it. -/
def MessageSafe (c : Conn) (msgLen : Nat) (bytes : List UInt8) : Prop :=
  bytes.length < min msgLen 256 ∨ msgLen = 0 ∨ c.AttSafe (bytes.headD 0) (min msgLen 256)

theorem returns_reassemble {c : Conn} (hc : RxBounded c) (body : List UInt8) (result : ConnEvent) :
    Returns (c.reassemble handleAtt body result) ↔ c.MessageSafe c.rxL2capMsgLen (c.collected body) := by
  obtain ⟨b, _, hspec⟩ := reassemble_spec hc.l2cap body
  rw [hspec handleAtt result]
  dsimp only
  unfold MessageSafe
  generalize c.collected body = bytes
  split
  · rename_i hdone
    rw [returns_bind_left (fun _ => returns_pure _)]
    rcases Nat.eq_zero_or_pos c.rxL2capMsgLen with h0 | hpos
    · rw [h0]
      exact iff_of_true (returns_pure _) (.inr (.inl rfl))
    · -- the message is not empty: its opcode is the first byte collected
      match bytes, hdone with
      | [], hdone => simp only [List.length_nil] at hdone; omega
      | op :: rest, hdone =>
        have hmsg : (op :: rest).take (min c.rxL2capMsgLen 256) =
            op :: rest.take (min c.rxL2capMsgLen 256 - 1) := by
          rw [show min c.rxL2capMsgLen 256 = min c.rxL2capMsgLen 256 - 1 + 1 by omega,
            List.take_succ_cons]
          rfl
        have hlen : (op :: rest.take (min c.rxL2capMsgLen 256 - 1)).length =
            min c.rxL2capMsgLen 256 := by
          rw [← hmsg, List.length_take]; omega
        rw [hmsg, returns_handleAtt, hlen]
        constructor
        · exact fun h => .inr (.inr h)
        · rintro (h | h | h)
          · omega
          · omega
          · exact h
  · rename_i hmore
    exact iff_of_true (returns_pure _) (.inl (by omega))

/-- The data PDU is safe to handle. -/
def L2capSafe (c : Conn) (payload : List UInt8) (llid : UInt8) : Prop :=
  if c.isFirst llid then
    match payload with
    | l₀ :: l₁ :: d₀ :: d₁ :: body =>
      if ofLe16 d₀ d₁ = l2capSignalingCid then c.SignalingSafe body
      else if ofLe16 d₀ d₁ = l2capAttCid then c.MessageSafe (ofLe16 l₀ l₁).toNat body
      else True
    | _ => True
  else c.MessageSafe c.rxL2capMsgLen (c.collected payload)

/-- **When `handle_l2cap` returns.** -/
theorem returns_handleL2cap (hw : Hw) {c : Conn} (hc : RxBounded c) (payload : List UInt8)
    (llid : UInt8) (result : ConnEvent) :
    Returns (c.handleL2cap hw payload llid result) ↔ c.L2capSafe payload llid := by
  unfold L2capSafe
  cases hfirst : c.isFirst llid with
  | false =>
    rw [handleL2cap, handleL2cap_continuation handleAtt hw hfirst, if_neg Bool.false_ne_true]
    exact returns_reassemble hc payload result
  | true =>
    rw [if_pos rfl]
    rcases short_or_header payload with hshort | ⟨l₀, l₁, d₀, d₁, body, rfl⟩
    · rw [handleL2cap, handleL2cap_short handleAtt hw hfirst hshort]
      refine iff_of_true (returns_ok _) ?_
      split
      · simp only [List.length_cons] at hshort
        omega
      · trivial
    · have hstart := hc.headerRead (ofLe16 l₀ l₁) (ofLe16 d₀ d₁)
      rw [handleL2cap, handleL2cap_first handleAtt hw hfirst]
      unfold startMessage
      dsimp only
      -- SMP never panics, and its channel is none of the two the condition speaks of
      by_cases hsmp : ofLe16 d₀ d₁ = l2capSmpCidLocal
      · rw [if_pos hsmp, hsmp, if_neg (by decide), if_neg (by decide)]
        exact iff_of_true (returns_pure _) trivial
      · rw [if_neg hsmp]
        split
        · rw [returns_bind_left (fun _ => returns_pure _)]
          exact returns_handleLeSignaling _ body
        · split
          · exact returns_reassemble hstart body result
          · refine iff_of_true ?_ trivial
            split
            · exact returns_rxCocSdu hstart body result
            · exact returns_pure _

end Conn

/-- **Which PDUs crash a connection.**  In every reachable state, `handle_l2cap` returns on a data
    PDU iff it is safe in that state, and `handle_ll_control` returns on a control PDU iff it has
    a safe length. -/
theorem handlers_return_iff {c : Conn} (h : Reachable hw c) (payload : List UInt8) (llid : UInt8)
    (result : ConnEvent) :
    (Returns (c.handleL2cap hw payload llid result) ↔ c.L2capSafe payload llid) ∧
      (Returns (c.handleLlControl hw payload).res ↔ Conn.ControlSafe payload) :=
  ⟨Conn.returns_handleL2cap hw h.rxBounded payload llid result,
    Conn.returns_handleLlControl hw c payload⟩

/-- With a channel open, a full connection response and a full `LL_LENGTH_REQ` are handled. -/
theorem handlers_return_iff_full_pdus :
    let c := (Conn.sample .master).l2capConnect 0x25
    Reachable Hw.standIn c ∧ c.coc.isSome = true ∧
      Returns (c.handleL2cap Hw.standIn
        [12, 0, 5, 0, 0x15, 0, 0x40, 0, 64, 0, 64, 0, 4, 0, 0, 0] 2 .idle) ∧
      Returns (c.handleLlControl Hw.standIn [0x14, 27, 0, 0x48, 1, 27, 0]).res := by
  have hreach : Reachable Hw.standIn ((Conn.sample .master).l2capConnect 0x25) :=
    ⟨_, _, _, _, [.call (.l2capConnect 0x25)], rfl⟩
  have hsafe : ((Conn.sample .master).l2capConnect 0x25).L2capSafe
      [12, 0, 5, 0, 0x15, 0, 0x40, 0, 64, 0, 64, 0, 4, 0, 0, 0] 2 := by
    unfold Conn.L2capSafe
    rw [if_pos (by decide)]
    dsimp only
    rw [if_pos (by decide)]
    rintro ⟨_, _, _, hshort⟩
    exact absurd hshort (by decide)
  have hcontrol : Conn.ControlSafe [0x14, 27, 0, 0x48, 1, 27, 0] :=
    show 7 ≤ [(0x14 : UInt8), 27, 0, 0x48, 1, 27, 0].length by decide
  exact ⟨hreach, rfl, (handlers_return_iff hreach _ 2 .idle).1.mpr hsafe,
    (handlers_return_iff hreach _ 2 .idle).2.mpr hcontrol⟩

/-- Four short PDUs that crash a connection: an ATT request of one byte, a credit-based connection
    response of four, an `LL_LENGTH_REQ` of one, and an `LL_CONNECTION_UPDATE_REQ` of ten. -/
theorem short_pdus_crash :
    Reachable Hw.standIn (Conn.sample .slave) ∧
      ¬ Returns ((Conn.sample .slave).handleL2cap Hw.standIn [1, 0, 4, 0, 0x04] 2 .idle) ∧
      ¬ Returns ((Conn.sample .slave).handleLlControl Hw.standIn [0x14]).res ∧
      ¬ Returns ((Conn.sample .slave).handleLlControl Hw.standIn
        [0, 1, 2, 3, 4, 5, 6, 7, 8, 9]).res ∧
    Reachable Hw.standIn ((Conn.sample .master).l2capConnect 0x25) ∧
      ¬ Returns (((Conn.sample .master).l2capConnect 0x25).handleL2cap Hw.standIn
        [4, 0, 5, 0, 0x15, 0, 0, 0] 2 .idle) :=
  ⟨⟨_, _, _, _, [], rfl⟩, by decide +kernel, by decide +kernel, by decide +kernel,
    ⟨_, _, _, _, [.call (.l2capConnect 0x25)], rfl⟩, by decide +kernel⟩

end NrfBle
