/-
  Fragmentation under the data length the peer asked for.

  `LL_LENGTH_REQ` and `LL_LENGTH_RSP` set the largest payload to the peer's number, clamped to 251
  from above and not at all from below.  The fragmenter takes the L2CAP header of the first fragment
  out of it, and builds the fragment in a buffer with room for 62 payload bytes.

  1. Below five bytes the first fragment takes no byte of the message: the slot stays as it is, for
     ever (`not_drains_of_small`).
  2. Above 62 a message of more than 58 bytes has a first fragment that does not fit the buffer
     (`fits_of_drains`).
  3. In between, and for short messages, each fragment fits and moves on (`drains_of_slotInv`).
-/
import Mathlib.Tactic
import NrfBle.Hw.Conn.Slot

namespace NrfBle

open Checked

/-- Calling `tx_fragment` as long as something is pending comes to an end, every call returns, and
    none emits more payload than the largest. -/
inductive Drains : Conn → Prop
  | idle {c : Conn} (hidle : c.txPending = false) : Drains c
  | fragment {c c' : Conn} {n : Nat} (hpending : c.txPending = true)
      (hrun : c.txFragment = .ok (n, c')) (hlen : n ≤ 2 + c.txPduMax) (hrest : Drains c') : Drains c

/-- The slot is idle: nothing is pending and nothing partly sent. -/
structure SlotIdle (c : Conn) : Prop where
  pending : c.txPending = false
  offset : c.txFragOffset = 0

theorem SlotIdle.new (params : ConnectReqData) (firstChannel : UInt8) (now : UInt32)
    (role : ConnRole) : SlotIdle (Conn.new params firstChannel now role) := ⟨rfl, rfl⟩

/-! ## What comes to an end -/

/-- **Fragments that fit come to an end.**  Each takes at least one byte of the message; induction on
    what is left of it. -/
theorem drains_of_slotInv {c : Conn} (h : SlotInv c) (hp : 5 ≤ c.txPduMax)
    (hin : c.txFragOffset < c.txAttLen) : Drains c := by
  induction hn : c.txAttLen - c.txFragOffset using Nat.strong_induction_on generalizing c with
  | _ n ih =>
    cases hpending : c.txPending with
    | false => exact .idle hpending
    | true =>
      obtain ⟨b, hrun, _⟩ := Conn.txFragment_ok h.fragFits
      have hle := h.fragFits.payload_le (by omega)
      refine .fragment hpending hrun (by omega) ?_
      have hchunk := Conn.fragChunk_pos hin hp
      rcases Nat.lt_or_ge (c.txFragOffset + c.fragChunk) c.txAttLen with hlt | hge
      · have hoff : (c.afterFragment b).txFragOffset = c.txFragOffset + c.fragChunk :=
          if_neg (by omega)
        have hlen : (c.afterFragment b).txAttLen = c.txAttLen := rfl
        exact ih _ (by rw [hoff, hlen]; omega) (h.afterFragment b) hp (by rw [hoff]; exact hlt) rfl
      · exact .idle (if_pos hge)

/-! ## What does not come to an end -/

/-- A rewound message whose first fragment has no room behind the header stays where it is. -/
theorem not_drains_of_small {c : Conn} (hpending : c.txPending = true) (h0 : c.txFragOffset = 0)
    (hlen : 1 ≤ c.txAttLen) (hp : c.txPduMax ≤ 4) : ¬ Drains c := by
  intro h
  induction h with
  | idle hidle => rw [hpending] at hidle; cases hidle
  | @fragment c c' n _ hrun _ _ ih =>
    obtain ⟨b, hok, _⟩ := Conn.txFragment_ok (Conn.fragFits_of_ok hrun)
    rw [hok] at hrun
    cases hrun
    have hchunk : c.fragChunk = 0 := by
      rw [Conn.fragChunk_first h0]
      omega
    have hmore : ¬ c.txAttLen ≤ c.txFragOffset + c.fragChunk := by omega
    have hoff : (c.afterFragment b).txFragOffset = c.txFragOffset + c.fragChunk := if_neg hmore
    have hpend : (c.afterFragment b).txPending = c.txPending := if_neg hmore
    exact ih (hpend.trans hpending) (by rw [hoff]; omega) hlen hp

/-- A rewound message that is sent has a first fragment that fits the buffer. -/
theorem fits_of_drains {c : Conn} (h : Drains c) (hpending : c.txPending = true)
    (h0 : c.txFragOffset = 0) : c.txPduMax ≤ 62 ∨ c.txAttLen ≤ 58 := by
  cases h with
  | idle hidle => rw [hpending] at hidle; cases hidle
  | fragment _ hrun _ _ =>
    have hfit := (Conn.fragFits_of_ok hrun).payload
    rw [if_pos h0, Conn.fragChunk_first h0] at hfit
    omega

/-- **When a rewound message is sent.** -/
theorem drains_iff {c : Conn} (hpending : c.txPending = true) (h0 : c.txFragOffset = 0)
    (hlo : 1 ≤ c.txAttLen) (hhi : c.txAttLen ≤ 251) :
    Drains c ↔ 5 ≤ c.txPduMax ∧ (c.txPduMax ≤ 62 ∨ c.txAttLen ≤ 58) := by
  constructor
  · intro h
    refine ⟨?_, fits_of_drains h hpending h0⟩
    by_contra hsmall
    exact not_drains_of_small hpending h0 hlo (by omega) h
  · rintro ⟨hp, hfits⟩
    have hinv : SlotInv c := ⟨by omega, hhi, hfits.imp id (fun hs => ⟨h0, hs⟩)⟩
    exact drains_of_slotInv hinv hp (by omega)

/-! ## The negotiated length -/

namespace Conn

/-- The connection after `handle_ll_control`. -/
def afterControl (hw : Hw) (c : Conn) (payload : List UInt8) : Conn :=
  stateAfter (c.handleLlControl hw payload).res Prod.snd c

/-- The opcodes that carry data lengths. -/
def isLength (op : UInt8) : Bool := op = llControlLengthReq ∨ op = llControlLengthRsp

/-- A length PDU sets the largest payload, and leaves the slot alone. -/
theorem afterControl_length (hw : Hw) (c : Conn) {op l₀ l₁ : UInt8} {rest : List UInt8}
    (hop : isLength op = true) (hlen : 9 ≤ (op :: l₀ :: l₁ :: rest).length) :
    (∃ log, c.handleLlControl hw (op :: l₀ :: l₁ :: rest) =
      ⟨log, .ok (.ok (), c.afterControl hw (op :: l₀ :: l₁ :: rest))⟩) ∧
    (c.afterControl hw (op :: l₀ :: l₁ :: rest)).txPduMax = min (ofLe16 l₀ l₁).toNat 251 ∧
    (c.afterControl hw (op :: l₀ :: l₁ :: rest)).txPending = c.txPending ∧
    (c.afterControl hw (op :: l₀ :: l₁ :: rest)).txFragOffset = c.txFragOffset := by
  have hsafe : ControlSafe (op :: l₀ :: l₁ :: rest) := by
    rcases of_decide_eq_true hop with rfl | rfl
    all_goals
      show 7 ≤ _
      omega
  obtain ⟨⟨r, c'⟩, hres⟩ := (returns_handleLlControl hw c _).mpr hsafe
  have hafter : c.afterControl hw (op :: l₀ :: l₁ :: rest) = c' := by
    unfold afterControl
    rw [hres]
    rfl
  have hframe := ((handleLlControl_spec hw c (op :: l₀ :: l₁ :: rest)).2 r c' hres).frame
  have hpending := congrArg Conn.txPending hframe
  have hoffset := congrArg Conn.txFragOffset hframe
  have hne : op ≠ llControlTerminateInd := by
    rcases of_decide_eq_true hop with rfl | rfl <;> decide
  obtain ⟨_, hstep⟩ := handleLlControl_cons hw c op (l₀ :: l₁ :: rest) hne
  rw [hres] at hstep
  obtain ⟨c₁, hc₁, hr⟩ := bind_eq_ok.mp hstep.symm
  cases hr
  have hmax : c'.txPduMax = min (ofLe16 l₀ l₁).toNat 251 := by
    have htake : ∀ d, c.takeLengths (op :: l₀ :: l₁ :: rest) = .ok d →
        d.txPduMax = min (ofLe16 l₀ l₁).toNat 251 := by
      intro d hd
      obtain ⟨maxTx, htx, hd⟩ := bind_eq_ok.mp hd
      obtain ⟨_, _, hd⟩ := bind_eq_ok.mp hd
      cases hd
      have hmax : maxTx = ofLe16 l₀ l₁ := Except.ok.inj (htx.symm.trans rfl)
      rw [← hmax]
    rcases of_decide_eq_true hop with rfl | rfl
    · obtain ⟨d, hd, hc⟩ := bind_eq_ok.mp (show (c.takeLengths _ >>= fun d => _) = .ok c' from
        (Logged.bind_res _ _).symm.trans hc₁)
      cases hc
      exact htake d hd
    · exact htake c' hc₁
  refine ⟨⟨(c.handleLlControl hw (op :: l₀ :: l₁ :: rest)).log, ?_⟩, ?_, ?_, ?_⟩
  · rw [hafter]
    exact Logged.ext rfl hres
  · rw [hafter]; exact hmax
  · rw [hafter]; exact hpending
  · rw [hafter]; exact hoffset

end Conn

/-- A message that is queued is pending. -/
theorem SlotOp.pending_of_queued {op : SlotOp} {c c' : Conn} {q : Nat × UInt16}
    (hq : op.queued c = some q) (hrun : op.run c = .ok c') : c'.txPending = true := by
  cases op with
  | queueAtt | queueNotify | queueSignaling | queueL2cap => cases hrun; rfl
  | txFragment => cases hq
  | l2capSend data =>
    have hc' : (c.l2capSend data).2 = c' := Except.ok.inj hrun
    rw [← hc']
    rcases c.l2capSend_spec data with ⟨e, hx⟩ | ⟨coc, txAtt, _, _, hx⟩
    · simp only [SlotOp.queued, hx] at hq
      split at hq <;> simp_all
    · rw [hx]

/-- Queueing into an idle slot leaves the message pending and rewound. -/
theorem SlotOp.queued_idle {op : SlotOp} {c : Conn} {len : Nat} {cid : UInt16}
    (hq : op.queued c = some (len, cid)) (hidle : c.txFragOffset = 0) :
    ∃ c', op.run c = .ok c' ∧ c'.txPending = true ∧ c'.txFragOffset = 0 ∧ c'.txAttLen = len ∧
      len ≤ 251 ∧ c'.txPduMax = c.txPduMax := by
  obtain ⟨c', hrun, hfill⟩ := SlotOp.run_of_queued hq
  refine ⟨c', hrun, SlotOp.pending_of_queued hq hrun, ?_, hfill.length, hfill.bound, hfill.pduMax⟩
  cases hk : op.isAtt with
  | true => exact (hfill.att hk).1.trans hidle
  | false => exact (hfill.other hk).1

/-- **Fragmentation under a negotiated length.**  A length PDU of nine bytes or more, then a message of
    1 to 251 bytes queued by any operation into the idle slot: its fragments fit the buffer and the
    largest payload, and come to an end, iff the peer's length is at least 5, and at most 62 or the
    message has at most 58 bytes. -/
theorem negotiated_drains_iff (hw : Hw) {c : Conn} {op l₀ l₁ : UInt8} {rest : List UInt8}
    (hop : Conn.isLength op = true) (hlen : 9 ≤ (op :: l₀ :: l₁ :: rest).length) (hidle : SlotIdle c)
    {queue : SlotOp} {len : Nat} {cid : UInt16}
    (hq : queue.queued (c.afterControl hw (op :: l₀ :: l₁ :: rest)) = some (len, cid))
    (hmsg : 1 ≤ len) :
    (∃ c', queue.run (c.afterControl hw (op :: l₀ :: l₁ :: rest)) = .ok c' ∧ Drains c') ↔
      5 ≤ (ofLe16 l₀ l₁).toNat ∧ ((ofLe16 l₀ l₁).toNat ≤ 62 ∨ len ≤ 58) := by
  obtain ⟨_, hmax, _, hoff⟩ := c.afterControl_length hw hop hlen
  obtain ⟨c', hrun, hpending, h0, hlen', hbound, hpdu⟩ :=
    SlotOp.queued_idle hq (hoff.trans hidle.offset)
  have hiff := drains_iff hpending h0 (by omega) (by omega)
  rw [hlen', hpdu, hmax] at hiff
  constructor
  · rintro ⟨c'', hrun', hdrains⟩
    cases hrun.symm.trans hrun'
    have hcond := hiff.mp hdrains
    omega
  · intro hcond
    exact ⟨c', hrun, hiff.mpr (by omega)⟩

/-- A peer that asks for 60 bytes, and the largest message. -/
theorem negotiated_drains_sixty :
    ∃ c', SlotOp.run (.queueL2cap (List.replicate 251 7) l2capAttCid)
      ((Conn.sample .slave).afterControl Hw.standIn
        [llControlLengthReq, 60, 0, 0x48, 0x08, 60, 0, 0x48, 0x08]) = .ok c' ∧ Drains c' :=
  (negotiated_drains_iff Hw.standIn (by decide) (by decide) (SlotIdle.new _ _ _ _)
    (by rw [SlotOp.queued, List.length_replicate]) (by decide)).mpr (by decide)

/-- A peer that asks for four bytes, and a write response: the first fragment is emitted for ever.  A
    peer that asks for 251 bytes, and a notification of 59 bytes: the first fragment has 63 bytes of
    payload and `tx_buf` room for 62. -/
theorem negotiated_length_breaks_slot :
    let c := Conn.sample .slave
    (¬ ∃ c', SlotOp.run (.queueAtt [0x13])
      (c.afterControl Hw.standIn [llControlLengthReq, 4, 0, 0x48, 0x08, 27, 0, 0x48, 0x08]) = .ok c' ∧
        Drains c') ∧
    (¬ ∃ c', SlotOp.run (.queueNotify (List.replicate 56 7))
      (c.afterControl Hw.standIn [llControlLengthReq, 251, 0, 0x48, 0x08, 251, 0, 0x48, 0x08]) =
        .ok c' ∧ Drains c') := by
  refine ⟨?_, ?_⟩
  · rintro ⟨c', hrun, hdrains⟩
    cases hrun
    exact not_drains_of_small rfl rfl (by decide) (by decide) hdrains
  · rintro ⟨c', hrun, hdrains⟩
    cases hrun
    exact absurd (fits_of_drains hdrains rfl rfl) (by decide)

end NrfBle
