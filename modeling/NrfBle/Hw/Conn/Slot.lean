/-
  The transmit slot under every interleaving of its six operations.

  One message buffer serves all channels.  Five operations fill it and `tx_fragment` empties it
  piece by piece, and nothing keeps a filling operation from running between two pieces.  The three
  that set the channel and rewind the offset may do so at any time: the message they replace is
  lost, the new one goes out from its start.  `queue_att` and `queue_notify` set neither.  Called
  between two pieces of a longer message they leave the offset beyond the end of the new one;
  called after any message of another channel they send ATT bytes on that channel.

  `slotLaw` is what the slot should do along a run, `inOrder` says of a run that each of the two
  finds the slot rewound and on the ATT channel (and that no message needs a larger `tx_buf`).
  `slotLaw_iff` is that the two agree, on every run.
-/
import Mathlib.Tactic
import NrfBle.Hw.Conn.Run

namespace NrfBle

open Checked

/-! ## Runs of the slot -/

/-- An operation on the slot. -/
inductive SlotOp
  | queueAtt (att : List UInt8)
  | queueNotify (data : List UInt8)
  | queueSignaling (msg : List UInt8)
  | queueL2cap (l2 : List UInt8) (cid : UInt16)
  | l2capSend (data : List UInt8)
  | txFragment

namespace SlotOp

/-- Execute an operation. -/
def run : SlotOp → Conn → Except Panic Conn
  | .queueAtt att, c => return c.queueAtt att
  | .queueNotify data, c => return c.queueNotify data
  | .queueSignaling msg, c => return c.queueSignaling msg
  | .queueL2cap l2 cid, c => return c.queueL2cap l2 cid
  | .l2capSend data, c => return (c.l2capSend data).2
  | .txFragment, c => do
    let (_, c) ← c.txFragment
    return c

/-- The message an operation queues: its length, clipped to the slot, and its channel. -/
def queued : SlotOp → Conn → Option (Nat × UInt16)
  | .queueAtt att, _ => some (min att.length l2capPayloadMax, l2capAttCid)
  | .queueNotify data, _ => some (3 + min data.length attPayloadMax, l2capAttCid)
  | .queueSignaling msg, _ => some (min msg.length (l2capPayloadMax - 4), l2capSignalingCid)
  | .queueL2cap l2 cid, _ => some (min l2.length l2capPayloadMax, cid)
  | .l2capSend data, c =>
    match c.coc, (c.l2capSend data).1 with
    | some coc, .ok () => some (data.length + 2, coc.localCid)
    | _, _ => none
  | .txFragment, _ => none

/-- The operations that set neither the channel nor the offset. -/
def isAtt : SlotOp → Bool
  | .queueAtt _ | .queueNotify _ => true
  | _ => false

/-- What a queueing operation leaves in the slot. -/
structure Fills (op : SlotOp) (c c' : Conn) (len : Nat) (cid : UInt16) : Prop where
  length : c'.txAttLen = len
  bound : len ≤ 251
  pduMax : c'.txPduMax = c.txPduMax
  att : op.isAtt = true → c'.txFragOffset = c.txFragOffset ∧ c'.txCid = c.txCid ∧ cid = l2capAttCid
  other : op.isAtt = false → c'.txFragOffset = 0 ∧ c'.txCid = cid

/-- **What queueing does.** -/
theorem run_of_queued {op : SlotOp} {c : Conn} {len : Nat} {cid : UInt16}
    (h : op.queued c = some (len, cid)) : ∃ c', op.run c = .ok c' ∧ Fills op c c' len cid := by
  cases op with
  | queueAtt att =>
    cases h
    exact ⟨_, rfl, rfl, Nat.min_le_right _ _, rfl, fun _ => ⟨rfl, rfl, rfl⟩, fun h => by cases h⟩
  | queueNotify data =>
    cases h
    have hle : min data.length attPayloadMax ≤ 244 := Nat.min_le_right _ _
    exact ⟨_, rfl, rfl, by omega, rfl, fun _ => ⟨rfl, rfl, rfl⟩, fun h => by cases h⟩
  | queueSignaling msg =>
    cases h
    have hle : min msg.length (l2capPayloadMax - 4) ≤ 247 := Nat.min_le_right _ _
    exact ⟨_, rfl, rfl, by omega, rfl, fun h => (by cases h), fun _ => ⟨rfl, rfl⟩⟩
  | queueL2cap l2 cid =>
    cases h
    exact ⟨_, rfl, rfl, Nat.min_le_right _ _, rfl, fun h => (by cases h), fun _ => ⟨rfl, rfl⟩⟩
  | l2capSend data =>
    refine ⟨_, rfl, ?_⟩
    simp only [queued] at h
    rcases c.l2capSend_spec data with ⟨e, hx⟩ | ⟨coc, txAtt, hcoc, hle, hx⟩
    · rw [hx] at h
      split at h <;> simp_all
    · rw [hx, hcoc] at h
      cases h
      rw [hx]
      exact ⟨rfl, hle, rfl, fun h => (by cases h), fun _ => ⟨rfl, rfl⟩⟩
  | txFragment => cases h

/-- An operation that queues nothing, other than `tx_fragment`, does nothing. -/
theorem run_of_not_queued {op : SlotOp} {c : Conn} (h : op.queued c = none) :
    op = .txFragment ∨ op.run c = .ok c := by
  cases op with
  | txFragment => exact .inl rfl
  | l2capSend data =>
    right
    show Except.ok (c.l2capSend data).2 = Except.ok c
    rcases c.l2capSend_spec data with ⟨e, hx⟩ | ⟨coc, txAtt, hcoc, _, hx⟩
    · rw [hx]
    · simp only [queued, hx, hcoc] at h
      cases h
  | _ => cases h

/-- The operation finds the slot in order: the two that set neither find it rewound and on the ATT
    channel, and the first fragment of the message fits `tx_buf`. -/
def inOrder (op : SlotOp) (c : Conn) : Bool :=
  match op.queued c with
  | some (len, _) =>
    (!op.isAtt || decide (c.txFragOffset = 0 ∧ c.txCid = l2capAttCid)) &&
      decide (c.txPduMax ≤ 62 ∨ len ≤ 58)
  | none => true

end SlotOp

namespace Conn

/-- `tx_fragment`, called now, emits a start or complete fragment whose L2CAP header has this length
    and this channel. -/
def startsMessage (c : Conn) (len : Nat) (cid : UInt16) : Bool :=
  match c.txFragment with
  | .ok (_, c') =>
    decide ((c'.txBuf.bytes.getD 0 0 &&& 0b11) ∈ [llidDataStart, llidDataComplete] ∧
      (c'.txBuf.bytes.take 6).drop 2 = le16 (UInt16.ofNat len) ++ le16 cid)
  | .error _ => false

/-- What is pending has not been sent beyond its end. -/
def offsetInside (c : Conn) : Bool := !c.txPending || decide (c.txFragOffset ≤ c.txAttLen)

end Conn

/-- What the slot should do along a run: in every state what is pending has not been sent beyond its
    end, every operation returns, and after each queueing operation the next `tx_fragment` starts
    the message just queued, on the channel of that operation. -/
def slotLaw : Conn → List SlotOp → Bool
  | c, [] => c.offsetInside
  | c, op :: ops =>
    c.offsetInside &&
      match op.run c with
      | .ok c' => (op.queued c).all (fun q => c'.startsMessage q.1 q.2) && slotLaw c' ops
      | .error _ => false

/-- Every queueing operation of the run finds the slot in order. -/
def inOrder : Conn → List SlotOp → Bool
  | _, [] => true
  | c, op :: ops =>
    op.inOrder c &&
      match op.run c with
      | .ok c' => inOrder c' ops
      | .error _ => true

/-! ## The first fragment -/

namespace Conn

/-- The header of a first fragment, read from the buffer. -/
theorem header_of_take {c : Conn} {b : Buf 64} (h0 : c.txFragOffset = 0) (hf : c.FragFits)
    (htake : b.bytes.take (2 + c.fragPayload.length) =
      c.txHeader c.fragLlid :: UInt8.ofNat c.fragPayload.length :: c.fragPayload) :
    (b.bytes.take 6).drop 2 = le16 (UInt16.ofNat c.txAttLen) ++ le16 c.txCid := by
  have hlen := hf.payload_length
  rw [if_pos h0] at hlen
  have h6 : b.bytes.take 6 = (b.bytes.take (2 + c.fragPayload.length)).take 6 := by
    rw [List.take_take, Nat.min_eq_left (by omega)]
  rw [h6, htake]
  unfold fragPayload
  rw [if_pos h0, le16_eq, le16_eq]
  rfl

/-- **When a message starts.**  The next fragment starts the message in the slot iff it can be built,
    the slot is rewound and the channel is the expected one. -/
theorem startsMessage_iff (c : Conn) (cid : UInt16) :
    c.startsMessage c.txAttLen cid = true ↔ c.FragFits ∧ c.txFragOffset = 0 ∧ c.txCid = cid := by
  constructor
  · intro h
    unfold startsMessage at h
    split at h
    · rename_i n c' hx
      have hf := fragFits_of_ok hx
      obtain ⟨b, hok, htake⟩ := txFragment_ok hf
      rw [hok] at hx
      cases hx
      obtain ⟨hllid, hhead⟩ := of_decide_eq_true h
      have h0 : c.txFragOffset = 0 := by
        by_contra hne
        -- a later fragment has the continuation LLID
        rw [show (c.afterFragment b).txBuf = b from rfl, getD_zero_of_take htake, txHeader_llid,
          fragLlid, if_neg hne] at hllid
        exact absurd hllid (by decide)
      refine ⟨hf, h0, ?_⟩
      rw [show (c.afterFragment b).txBuf = b from rfl, header_of_take h0 hf htake] at hhead
      exact le16_injective (List.append_cancel_left hhead)
    · cases h
  · rintro ⟨hf, h0, rfl⟩
    obtain ⟨b, hok, htake⟩ := txFragment_ok hf
    unfold startsMessage
    rw [hok]
    refine decide_eq_true ⟨?_, header_of_take h0 hf htake⟩
    rw [show (c.afterFragment b).txBuf = b from rfl, getD_zero_of_take htake, txHeader_llid, fragLlid,
      if_pos h0]
    split <;> decide

end Conn

/-! ## Runs in order -/

/-- The slot can always send its next fragment: the offset is inside the message, and either no
    fragment can be too long for `tx_buf` or the slot is rewound before a message that goes out in
    one piece. -/
structure SlotInv (c : Conn) : Prop where
  offset : c.txFragOffset ≤ c.txAttLen
  length : c.txAttLen ≤ 251
  fits : c.txPduMax ≤ 62 ∨ (c.txFragOffset = 0 ∧ c.txAttLen ≤ 58)

/-- A new connection has an empty slot. -/
theorem SlotInv.new (params : ConnectReqData) (firstChannel : UInt8) (now : UInt32)
    (role : ConnRole) : SlotInv (Conn.new params firstChannel now role) :=
  ⟨Nat.le_refl _, Nat.zero_le _, .inl (show 27 ≤ 62 by decide)⟩

theorem SlotInv.offsetInside {c : Conn} (h : SlotInv c) : c.offsetInside = true := by
  unfold Conn.offsetInside
  rw [decide_eq_true h.offset, Bool.or_true]

theorem SlotInv.fragFits {c : Conn} (h : SlotInv c) : c.FragFits := by
  have hoff := h.offset
  have hlen := h.length
  have hchunk := c.fragChunk_le
  refine ⟨hoff, by omega, ?_⟩
  rcases h.fits with hp | ⟨h0, hs⟩
  · have hroom := c.fragChunk_room
    omega
  · rw [if_pos h0]
    omega

/-- Sending a fragment keeps the slot able to send the next one. -/
theorem SlotInv.afterFragment {c : Conn} (h : SlotInv c) (b : Buf 64) :
    SlotInv (c.afterFragment b) := by
  have hoff := h.offset
  have hchunk := c.fragChunk_le
  refine ⟨?_, h.length, ?_⟩
  · show (if c.txAttLen ≤ c.txFragOffset + c.fragChunk then 0 else c.txFragOffset + c.fragChunk) ≤
      c.txAttLen
    split <;> omega
  · rcases h.fits with hp | ⟨h0, hs⟩
    · exact .inl hp
    · rcases Nat.lt_or_ge 62 c.txPduMax with hmax | hmax
      · -- a long PDU takes the whole message, and the slot is rewound
        right
        have hall : c.fragChunk = c.txAttLen := by
          rw [Conn.fragChunk_first h0]
          omega
        refine ⟨?_, hs⟩
        show (if c.txAttLen ≤ c.txFragOffset + c.fragChunk then 0 else
          c.txFragOffset + c.fragChunk) = 0
        rw [if_pos (by omega)]
      · exact .inl hmax

/-- A message that starts can also be sent to its end. -/
theorem SlotInv.of_starts {c : Conn} (hlen : c.txAttLen ≤ 251) (hf : c.FragFits)
    (h0 : c.txFragOffset = 0) : SlotInv c := by
  refine ⟨hf.offset, hlen, ?_⟩
  have hp := hf.payload
  rw [if_pos h0, Conn.fragChunk_first h0] at hp
  omega

/-- **What is queued in order starts with its next fragment**, and only that. -/
theorem SlotOp.Fills.starts_iff {op : SlotOp} {c c' : Conn} {len : Nat} {cid : UInt16}
    (hfill : Fills op c c' len cid) (hq : op.queued c = some (len, cid)) :
    c'.startsMessage len cid = true ↔ op.inOrder c = true := by
  have hstart := Conn.startsMessage_iff c' cid
  rw [hfill.length] at hstart
  rw [hstart]
  unfold SlotOp.inOrder
  rw [hq]
  simp only [Bool.and_eq_true, Bool.or_eq_true, Bool.not_eq_true', decide_eq_true_eq]
  constructor
  · rintro ⟨hf, h0, hcid⟩
    have hinv := SlotInv.of_starts (hfill.length ▸ hfill.bound) hf h0
    refine ⟨?_, ?_⟩
    · cases hk : op.isAtt with
      | true =>
        obtain ⟨hoff, hcid', rfl⟩ := hfill.att hk
        exact .inr ⟨hoff.symm.trans h0, hcid'.symm.trans hcid⟩
      | false => exact .inl rfl
    -- what can be started can be sent to its end, which bounds the length
    · rw [← hfill.pduMax, ← hfill.length]
      exact hinv.fits.imp id And.right
  · rintro ⟨hatt, hfits⟩
    have hrewound : c'.txFragOffset = 0 ∧ c'.txCid = cid := by
      cases hk : op.isAtt with
      | true =>
        obtain ⟨hoff, hcid, rfl⟩ := hfill.att hk
        have h0 := hatt.resolve_left (by rw [hk]; decide)
        exact ⟨hoff.trans h0.1, hcid.trans h0.2⟩
      | false => exact hfill.other hk
    have hinv : SlotInv c' := by
      refine ⟨by rw [hrewound.1]; exact Nat.zero_le _, by rw [hfill.length]; exact hfill.bound, ?_⟩
      rw [hfill.pduMax, hfill.length]
      exact hfits.imp id (fun hs => ⟨hrewound.1, hs⟩)
    exact ⟨hinv.fragFits, hrewound⟩

/-- **The slot is coherent exactly on the runs in order.**  From any state whose slot can send its
    next fragment — a new connection's can — a run of the six operations does what the slot should
    do iff every queueing operation of it finds the slot in order. -/
theorem slotLaw_iff {c : Conn} (h : SlotInv c) (ops : List SlotOp) :
    slotLaw c ops = true ↔ inOrder c ops = true := by
  induction ops generalizing c with
  | nil => exact iff_of_true h.offsetInside rfl
  | cons op ops ih =>
    unfold slotLaw inOrder
    rw [h.offsetInside, Bool.true_and, Bool.and_eq_true]
    cases hq : op.queued c with
    | some q =>
      obtain ⟨len, cid⟩ := q
      obtain ⟨c', hrun, hfill⟩ := SlotOp.run_of_queued hq
      rw [hrun]
      dsimp only
      rw [Bool.and_eq_true, Option.all_some, hfill.starts_iff hq]
      refine and_congr_right ?_
      intro hord
      obtain ⟨hf, h0, _⟩ := (Conn.startsMessage_iff c' cid).mp
        (by rw [hfill.length]; exact (hfill.starts_iff hq).mpr hord)
      exact ih (SlotInv.of_starts (hfill.length ▸ hfill.bound) hf h0)
    | none =>
      have hop : op.inOrder c = true := by unfold SlotOp.inOrder; rw [hq]
      rw [hop]
      simp only [true_and]
      -- nothing is queued: a fragment is sent, or `l2cap_send` refused
      rcases SlotOp.run_of_not_queued hq with rfl | hrun
      · obtain ⟨b, hok, _⟩ := Conn.txFragment_ok h.fragFits
        have hrun : SlotOp.run .txFragment c = .ok (c.afterFragment b) := by
          show (c.txFragment >>= fun r => Except.ok r.2) = _
          rw [hok]; rfl
        rw [hrun]
        exact ih (h.afterFragment b)
      · rw [hrun]
        exact ih h

/-- A notification in three fragments, then an ATT response, then a signaling message that cuts an
    L2CAP message short. -/
theorem slotLaw_iff_mixed :
    let ops : List SlotOp :=
      [.queueNotify (List.replicate 57 7), .txFragment, .txFragment, .txFragment,
        .queueAtt [0x13], .txFragment, .queueL2cap (List.replicate 40 1) 6, .txFragment,
        .queueSignaling [1, 2, 3], .txFragment]
    SlotInv (Conn.sample .slave) ∧ slotLaw (Conn.sample .slave) ops = true :=
  ⟨.new _ _ _ _, (slotLaw_iff (.new _ _ _ _) _).mpr (by decide +kernel)⟩

/-- A response queued between two fragments of a notification leaves the offset at 23 in a message
    of one byte, and the next fragment underflows; a response queued after a signaling message goes
    out on the signaling channel. -/
theorem late_att_breaks_slot :
    slotLaw (Conn.sample .slave)
      [.queueNotify (List.replicate 57 7), .txFragment, .queueAtt [0x13]] = false ∧
    slotLaw (Conn.sample .slave)
      [.queueSignaling [1, 2, 3], .txFragment, .queueAtt [0x13]] = false := by
  decide +kernel

end NrfBle
