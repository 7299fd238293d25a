/-
  Reassembly undoes fragmentation: what one connection cuts up, the other puts together again.

  The sender's fragmenter and the receiver's reassembler are two loops over the same message.  The
  sender is at an offset `o` into it (`Holds`), the receiver has its first `o` bytes (`Collects`),
  and one fragment takes both from `o` to `o + k`.  A first fragment may find the receiver in ANY
  state, because its LLID alone restarts the collection; from then on at least one byte is there,
  which is what tells a continuation from a new message.

  That `handle_att` is called once, on the last fragment and with the message, is said of every
  handler put in its place: up to the last fragment none is called, and on the last one exactly
  the message goes to it.  What happens THEN is up to `handle_att`; it returns unless the message
  is too short for its opcode.
-/
import Mathlib.Tactic
import NrfBle.Hw.Conn.Safety
import NrfBle.Hw.Conn.Slot

namespace NrfBle

open Checked

variable {hw : Hw}

/-! ## Both loops -/

/-- A fragment on its way: its LLID and its payload. -/
structure Fragment where
  llid : UInt8
  payload : List UInt8
  deriving DecidableEq, Repr

namespace Conn

/-- The fragment in `tx_buf` after `tx_fragment` returned `n`. -/
def fragmentAt (c : Conn) (n : Nat) : Fragment :=
  ⟨c.txBuf.bytes.getD 0 0 &&& 3, (c.txBuf.bytes.take n).drop 2⟩

/-- Call `tx_fragment` until nothing is pending, `fuel` times at most. -/
def drain : Nat → Conn → Except Panic (List Fragment × Conn)
  | 0, c => return ([], c)
  | fuel + 1, c =>
    if c.txPending then do
      let (n, c₁) ← c.txFragment
      let (fs, c') ← drain fuel c₁
      return (c₁.fragmentAt n :: fs, c')
    else return ([], c)

/-- Hand fragments to `handle_l2cap`, in order. -/
def feed (att : AttHandler) (hw : Hw) :
    List Fragment → Conn → ConnEvent → Except Panic (Conn × ConnEvent)
  | [], d, result => return (d, result)
  | f :: fs, d, result => do
    let (d, result) ← d.handleL2capWith att hw f.payload f.llid result
    feed att hw fs d result

theorem drain_idle {c : Conn} (h : c.txPending = false) (fuel : Nat) :
    c.drain fuel = .ok ([], c) := by
  cases fuel with
  | zero => rfl
  | succ fuel => rw [drain, if_neg (by rw [h]; exact Bool.false_ne_true)]; rfl

theorem drain_pending {c c₁ c' : Conn} {n fuel : Nat} {fs : List Fragment}
    (h : c.txPending = true) (hf : c.txFragment = .ok (n, c₁))
    (hrest : c₁.drain fuel = .ok (fs, c')) :
    c.drain (fuel + 1) = .ok (c₁.fragmentAt n :: fs, c') := by
  rw [drain, if_pos h, hf, ok_bind]
  dsimp only
  rw [hrest]
  rfl

theorem feed_cons {att : AttHandler} {d d' : Conn} {f : Fragment} {result result' : ConnEvent}
    (h : d.handleL2capWith att hw f.payload f.llid result = .ok (d', result'))
    (fs : List Fragment) : feed att hw (f :: fs) d result = feed att hw fs d' result' := by
  rw [feed, h]
  rfl

theorem feed_append (att : AttHandler) (fs gs : List Fragment) (d : Conn) (result : ConnEvent) :
    feed att hw (fs ++ gs) d result =
      (do
        let r ← feed att hw fs d result
        feed att hw gs r.1 r.2) := by
  induction fs generalizing d result with
  | nil => rfl
  | cons f fs ih =>
    show (d.handleL2capWith att hw f.payload f.llid result >>= fun r =>
      feed att hw (fs ++ gs) r.1 r.2) = _
    cases h : d.handleL2capWith att hw f.payload f.llid result with
    | error p => rw [feed, h]; rfl
    | ok r => rw [feed_cons h, ok_bind, ih]

theorem feed_singleton (att : AttHandler) (f : Fragment) (d : Conn) (result : ConnEvent) :
    feed att hw [f] d result = d.handleL2capWith att hw f.payload f.llid result := by
  show (d.handleL2capWith att hw f.payload f.llid result >>= fun r => Except.ok (r.1, r.2)) = _
  cases d.handleL2capWith att hw f.payload f.llid result <;> rfl

end Conn

/-! ## The sender -/

/-- The slot holds the message, sent up to `o`, on the channel `cid`. -/
structure Sending (c : Conn) (m : List UInt8) (cid : UInt16) (o : Nat) : Prop where
  length : c.txAttLen = m.length
  bytes : c.txAtt.bytes.take m.length = m
  offset : c.txFragOffset = o
  pending : c.txPending = true
  cid : c.txCid = cid

/-- The message in the slot, if there is one on the channel `cid`. -/
def Conn.queuedOn (c : Conn) (cid : UInt16) : Option (List UInt8) :=
  if c.txPending = true ∧ c.txCid = cid then some (c.txAtt.bytes.take c.txAttLen) else none

theorem Sending.queuedOn {c : Conn} {m : List UInt8} {cid : UInt16} {o : Nat}
    (h : Sending c m cid o) : c.queuedOn cid = some m := by
  unfold Conn.queuedOn
  rw [if_pos ⟨h.pending, h.cid⟩, h.length, h.bytes]

/-- Once it is sent the slot is free. -/
theorem Conn.queuedOn_sent (c : Conn) (cid : UInt16) :
    ({ c with txPending := false } : Conn).queuedOn cid = none :=
  if_neg (fun h => Bool.false_ne_true h.1)

/-- `queue_l2cap` puts a message into the slot. -/
theorem Sending.queueL2cap (c : Conn) {m : List UInt8} (h : m.length ≤ 251) (cid : UInt16) :
    Sending (c.queueL2cap m cid) m cid 0 := by
  have hmin : min m.length l2capPayloadMax = m.length := Nat.min_eq_left h
  exact ⟨hmin, c.take_fillSlot m (hmin.trans_le h) hmin, rfl, rfl, rfl⟩

/-- The piece of a message that a fragment takes from `o` to `o + k`, the first one with the L2CAP
    header. -/
def messagePiece (m : List UInt8) (cid : UInt16) (o k : Nat) : List UInt8 :=
  (if o = 0 then le16 (UInt16.ofNat m.length) ++ le16 cid else []) ++ (m.take (o + k)).drop o

/-- **The next fragment** of whatever the slot holds, on any channel. -/
theorem Sending.fragment {c : Conn} {m : List UInt8} {cid : UInt16} {o : Nat}
    (h : Sending c m cid o) (hfits : c.FragFits) (hk : o + c.fragChunk ≤ m.length) :
    c.fragPayload = messagePiece m cid o c.fragChunk ∧
      ∃ n b, c.txFragment = .ok (n, c.afterFragment b) ∧
        (c.afterFragment b).fragmentAt n =
          ⟨c.fragLlid &&& 3, messagePiece m cid o c.fragChunk⟩ := by
  obtain ⟨b, hok, htake⟩ := Conn.txFragment_ok hfits
  have hpay : c.fragPayload = messagePiece m cid o c.fragChunk := by
    unfold Conn.fragPayload messagePiece
    rw [h.offset, h.length, h.cid]
    congr 2
    have hcut := congrArg (List.take (o + c.fragChunk)) h.bytes
    rw [List.take_take, Nat.min_eq_left hk] at hcut
    exact hcut
  refine ⟨hpay, _, b, hok, ?_⟩
  unfold Conn.fragmentAt
  rw [show (c.afterFragment b).txBuf = b from rfl, getD_zero_of_take htake, htake, hpay]
  have hllid := c.txHeader_llid c.fragLlid
  exact congrArg (Fragment.mk · _) hllid

/-- A message that fits one PDU, with its header in front. -/
def wholeMessage (m : List UInt8) (cid : UInt16) : Fragment :=
  ⟨llidDataComplete, le16 (UInt16.ofNat m.length) ++ le16 cid ++ m⟩

/-- Such a message goes out in one fragment. -/
theorem Sending.drain_whole {c : Conn} {m : List UInt8} {cid : UInt16} (h : Sending c m cid 0)
    (hpdu : m.length + 4 ≤ c.txPduMax) (hbuf : m.length + 4 ≤ 62) :
    ∃ c', c'.txPending = false ∧ ∀ fuel, 0 < fuel → c.drain fuel = .ok ([wholeMessage m cid], c') := by
  have hchunk : c.fragChunk = m.length := by
    rw [Conn.fragChunk_first h.offset, h.length]
    omega
  have hllid : c.fragLlid &&& 3 = llidDataComplete := by
    unfold Conn.fragLlid
    rw [if_pos h.offset, if_pos (hchunk.trans h.length.symm)]
    decide
  have hfits : c.FragFits := by
    refine ⟨by rw [h.offset]; omega, by rw [h.offset, hchunk]; omega, ?_⟩
    rw [if_pos h.offset, hchunk]
    omega
  obtain ⟨_, n, b, hok, hfrag⟩ := h.fragment hfits (by rw [hchunk]; omega)
  have hpiece : messagePiece m cid 0 c.fragChunk = le16 (UInt16.ofNat m.length) ++ le16 cid ++ m := by
    unfold messagePiece
    rw [if_pos rfl, hchunk, Nat.zero_add, List.take_length]
    rfl
  rw [hllid, hpiece] at hfrag
  have hidle : (c.afterFragment b).txPending = false := by
    show (if c.txAttLen ≤ c.txFragOffset + c.fragChunk then false else c.txPending) = false
    rw [if_pos (by rw [h.length, hchunk]; omega)]
  refine ⟨c.afterFragment b, hidle, ?_⟩
  intro fuel hfuel
  obtain ⟨fuel, rfl⟩ : ∃ k, fuel = k + 1 := ⟨fuel - 1, by omega⟩
  rw [Conn.drain_pending h.pending hok (Conn.drain_idle hidle fuel), hfrag]
  rfl

/-- The slot holds the message, sent up to `o`, on the ATT channel. -/
structure Holds (c : Conn) (m : List UInt8) (o : Nat) : Prop where
  length : c.txAttLen = m.length
  bytes : c.txAtt.bytes.take m.length = m
  offset : c.txFragOffset = o
  pending : c.txPending = true
  cid : c.txCid = l2capAttCid
  short : m.length ≤ 251
  inside : o = 0 ∨ o < m.length
  pduMin : 5 ≤ c.txPduMax
  pduMax : c.txPduMax ≤ 62

/-- The payload of a fragment that takes the message from `o` to `o + k`. -/
def fragmentPayload (m : List UInt8) (o k : Nat) : List UInt8 :=
  (if o = 0 then le16 (UInt16.ofNat m.length) ++ le16 l2capAttCid else []) ++
    (m.take (o + k)).drop o

theorem Holds.queueAtt {c : Conn} {m : List UInt8} (hm : m.length ≤ 251)
    (hoff : c.txFragOffset = 0) (hcid : c.txCid = l2capAttCid) (hlo : 5 ≤ c.txPduMax)
    (hhi : c.txPduMax ≤ 62) : Holds (c.queueAtt m) m 0 where
  length := Nat.min_eq_left hm
  bytes := c.take_fillSlot m (Nat.min_le_right _ _) (Nat.min_eq_left hm)
  offset := hoff
  pending := rfl
  cid := hcid
  short := hm
  inside := .inl rfl
  pduMin := hlo
  pduMax := hhi

theorem Holds.sending {c : Conn} {m : List UInt8} {o : Nat} (h : Holds c m o) :
    Sending c m l2capAttCid o := ⟨h.length, h.bytes, h.offset, h.pending, h.cid⟩

theorem Holds.slotInv {c : Conn} {m : List UInt8} {o : Nat} (h : Holds c m o) : SlotInv c := by
  have hin := h.inside
  have hs := h.short
  exact ⟨by rw [h.offset, h.length]; omega, by rw [h.length]; exact hs, .inl h.pduMax⟩

/-- A fragment stays inside the message and, unless the message is empty, moves on in it. -/
theorem Holds.chunk {c : Conn} {m : List UInt8} {o : Nat} (h : Holds c m o) :
    o + c.fragChunk ≤ m.length ∧ (0 < c.fragChunk ∨ m.length = 0) := by
  have hin := h.inside
  have hle := c.fragChunk_le
  have hpos : c.txFragOffset < c.txAttLen → 0 < c.fragChunk := fun hin' =>
    Conn.fragChunk_pos hin' h.pduMin
  rw [h.length, h.offset] at hle hpos
  omega

/-- **One step of the sender.** -/
theorem Holds.step {c : Conn} {m : List UInt8} {o : Nat} (h : Holds c m o) :
    ∃ n b, c.txFragment = .ok (n, c.afterFragment b) ∧
      (c.afterFragment b).fragmentAt n =
        ⟨c.fragLlid &&& 3, fragmentPayload m o c.fragChunk⟩ ∧
      (fragmentPayload m o c.fragChunk).length ≤ c.txPduMax := by
  obtain ⟨hpay, n, b, hok, hfrag⟩ := h.sending.fragment h.slotInv.fragFits h.chunk.1
  refine ⟨n, b, hok, hfrag, ?_⟩
  show (messagePiece m l2capAttCid o c.fragChunk).length ≤ c.txPduMax
  rw [← hpay]
  exact h.slotInv.fragFits.payload_le (Nat.le_of_succ_le h.pduMin)

/-- After a fragment the message is sent, or the slot holds it at the next offset. -/
theorem Holds.next {c : Conn} {m : List UInt8} {o : Nat} (h : Holds c m o) (b : Buf 64) :
    (o + c.fragChunk = m.length ∧ (c.afterFragment b).txPending = false) ∨
    (o + c.fragChunk < m.length ∧ Holds (c.afterFragment b) m (o + c.fragChunk)) := by
  have hk := h.chunk.1
  unfold Conn.afterFragment
  rw [h.offset, h.length]
  rcases Nat.lt_or_ge (o + c.fragChunk) m.length with hlt | hge
  · right
    rw [if_neg (by omega), if_neg (by omega)]
    exact ⟨hlt, rfl, h.bytes, rfl, h.pending, h.cid, h.short, .inr hlt, h.pduMin, h.pduMax⟩
  · left
    rw [if_pos hge, if_pos hge]
    exact ⟨by omega, rfl⟩

/-! ## The receiver -/

/-- The receiver has the first `o` bytes of the message; otherwise it is as `d₀`. -/
structure Collects (d₀ d : Conn) (m : List UInt8) (o : Nat) : Prop where
  frame : d = { d₀ with
    rxL2cap := d.rxL2cap, rxL2capLen := o, rxL2capMsgLen := m.length, rxL2capCid := l2capAttCid }
  bytes : d.rxL2cap.bytes.take o = m.take o

/-- The receiver is ready for the fragment at `o`: anything will do for the first one. -/
def Ready (d₀ d : Conn) (m : List UInt8) (o : Nat) : Prop :=
  (o = 0 ∧ d = d₀) ∨ (0 < o ∧ Collects d₀ d m o)

/-- A fragment that a ready receiver takes goes to the reassembler, without its header. -/
theorem Ready.handle (hw : Hw) {d₀ d : Conn} {m : List UInt8} {o : Nat} (h : Ready d₀ d m o)
    (hm : m.length ≤ 256) {llid : UInt8} (hllid : o = 0 ↔ llid ≠ llidDataContinuationOrComplete)
    (k : Nat) :
    ∃ d', Collects d₀ d' m o ∧ ∀ (att : Conn.AttHandler) (result : ConnEvent),
      d.handleL2capWith att hw (fragmentPayload m o k) llid result =
        d'.reassemble att ((m.take (o + k)).drop o) result := by
  unfold fragmentPayload
  rcases h with ⟨rfl, rfl⟩ | ⟨hpos, hc⟩
  · -- the LLID restarts the collection, whatever was collected before
    have hfirst : d.isFirst llid = true := by
      unfold Conn.isFirst
      exact decide_eq_true (.inl (hllid.mp rfl))
    have hlen : (UInt16.ofNat m.length).toNat = m.length := by
      rw [UInt16.toNat_ofNat']
      omega
    refine ⟨{ d with
      rxL2capLen := 0, rxL2capMsgLen := m.length, rxL2capCid := l2capAttCid }, ⟨rfl, rfl⟩, ?_⟩
    intro att result
    rw [if_pos rfl, le16_eq, le16_eq]
    show d.handleL2capWith att hw (_ :: _ :: _ :: _ :: (m.take (0 + k)).drop 0) llid result = _
    rw [Conn.handleL2cap_first att hw hfirst, ofLe16_le16, ofLe16_le16]
    unfold Conn.startMessage
    rw [hlen]
    rfl
  · have hfirst : d.isFirst llid = false := by
      have hcont : llid = llidDataContinuationOrComplete := by
        by_contra hne
        have := hllid.mpr hne
        omega
      have hlen : d.rxL2capLen = o := by rw [hc.frame]
      unfold Conn.isFirst
      refine decide_eq_false ?_
      rintro (hne | h0)
      · exact hne hcont
      · omega
    refine ⟨d, hc, ?_⟩
    intro att result
    rw [if_neg (by omega), List.nil_append, Conn.handleL2cap_continuation att hw hfirst]

/-- **One step of the receiver.**  A piece that does not complete the message is only collected; the
    one that does hands the whole message to ATT. -/
theorem Collects.step {d₀ d : Conn} {m : List UInt8} {o k : Nat} (h : Collects d₀ d m o)
    (hm : m.length ≤ 256) (hk : o + k ≤ m.length) :
    ∃ d', Collects d₀ d' m (o + k) ∧ ∀ (att : Conn.AttHandler) (result : ConnEvent),
      d.reassemble att ((m.take (o + k)).drop o) result =
        if o + k < m.length then .ok (d', result)
        else do
          let r ← att d' m result
          return ({ r.1 with rxL2capLen := 0 }, r.2) := by
  have hlen : d.rxL2capLen = o := by rw [h.frame]
  have hmsg : d.rxL2capMsgLen = m.length := by rw [h.frame]
  have hcol : d.collected ((m.take (o + k)).drop o) = m.take (o + k) := by
    unfold Conn.collected
    rw [hlen, h.bytes]
    have hsplit := List.take_append_drop o (m.take (o + k))
    rwa [List.take_take, Nat.min_eq_left (by omega)] at hsplit
  have hclen : (m.take (o + k)).length = o + k := by rw [List.length_take]; omega
  obtain ⟨b, hb, hspec⟩ := Conn.reassemble_spec (c := d) (by omega) ((m.take (o + k)).drop o)
  have hfull : (m.take (o + k)).take 256 = m.take (o + k) := List.take_of_length_le (by omega)
  rw [hcol, hclen, Nat.min_eq_left (by omega : o + k ≤ 256), hfull] at hb
  rw [hcol, hclen, hmsg, Nat.min_eq_left (by omega : m.length ≤ 256),
    Nat.min_eq_left (by omega : o + k ≤ 256)] at hspec
  refine ⟨{ d with rxL2cap := b, rxL2capLen := o + k, rxL2capMsgLen := m.length },
    ⟨by rw [h.frame], hb⟩, ?_⟩
  intro att result
  rw [hspec att result]
  dsimp only
  by_cases hmore : o + k < m.length
  · rw [if_neg (by omega), if_pos hmore]
    rfl
  · have hall : (m.take (o + k)).take m.length = m := by
      rw [List.take_take, List.take_of_length_le (by omega)]
    rw [if_pos (by omega), if_neg hmore, hall]

/-! ## Together -/

/-- The rest of the message goes over in the fragments `fs`, with `fuel` calls of `tx_fragment`:
    each is small enough, all but the last are only collected, and the last hands the message to
    ATT. -/
structure Transfer (hw : Hw) (fuel : Nat) (c d₀ d : Conn) (m : List UInt8) (fs : List Fragment)
    (c' : Conn) : Prop where
  drain : ∀ n, fuel ≤ n → c.drain n = .ok (fs, c')
  idle : c'.txPending = false
  small : ∀ f ∈ fs, f.payload.length ≤ c.txPduMax
  received : ∃ before last d₁ d₂, fs = before ++ [last] ∧ Collects d₀ d₂ m m.length ∧
    (∀ att result, Conn.feed att hw before d result = .ok (d₁, result)) ∧
    ∀ (att : Conn.AttHandler) (result : ConnEvent),
      d₁.handleL2capWith att hw last.payload last.llid result = (do
        let r ← att d₂ m result
        return ({ r.1 with rxL2capLen := 0 }, r.2))

/-- The LLID of a fragment says whether it is the first. -/
theorem fragLlid_first (c : Conn) :
    c.txFragOffset = 0 ↔ c.fragLlid &&& 3 ≠ llidDataContinuationOrComplete := by
  unfold Conn.fragLlid
  by_cases h0 : c.txFragOffset = 0
  · rw [if_pos h0]
    refine iff_of_true h0 ?_
    split <;> decide
  · rw [if_neg h0]
    exact iff_of_false h0 (by decide)

/-- A ready receiver takes the next fragment of a sender: it collects it, or, if it is the last,
    hands the message to ATT. -/
theorem Ready.step (hw : Hw) {c d₀ d : Conn} {m : List UInt8} {o : Nat} (hc : Holds c m o)
    (hd : Ready d₀ d m o) :
    ∃ d', Collects d₀ d' m (o + c.fragChunk) ∧ ∀ (att : Conn.AttHandler) (result : ConnEvent),
      d.handleL2capWith att hw (fragmentPayload m o c.fragChunk) (c.fragLlid &&& 3) result =
        if o + c.fragChunk < m.length then .ok (d', result)
        else do
          let r ← att d' m result
          return ({ r.1 with rxL2capLen := 0 }, r.2) := by
  have hllid := fragLlid_first c
  have hshort := hc.short
  rw [hc.offset] at hllid
  obtain ⟨d₁, hd₁, hhandle⟩ := hd.handle hw (by omega) hllid c.fragChunk
  obtain ⟨d', hd', hstep⟩ := hd₁.step (by omega) hc.chunk.1
  refine ⟨d', hd', ?_⟩
  intro att result
  rw [hhandle, hstep]

/-- **The whole message goes over**, from any offset: induction on what is left of it. -/
theorem Holds.transfer (hw : Hw) {c d₀ d : Conn} {m : List UInt8} {o : Nat} (hc : Holds c m o)
    (hd : Ready d₀ d m o) :
    ∃ fs c', Transfer hw (m.length - o + 1) c d₀ d m fs c' := by
  induction hleft : m.length - o using Nat.strong_induction_on generalizing c d o with
  | _ left ih =>
    obtain ⟨n, b, hfrag, hf, hsmall⟩ := hc.step
    obtain ⟨d', hd', hhandle⟩ := Ready.step hw hc hd
    rcases hc.next b with ⟨hall, hidle⟩ | ⟨hmore, hnext⟩
    · -- the last fragment
      refine ⟨[(c.afterFragment b).fragmentAt n], c.afterFragment b, ?_, hidle, ?_,
        [], _, d, d', rfl, hall ▸ hd', fun _ _ => rfl, ?_⟩
      · intro fuel hfuel
        obtain ⟨fuel, rfl⟩ : ∃ k, fuel = k + 1 := ⟨fuel - 1, by omega⟩
        exact Conn.drain_pending hc.pending hfrag (Conn.drain_idle hidle fuel)
      · intro f hmem
        rw [List.mem_singleton.mp hmem, hf]
        exact hsmall
      · intro att result
        rw [hf, hhandle, if_neg (by omega)]
    · -- a fragment in between, and the rest
      have hpos : 0 < c.fragChunk := hc.chunk.2.resolve_right (by omega)
      obtain ⟨fs, c', hrest⟩ := ih (m.length - (o + c.fragChunk)) (by omega) hnext
        (.inr ⟨by omega, hd'⟩) rfl
      obtain ⟨before, last, d₁, d₂, hfs, hd₂, hbefore, hlast⟩ := hrest.received
      refine ⟨(c.afterFragment b).fragmentAt n :: fs, c', ?_, hrest.idle, ?_,
        (c.afterFragment b).fragmentAt n :: before, last, d₁, d₂, by rw [hfs]; rfl, hd₂, ?_, hlast⟩
      · intro fuel hfuel
        obtain ⟨fuel, rfl⟩ : ∃ k, fuel = k + 1 := ⟨fuel - 1, by omega⟩
        exact Conn.drain_pending hc.pending hfrag (hrest.drain fuel (by omega))
      · intro f hmem
        rcases List.mem_cons.mp hmem with rfl | hmem
        · rw [hf]; exact hsmall
        · exact hrest.small f hmem
      · intro att result
        have htake : d.handleL2capWith att hw ((c.afterFragment b).fragmentAt n).payload
            ((c.afterFragment b).fragmentAt n).llid result = .ok (d', result) := by
          rw [hf, hhandle, if_pos hmore]
        rw [Conn.feed_cons htake, hbefore]

/-- `handle_att` returns on the message iff it is empty or safe. -/
theorem returns_handleAtt_iff (c : Conn) (m : List UInt8) (result : ConnEvent) :
    Returns (c.handleAtt m result) ↔ ∀ op ∈ m.head?, c.AttSafe op m.length := by
  cases m with
  | nil => exact iff_of_true (returns_pure _) (fun op h => by cases h)
  | cons op rest =>
    rw [Conn.returns_handleAtt]
    constructor
    · intro h op' hop
      cases hop
      exact h
    · exact fun h => h op rfl

/-- **Reassembly undoes fragmentation.**  A message of at most 251 bytes, queued on a rewound slot on
    the ATT channel with a PDU size between 5 and 62, goes out in finitely many fragments of at
    most that size.  Fed in order to another connection, in any state, all but the last leave ATT
    alone, and the last calls it once, with the message, and empties the collection when ATT
    returns.  It does return iff the message is empty or safe to hand to `handle_att`. -/
theorem reassembly_undoes_fragmentation (hw : Hw) (c d : Conn) (m : List UInt8)
    (result : ConnEvent) (hm : m.length ≤ 251) (hoff : c.txFragOffset = 0)
    (hcid : c.txCid = l2capAttCid) (hlo : 5 ≤ c.txPduMax) (hhi : c.txPduMax ≤ 62) :
    ∃ fs c', (∀ fuel, m.length < fuel → (c.queueAtt m).drain fuel = .ok (fs, c')) ∧
      c'.txPending = false ∧ (∀ f ∈ fs, f.payload.length ≤ c.txPduMax) ∧
      (∃ before last d₁ d₂, fs = before ++ [last] ∧
        (∀ att, Conn.feed att hw before d result = .ok (d₁, result)) ∧
        ∀ att : Conn.AttHandler,
          d₁.handleL2capWith att hw last.payload last.llid result = (do
            let r ← att d₂ m result
            return ({ r.1 with rxL2capLen := 0 }, r.2))) ∧
      ((∃ e r, Conn.feed Conn.handleAtt hw fs d result = .ok (e, r) ∧ e.rxL2capLen = 0) ↔
        ∀ op ∈ m.head?, d.AttSafe op m.length) := by
  obtain ⟨fs, c', h⟩ := (Holds.queueAtt hm hoff hcid hlo hhi).transfer hw
    (.inl ⟨rfl, rfl⟩ : Ready d d m 0)
  obtain ⟨before, last, d₁, d₂, hfs, hd₂, hbefore, hlast⟩ := h.received
  refine ⟨fs, c', fun fuel hfuel => h.drain fuel (by omega), h.idle, h.small,
    ⟨before, last, d₁, d₂, hfs, fun att => hbefore att result, fun att => hlast att result⟩, ?_⟩
  have hfeed : Conn.feed Conn.handleAtt hw fs d result = (do
      let r ← d₂.handleAtt m result
      return ({ r.1 with rxL2capLen := 0 }, r.2)) := by
    rw [hfs, Conn.feed_append, hbefore, ok_bind, Conn.feed_singleton, hlast]
  -- nothing but the collection differs between the receiver before and at the call
  have hsafe : ∀ op, d₂.AttSafe op m.length ↔ d.AttSafe op m.length := by
    intro op
    unfold Conn.AttSafe
    rw [show d₂.pendingRequest = d.pendingRequest by rw [hd₂.frame]]
  have hret : (∀ op ∈ m.head?, d.AttSafe op m.length) ↔ Returns (d₂.handleAtt m result) := by
    rw [returns_handleAtt_iff]
    simp only [hsafe]
  rw [hret, hfeed]
  constructor
  · rintro ⟨e, r, hok, _⟩
    obtain ⟨a, ha, _⟩ := bind_eq_ok.mp hok
    exact ⟨a, ha⟩
  · rintro ⟨a, ha⟩
    rw [ha]
    exact ⟨_, _, rfl, rfl⟩

/-- A read request goes over in two fragments and is answered. -/
theorem reassembly_undoes_fragmentation_read :
    let c := { Conn.sample .slave with txPduMax := 5 }
    ∃ fs c', (c.queueAtt [0x0A, 3, 0]).drain 4 = .ok (fs, c') ∧ c'.txPending = false ∧
      ∃ e r, Conn.feed Conn.handleAtt Hw.standIn fs (Conn.sample .master) .idle = .ok (e, r) ∧
        e.rxL2capLen = 0 := by
  obtain ⟨fs, c', hdrain, hidle, _, _, hiff⟩ := reassembly_undoes_fragmentation Hw.standIn
    { Conn.sample .slave with txPduMax := 5 } (Conn.sample .master) [0x0A, 3, 0] .idle
    (by decide) rfl rfl (by decide) (by decide)
  have hsafe : ∀ op ∈ [(0x0A : UInt8), 3, 0].head?,
      (Conn.sample .master).AttSafe op [(0x0A : UInt8), 3, 0].length := by
    intro op hop
    cases hop
    exact .inr (by decide)
  exact ⟨fs, c', hdrain 4 (by decide), hidle, hiff.mpr hsafe⟩

/-- An ATT request of one byte is put together again, and crashes the connection that did. -/
theorem short_request_crashes_receiver :
    (((Conn.sample .slave).queueAtt [0x04]).drain 2).map Prod.fst = .ok [⟨3, [1, 0, 4, 0, 0x04]⟩] ∧
      ¬ Returns (Conn.feed Conn.handleAtt Hw.standIn [⟨3, [1, 0, 4, 0, 0x04]⟩]
        (Conn.sample .master) .idle) := by
  decide +kernel

end NrfBle
