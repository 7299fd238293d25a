/-
  Data over a credit-based channel, from `l2cap_send` to `rx_coc_sdu`.

  An SDU goes out behind two headers: its own length, which `l2cap_send` writes, and the L2CAP header
  of the first fragment.  The receiver is two collectors, one inside the other: `handle_l2cap` for the
  fragments of a message, `rx_coc_sdu` for the frames of an SDU.  But on this channel the outer one
  does not collect.  It hands over the rest of the FIRST fragment and forgets the message; the next
  fragment, although a continuation, finds nothing collected and is taken for a new message.  If it has
  four bytes, they are read as a header: user data decides which channel it goes to.  If it has fewer,
  it is dropped.

  So an SDU arrives iff it goes out in one piece.  When it does not, what is collected of it falls short
  of its length by every byte that was read as a header or dropped: as long as no fragment is
  misrouted, it never becomes complete (`Behind`).  It stays in the record, in the way of the next one;
  an end that was only ever sent whole SDUs (`Receiving`) is always between two of them.
-/
import Mathlib.Tactic
import NrfBle.Hw.Conn.Credits
import NrfBle.Hw.Conn.Reassembly

namespace NrfBle

open Checked

/-! ## The sender -/

/-- The message `l2cap_send` queues: the SDU behind its length. -/
def sduMessage (data : List UInt8) : List UInt8 := le16 (UInt16.ofNat data.length) ++ data

theorem sduMessage_length (data : List UInt8) : (sduMessage data).length = data.length + 2 := by
  unfold sduMessage
  rw [List.length_append, le16_length]
  omega

/-- Data that `l2cap_send` accepts is in the slot, rewound. -/
theorem l2capSend_sending {c : Conn} {coc : Coc} {data : List UInt8} (hcoc : c.coc = some coc)
    (h : (c.l2capSend data).1 = .ok ()) :
    Sending (c.l2capSend data).2 (sduMessage data) coc.localCid 0 ∧
      (c.l2capSend data).2.txPduMax = c.txPduMax := by
  have hlen := sduMessage_length data
  unfold Conn.l2capSend at h ⊢
  rw [hcoc] at h ⊢
  dsimp only at h ⊢
  split at h
  · cases h
  · split at h
    · cases h
    · rename_i hfits hcredits
      rw [dif_neg hfits, if_neg hcredits]
      refine ⟨⟨hlen.symm, ?_, rfl, rfl, rfl⟩, rfl⟩
      show (c.txAtt.bytes.take 0 ++ sduMessage data ++ c.txAtt.bytes.drop _).take
        (sduMessage data).length = sduMessage data
      rw [List.take_zero, List.nil_append, List.take_left]

/-- What a list of fragments carries. -/
def payloads (fs : List Fragment) : List UInt8 := (fs.map Fragment.payload).flatten

theorem payloads_cons (f : Fragment) (fs : List Fragment) :
    payloads (f :: fs) = f.payload ++ payloads fs := List.flatten_cons

/-- A fragment that is not the last leaves the rest of the message in the slot. -/
theorem Sending.next {c : Conn} {m : List UInt8} {cid : UInt16} {o : Nat} (h : Sending c m cid o)
    (hmore : o + c.fragChunk < m.length) (b : Buf 64) :
    Sending (c.afterFragment b) m cid (o + c.fragChunk) := by
  have hnot : ¬ c.txAttLen ≤ c.txFragOffset + c.fragChunk := by
    rw [h.length, h.offset]
    omega
  refine ⟨h.length, h.bytes, ?_, ?_, h.cid⟩
  · show (if c.txAttLen ≤ c.txFragOffset + c.fragChunk then 0 else c.txFragOffset + c.fragChunk) = _
    rw [if_neg hnot, h.offset]
  · show (if c.txAttLen ≤ c.txFragOffset + c.fragChunk then false else c.txPending) = true
    rw [if_neg hnot, h.pending]

theorem afterFragment_idle {c : Conn} {m : List UInt8} {cid : UInt16} {o : Nat}
    (h : Sending c m cid o) (hall : m.length ≤ o + c.fragChunk) (b : Buf 64) :
    (c.afterFragment b).txPending = false := by
  show (if c.txAttLen ≤ c.txFragOffset + c.fragChunk then false else c.txPending) = false
  rw [h.length, h.offset, if_pos hall]

/-- **What is left of a message goes out in continuations**: induction on how much that is. -/
theorem Sending.drain_rest {c : Conn} {m : List UInt8} {cid : UInt16} {o : Nat}
    (h : Sending c m cid o) (hpos : 0 < o) (hin : o < m.length) (hm : m.length ≤ 251)
    (hlo : 0 < c.txPduMax) (hhi : c.txPduMax ≤ 62) :
    ∃ fs c', c'.txPending = false ∧ payloads fs = m.drop o ∧
      ∀ fuel, m.length - o ≤ fuel → c.drain fuel = .ok (fs, c') := by
  induction hleft : m.length - o using Nat.strong_induction_on generalizing c o with
  | _ left ih =>
    have hchunk : c.fragChunk = min (m.length - o) c.txPduMax := by
      rw [Conn.fragChunk_next (by rw [h.offset]; omega), h.length, h.offset]
    have hfits : c.FragFits := by
      refine ⟨by rw [h.length, h.offset]; omega, by rw [h.offset]; omega, ?_⟩
      rw [h.offset, if_neg (by omega)]
      omega
    obtain ⟨_, n, b, hok, hfrag⟩ := h.fragment hfits (by omega)
    have hpiece : messagePiece m cid o c.fragChunk = (m.drop o).take c.fragChunk := by
      unfold messagePiece
      rw [if_neg (by omega), List.nil_append, List.drop_take]
      congr 1
      omega
    rw [hpiece] at hfrag
    rcases Nat.lt_or_ge (o + c.fragChunk) m.length with hmore | hall
    · obtain ⟨fs, c', hidle, hrest, hdrain⟩ := ih (m.length - (o + c.fragChunk)) (by omega)
        (h.next hmore b) (by omega) hmore hlo hhi rfl
      refine ⟨(c.afterFragment b).fragmentAt n :: fs, c', hidle, ?_, ?_⟩
      · rw [payloads_cons, hrest, hfrag, ← List.drop_drop, List.take_append_drop]
      · intro fuel hfuel
        obtain ⟨fuel, rfl⟩ : ∃ k, fuel = k + 1 := ⟨fuel - 1, by omega⟩
        exact Conn.drain_pending h.pending hok (hdrain fuel (by omega))
    · have hidle := afterFragment_idle h hall b
      refine ⟨[(c.afterFragment b).fragmentAt n], c.afterFragment b, hidle, ?_, ?_⟩
      · rw [hfrag]
        show (m.drop o).take c.fragChunk ++ [] = m.drop o
        rw [List.append_nil, List.take_of_length_le (by rw [List.length_drop]; omega)]
      · intro fuel hfuel
        obtain ⟨fuel, rfl⟩ : ∃ k, fuel = k + 1 := ⟨fuel - 1, by omega⟩
        exact Conn.drain_pending h.pending hok (Conn.drain_idle hidle fuel)

/-- A message that does not fit one PDU goes out as a start and continuations. -/
theorem Sending.drain_cut {c : Conn} {m : List UInt8} {cid : UInt16} (h : Sending c m cid 0)
    (hm : m.length ≤ 251) (hlo : 5 ≤ c.txPduMax) (hhi : c.txPduMax ≤ 62)
    (hcut : c.txPduMax < m.length + 4) :
    ∃ fs c', c'.txPending = false ∧ payloads fs = m.drop (c.txPduMax - 4) ∧
      ∀ fuel, m.length < fuel → c.drain fuel = .ok (⟨llidDataStart,
        le16 (UInt16.ofNat m.length) ++ le16 cid ++ m.take (c.txPduMax - 4)⟩ :: fs, c') := by
  have hchunk : c.fragChunk = c.txPduMax - 4 := by
    rw [Conn.fragChunk_first h.offset, h.length]
    omega
  have hfits : c.FragFits := by
    refine ⟨by rw [h.offset]; omega, by rw [h.offset]; omega, ?_⟩
    rw [h.offset, if_pos rfl]
    omega
  have hllid : c.fragLlid &&& 3 = llidDataStart := by
    unfold Conn.fragLlid
    rw [if_pos h.offset, if_neg (by rw [h.length]; omega)]
    decide
  obtain ⟨_, n, b, hok, hfrag⟩ := h.fragment hfits (by omega)
  have hpiece : messagePiece m cid 0 c.fragChunk =
      le16 (UInt16.ofNat m.length) ++ le16 cid ++ m.take (c.txPduMax - 4) := by
    unfold messagePiece
    rw [if_pos rfl, hchunk, Nat.zero_add]
    rfl
  rw [hllid, hpiece] at hfrag
  have hnext := h.next (by omega) b
  rw [Nat.zero_add, hchunk] at hnext
  obtain ⟨fs, c', hidle, hrest, hdrain⟩ := hnext.drain_rest (by omega) (by omega) hm
    (show 0 < c.txPduMax by omega) hhi
  refine ⟨fs, c', hidle, hrest, ?_⟩
  intro fuel hfuel
  obtain ⟨fuel, rfl⟩ : ∃ k, fuel = k + 1 := ⟨fuel - 1, by omega⟩
  rw [Conn.drain_pending h.pending hok (hdrain fuel (by omega)), hfrag]

/-! ## The receiver -/

/-- A piece that fits is appended. -/
theorem Coc.append_of_fits {coc : Coc} {chunk : List UInt8} (h : coc.rxSduLen + chunk.length ≤ 256) :
    ∃ b : Buf 256,
      coc.append chunk = .ok { coc with rxSdu := b, rxSduLen := coc.rxSduLen + chunk.length } ∧
      b.bytes.take (coc.rxSduLen + chunk.length) = coc.rxSdu.bytes.take coc.rxSduLen ++ chunk := by
  obtain ⟨b, hb⟩ := (coc.rxSdu.returns_write).mpr h
  refine ⟨b, ?_, Buf.take_of_write hb⟩
  have hmin : min chunk.length (256 - coc.rxSduLen) = chunk.length := by omega
  unfold Coc.append
  rw [sub_of_le (by omega), ok_bind, hmin]
  dsimp only
  rw [List.take_length, hb]
  rfl

namespace Conn

/-- The first frame of an SDU: all of it, or a part. -/
theorem rxCocSdu_start {c : Conn} {coc : Coc} (hcoc : c.coc = some coc) (h0 : coc.rxSduLen = 0)
    (total : UInt16) {chunk : List UInt8} (hfit : chunk.length ≤ 256) (result : ConnEvent) :
    ∃ b : Buf 256, b.bytes.take chunk.length = chunk ∧
      c.rxCocSdu (le16 total ++ chunk) result =
        if total.toNat ≤ chunk.length then
          .ok (c.finishSdu { coc with
            rxSdu := b, rxSduTotal := total.toNat, rxSduLen := chunk.length }, .data)
        else
          .ok ({ c with coc := some { coc with
            rxSdu := b, rxSduTotal := total.toNat, rxSduLen := chunk.length } }, result) := by
  obtain ⟨b, happend, hbytes⟩ := Coc.append_of_fits
    (show ({ coc with rxSduTotal := total.toNat } : Coc).rxSduLen + chunk.length ≤ 256 by
      show coc.rxSduLen + chunk.length ≤ 256
      omega)
  dsimp only at happend hbytes
  rw [h0, Nat.zero_add] at hbytes
  refine ⟨b, hbytes, ?_⟩
  have hcollect : coc.collect (le16 total ++ chunk) = .ok { coc with
      rxSdu := b, rxSduTotal := total.toNat, rxSduLen := chunk.length } := by
    have hchunk : slice (le16 total ++ chunk) 2 (le16 total ++ chunk).length = .ok chunk := by
      rw [slice_of_le (by rw [List.length_append, le16_length]; omega) (Nat.le_refl _),
        List.take_length]
      rfl
    have htotal : rd16 (le16 total ++ chunk) 0 = .ok total := by
      rw [le16_eq]
      exact congrArg Except.ok (ofLe16_le16 total)
    unfold Coc.collect
    rw [if_pos h0, htotal, hchunk]
    refine happend.trans ?_
    rw [h0, Nat.zero_add]
  unfold rxCocSdu
  rw [hcoc]
  dsimp only
  rw [if_neg (by rw [List.length_append, le16_length]; omega), hcollect]
  rfl

/-- A later frame of an SDU: the rest of it, or a part. -/
theorem rxCocSdu_next {c : Conn} {coc : Coc} (hcoc : c.coc = some coc) (hpos : 0 < coc.rxSduLen)
    {body : List UInt8} (hfit : coc.rxSduLen + body.length ≤ 256) (result : ConnEvent) :
    ∃ b : Buf 256,
      b.bytes.take (coc.rxSduLen + body.length) = coc.rxSdu.bytes.take coc.rxSduLen ++ body ∧
      c.rxCocSdu body result =
        if coc.rxSduTotal ≤ coc.rxSduLen + body.length then
          .ok (c.finishSdu { coc with rxSdu := b, rxSduLen := coc.rxSduLen + body.length }, .data)
        else
          .ok ({ c with coc := some { coc with
            rxSdu := b, rxSduLen := coc.rxSduLen + body.length } }, result) := by
  obtain ⟨b, happend, hbytes⟩ := Coc.append_of_fits hfit
  refine ⟨b, hbytes, ?_⟩
  unfold rxCocSdu
  rw [hcoc]
  dsimp only
  rw [if_neg (by omega)]
  unfold Coc.collect
  rw [if_neg (by omega), happend, ok_bind]
  rfl

/-- A later frame that leaves the SDU incomplete. -/
theorem rxCocSdu_more {c : Conn} {coc : Coc} (hcoc : c.coc = some coc) (hpos : 0 < coc.rxSduLen)
    {body : List UInt8} (hfit : coc.rxSduLen + body.length ≤ 256)
    (hless : coc.rxSduLen + body.length < coc.rxSduTotal) (result : ConnEvent) :
    ∃ b : Buf 256, c.rxCocSdu body result =
      .ok ({ c with coc := some { coc with
        rxSdu := b, rxSduLen := coc.rxSduLen + body.length } }, result) := by
  obtain ⟨b, _, hnext⟩ := rxCocSdu_next hcoc hpos hfit result
  rw [if_neg (by omega)] at hnext
  exact ⟨b, hnext⟩

/-- A PDU that starts a message on the channel. -/
theorem handleL2cap_coc (hw : Hw) {c : Conn} {coc : Coc} {llid : UInt8} (hcoc : c.coc = some coc)
    (hlocal : coc.localCid = cocLocalCid) (hfirst : c.isFirst llid = true) (l₀ l₁ d₀ d₁ : UInt8)
    (hcid : ofLe16 d₀ d₁ = cocLocalCid) (body : List UInt8) (result : ConnEvent) :
    c.handleL2cap hw (l₀ :: l₁ :: d₀ :: d₁ :: body) llid result =
      (c.headerRead (ofLe16 l₀ l₁) cocLocalCid).rxCocSdu body result := by
  have hmine : (c.headerRead (ofLe16 l₀ l₁) cocLocalCid).isCoc cocLocalCid = true := by
    show c.coc.any (fun coc => coc.hasCid cocLocalCid) = true
    rw [hcoc]
    exact decide_eq_true (.inl hlocal.symm)
  rw [handleL2cap, handleL2cap_first handleAtt hw hfirst, hcid]
  unfold startMessage
  rw [if_neg (by decide), if_neg (by decide), if_neg (by decide)]
  exact if_pos hmine

/-- The first fragment of such a message. -/
theorem handleL2cap_coc_start (hw : Hw) {c : Conn} {coc : Coc} {llid : UInt8}
    (hcoc : c.coc = some coc) (hlocal : coc.localCid = cocLocalCid)
    (hllid : llid ≠ llidDataContinuationOrComplete) (msgLen : UInt16) (body : List UInt8)
    (result : ConnEvent) :
    c.handleL2cap hw (le16 msgLen ++ le16 cocLocalCid ++ body) llid result =
      (c.headerRead msgLen cocLocalCid).rxCocSdu body result := by
  have hfirst : c.isFirst llid = true := decide_eq_true (.inl hllid)
  rw [le16_eq, le16_eq]
  show c.handleL2cap hw (_ :: _ :: _ :: _ :: body) llid result = _
  rw [handleL2cap_coc hw hcoc hlocal hfirst _ _ _ _ (ofLe16_le16 cocLocalCid), ofLe16_le16]

/-- **`rx_l2cap_cid` is the channel id of the last header read**: no handler writes it. -/
theorem handleL2cap_header {hw : Hw} {c c' : Conn} {llid : UInt8} (hfirst : c.isFirst llid = true)
    {l₀ l₁ d₀ d₁ : UInt8} {body : List UInt8} {result result' : ConnEvent}
    (h : c.handleL2cap hw (l₀ :: l₁ :: d₀ :: d₁ :: body) llid result = .ok (c', result')) :
    c'.rxL2capCid = ofLe16 d₀ d₁ := by
  cases handleL2cap_cases h with
  | continued hcont => exact absurd hfirst (by rw [hcont]; exact Bool.false_ne_true)
  | dropped _ hshort => exact absurd hshort (by simp only [List.length_cons]; omega)
  | smp => exact congrArg Conn.rxL2capCid (handleSmp_frame hw (c.headerRead _ _) body)
  | signaling _ hrun =>
    rcases handleLeSignaling_cases hrun with rfl | ⟨_, _, _, rfl⟩ | ⟨_, _, _, rfl, _⟩ | rfl <;> rfl
  | att _ hrun => exact congrArg Conn.rxL2capCid (reassemble_frame hrun)
  | coc _ hrun => exact congrArg Conn.rxL2capCid (rxCocSdu_frame hrun)
  | unknown => rfl

end Conn

/-! ## Together -/

/-- Data on its way: the two ends of an open channel, a PDU size from 27 to 62, and at most 244 bytes
    that `l2cap_send` accepts. -/
structure SduTransfer (s r : Conn) (data : List UInt8) : Prop where
  sender : ∃ coc, s.coc = some coc ∧ coc.localCid = cocLocalCid
  receiver : ∃ coc, r.coc = some coc ∧ coc.localCid = cocLocalCid
  pduMin : 27 ≤ s.txPduMax
  pduMax : s.txPduMax ≤ 62
  short : data.length ≤ 244
  accepted : (s.l2capSend data).1 = .ok ()

/-- What goes out: the fragments until the slot is empty. -/
def Conn.SendsAs (s : Conn) (data : List UInt8) (fs : List Fragment) : Prop :=
  ∃ s', s'.txPending = false ∧
    ∀ fuel, data.length + 2 < fuel → (s.l2capSend data).2.drain fuel = .ok (fs, s')

theorem Conn.SendsAs.unique {s : Conn} {data : List UInt8} {fs gs : List Fragment}
    (h : s.SendsAs data fs) (h' : s.SendsAs data gs) : fs = gs := by
  obtain ⟨s₁, _, h₁⟩ := h
  obtain ⟨s₂, _, h₂⟩ := h'
  have heq := (h₁ _ (Nat.lt_succ_self _)).symm.trans (h₂ _ (Nat.lt_succ_self _))
  cases heq
  rfl

/-- The two headers and the data fit one PDU: it goes out whole. -/
theorem SduTransfer.sendsAs_whole {s r : Conn} {data : List UInt8} (h : SduTransfer s r data)
    (hone : data.length + 6 ≤ s.txPduMax) :
    s.SendsAs data [wholeMessage (sduMessage data) cocLocalCid] := by
  obtain ⟨coc, hcoc, hlocal⟩ := h.sender
  obtain ⟨hsending, hpdu⟩ := l2capSend_sending hcoc h.accepted
  rw [hlocal] at hsending
  have hm := sduMessage_length data
  have hhi := h.pduMax
  obtain ⟨s', hidle, hdrain⟩ := hsending.drain_whole (by omega) (by omega)
  exact ⟨s', hidle, fun fuel hfuel => hdrain fuel (by omega)⟩

/-- Hand fragments to `handle_l2cap`, each in an event of its own: the state after each, and what it
    reported. -/
def Conn.feedEach (hw : Hw) : List Fragment → Conn → Except Panic (List (Conn × ConnEvent))
  | [], _ => return []
  | f :: fs, d => do
    let r ← d.handleL2cap hw f.payload f.llid .idle
    let rs ← feedEach hw fs r.1
    return r :: rs

theorem Conn.feedEach_cons {hw : Hw} {f : Fragment} {fs : List Fragment} {d : Conn}
    {rs : List (Conn × ConnEvent)} (h : Conn.feedEach hw (f :: fs) d = .ok rs) :
    ∃ r rest, rs = r :: rest ∧ d.handleL2cap hw f.payload f.llid .idle = .ok r ∧
      Conn.feedEach hw fs r.1 = .ok rest := by
  obtain ⟨r, hr, h⟩ := bind_eq_ok.mp h
  obtain ⟨rest, hrest, h⟩ := bind_eq_ok.mp h
  cases h
  exact ⟨r, rest, rfl, hr, hrest⟩

/-- `Data` is reported exactly once, and then the data is there; and no header of another channel is
    ever read. -/
structure Intact (data : List UInt8) (rs : List (Conn × ConnEvent)) : Prop where
  once : (rs.filter (fun r => r.2 = .data)).map
    (fun r => r.1.rxData.bytes.take r.1.rxDataLen) = [data]
  ownHeaders : ∀ r ∈ rs, r.1.rxL2capCid = cocLocalCid

/-- The fragments bring the data. -/
def Conn.ReceivesIntact (hw : Hw) (d : Conn) (fs : List Fragment) (data : List UInt8) : Prop :=
  ∃ rs, Conn.feedEach hw fs d = .ok rs ∧ Intact data rs

/-- A complete SDU of at most 244 bytes is in `rx_data`. -/
theorem finishSdu_rxData (c : Conn) {coc : Coc} {data : List UInt8} (hlen : data.length ≤ 244)
    (htotal : coc.rxSduTotal = data.length) (hbytes : coc.rxSdu.bytes.take data.length = data) :
    (c.finishSdu coc).rxData.bytes.take (c.finishSdu coc).rxDataLen = data := by
  have hsdu : min coc.rxSduTotal 256 = data.length := by omega
  have hn : min (min coc.rxSduTotal 256) attPayloadMax = data.length := by
    simp only [attPayloadMax]
    omega
  show (c.rxData.bytes.take 0 ++ ((coc.rxSdu.bytes.take (min coc.rxSduTotal 256)).take
    (min (min coc.rxSduTotal 256) attPayloadMax)) ++ c.rxData.bytes.drop _).take
      (min (min coc.rxSduTotal 256) attPayloadMax) = data
  rw [hn, hsdu, hbytes, List.take_length, List.take_zero, List.nil_append, List.take_left]

/-- The length of an SDU fits its 16 bits. -/
theorem toNat_sduLength {data : List UInt8} (h : data.length ≤ 244) :
    (UInt16.ofNat data.length).toNat = data.length := by
  rw [UInt16.toNat_ofNat']
  omega

/-- The record holds no part of an SDU. -/
def BetweenSdus (c : Conn) : Prop := ∀ coc, c.coc = some coc → coc.rxSduLen = 0

/-- **An SDU in one fragment arrives**, and nothing of it is left behind. -/
theorem whole_sdu_handled (hw : Hw) {d : Conn} {coc : Coc} {data : List UInt8}
    (hcoc : d.coc = some coc) (hlocal : coc.localCid = cocLocalCid) (h0 : coc.rxSduLen = 0)
    (hlen : data.length ≤ 244) :
    ∃ d', Conn.feedEach hw [wholeMessage (sduMessage data) cocLocalCid] d = .ok [(d', .data)] ∧
      d'.rxData.bytes.take d'.rxDataLen = data ∧ d'.rxL2capCid = cocLocalCid ∧
      BetweenSdus d' := by
  obtain ⟨b, hb, hstart⟩ := Conn.rxCocSdu_start
    (show (d.headerRead (UInt16.ofNat (sduMessage data).length) cocLocalCid).coc = some coc from hcoc)
    h0 (UInt16.ofNat data.length) (show data.length ≤ 256 by omega) .idle
  rw [toNat_sduLength hlen, if_pos (Nat.le_refl _)] at hstart
  have hhandle := (Conn.handleL2cap_coc_start hw hcoc hlocal
    (show llidDataComplete ≠ llidDataContinuationOrComplete by decide)
    (UInt16.ofNat (sduMessage data).length) (sduMessage data) .idle).trans hstart
  refine ⟨_, congrArg (· >>= _) hhandle, finishSdu_rxData _ hlen rfl hb, rfl, ?_⟩
  intro coc' hcoc'
  cases hcoc'
  rfl

theorem whole_sdu_arrives (hw : Hw) {d : Conn} {coc : Coc} {data : List UInt8}
    (hcoc : d.coc = some coc) (hlocal : coc.localCid = cocLocalCid) (h0 : coc.rxSduLen = 0)
    (hlen : data.length ≤ 244) :
    d.ReceivesIntact hw [wholeMessage (sduMessage data) cocLocalCid] data := by
  obtain ⟨d', hfeed, hdata, hcid, _⟩ := whole_sdu_handled hw hcoc hlocal h0 hlen
  refine ⟨_, hfeed, congrArg (fun bytes => [bytes]) hdata, ?_⟩
  intro r hr
  rw [List.mem_singleton.mp hr]
  exact hcid

/-- Something of an SDU of `total` bytes is collected, and even with the `left` bytes still to come
    it is not more than that. -/
structure Behind (d : Conn) (total left : Nat) : Prop where
  idle : d.rxL2capLen = 0
  coc : ∃ coc, d.coc = some coc ∧ coc.localCid = cocLocalCid ∧ coc.rxSduTotal = total ∧
    0 < coc.rxSduLen ∧ coc.rxSduLen + left ≤ total

/-- **One fragment behind the first.**  Nothing is collected, so its LLID does not matter: four of its
    bytes are read as a header, or it is dropped. -/
theorem Behind.step {hw : Hw} {d d' : Conn} {total left : Nat} {f : Fragment} {e : ConnEvent}
    (h : Behind d total (f.payload.length + left)) (htotal : total ≤ 256)
    (hok : d.handleL2cap hw f.payload f.llid .idle = .ok (d', e))
    (hown : d'.rxL2capCid = cocLocalCid) : e = .idle ∧ Behind d' total left := by
  obtain ⟨coc, hcoc, hlocal, htot, hpos, hleft⟩ := h.coc
  have hfirst : d.isFirst f.llid = true := decide_eq_true (.inr h.idle)
  rcases Conn.short_or_header f.payload with hshort | ⟨l₀, l₁, d₀, d₁, body, hpay⟩
  · rw [Conn.handleL2cap, Conn.handleL2cap_short _ hw hfirst hshort] at hok
    cases hok
    exact ⟨rfl, h.idle, coc, hcoc, hlocal, htot, hpos, by omega⟩
  · rw [hpay] at hok hleft
    simp only [List.length_cons] at hleft
    have hcid : ofLe16 d₀ d₁ = cocLocalCid := (Conn.handleL2cap_header hfirst hok).symm.trans hown
    rw [Conn.handleL2cap_coc hw hcoc hlocal hfirst _ _ _ _ hcid] at hok
    obtain ⟨b, hmore⟩ := Conn.rxCocSdu_more
      (show (d.headerRead (ofLe16 l₀ l₁) cocLocalCid).coc = some coc from hcoc) hpos
      (show coc.rxSduLen + body.length ≤ 256 by omega)
      (show coc.rxSduLen + body.length < coc.rxSduTotal by omega) .idle
    rw [hmore] at hok
    cases hok
    refine ⟨rfl, rfl, _, rfl, hlocal, htot, ?_, ?_⟩
    · show 0 < coc.rxSduLen + body.length
      omega
    · show coc.rxSduLen + body.length + left ≤ total
      omega

/-- **All of them**: as long as each is taken for one of this channel, nothing is reported. -/
theorem Behind.run {hw : Hw} {fs : List Fragment} {d : Conn} {total : Nat}
    {rs : List (Conn × ConnEvent)}
    (h : Behind d total (payloads fs).length) (htotal : total ≤ 256)
    (hok : Conn.feedEach hw fs d = .ok rs) (hown : ∀ r ∈ rs, r.1.rxL2capCid = cocLocalCid) :
    ∀ r ∈ rs, r.2 = .idle := by
  induction fs generalizing d rs with
  | nil =>
    cases hok
    intro r hr
    cases hr
  | cons f fs ih =>
    obtain ⟨⟨d', e⟩, rest, rfl, hhandle, hrest⟩ := Conn.feedEach_cons hok
    rw [payloads_cons, List.length_append] at h
    obtain ⟨rfl, hnext⟩ := h.step htotal hhandle (hown _ (List.mem_cons_self ..))
    have hlater := ih hnext hrest (fun r hr => hown r (List.mem_cons_of_mem _ hr))
    intro r hr
    rcases List.mem_cons.mp hr with rfl | hr
    · rfl
    · exact hlater r hr

/-- **An SDU in several fragments does not arrive.** -/
theorem cut_sdu_lost (hw : Hw) {d : Conn} {coc : Coc} {data : List UInt8} {fs : List Fragment}
    {k : Nat} (hcoc : d.coc = some coc) (hlocal : coc.localCid = cocLocalCid)
    (h0 : coc.rxSduLen = 0) (hlen : data.length ≤ 244) (hk : 2 < k) (hcut : k < data.length + 2)
    (hrest : payloads fs = (sduMessage data).drop k) (msgLen : UInt16) :
    ¬ d.ReceivesIntact hw
      (⟨llidDataStart, le16 msgLen ++ le16 cocLocalCid ++ (sduMessage data).take k⟩ :: fs) data := by
  rintro ⟨rs, hfeed, hintact⟩
  -- the first fragment leaves `k - 2` bytes of the SDU behind
  have htake : (sduMessage data).take k = le16 (UInt16.ofNat data.length) ++ data.take (k - 2) := by
    unfold sduMessage
    rw [List.take_append, le16_length, List.take_of_length_le (by rw [le16_length]; omega)]
  have hpart : (data.take (k - 2)).length = k - 2 := by
    rw [List.length_take]
    omega
  obtain ⟨b, _, hstart⟩ := Conn.rxCocSdu_start (show (d.headerRead msgLen cocLocalCid).coc = some coc from hcoc) h0
    (UInt16.ofNat data.length) (show (data.take (k - 2)).length ≤ 256 by omega) .idle
  rw [toNat_sduLength hlen, if_neg (by omega)] at hstart
  have hhandle := (Conn.handleL2cap_coc_start hw hcoc hlocal
    (show llidDataStart ≠ llidDataContinuationOrComplete by decide) msgLen
    ((sduMessage data).take k) .idle).trans (htake ▸ hstart)
  obtain ⟨r, rest, rfl, hr, hlater⟩ := Conn.feedEach_cons hfeed
  cases hhandle.symm.trans hr
  have hbehind : Behind { d.headerRead msgLen cocLocalCid with coc := some { coc with
      rxSdu := b, rxSduTotal := data.length, rxSduLen := (data.take (k - 2)).length } }
      data.length (payloads fs).length := by
    refine ⟨rfl, _, rfl, hlocal, rfl, ?_, ?_⟩
    · show 0 < (data.take (k - 2)).length
      omega
    · show (data.take (k - 2)).length + (payloads fs).length ≤ data.length
      rw [hrest, List.length_drop, sduMessage_length, hpart]
      omega
  have hidle := hbehind.run (by omega) hlater
    (fun r hr => hintact.ownHeaders r (List.mem_cons_of_mem _ hr))
  -- so nothing is reported at all
  have hnone : ∀ r ∈ rest, ¬ decide (r.2 = ConnEvent.data) = true := by
    intro r hr hdata
    rw [hidle r hr] at hdata
    cases hdata
  have honce := hintact.once
  rw [List.filter_cons_of_neg Bool.false_ne_true, List.filter_eq_nil_iff.mpr hnone] at honce
  cases honce

/-- Data that does not fit one PDU goes out in pieces, and they do not bring it. -/
theorem SduTransfer.lost_of_cut (hw : Hw) {s r : Conn} {data : List UInt8} (h : SduTransfer s r data)
    (hbetween : BetweenSdus r) (hcut : s.txPduMax < data.length + 6) :
    ∃ fs, s.SendsAs data fs ∧ ¬ r.ReceivesIntact hw fs data := by
  obtain ⟨cocS, hcocS, hlocalS⟩ := h.sender
  obtain ⟨cocR, hcocR, hlocalR⟩ := h.receiver
  obtain ⟨hsending, hpdu⟩ := l2capSend_sending hcocS h.accepted
  rw [hlocalS] at hsending
  have hm := sduMessage_length data
  have hlo := h.pduMin
  have hhi := h.pduMax
  have hlen := h.short
  obtain ⟨fs, s', hidle, hrest, hdrain⟩ := hsending.drain_cut (by omega) (by omega) (by omega)
    (by omega)
  refine ⟨_, ⟨s', hidle, fun fuel hfuel => hdrain fuel (by omega)⟩, ?_⟩
  exact cut_sdu_lost hw hcocR hlocalR (hbetween cocR hcocR) hlen (by omega) (by omega) hrest _

/-! ## The receiving end over whole runs -/

/-- **How a receiving end comes about** when all data it is sent goes out in one piece: signaling,
    `l2cap_connect`, `l2cap_send`, such data, and whatever leaves the channel record alone, in any
    order. -/
inductive Receiving (hw : Hw) (c₀ : Conn) : Conn → Prop
  | start (h : c₀.coc = none) : Receiving hw c₀ c₀
  | step {c c' : Conn} {e : CocEvent} (hrun : Receiving hw c₀ c) (hstep : CocStep c e c')
    (hne : e ≠ .other) : Receiving hw c₀ c'
  | other {c c' : Conn} (hrun : Receiving hw c₀ c) (hsame : c'.coc = c.coc) : Receiving hw c₀ c'
  | data {c c' s : Conn} {data : List UInt8} {fs : List Fragment} {rs : List (Conn × ConnEvent)}
    {e : ConnEvent} (hrun : Receiving hw c₀ c) (htransfer : SduTransfer s c data)
    (hone : data.length + 6 ≤ s.txPduMax) (hsends : s.SendsAs data fs)
    (hfeed : Conn.feedEach hw fs c = .ok rs) (hlast : rs.getLast? = some (c', e)) :
    Receiving hw c₀ c'

theorem BetweenSdus.of_nothingCollected {c c' : Conn} (h : BetweenSdus c)
    (hnothing : c.NothingCollected c') : BetweenSdus c' := by
  intro coc' hcoc'
  rcases hnothing coc' hcoc' with hzero | ⟨coc, hcoc, hlen⟩
  · exact hzero
  · rw [hlen]
    exact h coc hcoc

/-- Signaling and local calls collect nothing. -/
theorem BetweenSdus.step {c c' : Conn} {e : CocEvent} (h : BetweenSdus c) (hstep : CocStep c e c')
    (hne : e ≠ .other) : BetweenSdus c' := by
  cases hstep with
  | signaling hs => exact h.of_nothingCollected (Conn.handleLeSignaling_nothingCollected hs)
  | connect psm => exact h.of_nothingCollected (c.l2capConnect_nothingCollected psm)
  | send data => exact h.of_nothingCollected (c.l2capSend_nothingCollected data)
  | frame => exact absurd rfl hne
  | other => exact absurd rfl hne

/-- **Such an end is always between two SDUs.** -/
theorem Receiving.between {hw : Hw} {c₀ c : Conn} (h : Receiving hw c₀ c) : BetweenSdus c := by
  induction h with
  | start h =>
    intro coc hcoc
    rw [h] at hcoc
    cases hcoc
  | step _ hstep hne ih => exact ih.step hstep hne
  | other _ hsame ih => exact fun coc hcoc => ih coc (hsame ▸ hcoc)
  | data _ htransfer hone hsends hfeed hlast ih =>
    obtain ⟨coc, hcoc, hlocal⟩ := htransfer.receiver
    obtain ⟨d', hwhole, _, _, hnone⟩ := whole_sdu_handled hw hcoc hlocal (ih coc hcoc) htransfer.short
    rw [hsends.unique (htransfer.sendsAs_whole hone)] at hfeed
    cases hwhole.symm.trans hfeed
    cases hlast
    exact hnone

/-- **Data over the channel**, to an end that was only sent whole SDUs before: data of at most 244
    bytes that `l2cap_send` accepts goes out in finitely many fragments, and the other end receives it
    intact iff it goes out in one, that is with the six bytes of the two headers in front. -/
theorem coc_data_intact_iff (hw : Hw) (r₀ s r : Conn) (data : List UInt8)
    (hrun : Receiving hw r₀ r) (h : SduTransfer s r data) :
    ∃ fs, s.SendsAs data fs ∧ (r.ReceivesIntact hw fs data ↔ data.length + 6 ≤ s.txPduMax) := by
  rcases Nat.lt_or_ge s.txPduMax (data.length + 6) with hcut | hone
  · obtain ⟨fs, hsends, hlost⟩ := h.lost_of_cut hw hrun.between hcut
    exact ⟨fs, hsends, iff_of_false hlost (by omega)⟩
  · obtain ⟨coc, hcoc, hlocal⟩ := h.receiver
    refine ⟨_, h.sendsAs_whole hone, iff_of_true ?_ hone⟩
    exact whole_sdu_arrives hw hcoc hlocal (hrun.between coc hcoc) h.short

/-- The end that was asked to open a channel; it may send. -/
def acceptingEnd : Conn := (Conn.sample .slave).signaled (sampleRequest 251 8)

/-- The end that asked, once it has the answer. -/
def askingEnd : Conn := ((Conn.sample .master).l2capConnect 0x80).signaled sampleResponse

theorem askingEnd_receiving (hw : Hw) : Receiving hw (Conn.sample .master) askingEnd := by
  have hanswer : ((Conn.sample .master).l2capConnect 0x80).handleLeSignaling sampleResponse =
      .ok askingEnd := rfl
  have hasked : Receiving hw (Conn.sample .master) ((Conn.sample .master).l2capConnect 0x80) :=
    .step (.start rfl) (.connect 0x80) nofun
  exact hasked.step (.signaling hanswer) nofun

/-- Three bytes arrive. -/
theorem coc_data_intact_hello :
    ∃ fs, acceptingEnd.SendsAs [104, 101, 121] fs ∧
      askingEnd.ReceivesIntact Hw.standIn fs [104, 101, 121] := by
  have htransfer : SduTransfer acceptingEnd askingEnd [104, 101, 121] :=
    ⟨⟨_, rfl, rfl⟩, ⟨_, rfl, rfl⟩, by decide, by decide, by decide, rfl⟩
  obtain ⟨fs, hsends, hiff⟩ := coc_data_intact_iff Hw.standIn (Conn.sample .master) acceptingEnd
    askingEnd [104, 101, 121] (askingEnd_receiving Hw.standIn) htransfer
  exact ⟨fs, hsends, hiff.mpr (by decide)⟩

/-- Data that holds, behind 21 other bytes, an SMP pairing request with its L2CAP header. -/
def smuggledRequest : List UInt8 := List.replicate 21 0xAA ++ [7, 0, 6, 0, 1, 3, 0, 1, 16, 1, 1]

/-- The fragments it is cut into. -/
def smuggledFragments : List Fragment :=
  [⟨1, [34, 0, 0x40, 0, 32, 0] ++ List.replicate 21 0xAA⟩, ⟨0, [7, 0, 6, 0, 1, 3, 0, 1, 16, 1, 1]⟩]

/-- The receiver takes it for one, and begins to pair. -/
theorem user_data_starts_pairing :
    ((acceptingEnd.l2capSend smuggledRequest).2.drain 40).map Prod.fst =
        .ok smuggledFragments ∧
      ((Conn.feedEach Hw.standIn smuggledFragments askingEnd).toOption.any
        (fun rs => rs.all (fun r => r.2 = .idle) && rs.any (fun r => r.1.pairingInProgress))) = true ∧
      ¬ askingEnd.ReceivesIntact Hw.standIn smuggledFragments smuggledRequest := by
  refine ⟨by decide +kernel, by decide +kernel, ?_⟩
  rintro ⟨rs, hfeed, hintact⟩
  have hsmp : ((Conn.feedEach Hw.standIn smuggledFragments askingEnd).toOption.any
      (fun rs => rs.any (fun r => r.1.rxL2capCid = l2capSmpCidLocal))) = true := by decide +kernel
  rw [hfeed] at hsmp
  obtain ⟨r, hr, hcid⟩ := List.any_eq_true.mp hsmp
  rw [hintact.ownHeaders r hr] at hcid
  cases hcid

end NrfBle
