/-
  ATT messages as the peer cuts them up.

  The peer may cut an L2CAP frame anywhere, the first fragment with LLID START and the others with
  CONTINUATION.  The reassembler reads the four header bytes from the first fragment only, and takes a
  continuation for the start of a new message while nothing has been collected.

  1. With five bytes or more in the first fragment something is collected at once, and from then on
     every cut gives the message (`reassembles_of_cut`): the receiver of `Reassembly` does not mind
     who cut it up.

  2. With less, the first fragment leaves nothing behind.  Then no more than the bytes still to come,
     less a header, can become a message (`feed_congr`), and these are too few.
-/
import Mathlib.Tactic
import NrfBle.Hw.Conn.Reassembly

namespace NrfBle

open Checked

variable {hw : Hw}

/-! ## Cuts -/

/-- The fragments of a cut: START, then CONTINUATION. -/
def cutFragments : List (List UInt8) → List Fragment
  | [] => []
  | p :: ps => ⟨llidDataStart, p⟩ :: ps.map (Fragment.mk llidDataContinuationOrComplete)

/-- The L2CAP frame of an ATT message. -/
def attFrame (m : List UInt8) : List UInt8 :=
  le16 (UInt16.ofNat m.length) ++ le16 l2capAttCid ++ m

/-- Fed in order, the fragments call ATT once, on the last of them, with the message: whatever stands in
    for ATT, it is not called before, and the last fragment does what it does with the message. -/
def Delivers (hw : Hw) (fs : List Fragment) (d : Conn) (result : ConnEvent) (m : List UInt8) : Prop :=
  ∃ before last d₁ d₂, fs = before ++ [last] ∧
    (∀ att, Conn.feed att hw before d result = .ok (d₁, result)) ∧
    ∀ att : Conn.AttHandler, d₁.handleL2capWith att hw last.payload last.llid result = (do
      let r ← att d₂ m result
      return ({ r.1 with rxL2capLen := 0 }, r.2))

/-- The fragments deliver the message to any connection, whatever it has collected before. -/
def Reassembles (hw : Hw) (fs : List Fragment) (m : List UInt8) : Prop :=
  ∀ (d : Conn) (result : ConnEvent), d.rxL2capLen ≤ 256 → Delivers hw fs d result m

theorem Delivers.cons {f : Fragment} {fs : List Fragment} {d d' : Conn} {result : ConnEvent}
    {m : List UInt8}
    (hf : ∀ att, d.handleL2capWith att hw f.payload f.llid result = .ok (d', result))
    (h : Delivers hw fs d' result m) : Delivers hw (f :: fs) d result m := by
  obtain ⟨before, last, d₁, d₂, hfs, hbefore, hlast⟩ := h
  refine ⟨f :: before, last, d₁, d₂, by rw [hfs]; rfl, ?_, hlast⟩
  intro att
  rw [Conn.feed_cons (hf att), hbefore]

/-! ## Enough in the first fragment -/

/-- A piece that is taken, and those behind it.  `o` bytes of the message are there before it. -/
theorem Ready.delivers {d₀ d : Conn} {m : List UInt8} {o : Nat} (hd : Ready d₀ d m o)
    (hm : m.length ≤ 256) (result : ConnEvent) {llid : UInt8}
    (hllid : o = 0 ↔ llid ≠ llidDataContinuationOrComplete) {k : Nat} {fs : List Fragment}
    (hk : o + k ≤ m.length) (hlast : fs = [] → o + k = m.length) (hmore : fs ≠ [] → o + k < m.length)
    (hrest : ∀ d', Collects d₀ d' m (o + k) → fs ≠ [] → Delivers hw fs d' result m) :
    Delivers hw (⟨llid, fragmentPayload m o k⟩ :: fs) d result m := by
  obtain ⟨d₁, hd₁, hhandle⟩ := hd.handle hw hm hllid k
  obtain ⟨d', hd', hstep⟩ := hd₁.step hm hk
  by_cases hfs : fs = []
  · refine ⟨[], ⟨llid, fragmentPayload m o k⟩, d, d', by rw [hfs]; rfl, fun _ => rfl, ?_⟩
    intro att
    dsimp only
    rw [hhandle, hstep, if_neg (by have := hlast hfs; omega)]
  · refine Delivers.cons ?_ (hrest d' hd' hfs)
    intro att
    dsimp only
    rw [hhandle, hstep, if_pos (hmore hfs)]

/-- Pieces that are not empty have a byte. -/
theorem flatten_length_pos {ps : List (List UInt8)} (hne : ∀ q ∈ ps, q ≠ []) (hps : ps ≠ []) :
    0 < ps.flatten.length := by
  obtain ⟨q, qs, rfl⟩ := List.exists_cons_of_ne_nil hps
  have hq := List.length_pos_iff.mpr (hne q List.mem_cons_self)
  rw [List.flatten_cons, List.length_append]
  omega

/-- A piece that is taken, and continuations behind it, none empty, which have what is left. -/
theorem Ready.delivers_pieces {d₀ d : Conn} {m : List UInt8} {o : Nat} (hd : Ready d₀ d m o)
    (hm : m.length ≤ 256) (result : ConnEvent) {llid : UInt8}
    (hllid : o = 0 ↔ llid ≠ llidDataContinuationOrComplete) {k : Nat} {ps : List (List UInt8)}
    (hsum : o + k + ps.flatten.length = m.length) (hne : ∀ q ∈ ps, q ≠ [])
    (hrest : ∀ d', Collects d₀ d' m (o + k) → ps ≠ [] →
      Delivers hw (ps.map (Fragment.mk llidDataContinuationOrComplete)) d' result m) :
    Delivers hw (⟨llid, fragmentPayload m o k⟩ ::
      ps.map (Fragment.mk llidDataContinuationOrComplete)) d result m := by
  refine hd.delivers hm result hllid (by omega) ?_ ?_ ?_
  · intro hnil
    rw [List.map_eq_nil_iff] at hnil
    rw [hnil, List.flatten_nil, List.length_nil] at hsum
    exact hsum
  · intro hcons
    rw [Ne, List.map_eq_nil_iff] at hcons
    have hpos := flatten_length_pos hne hcons
    omega
  · intro d' hd' hcons
    rw [Ne, List.map_eq_nil_iff] at hcons
    exact hrest d' hd' hcons

/-- The first of the pieces that make up the rest of a message, and what is left. -/
theorem piece_of_flatten {m p : List UInt8} {ps : List (List UInt8)} {o : Nat}
    (hcut : (p :: ps).flatten = m.drop o) :
    p = (m.take (o + p.length)).drop o ∧ ps.flatten = m.drop (o + p.length) := by
  rw [List.flatten_cons] at hcut
  constructor
  · rw [← List.take_drop, ← hcut, List.take_left]
  · rw [← List.drop_drop, ← hcut, List.drop_left]

/-- **Continuations.**  The pieces of what is left of a message, none empty, deliver it: induction on the
    pieces. -/
theorem Collects.delivers {d₀ d : Conn} {m : List UInt8} {o : Nat} (hd : Collects d₀ d m o)
    (hpos : 0 < o) (hm : m.length ≤ 256) (result : ConnEvent) {ps : List (List UInt8)}
    (hcut : ps.flatten = m.drop o) (hne : ∀ q ∈ ps, q ≠ []) (hps : ps ≠ []) :
    Delivers hw (ps.map (Fragment.mk llidDataContinuationOrComplete)) d result m := by
  induction ps generalizing d o with
  | nil => exact absurd rfl hps
  | cons p ps ih =>
    obtain ⟨hp, hrest⟩ := piece_of_flatten hcut
    have hplen : 0 < p.length := List.length_pos_iff.mpr (hne p List.mem_cons_self)
    have hsum := congrArg List.length hcut
    rw [List.flatten_cons, List.length_append, List.length_drop] at hsum
    have hpay : p = fragmentPayload m o p.length := by
      unfold fragmentPayload
      rw [if_neg (by omega), List.nil_append]
      exact hp
    rw [List.map_cons, hpay]
    refine Ready.delivers_pieces (.inr ⟨hpos, hd⟩) hm result (iff_of_false (by omega) (by simp))
      (by omega) (fun q hq => hne q (List.mem_cons_of_mem _ hq)) ?_
    intro d' hd' hcons
    exact ih hd' (by omega) hrest (fun q hq => hne q (List.mem_cons_of_mem _ hq)) hcons

/-- **Any cut with a byte of the message in its first fragment.** -/
theorem reassembles_of_cut {m p : List UInt8} {ps : List (List UInt8)} (hm : m.length ≤ 256)
    (hcut : (p :: ps).flatten = attFrame m) (hne : ∀ q ∈ p :: ps, q ≠ []) (hp : 5 ≤ p.length) :
    Reassembles hw (cutFragments (p :: ps)) m := by
  intro d result _
  have hhead : (le16 (UInt16.ofNat m.length) ++ le16 l2capAttCid).length = 4 := by
    rw [List.length_append, le16_length, le16_length]
  rw [List.flatten_cons] at hcut
  -- the first fragment: the header and `k` bytes
  obtain ⟨k, hk⟩ : ∃ k, p.length = 4 + k := ⟨p.length - 4, by omega⟩
  have hpay : p = fragmentPayload m 0 k := by
    have htake := congrArg (List.take p.length) hcut
    rw [List.take_left, hk] at htake
    unfold attFrame at htake
    rw [← hhead, List.take_length_add_append] at htake
    unfold fragmentPayload
    rw [if_pos rfl, Nat.zero_add, List.drop_zero]
    exact htake
  have hrest : ps.flatten = m.drop k := by
    have hdrop := congrArg (List.drop p.length) hcut
    rw [List.drop_left, hk] at hdrop
    unfold attFrame at hdrop
    rw [← hhead, List.drop_length_add_append] at hdrop
    exact hdrop
  have hsum := congrArg List.length hcut
  unfold attFrame at hsum
  rw [List.length_append, List.length_append, hhead, hk] at hsum
  unfold cutFragments
  rw [hpay]
  have hrestne : ∀ q ∈ ps, q ≠ [] := fun q hq => hne q (List.mem_cons_of_mem _ hq)
  refine Ready.delivers_pieces (.inl ⟨rfl, rfl⟩ : Ready d d m 0) hm result (iff_of_true rfl (by decide))
    (by omega) hrestne ?_
  intro d' hd' hcons
  rw [Nat.zero_add] at hd'
  exact hd'.delivers (by omega) hm result hrest hrestne hcons

/-! ## Too little in the first fragment -/

/-- The payload bytes of some fragments. -/
def payloadBytes (fs : List Fragment) : Nat := (fs.map (fun f => f.payload.length)).sum

/-- The fragments still to come cannot make up a message of `n` bytes: nothing is collected, and they
    have no more than `n - 1` bytes besides a header; or they and what is collected have no more. -/
def TooFew (n : Nat) (d : Conn) (fs : List Fragment) : Prop :=
  (d.rxL2capLen = 0 ∧ payloadBytes fs ≤ n + 3) ∨
    (d.rxL2capLen ≤ 256 ∧ d.rxL2capLen + payloadBytes fs < n)

theorem payloadBytes_cons (f : Fragment) (fs : List Fragment) :
    payloadBytes (f :: fs) = f.payload.length + payloadBytes fs := rfl

section Congr

variable {n : Nat} {att att' : Conn.AttHandler}

/-- Two handlers that agree on messages of fewer than `n` bytes cannot be told apart by a collection
    that has not so many. -/
theorem reassemble_congr (hatt : ∀ d msg r, msg.length < n → att d msg r = att' d msg r) {c : Conn}
    (hlen : c.rxL2capLen ≤ 256) (body : List UInt8) (hshort : c.rxL2capLen + body.length < n)
    (result : ConnEvent) :
    c.reassemble att body result = c.reassemble att' body result ∧
      ∀ c' r, c.reassemble att body result = .ok (c', r) →
        c'.rxL2capLen ≤ 256 ∧ c'.rxL2capLen ≤ c.rxL2capLen + body.length := by
  obtain ⟨b, _, hspec⟩ := Conn.reassemble_spec hlen body
  have htotal : (c.collected body).length = c.rxL2capLen + body.length := by
    rw [Conn.collected, List.length_append, List.length_take, c.rxL2cap.size]
    omega
  rw [hspec, hspec]
  dsimp only
  split
  · rw [hatt _ _ _ (by rw [List.length_take]; omega)]
    refine ⟨rfl, ?_⟩
    intro c' r h
    obtain ⟨a, _, h⟩ := bind_eq_ok.mp h
    cases h
    exact ⟨Nat.zero_le _, Nat.zero_le _⟩
  · refine ⟨rfl, ?_⟩
    intro c' r h
    cases h
    exact ⟨Nat.min_le_right _ _, by rw [htotal]; exact Nat.min_le_left _ _⟩

/-- One fragment. -/
theorem handleL2capWith_congr (hw : Hw) (hatt : ∀ d msg r, msg.length < n → att d msg r = att' d msg r)
    {d : Conn} {f : Fragment} {fs : List Fragment} (h : TooFew n d (f :: fs)) (result : ConnEvent) :
    d.handleL2capWith att hw f.payload f.llid result =
        d.handleL2capWith att' hw f.payload f.llid result ∧
      ∀ d' r, d.handleL2capWith att hw f.payload f.llid result = .ok (d', r) → TooFew n d' fs := by
  obtain ⟨llid, payload⟩ := f
  unfold TooFew at h
  rw [payloadBytes_cons] at h
  dsimp only at h ⊢
  cases hfirst : d.isFirst llid with
  | false =>
    have hne : d.rxL2capLen ≠ 0 := by
      intro h0
      unfold Conn.isFirst at hfirst
      exact absurd (.inr h0) (of_decide_eq_false hfirst)
    obtain ⟨hle, hfew⟩ := h.resolve_left (fun h => hne h.1)
    rw [Conn.handleL2cap_continuation att hw hfirst, Conn.handleL2cap_continuation att' hw hfirst]
    obtain ⟨heq, hkeep⟩ := reassemble_congr hatt hle payload (by omega) result
    refine ⟨heq, ?_⟩
    intro d' r hd'
    have hlen := hkeep d' r hd'
    exact .inr (by omega)
  | true =>
    rcases Conn.short_or_header payload with hshort | ⟨l₀, l₁, d₀, d₁, body, rfl⟩
    · rw [Conn.handleL2cap_short att hw hfirst hshort, Conn.handleL2cap_short att' hw hfirst hshort]
      refine ⟨rfl, ?_⟩
      intro d' r hd'
      cases hd'
      unfold TooFew
      omega
    · have hfew : body.length + payloadBytes fs < n := by
        simp only [List.length_cons] at h
        omega
      rw [Conn.handleL2cap_first att hw hfirst, Conn.handleL2cap_first att' hw hfirst]
      unfold Conn.startMessage
      dsimp only
      -- what starts over has nothing collected
      have hzero : ∀ d' : Conn, d'.rxL2capLen = 0 → TooFew n d' fs := fun d' h0 =>
        .inl ⟨h0, by omega⟩
      split
      · exact ⟨rfl, fun d' r hd' => by cases hd'; exact hzero _ rfl⟩
      · split
        · refine ⟨rfl, ?_⟩
          intro d' r hd'
          obtain ⟨_, _, hd'⟩ := bind_eq_ok.mp hd'
          cases hd'
          exact hzero _ rfl
        · split
          · obtain ⟨heq, hkeep⟩ := reassemble_congr hatt
              (show (d.headerRead (ofLe16 l₀ l₁) (ofLe16 d₀ d₁)).rxL2capLen ≤ 256 from Nat.zero_le _)
              body (by dsimp only [Conn.headerRead]; omega) result
            refine ⟨heq, ?_⟩
            intro d' r hd'
            have hlen := hkeep d' r hd'
            dsimp only [Conn.headerRead] at hlen
            exact .inr (by omega)
          · split
            · exact ⟨rfl, fun d' r hd' => hzero _ (congrArg Conn.rxL2capLen (Conn.rxCocSdu_frame hd'))⟩
            · exact ⟨rfl, fun d' r hd' => by cases hd'; exact hzero _ rfl⟩

/-- **Too few bytes never make the message**: the fragments do the same whatever is done with it. -/
theorem feed_congr (hw : Hw) (hatt : ∀ d msg r, msg.length < n → att d msg r = att' d msg r)
    (fs : List Fragment) (d : Conn) (result : ConnEvent) (h : TooFew n d fs) :
    Conn.feed att hw fs d result = Conn.feed att' hw fs d result := by
  induction fs generalizing d result with
  | nil => rfl
  | cons f fs ih =>
    obtain ⟨heq, hkeep⟩ := handleL2capWith_congr hw hatt h result
    cases hx : d.handleL2capWith att hw f.payload f.llid result with
    | error e =>
      rw [Conn.feed, Conn.feed, ← heq, hx]
      rfl
    | ok r =>
      rw [Conn.feed_cons hx, Conn.feed_cons (heq ▸ hx)]
      exact ih _ _ (hkeep _ _ hx)

end Congr

/-- A handler that accepts everything. -/
def acceptAll : Conn.AttHandler := fun d _ r => .ok (d, r)

/-- A handler that stops at messages of `n` bytes or more. -/
def stopAt (n : Nat) : Conn.AttHandler :=
  fun d msg r => if msg.length < n then .ok (d, r) else .error .index

theorem Delivers.feed_eq {fs : List Fragment} {d : Conn} {result : ConnEvent} {m : List UInt8}
    (h : Delivers hw fs d result m) : ∃ d₂, ∀ att, Conn.feed att hw fs d result = (do
      let r ← att d₂ m result
      return ({ r.1 with rxL2capLen := 0 }, r.2)) := by
  obtain ⟨before, last, d₁, d₂, rfl, hbefore, hlast⟩ := h
  refine ⟨d₂, ?_⟩
  intro att
  rw [Conn.feed_append, hbefore, ok_bind, Conn.feed_singleton, hlast]

theorem Delivers.accepted {fs : List Fragment} {d : Conn} {result : ConnEvent} {m : List UInt8}
    (h : Delivers hw fs d result m) : Returns (Conn.feed acceptAll hw fs d result) := by
  obtain ⟨d₂, hfeed⟩ := h.feed_eq
  rw [hfeed]
  exact returns_ok _

theorem Delivers.stopped {fs : List Fragment} {d : Conn} {result : ConnEvent} {m : List UInt8}
    (h : Delivers hw fs d result m) : ¬ Returns (Conn.feed (stopAt m.length) hw fs d result) := by
  obtain ⟨d₂, hfeed⟩ := h.feed_eq
  rw [hfeed, stopAt, if_neg (Nat.lt_irrefl _)]
  exact not_returns_error _

/-- A first fragment without a byte of the message leaves nothing behind on a connection that has
    collected nothing. -/
theorem first_leaves_nothing (hw : Hw) {m p : List UInt8} {ps : List (List UInt8)} (hm : 1 ≤ m.length)
    (hmax : m.length ≤ 256) (hcut : (p :: ps).flatten = attFrame m) (hp : p.length ≤ 4) {d : Conn}
    (hd : d.rxL2capLen = 0) (result : ConnEvent) :
    ∃ d', d'.rxL2capLen = 0 ∧
      ∀ att, d.handleL2capWith att hw p llidDataStart result = .ok (d', result) := by
  have hfirst : d.isFirst llidDataStart = true := decide_eq_true (.inr hd)
  rcases Nat.lt_or_ge p.length 4 with hshort | hge
  · exact ⟨d, hd, fun att => Conn.handleL2cap_short att hw hfirst hshort result⟩
  · have hlen : p.length = 4 := by omega
    have hhead : (le16 (UInt16.ofNat m.length) ++ le16 l2capAttCid).length = 4 := by
      rw [List.length_append, le16_length, le16_length]
    have hpay : p = fragmentPayload m 0 0 := by
      have htake := congrArg (List.take 4) hcut
      rw [List.flatten_cons, ← hlen, List.take_left, hlen] at htake
      unfold attFrame at htake
      rw [← hhead, List.take_left] at htake
      exact htake.trans (List.append_nil _).symm
    obtain ⟨d₁, hd₁, hhandle⟩ := Ready.handle hw (.inl ⟨rfl, rfl⟩ : Ready d d m 0) hmax
      (show 0 = 0 ↔ llidDataStart ≠ llidDataContinuationOrComplete from
        iff_of_true rfl (by decide)) 0
    obtain ⟨d', hd', hstep⟩ := hd₁.step hmax (k := 0) (Nat.zero_le _)
    refine ⟨d', by rw [hd'.frame], ?_⟩
    intro att
    rw [hpay, hhandle, hstep, if_pos (show 0 + 0 < m.length from hm)]

/-- **When a cut is reassembled.**  A message of 1 to 256 bytes, its L2CAP frame cut into fragments that
    are not empty: fed to a connection in any state of collection the fragments call ATT once, after
    the last, with the message, iff the first has at least five bytes. -/
theorem reassembles_iff (hw : Hw) {m p : List UInt8} {ps : List (List UInt8)}
    (hm : 1 ≤ m.length ∧ m.length ≤ 256) (hcut : (p :: ps).flatten = attFrame m)
    (hne : ∀ q ∈ p :: ps, q ≠ []) :
    Reassembles hw (cutFragments (p :: ps)) m ↔ 5 ≤ p.length := by
  constructor
  · intro h
    by_contra hp
    obtain ⟨d', hd', hfirst⟩ := first_leaves_nothing hw hm.1 hm.2 hcut (by omega)
      (show (Conn.sample .slave).rxL2capLen = 0 from rfl) .idle
    have hpos := List.length_pos_iff.mpr (hne p List.mem_cons_self)
    have hsum := congrArg List.length hcut
    unfold attFrame at hsum
    rw [List.flatten_cons, List.length_append, List.length_append, List.length_append, le16_length,
      le16_length] at hsum
    have hdelivers := h (Conn.sample .slave) .idle (Nat.zero_le _)
    have haccepted := hdelivers.accepted
    have hstopped := hdelivers.stopped
    unfold cutFragments at haccepted hstopped
    rw [Conn.feed_cons (hfirst acceptAll)] at haccepted
    rw [Conn.feed_cons (hfirst (stopAt m.length))] at hstopped
    have hagree : ∀ d msg r, msg.length < m.length → acceptAll d msg r = stopAt m.length d msg r :=
      fun d msg r hmsg => (if_pos hmsg).symm
    have hbytes : payloadBytes (ps.map (Fragment.mk llidDataContinuationOrComplete)) =
        ps.flatten.length := by
      rw [payloadBytes, List.map_map, List.length_flatten]
      rfl
    rw [feed_congr hw hagree _ d' .idle (.inl ⟨hd', by omega⟩)] at haccepted
    exact hstopped haccepted
  · exact reassembles_of_cut hm.2 hcut hne

/-- A read request cut behind its first byte. -/
theorem reassembles_read : Reassembles Hw.standIn
    (cutFragments [[3, 0, 4, 0, 0x0A], [3], [0]]) [0x0A, 3, 0] :=
  (reassembles_iff Hw.standIn (by decide) (by decide) (by decide)).mpr (by decide)

/-- The same request cut behind its header: the second fragment is taken for the start of a message
    and, too short for a header, dropped. -/
theorem header_fragment_loses_message :
    ¬ Reassembles Hw.standIn (cutFragments [[3, 0, 4, 0], [0x0A, 3, 0]]) [0x0A, 3, 0] := by
  intro h
  exact (h (Conn.sample .slave) .idle (Nat.zero_le _)).stopped (by decide +kernel)

end NrfBle
