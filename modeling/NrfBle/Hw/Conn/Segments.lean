/-
  SDUs of a credit-based channel as the peer segments them.

  The two length bytes and the SDU may come in any number of K-frames.  `rx_coc_sdu` takes a frame for
  the first of an SDU as long as no byte of one is collected, and reports an SDU as soon as it has
  all of it.  The host's buffer has 244 bytes, three less than the channel's MTU.

  1. A first frame with a byte of the SDU behind the length leaves something collected, and from then
     on every segmentation gives the SDU, unless it is too long for the host's buffer
     (`assembles_of_segments`).

  2. A first frame with the length only is forgotten; the bytes still to come, less a length, are then
     fewer than the SDU's.  And what is complete is never reported by a frame without a byte.  Both
     follow from one count of the bytes (`Fewer`).
-/
import Mathlib.Tactic
import NrfBle.Hw.Conn.CocTransfer

namespace NrfBle

open Checked

/-! ## Segmentations -/

/-- Hand K-frames to `rx_coc_sdu`, in order. -/
def rxFrames : List (List UInt8) → Conn → ConnEvent → Except Panic (Conn × ConnEvent)
  | [], c, result => return (c, result)
  | f :: fs, c, result => do
    let r ← c.rxCocSdu f result
    rxFrames fs r.1 r.2

/-- Nothing is reported before the last frame; the last one reports data, `rx_data` is the SDU, and the
    channel is ready for the next one. -/
def Assembles (c : Conn) (fs : List (List UInt8)) (sdu : List UInt8) : Prop :=
  ∃ before last c₁ c₂, fs = before ++ [last] ∧ rxFrames before c .idle = .ok (c₁, .idle) ∧
    c₁.rxCocSdu last .idle = .ok (c₂, .data) ∧ c₂.rxData.bytes.take c₂.rxDataLen = sdu ∧
    ∃ coc, c₂.coc = some coc ∧ coc.rxSduLen = 0

theorem rxFrames_cons {f : List UInt8} {fs : List (List UInt8)} {c c' : Conn}
    {result result' : ConnEvent} (h : c.rxCocSdu f result = .ok (c', result')) :
    rxFrames (f :: fs) c result = rxFrames fs c' result' := by
  rw [rxFrames, h]
  rfl

theorem rxFrames_append {before fs : List (List UInt8)} {c c' : Conn}
    {result result' : ConnEvent} (h : rxFrames before c result = .ok (c', result')) :
    rxFrames (before ++ fs) c result = rxFrames fs c' result' := by
  induction before generalizing c result with
  | nil =>
    cases h
    rfl
  | cons f before ih =>
    obtain ⟨⟨c₁, result₁⟩, hf, h⟩ := bind_eq_ok.mp h
    rw [List.cons_append, rxFrames_cons hf]
    exact ih h

/-- The first of several frames, when it reports nothing. -/
theorem Assembles.tail {f : List UInt8} {fs : List (List UInt8)} {c c' : Conn} {sdu : List UInt8}
    (h : Assembles c (f :: fs) sdu) (hf : c.rxCocSdu f .idle = .ok (c', .idle)) :
    Assembles c' fs sdu := by
  obtain ⟨before, last, c₁, c₂, hcut, hbefore, hlast⟩ := h
  cases before with
  | nil =>
    cases hcut
    cases hbefore
    rw [hf] at hlast
    cases hlast.1
  | cons g before =>
    cases hcut
    rw [rxFrames_cons hf] at hbefore
    exact ⟨before, last, c₁, c₂, rfl, hbefore, hlast⟩

theorem Assembles.cons {f : List UInt8} {fs : List (List UInt8)} {c c' : Conn} {sdu : List UInt8}
    (hf : c.rxCocSdu f .idle = .ok (c', .idle)) (h : Assembles c' fs sdu) :
    Assembles c (f :: fs) sdu := by
  obtain ⟨before, last, c₁, c₂, rfl, hbefore, hlast⟩ := h
  exact ⟨f :: before, last, c₁, c₂, rfl, (rxFrames_cons hf).trans hbefore, hlast⟩

/-- All the frames together report data. -/
theorem Assembles.reported {c : Conn} {fs : List (List UInt8)} {sdu : List UInt8}
    (h : Assembles c fs sdu) : ∃ c', rxFrames fs c .idle = .ok (c', .data) := by
  obtain ⟨before, last, c₁, c₂, rfl, hbefore, hlast, _⟩ := h
  refine ⟨c₂, ?_⟩
  rw [rxFrames_append hbefore, rxFrames_cons hlast]
  rfl

/-- `rx_data` has no more. -/
theorem Assembles.length_le {c : Conn} {fs : List (List UInt8)} {sdu : List UInt8}
    (h : Assembles c fs sdu) : sdu.length ≤ 244 := by
  obtain ⟨_, _, _, c₂, _, _, _, hdata, _⟩ := h
  have hlen := congrArg List.length hdata
  rw [List.length_take, c₂.rxData.size] at hlen
  omega

/-! ## Enough in the first frame -/

/-- The record has the first `o` bytes of the SDU. -/
structure HasBytes (c : Conn) (sdu : List UInt8) (o : Nat) (coc : Coc) : Prop where
  record : c.coc = some coc
  total : coc.rxSduTotal = sdu.length
  length : coc.rxSduLen = o
  bytes : coc.rxSdu.bytes.take o = sdu.take o

/-- A frame that completes the SDU. -/
theorem HasBytes.last {c c₁ : Conn} {f sdu : List UInt8} {coc : Coc} (hsdu : sdu.length ≤ 244)
    (hf : c.rxCocSdu f .idle = .ok (c₁.finishSdu coc, .data)) (htotal : coc.rxSduTotal = sdu.length)
    (hbytes : coc.rxSdu.bytes.take sdu.length = sdu) : Assembles c [f] sdu :=
  ⟨[], f, c, _, rfl, rfl, hf, finishSdu_rxData c₁ hsdu htotal hbytes, _, rfl, rfl⟩

/-- **Later frames.**  The pieces of what is left of an SDU, the last one not empty, report it: induction
    on the pieces. -/
theorem HasBytes.assembles {c : Conn} {sdu : List UInt8} {o : Nat} {coc : Coc}
    (h : HasBytes c sdu o coc) (hpos : 0 < o) (hsdu : sdu.length ≤ 244) {fs : List (List UInt8)}
    (hcut : fs.flatten = sdu.drop o) (hin : o < sdu.length) (hlast : fs.getLast? ≠ some []) :
    Assembles c fs sdu := by
  induction fs generalizing c o coc with
  | nil =>
    have hlen := congrArg List.length hcut
    rw [List.flatten_nil, List.length_nil, List.length_drop] at hlen
    omega
  | cons f fs ih =>
    rw [List.flatten_cons] at hcut
    have hsum := congrArg List.length hcut
    rw [List.length_append, List.length_drop] at hsum
    obtain ⟨b, hbytes, hnext⟩ := Conn.rxCocSdu_next h.record (by rw [h.length]; exact hpos)
      (show coc.rxSduLen + f.length ≤ 256 by rw [h.length]; omega) .idle
    rw [h.length, h.total] at hnext
    rw [h.length, h.bytes] at hbytes
    have hpiece : sdu.take o ++ f = sdu.take (o + f.length) := by
      rw [List.take_add, ← hcut, List.take_left]
    rw [hpiece] at hbytes
    have hrest : fs.flatten = sdu.drop (o + f.length) := by
      rw [← List.drop_drop, ← hcut, List.drop_left]
    rcases Nat.lt_or_ge (o + f.length) sdu.length with hmore | hall
    · rw [if_neg (by omega)] at hnext
      refine Assembles.cons hnext (ih ⟨rfl, rfl, rfl, hbytes⟩ (Nat.lt_of_lt_of_le hpos
        (Nat.le_add_right _ _)) hrest hmore ?_)
      cases fs with
      | nil =>
        rw [List.flatten_nil, List.length_nil] at hsum
        omega
      | cons g gs => rwa [List.getLast?_cons_cons] at hlast
    · -- nothing is left, and the last frame is not empty
      have hempty : fs.flatten = [] := by
        rw [hrest]
        exact List.drop_of_length_le hall
      have hnil : fs = [] := by
        by_contra hne
        refine hlast ?_
        obtain ⟨g, gs, rfl⟩ := List.exists_cons_of_ne_nil hne
        rw [List.getLast?_cons_cons, List.getLast?_eq_getLast_of_ne_nil hne]
        exact congrArg some (List.flatten_eq_nil_iff.mp hempty _ (List.getLast_mem hne))
      rw [hnil]
      rw [if_pos (by omega)] at hnext
      refine HasBytes.last hsdu hnext rfl ?_
      have hfull : o + f.length = sdu.length := by
        rw [hempty, List.length_nil] at hsum
        omega
      rw [← hfull]
      show b.bytes.take (o + f.length) = sdu
      rw [hbytes, hfull, List.take_length]

/-- The two length bytes and the SDU, in pieces. -/
theorem assembles_of_segments {c : Conn} {coc : Coc} (hcoc : c.coc = some coc)
    (h0 : coc.rxSduLen = 0) {sdu f : List UInt8} {fs : List (List UInt8)}
    (hpos : 1 ≤ sdu.length) (hsdu : sdu.length ≤ 244)
    (hcut : (f :: fs).flatten = le16 (UInt16.ofNat sdu.length) ++ sdu) (hf : 2 < f.length)
    (hlast : (f :: fs).getLast? ≠ some []) : Assembles c (f :: fs) sdu := by
  rw [List.flatten_cons] at hcut
  -- the first frame: the length and `k` bytes
  obtain ⟨k, hk⟩ : ∃ k, f.length = 2 + k := ⟨f.length - 2, by omega⟩
  have hkpos : 0 < k := by omega
  have hpiece : f = le16 (UInt16.ofNat sdu.length) ++ sdu.take k := by
    have htake := congrArg (List.take f.length) hcut
    rw [List.take_left, hk, ← le16_length (UInt16.ofNat sdu.length),
      List.take_length_add_append] at htake
    exact htake
  have hrest : fs.flatten = sdu.drop k := by
    have hdrop := congrArg (List.drop f.length) hcut
    rw [List.drop_left, hk, ← le16_length (UInt16.ofNat sdu.length),
      List.drop_length_add_append] at hdrop
    exact hdrop
  have hsum := congrArg List.length hcut
  rw [List.length_append, List.length_append, le16_length, hk] at hsum
  have hklen : (sdu.take k).length = k := by
    rw [List.length_take]
    omega
  obtain ⟨b, hbytes, hstart⟩ := Conn.rxCocSdu_start hcoc h0 (UInt16.ofNat sdu.length)
    (show (sdu.take k).length ≤ 256 by omega) .idle
  rw [← hpiece, toNat_sduLength hsdu, hklen] at hstart
  rw [hklen] at hbytes
  rcases Nat.lt_or_ge k sdu.length with hmore | hall
  · rw [if_neg (by omega)] at hstart
    refine Assembles.cons hstart (HasBytes.assembles ⟨rfl, rfl, rfl, hbytes⟩ hkpos hsdu hrest hmore ?_)
    cases fs with
    | nil =>
      rw [List.flatten_nil, List.length_nil] at hsum
      omega
    | cons g gs => rwa [List.getLast?_cons_cons] at hlast
  · have hfull : k = sdu.length := by omega
    have hnil : fs = [] := by
      by_contra hne
      refine hlast ?_
      obtain ⟨g, gs, rfl⟩ := List.exists_cons_of_ne_nil hne
      rw [List.getLast?_cons_cons, List.getLast?_eq_getLast_of_ne_nil hne]
      rw [List.drop_of_length_le hall] at hrest
      exact congrArg some (List.flatten_eq_nil_iff.mp hrest _ (List.getLast_mem hne))
    rw [hnil]
    rw [if_pos hall] at hstart
    refine HasBytes.last hsdu hstart rfl ?_
    show b.bytes.take sdu.length = sdu
    rw [← hfull, hbytes, hfull, List.take_length]

/-! ## Counting the bytes -/

/-- With the `left` bytes still to come the record gets no SDU of `n` bytes: they have fewer besides a
    length, or what is collected is incomplete and together with them fewer. -/
def Fewer (n : Nat) (c : Conn) (left : Nat) : Prop :=
  ∃ coc, c.coc = some coc ∧
    ((coc.rxSduLen = 0 ∧ left < n + 2) ∨
      (0 < coc.rxSduLen ∧ coc.rxSduLen < coc.rxSduTotal ∧ coc.rxSduLen ≤ 256 ∧
        coc.rxSduLen + left < n))

theorem Coc.append_length {coc coc' : Coc} {chunk : List UInt8} (h : coc.append chunk = .ok coc') :
    coc'.rxSduLen ≤ coc.rxSduLen + chunk.length ∧ coc'.rxSduLen ≤ 256 ∧ coc.rxSduLen ≤ coc'.rxSduLen ∧
      coc'.rxSduTotal = coc.rxSduTotal := by
  obtain ⟨room, hroom, h⟩ := bind_eq_ok.mp h
  obtain ⟨b, hb, h⟩ := bind_eq_ok.mp h
  have hfit := (Buf.write_eq_ok.mp hb).1
  cases h
  rw [List.length_take] at hfit
  refine ⟨?_, ?_, ?_, rfl⟩ <;> dsimp only <;> omega

/-- What a frame adds to the bytes collected: itself, the first one without its length. -/
theorem Coc.collect_length {coc coc' : Coc} {f : List UInt8}
    (hlong : ¬ (coc.rxSduLen = 0 ∧ f.length < 2)) (h : coc.collect f = .ok coc') :
    coc'.rxSduLen ≤ coc.rxSduLen + (if coc.rxSduLen = 0 then f.length - 2 else f.length) ∧
      coc'.rxSduLen ≤ 256 ∧ coc.rxSduLen ≤ coc'.rxSduLen ∧
      (coc.rxSduLen ≠ 0 → coc'.rxSduTotal = coc.rxSduTotal) := by
  unfold Coc.collect at h
  by_cases h0 : coc.rxSduLen = 0
  · rw [if_pos h0] at h
    obtain ⟨total, _, h⟩ := bind_eq_ok.mp h
    obtain ⟨chunk, hchunk, happend⟩ := bind_eq_ok.mp h
    have hclen : chunk.length = f.length - 2 := by
      rw [slice_of_le (by omega) (Nat.le_refl _)] at hchunk
      rw [← Except.ok.inj hchunk, List.take_length, List.length_drop]
    obtain ⟨hle, hcap, hge, _⟩ := Coc.append_length happend
    rw [hclen] at hle
    rw [if_pos h0]
    exact ⟨hle, hcap, hge, fun hne => absurd h0 hne⟩
  · rw [if_neg h0] at h ⊢
    obtain ⟨hle, hcap, hge, htotal⟩ := Coc.append_length h
    exact ⟨hle, hcap, hge, fun _ => htotal⟩

theorem finishSdu_length (c : Conn) (coc : Coc) :
    (c.finishSdu coc).rxDataLen ≤ coc.rxSduTotal :=
  (Nat.min_le_left _ _).trans (Nat.min_le_left _ _)

/-- **One frame.**  It reports nothing and there are still too few bytes; or it has a byte and reports
    fewer than `n`. -/
theorem Fewer.step {n left : Nat} {c c' : Conn} {f : List UInt8} {result : ConnEvent}
    (h : Fewer n c (f.length + left)) (hrun : c.rxCocSdu f .idle = .ok (c', result)) :
    (result = .idle ∧ Fewer n c' left) ∨ (result = .data ∧ f ≠ [] ∧ c'.rxDataLen < n) := by
  obtain ⟨coc, hcoc, hcount⟩ := h
  cases Conn.rxCocSdu_cases hrun with
  | ignored hshort =>
    obtain ⟨h0, hlt⟩ := hshort coc hcoc
    exact .inl ⟨rfl, coc, hcoc, .inl ⟨h0, by omega⟩⟩
  | @kept coc₁ coc' hcoc₁ hlong hcollect hmore =>
    obtain rfl : coc = coc₁ := Option.some.inj (hcoc.symm.trans hcoc₁)
    obtain ⟨hle, hcap, hge, htotal⟩ := Coc.collect_length hlong hcollect
    refine .inl ⟨rfl, coc', rfl, ?_⟩
    split at hle <;> omega
  | @finished coc₁ coc' hcoc₁ hlong hcollect hall =>
    obtain rfl : coc = coc₁ := Option.some.inj (hcoc.symm.trans hcoc₁)
    obtain ⟨hle, hcap, hge, htotal⟩ := Coc.collect_length hlong hcollect
    refine .inr ⟨rfl, ?_, ?_⟩
    · -- a frame without a byte leaves the SDU incomplete
      rintro rfl
      have hpos : coc.rxSduLen ≠ 0 := fun h0 => hlong ⟨h0, by decide⟩
      have hsame := htotal hpos
      rw [if_neg hpos, List.length_nil] at hle
      omega
    · have hdata := finishSdu_length c coc'
      split at hle <;> omega

/-- What is reported once stays reported. -/
theorem rxFrames_data {fs : List (List UInt8)} {c c' : Conn} {result : ConnEvent}
    (h : rxFrames fs c .data = .ok (c', result)) : result = .data := by
  induction fs generalizing c with
  | nil =>
    cases h
    rfl
  | cons f fs ih =>
    obtain ⟨⟨c₁, result₁⟩, hf, h⟩ := bind_eq_ok.mp h
    have hsame : result₁ = .data := by
      cases Conn.rxCocSdu_cases hf with
      | ignored | kept | finished => rfl
    rw [hsame] at h
    exact ih h

/-- **Frames that bring too little**, as long as nothing is reported: induction on the frames. -/
theorem Fewer.run {n left : Nat} {c c' : Conn} {fs : List (List UInt8)}
    (h : Fewer n c (fs.flatten.length + left)) (hrun : rxFrames fs c .idle = .ok (c', .idle)) :
    Fewer n c' left := by
  induction fs generalizing c with
  | nil =>
    cases hrun
    rwa [List.flatten_nil, List.length_nil, Nat.zero_add] at h
  | cons f fs ih =>
    obtain ⟨⟨c₁, result⟩, hf, hrun⟩ := bind_eq_ok.mp hrun
    rw [List.flatten_cons, List.length_append, Nat.add_assoc] at h
    rcases h.step hf with ⟨rfl, hnext⟩ | ⟨rfl, _⟩
    · exact ih hnext hrun
    · cases rxFrames_data hrun

/-- Too few bytes, or a last frame without any, for an SDU of `n`. -/
theorem not_assembles_of_fewer {c : Conn} {n : Nat} {fs : List (List UInt8)} {sdu : List UInt8}
    (h : Fewer n c fs.flatten.length) (hn : fs.getLast? ≠ some [] → n ≤ sdu.length) :
    ¬ Assembles c fs sdu := by
  rintro ⟨before, last, c₁, c₂, rfl, hbefore, hlast, hdata, _⟩
  rw [List.flatten_append, List.length_append, List.flatten_singleton] at h
  have hreach : Fewer n c₁ (last.length + 0) := h.run hbefore
  rcases hreach.step hlast with ⟨hidle, _⟩ | ⟨_, hne, hless⟩
  · cases hidle
  · rw [List.getLast?_concat] at hn
    have hmany := hn (fun heq => hne (Option.some.inj heq))
    have hlen := congrArg List.length hdata
    rw [List.length_take] at hlen
    omega

/-- A channel without an SDU in progress, and all the bytes of one. -/
theorem Fewer.start {c : Conn} {coc : Coc} (hcoc : c.coc = some coc) (h0 : coc.rxSduLen = 0)
    {n left : Nat} (h : left < n + 2) : Fewer n c left :=
  ⟨coc, hcoc, .inl ⟨h0, h⟩⟩

/-- A frame with the length and nothing else is forgotten. -/
theorem rxCocSdu_length_only {c : Conn} {coc : Coc} (hcoc : c.coc = some coc) (h0 : coc.rxSduLen = 0)
    {total : UInt16} (hpos : 0 < total.toNat) :
    ∃ c' coc', c.rxCocSdu (le16 total) .idle = .ok (c', .idle) ∧ c'.coc = some coc' ∧
      coc'.rxSduLen = 0 := by
  obtain ⟨b, _, hstart⟩ := Conn.rxCocSdu_start hcoc h0 total
    (show ([] : List UInt8).length ≤ 256 from Nat.zero_le _) .idle
  rw [List.append_nil, if_neg (by rw [List.length_nil]; omega)] at hstart
  exact ⟨_, _, hstart, rfl, rfl⟩

/-! ## Exactly when an SDU is assembled -/

/-- **Every segmentation.**  An SDU comes back on its last frame iff it fits the host's buffer, the
    first frame has a byte of it, and the last frame is not empty. -/
theorem assembles_iff {c : Conn} {coc : Coc} (hcoc : c.coc = some coc) (h0 : coc.rxSduLen = 0)
    {sdu f : List UInt8} {fs : List (List UInt8)}
    (hsdu : 1 ≤ sdu.length ∧ sdu.length ≤ cocMtu.toNat)
    (hcut : (f :: fs).flatten = le16 (UInt16.ofNat sdu.length) ++ sdu) (hf : 2 ≤ f.length) :
    Assembles c (f :: fs) sdu ↔
      sdu.length ≤ 244 ∧ 2 < f.length ∧ (f :: fs).getLast? ≠ some [] := by
  have hmtu : sdu.length ≤ 247 := hsdu.2
  have htotal : (UInt16.ofNat sdu.length).toNat = sdu.length := by
    rw [UInt16.toNat_ofNat']
    exact Nat.mod_eq_of_lt (by omega)
  have hbytes := congrArg List.length hcut
  rw [List.length_append, le16_length] at hbytes
  constructor
  · intro h
    have hlast : (f :: fs).getLast? ≠ some [] := by
      intro hempty
      exact not_assembles_of_fewer (Fewer.start hcoc h0 (n := sdu.length + 1) (by omega))
        (fun hne => absurd hempty hne) h
    refine ⟨h.length_le, ?_, hlast⟩
    · by_contra hshort
      rw [List.flatten_cons] at hcut
      obtain ⟨rfl, hrest⟩ := List.append_inj hcut (by rw [le16_length]; omega)
      obtain ⟨c₁, coc₁, hfirst, hcoc₁, h0₁⟩ := rxCocSdu_length_only hcoc h0
        (show 0 < (UInt16.ofNat sdu.length).toNat by omega)
      have htail : Assembles c₁ fs sdu := h.tail hfirst
      refine not_assembles_of_fewer (Fewer.start hcoc₁ h0₁ ?_) (fun _ => Nat.le_refl sdu.length) htail
      rw [hrest]
      omega
  · rintro ⟨hfits, hmore, hlast⟩
    exact assembles_of_segments hcoc h0 hsdu.1 hfits hcut hmore hlast

/-- Six bytes in two frames. -/
theorem assembles_two_frames :
    Assembles acceptingEnd [[6, 0, 104, 101, 108, 108, 111], [33]] [104, 101, 108, 108, 111, 33] :=
  (assembles_iff (c := acceptingEnd) rfl rfl (by decide) (by decide) (by decide)).mpr (by decide)

/-- The length in a frame of its own: the next frame is taken for the first of an SDU of 25960 bytes.
    And an SDU of 245 bytes, which the MTU allows, loses its last byte. -/
theorem length_frame_loses_sdu :
    ¬ Assembles acceptingEnd [[5, 0], [104, 101, 108, 108, 111]] [104, 101, 108, 108, 111] ∧
      ¬ Assembles acceptingEnd [[245, 0] ++ List.replicate 245 97] (List.replicate 245 97) := by
  constructor
  · intro h
    obtain ⟨c', hrun⟩ := h.reported
    have hidle : (rxFrames [[5, 0], [104, 101, 108, 108, 111]] acceptingEnd .idle).map Prod.snd =
        .ok .idle := by decide +kernel
    rw [hrun] at hidle
    cases hidle
  · intro h
    have hlen := h.length_le
    rw [List.length_replicate] at hlen
    omega

end NrfBle
