/-
  The transport under any bytes (`src/hci.rs`: `H4Framer::feed`, `Hci::on_packet`).

  A stream is noise and frames.  What the framer holds after some bytes is a function of them: it is
  between two frames, or inside one of which it has the beginning (`Parsed`).  A command is at most 258
  bytes long and an event 257, and the buffer has 260.  An ACL header announces up to 65535 bytes of
  data, and `feed` does not compare that with the buffer: the 257th data byte of such a frame is
  written behind the end.

  So a stream is safe, at every byte of it, iff it does not bring that byte (`stream_safe_iff`).
-/
import Mathlib.Tactic
import NrfBle.Host.Hci

namespace NrfBle

open Checked

namespace H4Framer

/-! ## Streams of whole frames -/

/-- Noise, and frames that fit the buffer. -/
inductive Whole : List UInt8 → Prop
  | nil : Whole []
  | noise {bytes : List UInt8} {byte : UInt8} (h : Whole bytes) (hb : IsNoise byte) :
      Whole (bytes ++ [byte])
  | frame {kind : PacketKind} {bytes body : List UInt8} (h : Whole bytes) (hframe : kind.Frame body)
      (hroom : body.length ≤ 260) : Whole (bytes ++ kind.type :: body)

/-- Behind whole frames, an ACL frame that announces more data than the buffer holds, and brings
    it. -/
def Overlong (bytes : List UInt8) : Prop :=
  ∃ pre h0 h1 l0 l1 data rest, Whole pre ∧ 256 < (ofLe16 l0 l1).toNat ∧ data.length = 257 ∧
    bytes = pre ++ (hciAclData :: [h0, h1, l0, l1] ++ data) ++ rest

theorem Overlong.append {bytes : List UInt8} (h : Overlong bytes) (more : List UInt8) :
    Overlong (bytes ++ more) := by
  obtain ⟨pre, h0, h1, l0, l1, data, rest, hpre, hlong, hdata, rfl⟩ := h
  exact ⟨pre, h0, h1, l0, l1, data, rest ++ more, hpre, hlong, hdata, List.append_assoc _ _ _⟩

/-- Some bytes of a frame, and not all. -/
def Unfinished (kind : PacketKind) (part : List UInt8) : Prop :=
  part.length < kind.hdrLen ∨ part.length < kind.hdrLen + kind.announced part

/-- One more byte completes the frame or not. -/
theorem Unfinished.snoc {kind : PacketKind} {part : List UInt8} (h : Unfinished kind part) {byte : UInt8}
    (hopen : ¬ kind.Frame (part ++ [byte])) : Unfinished kind (part ++ [byte]) := by
  have hlen : (part ++ [byte]).length = part.length + 1 := List.length_append
  unfold Unfinished
  rw [hlen]
  rcases Nat.lt_trichotomy (part.length + 1) kind.hdrLen with hlt | heq | hgt
  · exact .inl hlt
  · refine .inr ?_
    have hne : kind.announced (part ++ [byte]) ≠ 0 := by
      intro hzero
      exact hopen ⟨by omega, by omega⟩
    omega
  · have hann : kind.announced (part ++ [byte]) = kind.announced part :=
      PacketKind.announced_append (by omega) [byte]
    refine .inr ?_
    have hne : part.length + 1 ≠ kind.hdrLen + kind.announced (part ++ [byte]) :=
      fun htotal => hopen ⟨by omega, by omega⟩
    rcases h with h | h <;> omega

/-- Only ACL data is longer than the buffer. -/
theorem Unfinished.acl {kind : PacketKind} {part : List UInt8} (h : Unfinished kind part)
    (hfull : part.length = 260) :
    kind = .acl ∧ ∃ h0 h1 l0 l1 data, part = [h0, h1, l0, l1] ++ data ∧ data.length = 256 ∧
      256 < (ofLe16 l0 l1).toNat := by
  have hbyte : ∀ x : UInt8, x.toNat < 256 := UInt8.toNat_lt
  unfold Unfinished at h
  cases kind with
  | command =>
    have := hbyte (part.getD 2 0)
    unfold PacketKind.hdrLen PacketKind.announced at h
    dsimp only at h
    omega
  | event =>
    have := hbyte (part.getD 1 0)
    unfold PacketKind.hdrLen PacketKind.announced at h
    dsimp only at h
    omega
  | acl =>
    obtain _ | ⟨h0, _ | ⟨h1, _ | ⟨l0, _ | ⟨l1, data⟩⟩⟩⟩ := part
    · cases hfull
    · cases hfull
    · cases hfull
    · cases hfull
    have hdata : data.length = 256 := by
      simp only [List.length_cons] at hfull
      omega
    refine ⟨rfl, h0, h1, l0, l1, data, rfl, hdata, ?_⟩
    have hann : PacketKind.announced .acl (h0 :: h1 :: l0 :: l1 :: data) = (ofLe16 l0 l1).toNat := rfl
    have hfour : PacketKind.hdrLen .acl = 4 := rfl
    rw [hann, hfull, hfour] at h
    omega

/-! ## What the framer holds -/

/-- **After these bytes** the framer is between two frames, or has the beginning of one. -/
inductive Parsed (bytes : List UInt8) (f : H4Framer) : Prop
  | between (h : Whole bytes) (hf : f.Idle)
  | inside {kind : PacketKind} {pre part : List UInt8} (heq : bytes = pre ++ kind.type :: part)
      (hpre : Whole pre) (hopen : Unfinished kind part) (hroom : part.length ≤ 260)
      (hf : Reading kind part f)

/-- A byte is noise or the type of a kind of packets. -/
theorem noise_or_type (byte : UInt8) : IsNoise byte ∨ ∃ kind : PacketKind, byte = kind.type := by
  by_cases hc : byte = hciCommand
  · exact .inr ⟨.command, hc⟩
  by_cases ha : byte = hciAclData
  · exact .inr ⟨.acl, ha⟩
  by_cases he : byte = hciEvent
  · exact .inr ⟨.event, he⟩
  · exact .inl ⟨hc, ha, he⟩

/-- **One byte of a stream that is not overlong.** -/
theorem feed_parsed {bytes : List UInt8} {f : H4Framer} (h : Parsed bytes f) {byte : UInt8}
    (hok : ¬ Overlong (bytes ++ [byte])) :
    ∃ answer f', f.feed byte = .ok (answer, f') ∧ Parsed (bytes ++ [byte]) f' ∧
      ∀ packet, answer = some packet → Hci.Handled packet := by
  cases h with
  | between hwhole hidle =>
    rcases noise_or_type byte with hnoise | ⟨kind, rfl⟩
    · exact ⟨none, f, feed_noise hidle hnoise, .between (hwhole.noise hnoise) hidle, by rintro _ ⟨⟩⟩
    · obtain ⟨f', hfeed, hreading⟩ := feed_type hidle kind
      exact ⟨none, f', hfeed, .inside rfl hwhole (.inl kind.hdrLen_pos) (Nat.zero_le _) hreading,
        by rintro _ ⟨⟩⟩
  | @inside kind pre part heq hpre hopen hroom hreading =>
    have hbytes : bytes ++ [byte] = pre ++ kind.type :: (part ++ [byte]) := by
      rw [heq, List.append_assoc]
      rfl
    have hlen : (part ++ [byte]).length = part.length + 1 := List.length_append
    rcases Nat.lt_or_ge part.length 260 with hlt | hge
    · obtain ⟨hlast, hgo⟩ := feed_reading hreading hlt byte
      by_cases hframe : kind.Frame (part ++ [byte])
      · obtain ⟨packet, f', hfeed, hidle, htype, hplen, _⟩ := hlast hframe
        refine ⟨_, f', hfeed, ?_, ?_⟩
        · rw [hbytes]
          exact .between (hpre.frame hframe (by omega)) hidle
        · rintro _ ⟨⟩ hcommand
          have hheader := hframe.header
          rw [htype] at hcommand
          have hkind : kind = .command := by
            cases kind with
            | command => rfl
            | event => cases hcommand
            | acl => cases hcommand
          rw [hkind, hlen] at hheader
          have hthree : PacketKind.hdrLen .command = 3 := rfl
          omega
      · obtain ⟨f', hfeed, hreading'⟩ := hgo hframe
        exact ⟨none, f', hfeed, .inside hbytes hpre (hopen.snoc hframe) (by omega) hreading',
          by rintro _ ⟨⟩⟩
    · -- the buffer is full: this is the byte behind its end
      obtain ⟨rfl, h0, h1, l0, l1, data, rfl, hdata, hlong⟩ := hopen.acl (by omega)
      refine absurd ⟨pre, h0, h1, l0, l1, data ++ [byte], [], hpre, hlong, ?_, ?_⟩ hok
      · rw [List.length_append, hdata]
        rfl
      · rw [hbytes, List.append_nil]
        rfl

theorem parsed_new : Parsed [] new := .between .nil idle_new

/-! ## The buffer -/

/-- The fill level stays within the buffer. -/
theorem feed_bufLen {f f' : H4Framer} {byte : UInt8} {answer : Option HciPacket}
    (h : f.feed byte = .ok (answer, f')) (hlen : f.bufLen ≤ 260) : f'.bufLen ≤ 260 := by
  have hbody : ∀ kind : PacketKind, f.feedBody kind byte = .ok (answer, f') → f'.bufLen ≤ 260 := by
    intro kind hkind
    rcases Nat.lt_or_ge f.bufLen 260 with hlt | hge
    · obtain ⟨expected, hexp⟩ : ∃ e, (if f.bufLen + 1 = kind.hdrLen
        then kind.hdrLen + kind.announced (f.buf.set f.bufLen byte).bytes else f.expected) = e := ⟨_, rfl⟩
      rw [feedBody_eq kind hlt byte hexp] at hkind
      split at hkind
      all_goals
        cases hkind
        exact hlt
    · unfold feedBody Buf.store at hkind
      rw [if_neg (by omega)] at hkind
      cases hkind
  unfold feed at h
  split at h
  · split at h
    · cases h
      exact Nat.zero_le _
    · cases h
      exact hlen
  · split at h
    · exact hbody _ h
    split at h
    · exact hbody _ h
    split at h
    · exact hbody _ h
    · cases h
      exact hlen

/-! ## Overlong streams -/

theorem feedAll_whole {bytes : List UInt8} (h : Whole bytes) {f : H4Framer} (hf : f.Idle) :
    ∃ answers f', f.feedAll bytes = .ok (answers, f') ∧ f'.Idle := by
  induction h with
  | nil => exact ⟨[], f, rfl, hf⟩
  | noise _ hb ih =>
    obtain ⟨answers, f₁, hfeed, hidle⟩ := ih
    exact ⟨_, f₁, feedAll_append hfeed (feedAll_cons (feed_noise hidle hb) rfl), hidle⟩
  | frame _ hframe hroom ih =>
    obtain ⟨answers, f₁, hfeed, hidle⟩ := ih
    obtain ⟨packet, f₂, hrest, hidle', _⟩ := feedAll_frame hidle hframe hroom
    exact ⟨_, f₂, feedAll_append hfeed hrest, hidle'⟩

/-- The first bytes of a frame that is longer than the buffer. -/
theorem feedAll_long {kind : PacketKind} {part rest : List UInt8} {f : H4Framer}
    (h : Reading kind part f) (hheader : kind.hdrLen ≤ (part ++ rest).length)
    (hlong : 260 < kind.hdrLen + kind.announced (part ++ rest)) (hroom : (part ++ rest).length ≤ 260) :
    ∃ answers f', f.feedAll rest = .ok (answers, f') ∧ Reading kind (part ++ rest) f' := by
  induction rest generalizing part f with
  | nil => exact ⟨[], f, rfl, by rwa [List.append_nil]⟩
  | cons byte rest ih =>
    have hparts : part ++ byte :: rest = (part ++ [byte]) ++ rest := by
      rw [List.append_assoc]
      rfl
    have hlt : part.length < 260 := by
      rw [List.length_append, List.length_cons] at hroom
      omega
    rw [hparts] at hheader hlong hroom ⊢
    have hopen : ¬ kind.Frame (part ++ [byte]) := by
      intro hframe
      have htotal := hframe.length
      rw [PacketKind.announced_append hframe.header] at hlong
      rw [List.length_append] at hroom
      omega
    obtain ⟨f₁, hfeed, hreading⟩ := (feed_reading h hlt byte).2 hopen
    obtain ⟨answers, f', hrest, hreading'⟩ := ih hreading hheader hlong hroom
    exact ⟨_, f', feedAll_cons hfeed hrest, hreading'⟩

/-- What a run over a whole stream says of its beginning. -/
theorem feedAll_front {f f'' : H4Framer} {xs ys : List UInt8} {cs : List (Option HciPacket)}
    (h : f.feedAll (xs ++ ys) = .ok (cs, f'')) :
    ∃ as f' bs, f.feedAll xs = .ok (as, f') ∧ f'.feedAll ys = .ok (bs, f'') := by
  induction xs generalizing f cs with
  | nil => exact ⟨[], f, cs, rfl, h⟩
  | cons x xs ih =>
    obtain ⟨⟨answer, f₁⟩, hfeed, h⟩ := bind_eq_ok.mp h
    obtain ⟨⟨answers, f₂⟩, hrest, h⟩ := bind_eq_ok.mp h
    cases h
    obtain ⟨as, f', bs, hxs, hys⟩ := ih hrest
    exact ⟨_, f', bs, feedAll_cons hfeed hxs, hys⟩

/-- An overlong stream does not get through. -/
theorem Overlong.stops {bytes : List UInt8} (h : Overlong bytes) {f f' : H4Framer} (hf : f.Idle)
    {answers : List (Option HciPacket)} : f.feedAll bytes ≠ .ok (answers, f') := by
  obtain ⟨pre, h0, h1, l0, l1, data, rest, hpre, hlong, hdata, rfl⟩ := h
  intro hall
  obtain ⟨front, last, rfl⟩ : ∃ front last, data = front ++ [last] :=
    ⟨_, _, (List.dropLast_append_getLast (List.ne_nil_of_length_pos (by omega))).symm⟩
  rw [List.length_append, List.length_singleton] at hdata
  -- whole frames, the type byte, 260 bytes, and one more
  obtain ⟨_, f₁, _, hall, _⟩ := feedAll_front hall
  obtain ⟨_, f₂, _, hwhole, hframe⟩ := feedAll_front hall
  obtain ⟨_, f₃, hwhole', hidle⟩ := feedAll_whole hpre hf
  cases hwhole.symm.trans hwhole'
  obtain ⟨f₄, htype, hreading⟩ := feed_type hidle .acl
  obtain ⟨⟨_, f₅⟩, hfeed, hframe⟩ := bind_eq_ok.mp hframe
  cases hfeed.symm.trans htype
  obtain ⟨⟨got, f₆⟩, hbody, hframe⟩ := bind_eq_ok.mp hframe
  have hparts : [h0, h1, l0, l1] ++ (front ++ [last]) = ([h0, h1, l0, l1] ++ front) ++ [last] :=
    (List.append_assoc _ _ _).symm
  have hsplit : f₄.feedAll (([h0, h1, l0, l1] ++ front) ++ [last]) = .ok (got, f₆) := by
    rw [← hparts]
    exact hbody
  obtain ⟨_, f₇, _, hfront, hlast⟩ := feedAll_front hsplit
  have hfull : ([h0, h1, l0, l1] ++ front).length = 260 := by
    rw [List.length_append]
    simp only [List.length_cons, List.length_nil]
    omega
  have hann : PacketKind.announced .acl ([] ++ ([h0, h1, l0, l1] ++ front)) = (ofLe16 l0 l1).toNat := rfl
  obtain ⟨_, f₈, hfront', hreading'⟩ := @feedAll_long .acl [] ([h0, h1, l0, l1] ++ front) _ hreading
    (by rw [List.nil_append, hfull]; decide)
    (by rw [hann]; exact Nat.add_lt_add_left hlong 4) (by rw [List.nil_append, hfull])
  cases hfront.symm.trans hfront'
  obtain ⟨⟨_, f₉⟩, hstop, _⟩ := bind_eq_ok.mp hlast
  rw [feed_full hreading' (by rw [List.nil_append, hfull]) last] at hstop
  cases hstop

end H4Framer

/-! ## The transport -/

namespace Hci

open H4Framer

/-- The bytes of the transport one by one, each with what the clock reads: fed, and the packet they
    complete handed to `on_packet`. -/
def serve : Hci → Ble → List (UInt8 × UInt32) → Logged HciAct (Hci × Ble)
  | h, b, [] => return (h, b)
  | h, b, (byte, now) :: bytes => do
    let (got, h) ← Logged.lift (h.feed byte)
    match got with
    | none => serve h b bytes
    | some packet => do
      let (h, b) ← h.onPacket b packet now
      serve h b bytes

/-- Up to every byte, everything returned, and the fill level is within the buffer. -/
def Safe (h : Hci) (b : Ble) (bytes : List (UInt8 × UInt32)) : Prop :=
  ∀ pre rest, bytes = pre ++ rest →
    ∃ log h' b', h.serve b pre = ⟨log, .ok (h', b')⟩ ∧ h'.framer.bufLen ≤ 260

theorem serve_append (h : Hci) (b : Ble) (xs ys : List (UInt8 × UInt32)) :
    h.serve b (xs ++ ys) = h.serve b xs >>= fun r => r.1.serve r.2 ys := by
  induction xs generalizing h b with
  | nil => rfl
  | cons x xs ih =>
    show Logged.lift (h.feed x.1) >>= _ = (Logged.lift (h.feed x.1) >>= _) >>= _
    rw [Logged.bind_assoc]
    congr 1
    funext r
    obtain ⟨_ | packet, h'⟩ := r
    · exact ih h' b
    · dsimp only
      rw [Logged.bind_assoc]
      congr 1
      funext r
      exact ih r.1 r.2

theorem feed_eq {h : Hci} {byte : UInt8} {answer : Option HciPacket} {f : H4Framer}
    (hfeed : h.framer.feed byte = .ok (answer, f)) :
    h.feed byte = .ok (answer, { h with framer := f }) := by
  unfold feed
  rw [hfeed]
  rfl

/-- One byte, and the packet it completes. -/
theorem serve_one {h : Hci} (b : Ble) {byte : UInt8} (now : UInt32) {answer : Option HciPacket}
    {f : H4Framer} (hfeed : h.framer.feed byte = .ok (answer, f))
    (hpacket : ∀ packet, answer = some packet → Handled packet) :
    ∃ log h' b', h.serve b [(byte, now)] = ⟨log, .ok (h', b')⟩ ∧ h'.framer = f := by
  unfold serve
  rw [feed_eq hfeed, Logged.lift_ok_bind]
  cases answer with
  | none => exact ⟨[], _, b, rfl, rfl⟩
  | some packet =>
    obtain ⟨log, h', b', hrun, hframer⟩ :=
      onPacket_ok { h with framer := f } b now (hpacket packet rfl)
    dsimp only
    rw [hrun]
    exact ⟨_, h', b', rfl, hframer⟩

/-- The framer of a run saw all the bytes. -/
theorem serve_framer {h h' : Hci} {b b' : Ble} {bytes : List (UInt8 × UInt32)} {log : List HciAct}
    (hrun : h.serve b bytes = ⟨log, .ok (h', b')⟩) :
    ∃ answers, h.framer.feedAll (bytes.map Prod.fst) = .ok (answers, h'.framer) := by
  induction bytes generalizing h b log with
  | nil =>
    cases hrun
    exact ⟨[], rfl⟩
  | cons x bytes ih =>
    obtain ⟨byte, now⟩ := x
    unfold serve at hrun
    cases hfeed : h.framer.feed byte with
    | error p =>
      have hstop : h.feed byte = .error p := by
        unfold feed
        rw [hfeed]
        rfl
      rw [hstop] at hrun
      cases hrun
    | ok got =>
      obtain ⟨answer, f⟩ := got
      rw [feed_eq hfeed, Logged.lift_ok_bind] at hrun
      cases answer with
      | none =>
        obtain ⟨answers, hrest⟩ := ih hrun
        exact ⟨_, feedAll_cons hfeed hrest⟩
      | some packet =>
        dsimp only at hrun
        rcases hpacket : Hci.onPacket { h with framer := f } b packet now with ⟨log₁, p | ⟨h₁, b₁⟩⟩
        · rw [hpacket] at hrun
          cases hrun
        · rw [hpacket, Logged.mk_ok_bind] at hrun
          have hframer : h₁.framer = f := onPacket_framer hpacket
          have hres : (h₁.serve b₁ bytes).res = .ok (h', b') := congrArg Logged.res hrun
          have hrun₁ : h₁.serve b₁ bytes = ⟨(h₁.serve b₁ bytes).log, .ok (h', b')⟩ :=
            Logged.ext rfl hres
          obtain ⟨answers, hrest⟩ := ih hrun₁
          rw [hframer] at hrest
          exact ⟨_, feedAll_cons hfeed hrest⟩

/-- **A stream that is not overlong** is served. -/
theorem serve_parsed (h : Hci) (b : Ble) (bytes : List (UInt8 × UInt32)) (hnew : h.framer = H4Framer.new)
    (hok : ¬ Overlong (bytes.map Prod.fst)) :
    ∃ log h' b', h.serve b bytes = ⟨log, .ok (h', b')⟩ ∧ Parsed (bytes.map Prod.fst) h'.framer ∧
      h'.framer.bufLen ≤ 260 := by
  induction bytes using List.reverseRecOn with
  | nil => exact ⟨[], h, b, rfl, by rw [hnew]; exact parsed_new, by rw [hnew]; decide⟩
  | append_singleton bytes x ih =>
    obtain ⟨byte, now⟩ := x
    rw [List.map_append] at hok ⊢
    obtain ⟨log, h', b', hrun, hparsed, hlen⟩ := ih (fun hover => hok (hover.append _))
    obtain ⟨answer, f, hfeed, hparsed', hpacket⟩ := feed_parsed hparsed hok
    obtain ⟨log', h'', b'', hone, hframer⟩ := serve_one b' now hfeed hpacket
    refine ⟨log ++ log', h'', b'', ?_, ?_, ?_⟩
    · rw [serve_append, hrun, Logged.mk_ok_bind, hone, Logged.prepend_mk]
    · rw [hframer]
      exact hparsed'
    · rw [hframer]
      exact feed_bufLen hfeed hlen

/-- **The transport is safe, whatever it is fed, unless an overlong frame comes.** -/
theorem stream_safe_iff (h : Hci) (b : Ble) (bytes : List (UInt8 × UInt32)) :
    Safe { h with framer := H4Framer.new } b bytes ↔ ¬ Overlong (bytes.map Prod.fst) := by
  constructor
  · intro hsafe hover
    obtain ⟨log, h', b', hrun, _⟩ := hsafe bytes [] (List.append_nil _).symm
    obtain ⟨answers, hall⟩ := serve_framer hrun
    exact hover.stops idle_new hall
  · rintro hok pre rest rfl
    rw [List.map_append] at hok
    obtain ⟨log, h', b', hrun, _, hlen⟩ :=
      serve_parsed { h with framer := H4Framer.new } b pre rfl (fun hover => hok (hover.append _))
    exact ⟨log, h', b', hrun, hlen⟩

/-- An ACL frame of 257 zeroes, as its header announces, with the clock at zero. -/
def longAcl : List (UInt8 × UInt32) :=
  ([hciAclData, 0, 0, 1, 1] ++ List.replicate 257 0).map (fun byte => (byte, 0))

/-- A new controller does not survive it. -/
theorem longAcl_unsafe : ¬ Safe Hci.new Ble.new longAcl := by
  intro hsafe
  obtain ⟨log, h', b', hrun, _⟩ := hsafe longAcl [] (List.append_nil _).symm
  obtain ⟨answers, hall⟩ := serve_framer hrun
  have hover : Overlong (longAcl.map Prod.fst) :=
    ⟨[], 0, 0, 1, 1, List.replicate 257 0, [], .nil, by decide, List.length_replicate, by
      rw [longAcl, List.map_map, List.append_nil]
      exact List.map_id _⟩
  exact hover.stops idle_new hall

end Hci

end NrfBle
