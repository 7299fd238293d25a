/-
  H4 framing (`src/hci.rs`: `HciPacket` and `H4Framer`).

  A frame is a type byte, a header of the type's length and as many bytes as the header announces.  The
  framer has three states that are one state with parameters: `feedBody` puts the byte into the buffer,
  learns the length when the header is complete, and hands the frame out with its last byte.

  Between frames the framer is `Idle`; inside a frame it is `Reading` the bytes that came so far, and
  what it expects is a function of them.  A frame is fed from the one to the other
  (`feedAll_frame`), so a stream of packets with noise between them comes out as it went in
  (`h4_recovers_stream`).
-/
import Mathlib.Tactic
import NrfBle.Host.EventQueue

namespace NrfBle

open Checked

/-! ## Packets -/

/-- `HCI_COMMAND`. -/
abbrev hciCommand : UInt8 := 0x01
/-- `HCI_ACL_DATA`. -/
abbrev hciAclData : UInt8 := 0x02
/-- `HCI_EVENT`. -/
abbrev hciEvent : UInt8 := 0x04

namespace HciPacket

/-- `HciPacket::command`. -/
def command (ogf : UInt8) (ocf : UInt16) (params : List UInt8) : Except Panic HciPacket := do
  let payload := (Buf.zero 260).set 0 (ocf &&& 0xFF).toUInt8
  let payload := payload.set 1 (((ocf >>> 8) &&& 0x03).toUInt8 ||| (ogf &&& 0x3F) <<< 2)
  let payload := payload.set 2 (UInt8.ofNat params.length)
  let payload ← payload.write 3 params
  return ⟨hciCommand, payload, 3 + params.length⟩

/-- `HciPacket::event`. -/
def event (code : UInt8) (body : List UInt8) : Except Panic HciPacket := do
  let payload := (Buf.zero 260).set 0 code
  let payload := payload.set 1 (UInt8.ofNat body.length)
  let payload ← payload.write 2 body
  return ⟨hciEvent, payload, 2 + body.length⟩

/-- `HciPacket::acl`. -/
def acl (handle : UInt16) (data : List UInt8) : Except Panic HciPacket := do
  let payload := (Buf.zero 260).set 0 (handle &&& 0x0FFF).toUInt8
  let payload := payload.set 1 (handle >>> 8).toUInt8
  let payload := payload.set 2 (UInt8.ofNat (data.length &&& 0xFF))
  let payload := payload.set 3 (UInt8.ofNat (data.length >>> 8))
  let payload ← payload.write 4 data
  return ⟨hciAclData, payload, 4 + data.length⟩

/-- The opcode group and command fields, as `handle_command` reads them. -/
def opcode (packet : HciPacket) : UInt8 × UInt16 :=
  let opcode := (packet.payload.bytes.getD 0 0).toUInt16 |||
    (packet.payload.bytes.getD 1 0).toUInt16 <<< 8
  (((opcode >>> 10) &&& 0x3F).toUInt8, opcode &&& 0x03FF)

/-- The bytes of the packet. -/
def body (packet : HciPacket) : List UInt8 := packet.payload.bytes.take packet.len

end HciPacket

/-! ## The framer -/

/-- The kinds of packets the framer knows. -/
inductive PacketKind
  | command
  | event
  | acl
  deriving DecidableEq, Repr

namespace PacketKind

/-- The type byte. -/
def type : PacketKind → UInt8
  | command => hciCommand
  | event => hciEvent
  | acl => hciAclData

/-- The length of the header. -/
def hdrLen : PacketKind → Nat
  | command => 3
  | event => 2
  | acl => 4

/-- The number of bytes a header announces. -/
def announced (kind : PacketKind) (bytes : List UInt8) : Nat :=
  match kind with
  | command => (bytes.getD 2 0).toNat
  | event => (bytes.getD 1 0).toNat
  | acl => (ofLe16 (bytes.getD 2 0) (bytes.getD 3 0)).toNat

end PacketKind

/-- `H4Framer`. -/
structure H4Framer where
  packetType : Option UInt8
  expected : Nat
  buf : Buf 260
  bufLen : Nat

namespace H4Framer

/-- `H4Framer::new`. -/
def new : H4Framer := ⟨none, 0, Buf.zero 260, 0⟩

/-- `H4Framer::reset`. -/
def reset (f : H4Framer) : H4Framer := { f with packetType := none, expected := 0 }

/-- The arm of `feed` for a packet of one kind. -/
def feedBody (kind : PacketKind) (f : H4Framer) (byte : UInt8) :
    Except Panic (Option HciPacket × H4Framer) := do
  let buf ← f.buf.store f.bufLen byte
  let f := { f with buf := buf, bufLen := f.bufLen + 1 }
  let f :=
    if f.bufLen = kind.hdrLen then { f with expected := kind.hdrLen + kind.announced f.buf.bytes } else f
  if f.bufLen = f.expected ∧ f.expected ≥ kind.hdrLen then
    return (some ⟨kind.type, f.buf, f.bufLen⟩, f.reset)
  else return (none, f)

/-- `H4Framer::feed`. -/
def feed (f : H4Framer) (byte : UInt8) : Except Panic (Option HciPacket × H4Framer) :=
  match f.packetType with
  | none =>
    if byte = hciCommand ∨ byte = hciAclData ∨ byte = hciEvent then
      return (none, { f with packetType := some byte, bufLen := 0 })
    else return (none, f)
  | some type =>
    if type = hciCommand then f.feedBody .command byte
    else if type = hciEvent then f.feedBody .event byte
    else if type = hciAclData then f.feedBody .acl byte
    else return (none, f)

/-- The bytes one by one: what each call of `feed` returned. -/
def feedAll : H4Framer → List UInt8 → Except Panic (List (Option HciPacket) × H4Framer)
  | f, [] => return ([], f)
  | f, byte :: bytes => do
    let (answer, f) ← f.feed byte
    let (answers, f) ← feedAll f bytes
    return (answer :: answers, f)

end H4Framer

/-! ## What a frame is -/

namespace PacketKind

/-- The bytes behind a type byte are a frame: a header, and as many bytes as it announces. -/
structure Frame (kind : PacketKind) (bytes : List UInt8) : Prop where
  header : kind.hdrLen ≤ bytes.length
  length : bytes.length = kind.hdrLen + kind.announced bytes

theorem hdrLen_pos (kind : PacketKind) : 0 < kind.hdrLen := by cases kind <;> decide

/-- The header alone says how many bytes it announces. -/
theorem announced_of_take {kind : PacketKind} {xs ys : List UInt8} {n : Nat} (hn : kind.hdrLen ≤ n)
    (h : xs.take n = ys.take n) : kind.announced xs = kind.announced ys := by
  have hget : ∀ i < kind.hdrLen, xs.getD i 0 = ys.getD i 0 := by
    intro i hi
    have := congrArg (fun l => l.getD i (0 : UInt8)) h
    simpa [List.getElem?_take, show i < n by omega] using this
  cases kind with
  | command => exact congrArg UInt8.toNat (hget 2 (by decide))
  | event => exact congrArg UInt8.toNat (hget 1 (by decide))
  | acl =>
    unfold announced
    rw [hget 2 (by decide), hget 3 (by decide)]

theorem announced_append {kind : PacketKind} {xs : List UInt8} (h : kind.hdrLen ≤ xs.length)
    (ys : List UInt8) : kind.announced (xs ++ ys) = kind.announced xs :=
  announced_of_take h (by rw [List.take_left, List.take_length])

theorem Frame.of_parts {kind : PacketKind} {header data : List UInt8} (hlen : header.length = kind.hdrLen)
    (hann : kind.announced (header ++ data) = data.length) : kind.Frame (header ++ data) where
  header := by rw [List.length_append]; omega
  length := by rw [List.length_append, hann, hlen]

/-- A frame does not begin with another. -/
theorem Frame.not_prefix {kind : PacketKind} {xs ys : List UInt8} (h : kind.Frame (xs ++ ys))
    (hne : ys ≠ []) : ¬ kind.Frame xs := by
  intro hx
  have hlen := h.length
  rw [announced_append hx.header, List.length_append, ← hx.length] at hlen
  exact hne (List.length_eq_zero_iff.mp (by omega))

end PacketKind

/-! ## The states of the framer -/

namespace H4Framer

/-- Between two frames. -/
structure Idle (f : H4Framer) : Prop where
  packetType : f.packetType = none
  expected : f.expected = 0

/-- Inside a frame, of which these bytes came. -/
structure Reading (kind : PacketKind) (part : List UInt8) (f : H4Framer) : Prop where
  packetType : f.packetType = some kind.type
  bufLen : f.bufLen = part.length
  front : f.buf.bytes.take part.length = part
  expected : f.expected = if kind.hdrLen ≤ part.length then kind.hdrLen + kind.announced part else 0

theorem idle_new : new.Idle := ⟨rfl, rfl⟩

/-- A byte that begins no frame. -/
def IsNoise (byte : UInt8) : Prop := byte ≠ hciCommand ∧ byte ≠ hciAclData ∧ byte ≠ hciEvent

instance (byte : UInt8) : Decidable (IsNoise byte) := inferInstanceAs (Decidable (_ ∧ _))

theorem feed_noise {f : H4Framer} (h : f.Idle) {byte : UInt8} (hb : IsNoise byte) :
    f.feed byte = .ok (none, f) := by
  unfold feed
  rw [h.packetType]
  dsimp only
  rw [if_neg (by rintro (h | h | h); exacts [hb.1 h, hb.2.1 h, hb.2.2 h])]
  rfl

theorem feed_type {f : H4Framer} (h : f.Idle) (kind : PacketKind) :
    ∃ f', f.feed kind.type = .ok (none, f') ∧ Reading kind [] f' := by
  have hpos := kind.hdrLen_pos
  refine ⟨{ f with packetType := some kind.type, bufLen := 0 }, ?_, rfl, rfl, rfl, ?_⟩
  · unfold feed
    rw [h.packetType]
    cases kind <;> rfl
  · rw [if_neg (by rw [List.length_nil]; omega)]
    exact h.expected

/-- Inside a frame, the byte is handled by the kind's arm. -/
theorem feed_eq_feedBody {kind : PacketKind} {part : List UInt8} {f : H4Framer}
    (h : Reading kind part f) (byte : UInt8) : f.feed byte = f.feedBody kind byte := by
  unfold feed
  rw [h.packetType]
  cases kind <;> rfl

/-- What an arm does with a byte there is room for. -/
theorem feedBody_eq (kind : PacketKind) {f : H4Framer} (hroom : f.bufLen < 260) (byte : UInt8)
    {expected : Nat}
    (hexp : (if f.bufLen + 1 = kind.hdrLen
      then kind.hdrLen + kind.announced (f.buf.set f.bufLen byte).bytes else f.expected) = expected) :
    f.feedBody kind byte = .ok (if f.bufLen + 1 = expected ∧ expected ≥ kind.hdrLen
      then (some ⟨kind.type, f.buf.set f.bufLen byte, f.bufLen + 1⟩,
        ⟨none, 0, f.buf.set f.bufLen byte, f.bufLen + 1⟩)
      else (none, ⟨f.packetType, expected, f.buf.set f.bufLen byte, f.bufLen + 1⟩)) := by
  subst hexp
  unfold feedBody Buf.store
  rw [if_pos hroom, ok_bind]
  by_cases hhdr : f.bufLen + 1 = kind.hdrLen
  · simp only [if_pos hhdr]
    split <;> rfl
  · simp only [if_neg hhdr]
    split <;> rfl

/-- **One byte inside a frame.**  It completes the frame, which is handed out, or the framer goes on
    reading. -/
theorem feed_reading {kind : PacketKind} {part : List UInt8} {f : H4Framer} (h : Reading kind part f)
    (hroom : part.length < 260) (byte : UInt8) :
    (kind.Frame (part ++ [byte]) → ∃ packet f', f.feed byte = .ok (some packet, f') ∧ f'.Idle ∧
      packet.packetType = kind.type ∧ packet.len = part.length + 1 ∧ packet.body = part ++ [byte]) ∧
    (¬ kind.Frame (part ++ [byte]) →
      ∃ f', f.feed byte = .ok (none, f') ∧ Reading kind (part ++ [byte]) f') := by
  have hfront : (f.buf.set f.bufLen byte).bytes.take (part.length + 1) = part ++ [byte] := by
    rw [h.bufLen, f.buf.take_succ_set hroom, h.front]
  have hlen : (part ++ [byte]).length = part.length + 1 := by rw [List.length_append]; rfl
  -- what is expected is still a function of the bytes that came
  have hexp : (if f.bufLen + 1 = kind.hdrLen
      then kind.hdrLen + kind.announced (f.buf.set f.bufLen byte).bytes else f.expected) =
      if kind.hdrLen ≤ part.length + 1 then kind.hdrLen + kind.announced (part ++ [byte]) else 0 := by
    rw [h.expected, h.bufLen]
    rw [h.bufLen] at hfront
    rcases Nat.lt_trichotomy (part.length + 1) kind.hdrLen with hlt | heq | hgt
    · rw [if_neg (by omega), if_neg (by omega), if_neg (by omega)]
    · rw [if_pos heq, if_pos (by omega)]
      congr 1
      refine PacketKind.announced_of_take (n := part.length + 1) (by omega) ?_
      rw [hfront, List.take_of_length_le (by rw [hlen])]
    · rw [if_neg (by omega), if_pos (by omega), if_pos (by omega),
        PacketKind.announced_append (by omega)]
  rw [feed_eq_feedBody h, feedBody_eq kind (by rw [h.bufLen]; exact hroom) byte hexp, h.bufLen]
  rw [h.bufLen] at hfront
  constructor
  · intro hframe
    have hheader := hframe.header
    have htotal := hframe.length
    rw [hlen] at hheader htotal
    rw [if_pos hheader, if_pos ⟨htotal, by omega⟩]
    exact ⟨_, _, rfl, ⟨rfl, rfl⟩, rfl, rfl, hfront⟩
  · intro hopen
    rw [if_neg]
    · refine ⟨_, rfl, h.packetType, hlen.symm, by rw [hlen]; exact hfront, by rw [hlen]⟩
    · rintro ⟨htotal, hheader⟩
      split at hheader
      · rename_i hle
        rw [if_pos hle] at htotal
        exact hopen ⟨by rw [hlen]; exact hle, by rw [hlen]; exact htotal⟩
      · have := kind.hdrLen_pos
        omega

/-- The 261st byte of a frame. -/
theorem feed_full {kind : PacketKind} {part : List UInt8} {f : H4Framer} (h : Reading kind part f)
    (hfull : 260 ≤ part.length) (byte : UInt8) : f.feed byte = .error .index := by
  rw [feed_eq_feedBody h]
  unfold feedBody Buf.store
  rw [if_neg (by rw [h.bufLen]; omega)]
  rfl

/-! ## Streams -/

theorem feedAll_append {f f' f'' : H4Framer} {xs ys : List UInt8} {as bs : List (Option HciPacket)}
    (hx : f.feedAll xs = .ok (as, f')) (hy : f'.feedAll ys = .ok (bs, f'')) :
    f.feedAll (xs ++ ys) = .ok (as ++ bs, f'') := by
  induction xs generalizing f as with
  | nil =>
    cases hx
    exact hy
  | cons x xs ih =>
    obtain ⟨⟨answer, f₁⟩, hfeed, hx⟩ := bind_eq_ok.mp hx
    obtain ⟨⟨answers, f₂⟩, hrest, hx⟩ := bind_eq_ok.mp hx
    cases hx
    show feedAll f (x :: (xs ++ ys)) = _
    unfold feedAll
    rw [hfeed, ok_bind]
    dsimp only
    rw [ih hrest]
    rfl

theorem feedAll_cons {f f' f'' : H4Framer} {x : UInt8} {xs : List UInt8} {a : Option HciPacket}
    {as : List (Option HciPacket)} (hx : f.feed x = .ok (a, f')) (hxs : f'.feedAll xs = .ok (as, f'')) :
    f.feedAll (x :: xs) = .ok (a :: as, f'') := by
  unfold feedAll
  rw [hx, ok_bind]
  dsimp only
  rw [hxs]
  rfl

theorem feedAll_noise {f : H4Framer} (h : f.Idle) {bytes : List UInt8}
    (hb : ∀ b ∈ bytes, IsNoise b) : f.feedAll bytes = .ok (List.replicate bytes.length none, f) := by
  induction bytes with
  | nil => rfl
  | cons b bytes ih =>
    obtain ⟨hhead, htail⟩ := List.forall_mem_cons.mp hb
    exact feedAll_cons (feed_noise h hhead) (ih htail)

/-- The packet that a frame stands for. -/
structure Framed (kind : PacketKind) (bytes : List UInt8) (packet : HciPacket) : Prop where
  packetType : packet.packetType = kind.type
  len : packet.len = bytes.length
  body : packet.body = bytes

/-- The rest of a frame: nothing, and with its last byte the packet. -/
theorem feedAll_rest {kind : PacketKind} {part rest : List UInt8} {f : H4Framer}
    (h : Reading kind part f) (hne : rest ≠ []) (hframe : kind.Frame (part ++ rest))
    (hroom : (part ++ rest).length ≤ 260) :
    ∃ packet f', f.feedAll rest = .ok (List.replicate (rest.length - 1) none ++ [some packet], f') ∧
      f'.Idle ∧ Framed kind (part ++ rest) packet := by
  induction rest generalizing part f with
  | nil => exact absurd rfl hne
  | cons byte rest ih =>
    have hparts : part ++ byte :: rest = (part ++ [byte]) ++ rest := by
      rw [List.append_assoc]; rfl
    have hlt : part.length < 260 := by
      rw [List.length_append, List.length_cons] at hroom
      omega
    obtain ⟨hlast, hgo⟩ := feed_reading h hlt byte
    cases rest with
    | nil =>
      obtain ⟨packet, f', hfeed, hidle, htype, hlen, hbody⟩ := hlast hframe
      refine ⟨packet, f', feedAll_cons hfeed rfl, hidle, htype, ?_, hbody⟩
      rw [hlen, List.length_append]
      rfl
    | cons next rest =>
      have hopen : ¬ kind.Frame (part ++ [byte]) := by
        rw [hparts] at hframe
        exact hframe.not_prefix (by simp)
      obtain ⟨f₁, hfeed, hreading⟩ := hgo hopen
      rw [hparts] at hframe hroom ⊢
      obtain ⟨packet, f', hrest, hidle, hpacket⟩ := ih hreading (by simp) hframe hroom
      exact ⟨packet, f', feedAll_cons hfeed hrest, hidle, hpacket⟩

/-- **A frame** comes out with its last byte. -/
theorem feedAll_frame {f : H4Framer} (h : f.Idle) {kind : PacketKind} {bytes : List UInt8}
    (hframe : kind.Frame bytes) (hroom : bytes.length ≤ 260) :
    ∃ packet f', f.feedAll (kind.type :: bytes) =
        .ok (List.replicate bytes.length none ++ [some packet], f') ∧
      f'.Idle ∧ Framed kind bytes packet := by
  obtain ⟨f₁, hfeed, hreading⟩ := feed_type h kind
  have hpos : 0 < bytes.length := Nat.lt_of_lt_of_le kind.hdrLen_pos hframe.header
  have hne : bytes ≠ [] := List.ne_nil_of_length_pos hpos
  obtain ⟨packet, f', hrest, hidle, hpacket⟩ := feedAll_rest hreading hne hframe hroom
  refine ⟨packet, f', ?_, hidle, hpacket⟩
  rw [feedAll_cons hfeed hrest, ← List.cons_append, ← List.replicate_succ, Nat.sub_add_cancel hpos]

end H4Framer

/-! ## What the builders make -/

namespace HciPacket

/-- A packet a builder made of a body that fits. -/
inductive Built : HciPacket → Prop
  | command {ogf : UInt8} {ocf : UInt16} {params : List UInt8} {packet : HciPacket}
      (hlen : params.length ≤ 255) (h : HciPacket.command ogf ocf params = .ok packet) : Built packet
  | event {code : UInt8} {body : List UInt8} {packet : HciPacket} (hlen : body.length ≤ 255)
      (h : HciPacket.event code body = .ok packet) : Built packet
  | acl {handle : UInt16} {data : List UInt8} {packet : HciPacket} (hlen : data.length ≤ 256)
      (h : HciPacket.acl handle data = .ok packet) : Built packet

/-- A command whose parameters fit is built. -/
theorem command_ok (ogf : UInt8) (ocf : UInt16) {params : List UInt8} (h : params.length ≤ 255) :
    ∃ packet, command ogf ocf params = .ok packet ∧ packet.Built := by
  obtain ⟨payload, hw, -⟩ := ((((Buf.zero 260).set 0 (ocf &&& 0xFF).toUInt8).set 1
    (((ocf >>> 8) &&& 0x03).toUInt8 ||| (ogf &&& 0x3F) <<< 2)).set 2
      (UInt8.ofNat params.length)).write_of_le (show 3 + params.length ≤ 260 by omega)
  have hok : command ogf ocf params = .ok ⟨hciCommand, payload, 3 + params.length⟩ := by
    unfold command
    dsimp only
    rw [hw]
    rfl
  exact ⟨_, hok, .command h hok⟩

theorem toNat_ofNat_of_lt {n : Nat} (h : n < 256) : (UInt8.ofNat n).toNat = n := by
  rw [UInt8.toNat_ofNat']
  exact Nat.mod_eq_of_lt h

/-- The two length bytes of an ACL header. -/
theorem aclLength {n : Nat} (h : n ≤ 256) :
    (ofLe16 (UInt8.ofNat (n &&& 0xFF)) (UInt8.ofNat (n >>> 8))).toNat = n := by
  have hlow : n &&& 0xFF = n % 256 := Nat.and_two_pow_sub_one_eq_mod n 8
  unfold ofLe16
  rw [hlow, Nat.shiftRight_eq_div_pow, toNat_ofNat_of_lt (Nat.mod_lt _ (by decide)),
    toNat_ofNat_of_lt (by omega), UInt16.toNat_ofNat']
  omega

/-- A header and a body, as the builders put them together. -/
theorem body_of_write {front payload : Buf 260} {type : UInt8} {header data : List UInt8} {k : Nat}
    (hfront : front.bytes.take k = header) (h : front.write k data = .ok payload) :
    (HciPacket.mk type payload (k + data.length)).body = header ++ data := by
  show payload.bytes.take (k + data.length) = _
  rw [Buf.take_of_write h, hfront]

/-- The bytes of an event. -/
theorem event_body {code : UInt8} {body : List UInt8} {packet : HciPacket}
    (h : HciPacket.event code body = .ok packet) :
    packet.packetType = hciEvent ∧ packet.len = 2 + body.length ∧
      packet.body = [code, UInt8.ofNat body.length] ++ body := by
  obtain ⟨payload, hw, h⟩ := bind_eq_ok.mp h
  cases h
  exact ⟨rfl, rfl, body_of_write rfl hw⟩

/-- What the builders make are frames. -/
theorem Built.frame {packet : HciPacket} (h : Built packet) :
    ∃ kind : PacketKind, packet.packetType = kind.type ∧ kind.Frame packet.body ∧
      packet.body.length = packet.len ∧ packet.len ≤ 260 := by
  cases h with
  | @command ogf ocf params packet hlen h =>
    obtain ⟨payload, hw, h⟩ := bind_eq_ok.mp h
    cases h
    have hbody : (HciPacket.mk hciCommand payload (3 + params.length)).body =
        [_, _, UInt8.ofNat params.length] ++ params := body_of_write rfl hw
    rw [hbody]
    refine ⟨.command, rfl, .of_parts rfl (toNat_ofNat_of_lt (by omega)), ?_, ?_⟩
    · simp only [List.length_append, List.length_cons, List.length_nil]
    · show 3 + params.length ≤ 260
      omega
  | @event code body packet hlen h =>
    obtain ⟨htype, hplen, hbody⟩ := event_body h
    rw [hbody, hplen]
    refine ⟨.event, htype, .of_parts rfl (toNat_ofNat_of_lt (by omega)), ?_, by omega⟩
    simp only [List.length_append, List.length_cons, List.length_nil]
  | @acl handle data packet hlen h =>
    obtain ⟨payload, hw, h⟩ := bind_eq_ok.mp h
    cases h
    have hbody : (HciPacket.mk hciAclData payload (4 + data.length)).body =
        [_, _, UInt8.ofNat (data.length &&& 0xFF), UInt8.ofNat (data.length >>> 8)] ++ data :=
      body_of_write rfl hw
    rw [hbody]
    refine ⟨.acl, rfl, .of_parts rfl (aclLength hlen), ?_, ?_⟩
    · simp only [List.length_append, List.length_cons, List.length_nil]
    · show 4 + data.length ≤ 260
      omega

/-! ### Opcodes -/

/-- The high byte of an opcode: the group, above two bits of the command. -/
theorem opcodeHigh (ogf : Fin 64) (top : Fin 4) :
    (UInt8.ofNat top.1 ||| (UInt8.ofNat ogf.1 &&& 0x3F) <<< 2).toNat = 4 * ogf.1 + top.1 := by
  revert ogf top
  decide +kernel

theorem toNat_opcode {ogf : UInt8} {ocf : UInt16} (hogf : ogf < 64) (hocf : ocf < 1024) :
    ((ocf &&& 0xFF).toUInt8.toUInt16 |||
      (((ocf >>> 8) &&& 0x03).toUInt8 ||| (ogf &&& 0x3F) <<< 2).toUInt16 <<< 8).toNat =
      ocf.toNat + 1024 * ogf.toNat := by
  have hg : ogf.toNat < 64 := hogf
  have hc : ocf.toNat < 1024 := hocf
  have htop : ((ocf >>> 8) &&& 0x03).toUInt8 = UInt8.ofNat (ocf.toNat / 256) := by
    apply UInt8.toNat.inj
    show (ocf.toNat >>> 8 &&& 2 ^ 2 - 1) % 256 = _
    rw [Nat.and_two_pow_sub_one_eq_mod, Nat.shiftRight_eq_div_pow, toNat_ofNat_of_lt (by omega)]
    omega
  have hlow : (ocf &&& 0xFF).toUInt8.toNat = ocf.toNat % 256 := by
    show (ocf.toNat &&& 2 ^ 8 - 1) % 256 = _
    rw [Nat.and_two_pow_sub_one_eq_mod]
    omega
  have hhigh := opcodeHigh ⟨ogf.toNat, hg⟩ ⟨ocf.toNat / 256, by omega⟩
  rw [UInt8.ofNat_toNat] at hhigh
  rw [or_shifted_eq_ofLe16, toNat_ofLe16, htop, hhigh, hlow]
  dsimp only
  omega

/-- A command's opcode is read as it was written. -/
theorem opcode_command {ogf : UInt8} {ocf : UInt16} (hogf : ogf < 64) (hocf : ocf < 1024)
    {params : List UInt8} {packet : HciPacket} (h : command ogf ocf params = .ok packet) :
    packet.opcode = (ogf, ocf) := by
  have hg : ogf.toNat < 64 := hogf
  have hc : ocf.toNat < 1024 := hocf
  obtain ⟨payload, hw, h⟩ := bind_eq_ok.mp h
  cases h
  have hbytes := (Buf.write_eq_ok.mp hw).2
  have h0 : payload.bytes.getD 0 0 = (ocf &&& 0xFF).toUInt8 := by rw [hbytes]; rfl
  have h1 : payload.bytes.getD 1 0 = ((ocf >>> 8) &&& 0x03).toUInt8 ||| (ogf &&& 0x3F) <<< 2 := by
    rw [hbytes]; rfl
  have hword := toNat_opcode hogf hocf
  unfold opcode
  dsimp only
  rw [h0, h1]
  generalize (ocf &&& 0xFF).toUInt8.toUInt16 |||
    (((ocf >>> 8) &&& 0x03).toUInt8 ||| (ogf &&& 0x3F) <<< 2).toUInt16 <<< 8 = word at hword ⊢
  refine Prod.ext (UInt8.toNat.inj ?_) (UInt16.toNat.inj ?_)
  · show (word.toNat >>> 10 &&& 2 ^ 6 - 1) % 256 = ogf.toNat
    rw [Nat.and_two_pow_sub_one_eq_mod, Nat.shiftRight_eq_div_pow, hword]
    omega
  · show word.toNat &&& 2 ^ 10 - 1 = ocf.toNat
    rw [Nat.and_two_pow_sub_one_eq_mod, hword]
    omega

/-- The bytes of a packet on the transport. -/
def h4Bytes (packet : HciPacket) : List UInt8 := packet.packetType :: packet.body

/-- What a receiver sees of a packet. -/
def view (packet : HciPacket) : UInt8 × Nat × List UInt8 := (packet.packetType, packet.len, packet.body)

end HciPacket

namespace H4Framer

/-- A built packet is returned with its last byte. -/
theorem feedAll_built {f : H4Framer} (h : f.Idle) {packet : HciPacket} (hbuilt : packet.Built) :
    ∃ answers f', f.feedAll packet.h4Bytes = .ok (answers, f') ∧ f'.Idle ∧
      answers.map (Option.map HciPacket.view) =
        List.replicate packet.len none ++ [some packet.view] := by
  obtain ⟨kind, htype, hframe, hlen, hroom⟩ := hbuilt.frame
  obtain ⟨packet', f', hfeed, hidle, hpacket⟩ := feedAll_frame h hframe (by omega)
  refine ⟨_, f', by rw [HciPacket.h4Bytes, htype]; exact hfeed, hidle, ?_⟩
  have hview : packet'.view = packet.view := by
    unfold HciPacket.view
    rw [hpacket.packetType, hpacket.len, hpacket.body, htype, hlen]
  rw [List.map_append, List.map_replicate, hlen]
  show _ ++ [some packet'.view] = _
  rw [hview]
  rfl

/-- What is returned for packets with noise before each. -/
def expectedAnswers (stream : List (List UInt8 × HciPacket)) :
    List (Option (UInt8 × Nat × List UInt8)) :=
  stream.flatMap fun x => List.replicate (x.1.length + x.2.len) none ++ [some x.2.view]

theorem feedAll_stream {stream : List (List UInt8 × HciPacket)}
    (hnoise : ∀ x ∈ stream, ∀ b ∈ x.1, IsNoise b) (hbuilt : ∀ x ∈ stream, x.2.Built)
    {f : H4Framer} (h : f.Idle) :
    ∃ answers f', f.feedAll (stream.flatMap fun x => x.1 ++ x.2.h4Bytes) = .ok (answers, f') ∧
      f'.Idle ∧ answers.map (Option.map HciPacket.view) = expectedAnswers stream := by
  induction stream generalizing f with
  | nil => exact ⟨[], f, rfl, h, rfl⟩
  | cons x stream ih =>
    obtain ⟨hx, hnoise⟩ := List.forall_mem_cons.mp hnoise
    obtain ⟨hxb, hbuilt⟩ := List.forall_mem_cons.mp hbuilt
    obtain ⟨answers, f₁, hpacket, hidle, hview⟩ := feedAll_built h hxb
    obtain ⟨answers', f', hrest, hidle', hview'⟩ := ih hnoise hbuilt hidle
    have hfront := feedAll_append (feedAll_noise h hx) hpacket
    refine ⟨_, f', by rw [List.flatMap_cons]; exact feedAll_append hfront hrest, hidle', ?_⟩
    have hhead : expectedAnswers (x :: stream) =
        List.replicate (x.1.length + x.2.len) none ++ [some x.2.view] ++ expectedAnswers stream :=
      List.flatMap_cons
    rw [List.map_append, List.map_append, hview, hview', List.map_replicate, ← List.append_assoc,
      hhead, List.replicate_add]
    rfl

end H4Framer

/-- **H4 framing recovers every stream** of built packets with noise between them, each with its last
    byte; and the opcode of a command. -/
theorem h4_recovers_stream (stream : List (List UInt8 × HciPacket))
    (hnoise : ∀ x ∈ stream, ∀ b ∈ x.1, H4Framer.IsNoise b) (hbuilt : ∀ x ∈ stream, x.2.Built)
    {tail : List UInt8} (htail : ∀ b ∈ tail, H4Framer.IsNoise b) :
    (∃ answers f, H4Framer.new.feedAll ((stream.flatMap fun x => x.1 ++ x.2.h4Bytes) ++ tail) =
        .ok (answers, f) ∧
      answers.map (Option.map HciPacket.view) =
        H4Framer.expectedAnswers stream ++ List.replicate tail.length none) ∧
    ∀ ogf ocf params packet, ogf < 64 → ocf < 1024 →
      HciPacket.command ogf ocf params = .ok packet → packet.opcode = (ogf, ocf) := by
  constructor
  · obtain ⟨answers, f, hstream, hidle, hview⟩ :=
      H4Framer.feedAll_stream hnoise hbuilt H4Framer.idle_new
    refine ⟨_, f, H4Framer.feedAll_append hstream (H4Framer.feedAll_noise hidle htail), ?_⟩
    rw [List.map_append, hview, List.map_replicate]
    rfl
  · intro ogf ocf params packet hogf hocf h
    exact HciPacket.opcode_command hogf hocf h

/-- Two noise bytes, an enable command, and a noise byte. -/
theorem h4_recovers_enable :
    ∃ packet, HciPacket.command 0x08 0x000A [1] = .ok packet ∧
      ∃ answers f, H4Framer.new.feedAll ([0, 170] ++ packet.h4Bytes ++ [255]) = .ok (answers, f) ∧
        answers.map (Option.map HciPacket.view) =
          List.replicate (2 + packet.len) none ++ [some packet.view] ++ [none] := by
  obtain ⟨packet, hok, hbuilt⟩ := HciPacket.command_ok 0x08 0x000A (show [(1 : UInt8)].length ≤ 255 by
    decide)
  have hnoise : ∀ b ∈ [0, 170], H4Framer.IsNoise b := by
    simp only [List.forall_mem_cons, List.not_mem_nil, false_implies, implies_true]
    decide
  have htail : ∀ b ∈ [255], H4Framer.IsNoise b := by
    simp only [List.forall_mem_cons, List.not_mem_nil, false_implies, implies_true]
    decide
  obtain ⟨⟨answers, f, hfeed, hview⟩, -⟩ := h4_recovers_stream [([0, 170], packet)]
    (by rintro _ (_ | ⟨_, ⟨⟩⟩); exact hnoise) (by rintro _ (_ | ⟨_, ⟨⟩⟩); exact hbuilt) htail
  rw [List.flatMap_cons, List.flatMap_nil, List.append_nil] at hfeed
  refine ⟨packet, hok, answers, f, hfeed, ?_⟩
  rw [hview, H4Framer.expectedAnswers, List.flatMap_cons, List.flatMap_nil, List.append_nil]
  rfl

end NrfBle
