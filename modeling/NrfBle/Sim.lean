/-
  The virtual radio (`src/sim.rs`): a transmitter that appends the CRC and whitens, and a receiver that
  whitens again and checks.

  On its own channel the receiver has the packet's bits back, with any error of the air added to them
  (`bitsOf_received`).  The packet's bits leave nothing in the CRC register, so by linearity the check
  sees what the error alone leaves: something, for a burst and for an odd number of flips.

  On another channel the error is the keystream of the difference of the two registers, which leaves
  something too (`Keystream.feed_stream_ne_zero`).
-/
import Mathlib.Tactic
import NrfBle.Ll.Crc
import NrfBle.Ll.Whiten
import NrfBle.Ll.Keystream

namespace NrfBle

open Checked ShiftRegister

namespace Sim

/-- `MAX_PACKET_LEN`. -/
abbrev maxPacketLen : Nat := 255 + 2 + 3

/-- `Packet`: on the air. -/
structure Packet where
  channel : UInt8
  bytes : Buf maxPacketLen
  len : Nat
  deriving DecidableEq

/-- `RxPacket`: received. -/
structure RxPacket where
  pdu : Buf maxPacketLen
  len : Nat
  deriving DecidableEq

/-- `VirtualRadio`. -/
structure VirtualRadio where
  channel : UInt8
  deriving DecidableEq

/-- `VirtualRadio::transmit`. -/
def VirtualRadio.transmit (radio : VirtualRadio) (pdu : List UInt8) :
    Except Panic (Except Error Packet) := do
  if pdu.length + 3 > maxPacketLen then return .error .bufferTooSmall
  let bytes ← (Buf.zero maxPacketLen).write 0 pdu
  let rest ← bytes.sub pdu.length maxPacketLen
  match Crc.appendCrc pdu rest with
  | .error e => return .error e
  | .ok rest =>
    let bytes ← bytes.write pdu.length rest
    let total := pdu.length + 3
    let front ← bytes.upto total
    let bytes ← bytes.write 0 (Whiten.whiten front radio.channel)
    return .ok ⟨radio.channel, bytes, total⟩

/-- `VirtualRadio::receive`. -/
def VirtualRadio.receive (radio : VirtualRadio) (packet : Packet) :
    Except Panic (Except Error RxPacket) := do
  if packet.len < 3 then return .error .invalidLength
  let front ← packet.bytes.upto packet.len
  let buf ← (Buf.zero maxPacketLen).write 0 front
  let front ← buf.upto packet.len
  let buf ← buf.write 0 (Whiten.whiten front radio.channel)
  let front ← buf.upto packet.len
  if !Crc.check front then return .error .crcMismatch
  return .ok ⟨buf, packet.len - 3⟩

/-- `loopback`. -/
def loopback (pdu : List UInt8) (channel : UInt8) : Except Panic (Except Error RxPacket) := do
  let radio : VirtualRadio := ⟨channel⟩
  match ← radio.transmit pdu with
  | .error e => return .error e
  | .ok packet => radio.receive packet

/-! ## What they do -/

/-- A PDU with its CRC. -/
def frame (pdu : List UInt8) : List UInt8 := pdu ++ Crc.crcBytes (Crc.crc24 pdu)

theorem length_frame (pdu : List UInt8) : (frame pdu).length = pdu.length + 3 := by
  rw [frame, List.length_append]
  rfl

/-- Writing in front of an array, and reading the front back. -/
theorem take_of_write_front {n : Nat} {b b' : Buf n} {src : List UInt8} {k : Nat} (hk : k = src.length)
    (h : b.write 0 src = .ok b') : b'.bytes.take k = src := by
  have := Buf.take_of_write h
  rw [Nat.zero_add, ← hk] at this
  simpa using this

theorem transmit_eq (channel : UInt8) {pdu : List UInt8} (h : pdu.length ≤ 257) :
    ∃ packet, (VirtualRadio.mk channel).transmit pdu = .ok (.ok packet) ∧
      packet.len = pdu.length + 3 ∧
      packet.bytes.bytes.take packet.len = Whiten.whiten (frame pdu) channel := by
  have hmax : maxPacketLen = 260 := rfl
  obtain ⟨b₁, hw₁, -⟩ := (Buf.zero maxPacketLen).write_of_le (show 0 + pdu.length ≤ maxPacketLen by omega)
  have hfront : b₁.bytes.take pdu.length = pdu := take_of_write_front rfl hw₁
  have hrest : b₁.sub pdu.length maxPacketLen = .ok (b₁.bytes.drop pdu.length) := by
    rw [b₁.sub_of_le (by omega) (Nat.le_refl _), List.take_of_length_le (by rw [b₁.size])]
  have hroom : 3 ≤ (b₁.bytes.drop pdu.length).length := by
    rw [List.length_drop, b₁.size]
    omega
  have hfill : pdu.length + (Crc.crcBytes (Crc.crc24 pdu) ++ (b₁.bytes.drop pdu.length).drop 3).length ≤
      maxPacketLen := by
    rw [List.length_append, List.length_drop, List.length_drop, b₁.size]
    show pdu.length + (3 + _) ≤ _
    omega
  obtain ⟨b₂, hw₂, hb₂⟩ := b₁.write_of_le hfill
  have htotal : b₂.bytes.take (pdu.length + 3) = frame pdu := by
    rw [hb₂, hfront, List.append_assoc pdu, List.append_assoc, ← List.append_assoc pdu]
    exact List.take_left' (length_frame pdu)
  obtain ⟨b₃, hw₃, -⟩ := b₂.write_of_le
    (show 0 + (Whiten.whiten (frame pdu) channel).length ≤ maxPacketLen by
      rw [Whiten.length_whiten, length_frame]; omega)
  refine ⟨⟨channel, b₃, pdu.length + 3⟩, ?_, rfl,
    take_of_write_front (by rw [Whiten.length_whiten, length_frame]) hw₃⟩
  unfold VirtualRadio.transmit
  rw [if_neg (by omega), hw₁, ok_bind, hrest, ok_bind, Crc.appendCrc_eq pdu hroom]
  dsimp only
  rw [hw₂, ok_bind, b₂.upto_of_le (by omega), ok_bind, htotal, hw₃]
  rfl

/-- What a receiver makes of a packet with the bytes `front`. -/
theorem receive_eq (channel : UInt8) {packet : Packet} {front : List UInt8}
    (hfront : packet.bytes.bytes.take packet.len = front) (h3 : 3 ≤ packet.len)
    (hmax : packet.len ≤ maxPacketLen) :
    ∃ buf : Buf maxPacketLen,
      (VirtualRadio.mk channel).receive packet =
        .ok (if Crc.check (Whiten.whiten front channel) then .ok ⟨buf, packet.len - 3⟩
          else .error .crcMismatch) ∧
        buf.bytes.take packet.len = Whiten.whiten front channel := by
  have hlen : front.length = packet.len := by
    rw [← hfront, List.length_take, packet.bytes.size]
    exact Nat.min_eq_left hmax
  obtain ⟨b₁, hw₁, -⟩ := (Buf.zero maxPacketLen).write_of_le
    (show 0 + front.length ≤ maxPacketLen by omega)
  have hb₁ : b₁.bytes.take packet.len = front := take_of_write_front hlen.symm hw₁
  obtain ⟨b₂, hw₂, -⟩ := b₁.write_of_le
    (show 0 + (Whiten.whiten front channel).length ≤ maxPacketLen by rw [Whiten.length_whiten]; omega)
  have hb₂ : b₂.bytes.take packet.len = Whiten.whiten front channel :=
    take_of_write_front (by rw [Whiten.length_whiten, hlen]) hw₂
  refine ⟨b₂, ?_, hb₂⟩
  unfold VirtualRadio.receive
  rw [if_neg (by omega), packet.bytes.upto_of_le hmax, ok_bind, hfront, hw₁, ok_bind, b₁.upto_of_le hmax,
    ok_bind, hb₁, hw₂, ok_bind, b₂.upto_of_le hmax, ok_bind, hb₂]
  cases Crc.check (Whiten.whiten front channel) <;> rfl

/-! ## On the same channel -/

/-- The error, in an array of the packet's size. -/
def errorArray (e : List UInt8) : Buf maxPacketLen :=
  ⟨e.take maxPacketLen ++ List.replicate (maxPacketLen - (e.take maxPacketLen).length) 0, by
    rw [List.length_append, List.length_replicate, List.length_take]; omega⟩

/-- The packet with an error added to its first bytes. -/
def Packet.corrupt (packet : Packet) (e : List UInt8) : Packet :=
  { packet with bytes := packet.bytes.xor (errorArray e) }

theorem take_corrupt {packet : Packet} (hmax : packet.len ≤ maxPacketLen) {e : List UInt8}
    (he : e.length = packet.len) :
    (packet.corrupt e).bytes.bytes.take packet.len =
      List.zipWith (· ^^^ ·) (packet.bytes.bytes.take packet.len) e := by
  show (List.zipWith (· ^^^ ·) packet.bytes.bytes (errorArray e).bytes).take packet.len = _
  rw [List.take_zipWith]
  congr 1
  show (e.take maxPacketLen ++ _).take packet.len = e
  rw [List.take_of_length_le (show e.length ≤ maxPacketLen by omega)]
  exact List.take_left' he

/-- **What is received** on the channel of the packet: the frame, with the error added. -/
theorem bitsOf_received (data : List UInt8) {e : List UInt8} (he : e.length = data.length)
    (channel : UInt8) :
    bitsOf (Whiten.whiten (List.zipWith (· ^^^ ·) (Whiten.whiten data channel) e) channel) =
      List.zipWith (· ^^ ·) (bitsOf data) (bitsOf e) := by
  have hlen : (Whiten.whiten data channel).length = e.length := by rw [Whiten.length_whiten, he]
  have hkey : (List.zipWith (· ^^ ·) (bitsOf data) (bitsOf e)).length =
      (stream Whiten.next Whiten.key (8 * data.length) (Whiten.start channel)).length := by
    rw [List.length_zipWith, length_bitsOf, length_bitsOf, length_stream, he, Nat.min_self]
  rw [Whiten.bitsOf_whiten, bitsOf_xor hlen, Whiten.bitsOf_whiten, List.length_zipWith, hlen,
    Nat.min_self, he, zipWith_xor_right_comm (bitsOf data), zipWith_xor_cancel hkey]

/-- Whitening twice gives the message back. -/
theorem whiten_whiten (data : List UInt8) (channel : UInt8) :
    Whiten.whiten (Whiten.whiten data channel) channel = data := by
  apply bitsOf_injective
  rw [Whiten.bitsOf_whiten, Whiten.bitsOf_whiten, Whiten.length_whiten]
  exact zipWith_xor_cancel (by rw [length_bitsOf, length_stream])

/-- A frame leaves nothing; so a frame with something added leaves what that leaves. -/
theorem feed_frame_xor (pdu : List UInt8) {es : List Bool} (h : es.length = 8 * (frame pdu).length) :
    feed Crc.poly Crc.start (List.zipWith (· ^^ ·) (bitsOf (frame pdu)) es) = feed Crc.poly 0 es := by
  have hlen : (bitsOf (frame pdu)).length = es.length := by rw [length_bitsOf, h]
  calc feed Crc.poly Crc.start (List.zipWith (· ^^ ·) (bitsOf (frame pdu)) es)
      = feed Crc.poly (Crc.start ^^^ 0) (List.zipWith (· ^^ ·) (bitsOf (frame pdu)) es) := by
        rw [show Crc.start ^^^ 0 = Crc.start from BitVec.xor_zero]
    _ = feed Crc.poly Crc.start (bitsOf (frame pdu)) ^^^ feed Crc.poly 0 es := feed_xor hlen _ _
    _ = 0 ^^^ feed Crc.poly 0 es := by rw [show feed Crc.poly Crc.start (bitsOf (frame pdu)) = 0 from
        Crc.check_append pdu]
    _ = feed Crc.poly 0 es := BitVec.zero_xor

/-- The polynomial has its top bit. -/
theorem poly_top : Crc.poly.getLsbD (24 - 1) = true := by decide

/-- The polynomial has odd weight: `x + 1` divides it. -/
theorem poly_odd : parity Crc.poly = 1 := by decide

/-- An intact packet is received. -/
theorem receive_frame {channel : UInt8} {pdu : List UInt8} {packet : Packet}
    (hlen : packet.len = pdu.length + 3) (hmax : packet.len ≤ maxPacketLen)
    (hbytes : packet.bytes.bytes.take packet.len = Whiten.whiten (frame pdu) channel) :
    ∃ rx, (VirtualRadio.mk channel).receive packet = .ok (.ok rx) ∧
      rx.pdu.bytes.take rx.len = pdu := by
  obtain ⟨buf, hrx, hbuf⟩ := receive_eq channel hbytes (by omega) hmax
  rw [whiten_whiten] at hrx hbuf
  have hcheck : Crc.check (frame pdu) = true :=
    (Crc.check_iff _).mpr ⟨by rw [length_frame]; omega, Crc.check_append pdu⟩
  rw [hcheck, if_pos rfl] at hrx
  refine ⟨_, hrx, ?_⟩
  -- the PDU is the frame without its last three bytes
  show buf.bytes.take (packet.len - 3) = pdu
  have htake : (buf.bytes.take packet.len).take pdu.length = pdu := by
    rw [hbuf]
    exact List.take_left
  rw [List.take_take, Nat.min_eq_left (by omega)] at htake
  rw [hlen, Nat.add_sub_cancel]
  exact htake

/-- A loopback returns the PDU. -/
theorem loopback_eq (channel : UInt8) {pdu : List UInt8} (h : pdu.length ≤ 257) :
    ∃ rx, loopback pdu channel = .ok (.ok rx) ∧ rx.pdu.bytes.take rx.len = pdu := by
  obtain ⟨packet, htx, hlen, hbytes⟩ := transmit_eq channel h
  obtain ⟨rx, hrx, hpdu⟩ := receive_frame hlen (show packet.len ≤ 260 by omega) hbytes
  refine ⟨rx, ?_, hpdu⟩
  unfold loopback
  dsimp only
  rw [htx]
  exact hrx

/-- **The virtual radio detects corruption**: it returns a PDU that was transmitted on its channel, and
    refuses the packet with an error within 24 bit positions or in an odd number of bits. -/
theorem receive_corrupt (channel : UInt8) {pdu : List UInt8} (h : pdu.length ≤ 257) :
    ∃ packet, (VirtualRadio.mk channel).transmit pdu = .ok (.ok packet) ∧
      packet.len = pdu.length + 3 ∧
      (∃ rx, (VirtualRadio.mk channel).receive packet = .ok (.ok rx) ∧
        rx.pdu.bytes.take rx.len = pdu) ∧
      ∀ e : List UInt8, e.length = packet.len → (∃ b ∈ e, b ≠ 0) →
        Within 24 (bitsOf e) ∨ Odd ((bitsOf e).count true) →
        (VirtualRadio.mk channel).receive (packet.corrupt e) = .ok (.error .crcMismatch) := by
  obtain ⟨packet, htx, hlen, hbytes⟩ := transmit_eq channel h
  have h3 : 3 ≤ packet.len := by omega
  have hmax : packet.len ≤ maxPacketLen := by
    rw [hlen]
    show pdu.length + 3 ≤ 260
    omega
  refine ⟨packet, htx, hlen, receive_frame hlen hmax hbytes, ?_⟩
  intro e he hne herr
  have hsize : e.length = (frame pdu).length := by rw [he, hlen, length_frame]
  have hfront : (packet.corrupt e).bytes.bytes.take (packet.corrupt e).len =
      List.zipWith (· ^^^ ·) (Whiten.whiten (frame pdu) channel) e := by
    rw [← hbytes]
    exact take_corrupt hmax he
  obtain ⟨buf, hrx, -⟩ := receive_eq channel hfront h3 hmax
  have hremainder : feed Crc.poly 0 (bitsOf e) ≠ 0 := by
    rcases herr with hburst | hodd
    · exact feed_within_ne_zero poly_top hburst (true_mem_bitsOf hne)
    · exact feed_odd_ne_zero (by decide) poly_odd hodd
  have hcheck : ¬ Crc.check (Whiten.whiten (List.zipWith (· ^^^ ·) (Whiten.whiten (frame pdu) channel)
      e) channel) = true := by
    rw [Crc.check_iff, bitsOf_received _ hsize, feed_frame_xor pdu (by rw [length_bitsOf, hsize])]
    exact fun hnone => hremainder hnone.2
  rw [hrx, if_neg hcheck]

/-- One flipped bit in a packet of five bytes. -/
theorem receive_corrupt_flip :
    ∃ packet, (VirtualRadio.mk 39).transmit [0, 12] = .ok (.ok packet) ∧
      (VirtualRadio.mk 39).receive (packet.corrupt [0, 0, 1, 0, 0]) = .ok (.error .crcMismatch) := by
  obtain ⟨packet, htx, hlen, -, hdetects⟩ := receive_corrupt 39 (show [0, (12 : UInt8)].length ≤ 257 by
    decide)
  exact ⟨packet, htx, hdetects [0, 0, 1, 0, 0] hlen.symm (by decide) (.inr (by decide))⟩

/-! ## On another channel -/

/-- The register of a channel: its low six bits, below a one. -/
theorem start_bits (channel : UInt8) : (Whiten.start channel).toNat = 64 + (channel &&& 0x3F).toNat ∧
    (Whiten.start channel).getLsbD 6 = true := by
  obtain ⟨channel⟩ := channel
  revert channel
  decide +kernel

/-- The registers of two channels differ in their low six bits only. -/
theorem start_xor {a b : UInt8} (h : a &&& 0x3F ≠ b &&& 0x3F) :
    Whiten.start a ^^^ Whiten.start b ≠ 0 ∧ (Whiten.start a ^^^ Whiten.start b).toNat < 64 := by
  obtain ⟨ha, ha6⟩ := start_bits a
  obtain ⟨hb, hb6⟩ := start_bits b
  constructor
  · intro hzero
    have hsame : Whiten.start a = Whiten.start b := BitVec.xor_eq_zero_iff.mp hzero
    rw [hsame, hb] at ha
    exact h (UInt8.toNat.inj (by omega))
  · apply Nat.lt_pow_two_of_testBit (n := 6)
    intro i hi
    show (Whiten.start a ^^^ Whiten.start b).getLsbD i = false
    rw [BitVec.getLsbD_xor]
    rcases Nat.eq_or_lt_of_le hi with rfl | hgt
    · rw [ha6, hb6]
      rfl
    · rw [BitVec.getLsbD_of_ge _ i (by omega), BitVec.getLsbD_of_ge _ i (by omega)]
      rfl

/-- **A wrong channel is always detected.** -/
theorem receive_wrong_channel {channel other : UInt8} (hch : channel &&& 0x3F ≠ other &&& 0x3F)
    {pdu : List UInt8} (h : pdu.length ≤ 257) :
    ∃ packet, (VirtualRadio.mk channel).transmit pdu = .ok (.ok packet) ∧
      (VirtualRadio.mk other).receive packet = .ok (.error .crcMismatch) := by
  obtain ⟨packet, htx, hlen, hbytes⟩ := transmit_eq channel h
  have hmax : packet.len ≤ maxPacketLen := by
    rw [hlen]
    show pdu.length + 3 ≤ 260
    omega
  obtain ⟨buf, hrx, -⟩ := receive_eq other hbytes (by omega) hmax
  obtain ⟨hne, hlow⟩ := start_xor hch
  have hbits : bitsOf (Whiten.whiten (Whiten.whiten (frame pdu) channel) other) =
      List.zipWith (· ^^ ·) (bitsOf (frame pdu)) (stream Whiten.next Whiten.key
        (8 * (frame pdu).length) (Whiten.start channel ^^^ Whiten.start other)) := by
    rw [Whiten.bitsOf_whiten, Whiten.bitsOf_whiten, Whiten.length_whiten, zipWith_xor_assoc,
      stream_xor Whiten.next_xor Whiten.key_xor]
  have hcheck : ¬ Crc.check (Whiten.whiten (Whiten.whiten (frame pdu) channel) other) = true := by
    rw [Crc.check_iff, hbits, feed_frame_xor pdu (length_stream _ _)]
    rintro ⟨-, hnone⟩
    refine Keystream.feed_stream_ne_zero hne hlow ?_ ?_ hnone
    · rw [length_frame]; omega
    · rw [length_frame]; omega
  exact ⟨packet, htx, by rw [hrx, if_neg hcheck]⟩

/-- Channel 37 and channel 38. -/
theorem receive_wrong_channel_adv :
    ∃ packet, (VirtualRadio.mk 37).transmit [0, 12, 1, 2, 3, 4, 5, 6] = .ok (.ok packet) ∧
      (VirtualRadio.mk 38).receive packet = .ok (.error .crcMismatch) :=
  receive_wrong_channel (show (37 : UInt8) &&& 0x3F ≠ 38 &&& 0x3F by decide)
    (show [0, 12, 1, 2, 3, 4, 5, (6 : UInt8)].length ≤ 257 by decide)

end Sim

end NrfBle
