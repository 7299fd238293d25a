/-
  The drivers below the connection: tick arithmetic (`src/hw/timers.rs`), channel frequencies
  (`src/ll/channels.rs`) and the CCM packet cipher (`src/hw/ccm.rs`).

  What lies OUTSIDE the repository is one record of functions, `Hw`: the CCM peripheral, the AES
  block cipher, AES-CMAC and P-256.  Every definition that uses them takes the record as a
  parameter, so a result about the stack holds for whatever they compute.
-/
import Mathlib.Tactic
import NrfBle.Ll.Pdu

namespace NrfBle

open Checked

/-- What the stack calls and the repository does not contain. -/
structure Hw where
  /-- The CCM peripheral: mode (true = decrypt), configuration block, packet buffer; gives the
      buffer afterwards and whether it raised its ERROR event. -/
  crypt : Bool → Buf 45 → Buf 64 → Buf 64 × Bool
  /-- `Aes128::encrypt_block` under a key. -/
  aesEncrypt : Buf 16 → Buf 16 → Buf 16
  /-- AES-CMAC under a key. -/
  aesCmac : Buf 16 → List UInt8 → Buf 16
  /-- The public point of a P-256 private key, if the key is a valid scalar. -/
  publicPoint : Buf 32 → Option (Buf 64)
  /-- The ECDH secret of a private key and a peer point, if both are valid. -/
  diffieHellman : Buf 32 → Buf 64 → Option (Buf 32)

/-! ## Ticks -/

/-- `IntervalAccum`: the fractional part of the interval-to-tick conversion. -/
structure IntervalAccum where
  whole : Nat
  fracPart : Nat
  frac : Nat
  deriving DecidableEq, Repr

/-- `IntervalAccum::new` (0.625 ms units). -/
def IntervalAccum.new : IntervalAccum := ⟨625 / 32, 625 % 32, 0⟩

/-- `IntervalAccum::new_125ms` (1.25 ms units). -/
def IntervalAccum.new125ms : IntervalAccum := ⟨39, 2, 0⟩

/-- `IntervalAccum::next`: ticks to add for an interval of `units`.  Every `u32` operation is
    checked. -/
def IntervalAccum.next (acc : IntervalAccum) (units : UInt16) :
    Except Panic (Nat × IntervalAccum) := do
  let base ← fit 32 (units.toNat * acc.whole)
  let part ← fit 32 (units.toNat * acc.fracPart)
  let frac ← fit 32 (acc.frac + part)
  let ticks ← fit 32 (base + frac / 32)
  return (ticks, { acc with frac := frac % 32 })

/-- `timeout_ticks`: `micros.div_ceil(32)`. -/
def timeoutTicks (micros : Nat) : Nat := (micros + 31) / 32

/-! ## Channels -/

/-- `channel_frequency`, in MHz. -/
def channelFrequency (channel : UInt8) : Except Error Nat :=
  if channel.toNat ≤ 36 then .ok (2404 + 2 * channel.toNat)
  else if channel = 37 then .ok 2402
  else if channel = 38 then .ok 2426
  else if channel = 39 then .ok 2480
  else .error .invalidChannel

/-! ## The CCM packet cipher -/

/-- Direction byte of packets a master sends. -/
abbrev llNonceMasterToSlave : UInt8 := 0x01
/-- Direction byte of packets a slave sends. -/
abbrev llNonceSlaveToMaster : UInt8 := 0x00
/-- Length of the message integrity code. -/
abbrev llMicLen : Nat := 4

/-- `Ccm`: the configuration block (the scratch area is the peripheral's own). -/
structure Ccm where
  cfg : Buf 45

/-- `Ccm::new`. -/
def Ccm.new : Ccm := ⟨Buf.zero 45⟩

/-- `Ccm::setup`: key, a one, five bytes of packet counter, direction, zeroes. -/
def Ccm.setup (key : Buf 16) (packetCounter : UInt64) (direction : UInt8) : Ccm :=
  ⟨⟨key.bytes ++ [0x01] ++ leBytes 5 packetCounter.toNat ++ [direction] ++ List.replicate 22 0,
    by simp [key.size]⟩⟩

/-- `Ccm::process`: copy the header into the configuration block and run the peripheral in
    place.  Gives success, the cipher and the packet buffer afterwards. -/
def Ccm.process (hw : Hw) (ccm : Ccm) (decrypt : Bool) (pdu : Buf 64) : Bool × Ccm × Buf 64 :=
  let cfg : Buf 45 :=
    ⟨ccm.cfg.bytes.take 29 ++ [pdu.bytes.getD 0 0, pdu.bytes.getD 1 0] ++ List.replicate 14 0,
      by simp [ccm.cfg.size]⟩
  let r := hw.crypt decrypt cfg pdu
  (!r.2, ⟨cfg⟩, r.1)

/-! ## A concrete instance -/

/-- A stand-in for the hardware, to execute runs with.  Like the CCM peripheral it passes empty
    packets through, adds four to the length byte of a packet it encrypts, takes four off the
    length byte of one it decrypts and rejects one that is too short; unlike it, it leaves the
    payload as it is. -/
def Hw.standIn : Hw where
  crypt := fun decrypt _ buf =>
    let len := buf.bytes.getD 1 0
    if len = 0 then (buf, false)
    else if decrypt then if len < 4 then (buf, true) else (buf.set 1 (len - 4), false)
    else (buf.set 1 (len + 4), false)
  aesEncrypt := fun _ block => block
  aesCmac := fun key _ => key
  publicPoint := fun _ => none
  diffieHellman := fun _ _ => none

end NrfBle
