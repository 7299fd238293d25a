/-
  Extended and periodic advertising, from the sender to the scanner (`src/hw/ble.rs`:
  `transmit_aux_adv`, `follow_aux`, `handle_periodic_aux`).

  The auxiliary packet is built by one function and read by two: `follow_aux` lets the codec take it
  apart, `handle_periodic_aux` reads the interval at fixed places of the raw packet, its two header
  bytes included.

  * Without periodic advertising the header is the codec's own, and the data comes through, unless
    there are two bytes of it: then the packet has the length of a primary one.
  * With periodic advertising the sender writes a header whose length octet is 0.  So the codec takes
    the header behind the octet for data, and the data found has six bytes too many; and the raw
    places are two bytes before the interval.

  Both ends agree iff there is no periodic advertising and not exactly two bytes of data
  (`aux_agrees_iff`).
-/
import Mathlib.Tactic
import NrfBle.Ll.Extended
import NrfBle.Hw.Ble.Adv
import NrfBle.Hw.Ble.Scan

namespace NrfBle

open Checked

/-! ## What is sent -/

namespace Ble

/-- The advertising data. -/
def advDataBytes (b : Ble) : List UInt8 := b.advData.bytes.take b.advDataLen

/-- The extended header of periodic advertising, length octet first. -/
def periodicHeader (b : Ble) : List UInt8 :=
  [0, extAdPeriodic] ++ (PeriodicAdvInfo.mk zeroAdi b.advParams.periodicInterval
    (if b.ownAddrType.isRandom then 1 else 0)).encode.bytes

/-- The auxiliary PDU of a configuration. -/
def sentAux (b : Ble) : AdvPdu :=
  if b.advParams.periodic then .auxAdvExtIndWithEh b.ownAddr zeroAdi b.periodicHeader b.advDataBytes
  else .auxAdvExtInd b.ownAddr zeroAdi 0x00 b.advDataBytes

theorem advDataBytes_length {b : Ble} (h : b.advDataLen ≤ legacyAdDataMaxLen) :
    b.advDataBytes.length = b.advDataLen := by
  rw [advDataBytes, List.length_take, b.advData.size]
  exact Nat.min_eq_left h

theorem periodicHeader_length (b : Ble) : b.periodicHeader.length = 7 := by
  rw [periodicHeader, List.length_append, Buf.size]
  rfl

theorem auxPdu_sentAux {b : Ble} (h : b.advDataLen ≤ legacyAdDataMaxLen) :
    b.auxPdu = .ok b.sentAux := by
  have hmin : min b.advDataLen 36 = b.advDataLen := by
    have : b.advDataLen ≤ 31 := h
    omega
  unfold auxPdu sentAux
  rw [hmin, b.advData.upto_of_le h, ok_bind]
  cases b.advParams.periodic <;> rfl

theorem sentAux_sized (b : Ble) : b.sentAux.Sized := by
  unfold sentAux
  split
  · intro hnil
    have hlen := b.periodicHeader_length
    rw [hnil] at hlen
    cases hlen
  · trivial

theorem sentAux_length {b : Ble} (h : b.advDataLen ≤ legacyAdDataMaxLen) :
    b.sentAux.payload.length ≤ 63 := by
  have h31 : b.advDataBytes.length ≤ 31 := advDataBytes_length h ▸ h
  have h7 := b.periodicHeader_length
  unfold sentAux
  split <;> simp only [AdvPdu.payload, List.length_append, Buf.size, List.length_cons, List.length_nil]
    <;> omega

/-- The one packet `transmit_aux_adv` transmits. -/
theorem mem_transmitAuxAdv {b : Ble} (h : b.advDataLen ≤ legacyAdDataMaxLen) (now : UInt32)
    (packet : List UInt8) : .transmit packet ∈ (b.transmitAuxAdv now).log ↔
      packet = b.sentAux.bytes b.ownAddrType.isRandom false := by
  obtain ⟨txBuf, hrun⟩ := b.transmitOnAux_eq b.sentAux_sized (sentAux_length h) now
  unfold transmitAuxAdv
  rw [auxPdu_sentAux h, Logged.lift_ok_bind, hrun]
  simp

end Ble

/-! ## What is found -/

/-- What `follow_aux` finds in a window. -/
def Air.auxFound (air : Air) : Option (Buf 6 × List UInt8) :=
  match air.pdu with
  | some (.auxAdvExtInd addr _ _ data) => some (addr, data.take 40)
  | _ => none

theorem Air.pdu_of_received {air : Air} {pdu : AdvPdu} {txAdd rxAdd : Bool}
    (hlen : pdu.payload.length ≤ 63) (h : air.received = some (pdu.bytes txAdd rxAdd))
    {pdu' : AdvPdu} (hdec : AdvPdu.decodePayload pdu.pduType pdu.payload = .ok (.ok pdu')) :
    air.pdu = some pdu' := by
  unfold Air.pdu
  rw [h]
  dsimp only
  rw [pdu.decode_bytes txAdd rxAdd hlen, hdec]

namespace Ble

theorem auxReceive_found (b : Ble) (ptr : AuxPtr) (env : ScanEnv) :
    ∃ log b', b.auxReceive ptr env = ⟨log, .ok (env.auxAir.auxFound, b')⟩ := by
  unfold auxReceive Air.auxFound
  rw [b.receivePdu_eq, Logged.lift_ok_bind]
  dsimp only
  cases env.auxAir.pdu with
  | none => exact ⟨[], _, rfl⟩
  | some pdu =>
    dsimp only [Option.map]
    cases pdu with
    | auxAdvExtInd addr adi extType data =>
      have hraw : min env.auxAir.len 64 ≤ rxPduMax :=
        Nat.le_trans (Nat.min_le_right _ 64) (by decide)
      dsimp only
      rw [env.auxAir.buf.upto_of_le hraw, Logged.lift_ok_bind]
      split
      · obtain ⟨log, b', hrun, _⟩ := handlePeriodicAux_quietly { b with rxBuf := env.auxAir.buf }
          ptr.channel (env.auxAir.buf.bytes.take (min env.auxAir.len 64)) env.syncNow
        rw [hrun, Logged.mk_ok_bind]
        exact ⟨_, b', rfl⟩
      · exact ⟨[], _, rfl⟩
    | _ => exact ⟨[], _, rfl⟩

/-- What `follow_aux` answers on a channel the radio has. -/
theorem followAux_found (b : Ble) {ptr : AuxPtr} (h : ptr.channel.toNat < 40) (env : ScanEnv) :
    ∃ log b', b.followAux ptr env = ⟨log, .ok (env.auxAir.auxFound, b')⟩ := by
  unfold followAux
  rw [setChannel_of_lt h, Logged.mk_ok_bind]
  dsimp only
  obtain ⟨log, b', hrun⟩ := auxReceive_found
    { b with compare := env.auxNow + UInt32.ofNat (timeoutTicks 300) } ptr env
  rw [hrun, Logged.mk_ok_bind]
  dsimp only
  cases env.auxAir.auxFound with
  | some r => exact ⟨_, b', rfl⟩
  | none =>
    rw [setChannel_of_lt (by decide), Logged.mk_ok_bind]
    exact ⟨_, b', rfl⟩

/-- A plain auxiliary packet leaves the sync alone. -/
theorem followAux_plain (b : Ble) {ptr : AuxPtr} (h : ptr.channel.toNat < 40) {env : ScanEnv}
    {addr : Buf 6} {adi : Buf 2} {extType : UInt8} {data : List UInt8}
    (hpdu : env.auxAir.pdu = some (.auxAdvExtInd addr adi extType data))
    (hplain : extType ≠ extAdPeriodic) :
    (b.followAux ptr env).log = [.setChannel ptr.channel] := by
  have hraw : min env.auxAir.len 64 ≤ rxPduMax := Nat.le_trans (Nat.min_le_right _ 64) (by decide)
  unfold followAux
  rw [setChannel_of_lt h, Logged.mk_ok_bind]
  dsimp only
  unfold auxReceive
  rw [receivePdu_eq, Logged.lift_ok_bind, hpdu]
  dsimp only [Option.map]
  rw [env.auxAir.buf.upto_of_le hraw, Logged.lift_ok_bind, if_neg hplain]
  rfl

end Ble

/-! ## Both ends -/

/-- The `PeriodicSynced` events among the actions: channel and interval. -/
def BleAct.synced : BleAct → Option (UInt8 × UInt16)
  | .push (.periodicSynced channel interval) => some (channel, interval)
  | _ => none

/-- **The scanner has what the sender configured**: the address and the data; a sync and its event
    with the interval of periodic advertising, or no such event without. -/
structure Ble.AuxAgrees (sender : Ble) (channel : UInt8)
    (x : Logged BleAct (Option (Buf 6 × List UInt8) × Ble)) : Prop where
  found : ∃ b', x.res = .ok (some (sender.ownAddr, sender.advDataBytes), b') ∧
    (sender.advParams.periodic = true → ∃ sync, b'.periodicSync = some sync ∧
      sync.channel = channel ∧ sync.units = sender.advParams.periodicInterval)
  events : x.log.filterMap BleAct.synced =
    if sender.advParams.periodic then [(channel, sender.advParams.periodicInterval)] else []

namespace Ble

/-- The packet of periodic advertising is read with its header as data. -/
theorem sentAux_periodic {b : Ble} (h : b.advParams.periodic = true) :
    AdvPdu.decodePayload b.sentAux.pduType b.sentAux.payload =
      .ok (.ok (.auxAdvExtInd b.ownAddr zeroAdi extAdPeriodic
        (b.periodicHeader.drop 1 ++ b.advDataBytes))) := by
  unfold sentAux
  rw [if_pos h]
  show AdvPdu.decodeExt (b.ownAddr.bytes ++ zeroAdi.bytes ++ b.periodicHeader ++ b.advDataBytes) = _
  rw [List.append_assoc _ b.periodicHeader]
  refine AdvPdu.decodeExt_aux b.ownAddr zeroAdi ?_ (Nat.zero_le _)
  show (b.periodicHeader.drop 2 ++ b.advDataBytes).length ≠ 2
  rw [List.length_append, List.length_drop, b.periodicHeader_length]
  omega

/-- **Extended and periodic advertising.**  With the packet of the sender received intact, both ends
    agree iff there is no periodic advertising and not exactly two bytes of data. -/
theorem aux_agrees_iff {sender : Ble} (hdata : sender.advDataLen ≤ legacyAdDataMaxLen)
    (scanner : Ble) {ptr : AuxPtr} (hptr : ptr.channel.toNat < 40) {now : UInt32} {env : ScanEnv}
    {packet : List UInt8} (hsent : .transmit packet ∈ (sender.transmitAuxAdv now).log)
    (hrx : env.auxAir.received = some packet) :
    sender.AuxAgrees ptr.channel (scanner.followAux ptr env) ↔
      sender.advParams.periodic = false ∧ sender.advDataLen ≠ 2 := by
  have hbytes := advDataBytes_length hdata
  have h63 := sentAux_length hdata
  obtain rfl := (mem_transmitAuxAdv hdata now packet).mp hsent
  obtain ⟨log, b', hrun⟩ := scanner.followAux_found hptr env
  cases hper : sender.advParams.periodic with
  | true =>
    refine iff_of_false ?_ (by rintro ⟨⟨⟩, _⟩)
    rintro ⟨⟨b₁, hres, _⟩, _⟩
    have hpdu := Air.pdu_of_received h63 hrx (sentAux_periodic hper)
    rw [hrun, Air.auxFound, hpdu] at hres
    -- six more bytes than were sent, of which at most forty are kept
    have hfound : ((sender.periodicHeader.drop 1 ++ sender.advDataBytes).take 40).length =
        sender.advDataBytes.length := by
      injection hres with hres
      injection hres with hres _
      injection hres with hres
      injection hres with _ hres
      rw [hres]
    have h31 : sender.advDataLen ≤ 31 := hdata
    rw [List.length_take, List.length_append, List.length_drop, periodicHeader_length, hbytes] at hfound
    omega
  | false =>
    have hsentAux : sender.sentAux = .auxAdvExtInd sender.ownAddr zeroAdi 0 sender.advDataBytes := by
      unfold sentAux
      rw [hper]
      rfl
    rw [hsentAux] at h63 hrx
    constructor
    · rintro ⟨⟨b₁, hres, _⟩, _⟩
      refine ⟨rfl, fun htwo => ?_⟩
      have htwelve : (AdvPdu.auxAdvExtInd sender.ownAddr zeroAdi 0 sender.advDataBytes).payload.length =
          12 := by
        simp only [AdvPdu.payload, List.length_append, Buf.size, hbytes, htwo]
        rfl
      obtain ⟨addr, mode, adi, aux, hdec⟩ := AdvPdu.decodeExt_twelve htwelve
      rw [hrun, Air.auxFound, Air.pdu_of_received h63 hrx hdec] at hres
      cases hres
    · rintro ⟨-, hne⟩
      have hpdu : env.auxAir.pdu =
          some (.auxAdvExtInd sender.ownAddr zeroAdi 0 sender.advDataBytes) := by
        refine Air.pdu_of_received h63 hrx ?_
        refine (AdvPdu.decodeExt_payload_iff (show (AdvPdu.auxAdvExtInd sender.ownAddr zeroAdi 0
          sender.advDataBytes).Extended from trivial)).mpr ?_
        show sender.advDataBytes.length ≠ 2
        rw [hbytes]
        exact hne
      refine ⟨⟨b', ?_, by rw [hper]; rintro ⟨⟩⟩, ?_⟩
      · have h40 : sender.advDataBytes.length ≤ 40 := by
          rw [hbytes]; exact Nat.le_trans hdata (by decide)
        rw [hrun, Air.auxFound, hpdu]
        dsimp only
        rw [List.take_of_length_le h40]
      · rw [scanner.followAux_plain hptr hpdu (by decide), hper]
        rfl

end Ble

/-- The window of a scanner in which an auxiliary PDU arrives. -/
def auxEnv (pdu : AdvPdu) : ScanEnv :=
  ⟨0, .silent, 0, 0, .silent, 0, 0, .of pdu, 0, .silent⟩

/-- A sender of three bytes of data. -/
def plainSender : Ble := { Ble.new with advDataLen := 3 }

/-- The three bytes arrive. -/
theorem plain_aux_agrees :
    plainSender.AuxAgrees 0 (Ble.new.followAux ⟨0, 5, 0⟩ (auxEnv plainSender.sentAux)) :=
  (Ble.aux_agrees_iff (by decide) Ble.new (show (AuxPtr.mk 0 5 0).channel.toNat < 40 by decide)
    ((Ble.mem_transmitAuxAdv (by decide) 0 _).mpr rfl)
    (show (auxEnv plainSender.sentAux).auxAir.received =
      some (plainSender.sentAux.bytes false false) by decide +kernel)).mpr ⟨by decide, by decide⟩

/-- A sender of periodic advertising with the interval 100 and no data. -/
def periodicSender : Ble :=
  { Ble.new with advParams := { extended := true, periodic := true, periodicInterval := 100 } }

/-- The scanner finds six bytes of data, and syncs to an interval of 0. -/
theorem periodic_aux_disagrees :
    .transmit (periodicSender.sentAux.bytes false false) ∈ (periodicSender.transmitAuxAdv 0).log ∧
      (auxEnv periodicSender.sentAux).auxAir.received =
        some (periodicSender.sentAux.bytes false false) ∧
      (auxEnv periodicSender.sentAux).auxAir.auxFound =
        some (periodicSender.ownAddr, [0x20, 0, 0, 100, 0, 0]) ∧
      (Ble.new.followAux ⟨0, 5, 0⟩ (auxEnv periodicSender.sentAux)).log.filterMap BleAct.synced =
        [(0, 0)] ∧
      ¬ periodicSender.AuxAgrees 0
        (Ble.new.followAux ⟨0, 5, 0⟩ (auxEnv periodicSender.sentAux)) := by
  have hevents : (Ble.new.followAux ⟨0, 5, 0⟩ (auxEnv periodicSender.sentAux)).log.filterMap
      BleAct.synced = [(0, 0)] := by decide +kernel
  refine ⟨(Ble.mem_transmitAuxAdv (by decide) 0 _).mpr rfl, by decide +kernel, by decide +kernel,
    hevents, ?_⟩
  intro h
  exact absurd (hevents.symm.trans h.events) (by decide)

end NrfBle
