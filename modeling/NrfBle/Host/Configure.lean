/-
  What the configuration commands configure (`src/hci.rs`: LE Set Random Address, LE Set Advertising
  Data, LE Create Connection; `src/hw/ble.rs`: `gap_adv_set_configure`, `build_adv_pdu`,
  `gap_connect`).

  A sequence of commands is a sequence of calls of the stack (`commands_done`), so what a host
  configured is read off the calls:

  * the data of LE Set Advertising Data comes into the transmitted PDU, byte for byte;
  * LE Set Random Address makes no call at all: the address stays in `Hci`, and the PDU carries the
    stack's own;
  * LE Create Connection takes the target from the places 14 to 19 of its parameters, where the
    standard has the connection interval and what follows it.

  So a configuration takes effect only when it was in effect before, or by accident
  (`configuration_iff`).
-/
import Mathlib.Tactic
import NrfBle.Host.Hci

namespace NrfBle

open Checked

/-- The first packet that was transmitted. -/
def transmitted (log : List BleAct) : Option (List UInt8) :=
  log.findSome? fun
    | .transmit pdu => some pdu
    | _ => none

namespace Hci

/-! ## Sequences of commands -/

/-- A command of the group `OGF_LE`: its command field, its parameters, and what the clock reads. -/
structure LeCommand where
  ocf : UInt16
  params : List UInt8
  now : UInt32

/-- Handle some commands, one after the other. -/
def commands : Hci → Ble → List LeCommand → Logged HciAct (Hci × Ble)
  | h, b, [] => return (h, b)
  | h, b, cmd :: cmds => do
    let packet ← Logged.lift (HciPacket.command ogfLe cmd.ocf cmd.params)
    let (h, b) ← h.handleCommand b packet cmd.now
    commands h b cmds

/-- The stack after some calls. -/
def CallsAll : List (Option ApiCall) → Ble → Ble → Prop
  | [], b, b' => b' = b
  | call :: calls, b, b' => ∃ b₁, Calls call b b₁ ∧ CallsAll calls b₁ b'

/-- A command that fits its packet. -/
structure LeCommand.Fits (cmd : LeCommand) : Prop where
  ocf : cmd.ocf < 1024
  params : cmd.params.length ≤ 255

/-- **A sequence of commands is the sequence of its calls.** -/
theorem commands_done (h : Hci) (b : Ble) {cmds : List LeCommand} (hfits : ∀ cmd ∈ cmds, cmd.Fits) :
    ∃ log h' b', h.commands b cmds = ⟨log, .ok (h', b')⟩ ∧
      CallsAll (cmds.map (fun cmd => leCall cmd.ocf cmd.params cmd.now)) b b' := by
  induction cmds generalizing h b with
  | nil => exact ⟨[], h, b, rfl, rfl⟩
  | cons cmd cmds ih =>
    obtain ⟨hcmd, hrest⟩ := List.forall_mem_cons.mp hfits
    obtain ⟨packet, hpacket, _⟩ := HciPacket.command_ok ogfLe cmd.ocf hcmd.params
    obtain ⟨b₁, hcalls, acts, evt, h₁, hrun, _, _⟩ :=
      h.handleCommand_built b cmd.now hcmd.ocf hcmd.params hpacket
    obtain ⟨log, h', b', hrun', hcalls'⟩ := ih h₁ b₁ hrest
    refine ⟨(acts.map HciAct.ble ++ [.event evt]) ++ log, h', b', ?_, b₁, hcalls, hcalls'⟩
    unfold commands
    rw [hpacket, Logged.lift_ok_bind, hrun, Logged.mk_ok_bind]
    dsimp only
    rw [hrun', Logged.prepend_mk]

/-! ## The commands of a configuration -/

/-- LE Set Random Address. -/
def setRandomAddress (addr : Buf 6) (now : UInt32) : LeCommand := ⟨ocfLeSetRandomAddress, addr.bytes, now⟩

/-- LE Set Advertising Data: the length, and the data filled up to 31 bytes. -/
def setAdvData (data pad : List UInt8) (now : UInt32) : LeCommand :=
  ⟨ocfLeSetAdvData, UInt8.ofNat data.length :: (data ++ pad), now⟩

/-- LE Set Advertising Enable. -/
def advEnable (now : UInt32) : LeCommand := ⟨ocfLeSetAdvEnable, [1], now⟩

/-- LE Create Connection: the peer's address behind the first six bytes. -/
def createConnection (front : List UInt8) (peer : Buf 6) (rest : List UInt8) (now : UInt32) : LeCommand :=
  ⟨ocfLeCreateConnection, front ++ peer.bytes ++ rest, now⟩

/-- The stack advertises with this address and this data: in either order of the two commands, the PDU
    of the next tick has them. -/
def AdvertisesAs (h : Hci) (b : Ble) (addr : Buf 6) (data pad : List UInt8) : Prop :=
  ∀ t₁ t₂ t₃ setup, setup = [setRandomAddress addr t₁, setAdvData data pad t₂] ∨
      setup = [setAdvData data pad t₂, setRandomAddress addr t₁] →
    ∃ log h' b', h.commands b (setup ++ [advEnable t₃]) = ⟨log, .ok (h', b')⟩ ∧
      ∀ env, ∃ bytes, transmitted (b'.advTick env).log = some bytes ∧
        AdvPdu.decode bytes = .ok (.ok (.advInd addr data))

/-- The stack looks for this peer. -/
def ConnectsTo (h : Hci) (b : Ble) (front : List UInt8) (peer : Buf 6) (rest : List UInt8) : Prop :=
  ∀ now, ∃ log h' b', h.commands b [createConnection front peer rest now] = ⟨log, .ok (h', b')⟩ ∧
    b'.connectTarget = some peer

/-! ## Advertising -/

/-- The calls of the advertising commands. -/
theorem leCall_setAdvData {data pad : List UInt8} (hlen : data.length + pad.length = 31) (now : UInt32) :
    leCall ocfLeSetAdvData (setAdvData data pad now).params now = some (.gapAdvSetConfigure data []) := by
  have hbyte : (UInt8.ofNat data.length).toNat = data.length :=
    HciPacket.toNat_ofNat_of_lt (by omega)
  have hparams : (UInt8.ofNat data.length :: (data ++ pad)).length ≥ 32 := by
    rw [List.length_cons, List.length_append]
    omega
  have hdata : ((UInt8.ofNat data.length :: (data ++ pad)).take (1 + data.length)).drop 1 = data := by
    rw [Nat.add_comm, List.take_succ_cons, List.take_left]
    rfl
  show advDataCall (UInt8.ofNat data.length :: (data ++ pad)) = _
  unfold advDataCall
  rw [if_pos hparams, List.getD_cons_zero, hbyte, Nat.min_eq_left (by omega), hdata]

/-- A stack that is about to advertise this data, with its own address. -/
structure Ready (b : Ble) (data : List UInt8) (b' : Ble) : Prop where
  bounds : b'.Bounds
  state : b'.advState = .running
  params : b'.advParams = {}
  ownAddr : b'.ownAddr = b.ownAddr
  data : b'.advData.upto b'.advDataLen = .ok data

/-- Configured and started. -/
theorem ready_of_calls {b b₁ b' : Ble} (hb : b.Bounds) (hidle : b.advState = .idle) {data : List UInt8}
    (hlen : data.length ≤ 31) {now : UInt32} (hconf : Calls (some (.gapAdvSetConfigure data [])) b b₁)
    (hstart : Calls (some (.gapAdvStart {} now)) b₁ b') : Ready b data b' := by
  have hb' := hstart.bounds (hconf.bounds hb)
  have hempty : ([] : List UInt8).length ≤ legacyAdDataMaxLen := Nat.zero_le _
  have hallowed : Ble.AdvAllowed {} := ⟨by decide, by decide, by decide, by decide⟩
  obtain ⟨advBuf, rspBuf, htake, hset⟩ := b.gapAdvSetConfigure_eq hlen hempty
  obtain ⟨_, _, hconf⟩ := hconf
  obtain ⟨_, _, hstart⟩ := hstart
  cases hconf.symm.trans hset
  obtain ⟨accum, compare, _, hrun⟩ := Ble.gapAdvStart_eq
    (b := { b with advData := advBuf, advDataLen := data.length, scanRsp := rspBuf, scanRspLen := 0 })
    hidle hallowed now
  cases hstart.symm.trans hrun
  refine ⟨hb', rfl, rfl, rfl, ?_⟩
  show advBuf.upto data.length = .ok data
  rw [advBuf.upto_of_le hlen, htake]

/-- The tick of a stack that is ready. -/
theorem Ready.transmitted {b b' : Ble} {data : List UInt8} (h : Ready b data b') (env : AdvEnv) :
    ∃ bytes, transmitted (b'.advTick env).log = some bytes ∧
      AdvPdu.decode bytes = .ok (.ok (.advInd b.ownAddr data)) := by
  have hprimary : b'.primaryPdu = .ok (.advInd b.ownAddr data) := by
    unfold Ble.primaryPdu Ble.advPdu
    rw [h.params, if_neg (by decide)]
    dsimp only
    rw [h.data, ok_bind, h.ownAddr]
    rfl
  obtain ⟨channel, pdu, log, b'', hpdu, hlen, hrun, _⟩ := Ble.advEvent_eq h.bounds env
  cases hpdu.symm.trans hprimary
  refine ⟨_, ?_, (AdvPdu.decode_bytes _ b'.ownAddrType.isRandom false hlen).trans
    (AdvPdu.decodePayload_payload trivial)⟩
  unfold Ble.advTick
  rw [h.state]
  dsimp only
  rw [hrun]
  rfl

/-- **The advertising commands** bring the data into the PDU, and the stack's own address. -/
theorem commands_ready (h : Hci) {b : Ble} (hb : b.Bounds) (hidle : b.advState = .idle) (addr : Buf 6)
    {data pad : List UInt8} (hlen : data.length + pad.length = 31) (t₁ t₂ t₃ : UInt32)
    {setup : List LeCommand} (hsetup : setup = [setRandomAddress addr t₁, setAdvData data pad t₂] ∨
      setup = [setAdvData data pad t₂, setRandomAddress addr t₁]) :
    ∃ log h' b', h.commands b (setup ++ [advEnable t₃]) = ⟨log, .ok (h', b')⟩ ∧ Ready b data b' := by
  have haddr : (setRandomAddress addr t₁).Fits := by
    refine ⟨(by decide : ocfLeSetRandomAddress < 1024), ?_⟩
    show addr.bytes.length ≤ 255
    rw [addr.size]
    decide
  have hdata : (setAdvData data pad t₂).Fits := by
    refine ⟨(by decide : ocfLeSetAdvData < 1024), ?_⟩
    show (UInt8.ofNat data.length :: (data ++ pad)).length ≤ 255
    rw [List.length_cons, List.length_append]
    omega
  have henable : (advEnable t₃).Fits :=
    ⟨(by decide : ocfLeSetAdvEnable < 1024), (by decide : ([1] : List UInt8).length ≤ 255)⟩
  have hcall := leCall_setAdvData hlen t₂
  have h31 : data.length ≤ 31 := by omega
  rcases hsetup with rfl | rfl
  · have hfits : ∀ cmd ∈ [setRandomAddress addr t₁, setAdvData data pad t₂] ++ [advEnable t₃],
        cmd.Fits := by simp [haddr, hdata, henable]
    obtain ⟨log, h', b', hrun, b₁, h₁, b₂, h₂, b₃, h₃, rfl⟩ := h.commands_done b hfits
    obtain rfl : b₁ = b := h₁
    exact ⟨log, h', _, hrun, ready_of_calls hb hidle h31 (hcall ▸ h₂) h₃⟩
  · have hfits : ∀ cmd ∈ [setAdvData data pad t₂, setRandomAddress addr t₁] ++ [advEnable t₃],
        cmd.Fits := by simp [haddr, hdata, henable]
    obtain ⟨log, h', b', hrun, b₁, h₁, b₂, h₂, b₃, h₃, rfl⟩ := h.commands_done b hfits
    obtain rfl : b₂ = b₁ := h₂
    exact ⟨log, h', _, hrun, ready_of_calls hb hidle h31 (hcall ▸ h₁) h₃⟩

/-- The address is right iff it was the stack's own before. -/
theorem advertisesAs_iff (h : Hci) {b : Ble} (hb : b.Bounds) (hidle : b.advState = .idle) (addr : Buf 6)
    {data pad : List UInt8} (hlen : data.length + pad.length = 31) :
    AdvertisesAs h b addr data pad ↔ b.ownAddr = addr := by
  constructor
  · intro hadv
    obtain ⟨log, h', b', hrun, htick⟩ := hadv 0 0 0 _ (.inl rfl)
    obtain ⟨log', h'', b'', hrun', hready⟩ :=
      h.commands_ready hb hidle addr hlen 0 0 0 (.inl rfl)
    cases hrun.symm.trans hrun'
    obtain ⟨bytes, hbytes, hdec⟩ := htick ⟨0, 0, .silent, 0, 0⟩
    obtain ⟨bytes', hbytes', hdec'⟩ := hready.transmitted ⟨0, 0, .silent, 0, 0⟩
    cases hbytes.symm.trans hbytes'
    cases hdec.symm.trans hdec'
    rfl
  · rintro rfl t₁ t₂ t₃ setup hsetup
    obtain ⟨log, h', b', hrun, hready⟩ := h.commands_ready hb hidle b.ownAddr hlen t₁ t₂ t₃ hsetup
    exact ⟨log, h', b', hrun, hready.transmitted⟩

/-! ## Connecting -/

/-- The call of LE Create Connection: the bytes 14 to 19. -/
theorem leCall_createConnection {front rest : List UInt8} (peer : Buf 6) (hfront : front.length = 6)
    (hrest : rest.length = 13) (now : UInt32) :
    ∃ target : Buf 6, target.bytes = (rest.take 8).drop 2 ∧
      leCall ocfLeCreateConnection (createConnection front peer rest now).params now =
        some (.gapConnect target .«public» now) := by
  have htake : ((front ++ peer.bytes ++ rest).take 20).drop 14 = (rest.take 8).drop 2 := by
    have hhead : (front ++ peer.bytes).length = 12 := by rw [List.length_append, hfront, peer.size]
    rw [show 20 = (front ++ peer.bytes).length + 8 by omega, List.take_length_add_append,
      show 14 = (front ++ peer.bytes).length + 2 by omega, List.drop_length_add_append]
  have hlen : ((rest.take 8).drop 2).length = 6 := by
    rw [List.length_drop, List.length_take, hrest]
    decide
  have hparams : (front ++ peer.bytes ++ rest).length ≥ 25 := by
    rw [List.length_append, List.length_append, hfront, peer.size, hrest]
  refine ⟨⟨_, hlen⟩, rfl, ?_⟩
  show createConnectionCall (front ++ peer.bytes ++ rest) now = _
  unfold createConnectionCall
  rw [if_pos hparams, htake, Buf.ofSlice_of_length hlen]
  rfl

/-- The target is right iff a scan starts and the bytes at the other place are the same, or it was there
    before. -/
theorem connectsTo_iff (h : Hci) (b : Ble) {front rest : List UInt8} (peer : Buf 6)
    (hfront : front.length = 6) (hrest : rest.length = 13) :
    ConnectsTo h b front peer rest ↔
      if b.scanState = .idle then (rest.take 8).drop 2 = peer.bytes else b.connectTarget = some peer := by
  have hdone : ∀ now, ∃ log h' b', h.commands b [createConnection front peer rest now] =
      ⟨log, .ok (h', b')⟩ ∧ (b'.connectTarget = some peer ↔
        if b.scanState = .idle then (rest.take 8).drop 2 = peer.bytes else b.connectTarget = some peer) := by
    intro now
    have hfits : ∀ cmd ∈ [createConnection front peer rest now], cmd.Fits := by
      intro cmd hcmd
      obtain rfl := List.mem_singleton.mp hcmd
      refine ⟨(by decide : ocfLeCreateConnection < 1024), ?_⟩
      show (front ++ peer.bytes ++ rest).length ≤ 255
      rw [List.length_append, List.length_append, hfront, peer.size, hrest]
      decide
    obtain ⟨target, htarget, hcall⟩ := leCall_createConnection peer hfront hrest now
    obtain ⟨log, h', b', hrun, b₁, hcalls, rfl⟩ := h.commands_done b hfits
    refine ⟨log, h', b', hrun, ?_⟩
    change Calls (leCall ocfLeCreateConnection (createConnection front peer rest now).params now) b b'
      at hcalls
    rw [hcall] at hcalls
    obtain ⟨_, _, hconnect⟩ := hcalls
    rw [← htarget]
    by_cases hidle : b.scanState = .idle
    · obtain ⟨accum, compare, _, heq⟩ := Ble.gapConnect_eq hidle target .«public» now
      cases hconnect.symm.trans heq
      rw [if_pos hidle]
      exact ⟨fun hsome => congrArg Buf.bytes (Option.some.inj hsome), fun hbytes =>
        congrArg some (Buf.ext hbytes)⟩
    · have heq : b.gapConnect target .«public» now = ⟨[], .ok (.error .alreadyRunning, b)⟩ :=
        if_pos hidle
      cases hconnect.symm.trans heq
      rw [if_neg hidle]
  constructor
  · intro hconnects
    obtain ⟨log, h', b', hrun, htarget⟩ := hconnects 0
    obtain ⟨log', h'', b'', hrun', hiff⟩ := hdone 0
    cases hrun.symm.trans hrun'
    exact hiff.mp htarget
  · intro hcond now
    obtain ⟨log, h', b', hrun, hiff⟩ := hdone now
    exact ⟨log, h', b', hrun, hiff.mpr hcond⟩

/-- **A configuration takes effect** iff the address was the stack's own before, and the target is at
    the place the code reads, or was there before. -/
theorem configuration_iff (h : Hci) {b : Ble} (hb : b.Bounds) (hidle : b.advState = .idle) (addr : Buf 6)
    {data pad : List UInt8} (hdata : data.length + pad.length = 31) {front rest : List UInt8}
    (peer : Buf 6) (hfront : front.length = 6) (hrest : rest.length = 13) :
    AdvertisesAs h b addr data pad ∧ ConnectsTo h b front peer rest ↔
      b.ownAddr = addr ∧
        if b.scanState = .idle then (rest.take 8).drop 2 = peer.bytes else b.connectTarget = some peer := by
  rw [h.advertisesAs_iff hb hidle addr hdata, h.connectsTo_iff b peer hfront hrest]

/-- A new stack, whose address is zero, given the address zero, and a peer that stands a second time at
    the place the code reads. -/
theorem configuration_new :
    AdvertisesAs .new .new (Buf.zero 6) [2, 1, 6] (List.replicate 28 0) ∧
      ConnectsTo .new .new (List.replicate 6 0) otherAddr
        ([0, 0] ++ otherAddr.bytes ++ List.replicate 5 0) :=
  (configuration_iff .new Ble.bounds_new rfl (Buf.zero 6) rfl otherAddr rfl rfl).mpr ⟨rfl, rfl⟩

/-- The address that was set is not the one that is sent, and the peer at the standard's place is not the
    one that is looked for. -/
theorem configuration_lost :
    ¬ AdvertisesAs .new .new otherAddr [2, 1, 6] (List.replicate 28 0) ∧
      ¬ ConnectsTo .new .new (List.replicate 6 0) otherAddr (List.replicate 13 0) := by
  constructor
  · rw [advertisesAs_iff .new Ble.bounds_new rfl otherAddr rfl]
    decide
  · rw [connectsTo_iff .new .new otherAddr rfl rfl]
    decide

end Hci

end NrfBle
