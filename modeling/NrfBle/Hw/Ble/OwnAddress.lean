/-
  The type of the own address in a `CONNECT_REQ` (`src/hw/ble.rs`: `gap_address_set`, `gap_rotate_rpa`,
  `gap_connect`, `gap_scan_start`, `send_connect_req`).

  The own address and its type are two fields.  Setting the address writes both, and rotating it writes
  both; but `gap_connect` starts its scan with default parameters, and `gap_scan_start` writes the type
  they have, which is public, without the address.  So what is sent is random iff the address was set to
  a random one AFTER the scan was started (`Run.told`).
-/
import Mathlib.Tactic
import NrfBle.Hw.Ble.Initiating

namespace NrfBle

open Checked

/-! ## What is sent -/

/-- The TxAdd bit of a PDU's bytes. -/
def txAddBit (pdu : List UInt8) : Bool := (pdu.getD 0 0 &&& 0x80) != 0

theorem txAddBit_bytes (pdu : AdvPdu) (txAdd rxAdd : Bool) :
    txAddBit (pdu.bytes txAdd rxAdd) = (pdu.headerBits txAdd rxAdd).1 := by
  obtain ⟨t, ht⟩ := pdu.pduType_eq
  unfold txAddBit AdvPdu.bytes
  rw [ht]
  exact (AdvPdu.headerByte t _).2.2

/-- The bytes of a transmitted `CONNECT_REQ`. -/
def BleAct.connectReq : BleAct → Option (List UInt8)
  | .transmit pdu => if pdu.getD 0 0 &&& 0x0F = pduConnectReq then some pdu else none
  | _ => none

/-- The `CONNECT_REQ`s among the actions, in order. -/
def connectReqs (log : List BleAct) : List (List UInt8) := log.filterMap BleAct.connectReq

theorem connectReqs_append (log log' : List BleAct) :
    connectReqs (log ++ log') = connectReqs log ++ connectReqs log' := List.filterMap_append

namespace Ble

theorem Quiet.connectReqs {log : List BleAct} (h : Quiet log) : connectReqs log = [] := by
  refine List.filterMap_eq_nil_iff.mpr (fun a ha => ?_)
  have hno := (h a ha).2
  cases a with
  | transmit pdu => exact if_neg (of_decide_eq_false hno)
  | _ => rfl

/-- The request the stack would send now. -/
def requestTo (b : Ble) (target : Buf 6) : List UInt8 :=
  (AdvPdu.connectReq b.ownAddr target connectParams.bytes).bytes b.ownAddrType.isRandom
    b.connectTargetType.isRandom

theorem sendConnectReq_requests {b : Ble} {target : Buf 6} (h : b.connectTarget = some target)
    (now : UInt32) : NrfBle.connectReqs (b.sendConnectReq now).log = [b.requestTo target] := by
  obtain ⟨txBuf, conn, _, hsend⟩ := sendConnectReq_eq h now
  rw [hsend]
  have htype := AdvPdu.bytes_type (.connectReq b.ownAddr target connectParams.bytes)
    b.ownAddrType.isRandom b.connectTargetType.isRandom
  exact List.filterMap_cons_some (if_pos htype)

/-- A part of a tick that sends no `CONNECT_REQ`, or the one of the state `b`. -/
def SendsFor (b : Ble) (log : List BleAct) : Prop :=
  ∀ pdu ∈ NrfBle.connectReqs log, ∃ target, pdu = b.requestTo target

theorem SendsFor.of_quiet {b : Ble} {log : List BleAct} (h : Quiet log) : b.SendsFor log := by
  intro pdu hpdu
  rw [h.connectReqs] at hpdu
  cases hpdu

theorem SendsFor.after_quiet {b : Ble} {log log' : List BleAct} (h : Quiet log) (h' : b.SendsFor log') :
    b.SendsFor (log ++ log') := by
  unfold SendsFor
  rw [connectReqs_append, h.connectReqs]
  exact h'

/-- The listen of one channel. -/
theorem scanListen_sends {b : Ble} (hidx : b.scanChannelIdx < 3) (env : ScanEnv) :
    b.SendsFor (b.scanListen env).log := by
  obtain ⟨start, channel, b₁, hb₁, hlisten⟩ := scanListen_eq hidx env
  have hquiet : Quiet [.setChannel channel] := .cons ⟨rfl, rfl⟩ .nil
  rw [hlisten]
  cases hrx : env.air.received with
  | none => exact .of_quiet hquiet
  | some bytes =>
    dsimp only
    refine .after_quiet hquiet ?_
    generalize hb₂ : ({ b₁ with rxPduLen := env.air.len } : Ble) = b₂
    rw [hb₁] at hb₂
    have hbuf : b₂.rxBuf = env.air.buf := by rw [← hb₂]
    have hlen : b₂.rxPduLen = env.air.len := by rw [← hb₂]
    have hsame : ∀ target, b₂.requestTo target = b.requestTo target := by
      intro target
      rw [← hb₂]
      rfl
    by_cases hheard : ∃ target, b₂.connectTarget = some target ∧ env.air.advertiser = some target
    · obtain ⟨target, htarget, hadv⟩ := hheard
      rw [handleScanPdu_target hbuf hlen hadv htarget]
      intro pdu hpdu
      rw [sendConnectReq_requests htarget] at hpdu
      exact ⟨target, (List.mem_singleton.mp hpdu).trans (hsame target)⟩
    · obtain ⟨log, b', hx, hback⟩ := handleScanPdu_quietly hbuf hlen hrx
        (fun target ht hadv => hheard ⟨target, ht, hadv⟩)
      rw [hx]
      exact .of_quiet hback.quiet

/-- **The `CONNECT_REQ` of a tick** has the address and the type the tick found. -/
theorem scanTick_sends {b : Ble} (hb : b.Bounds) (env : ScanEnv) :
    b.SendsFor (b.scanTick env).log := by
  unfold scanTick
  split
  · exact .of_quiet .nil
  · obtain ⟨log, b₁, hper, hback⟩ := periodicTick_quietly hb.sync env
    have hframe : b₁ = _ := hback.frame
    have hsame : ∀ target, b₁.requestTo target = b.requestTo target := by
      intro target
      rw [hframe]
      rfl
    have hstep : b₁.SendsFor (b₁.scanStep env).log := by
      unfold scanStep
      split
      · exact .of_quiet (.cons ⟨rfl, rfl⟩ .nil)
      · split
        · have hacc : b₁.scanAccum.Bounded := by
            rw [hframe]
            exact hb.scanAccum
          obtain ⟨ticks, accum, hnext, _⟩ := IntervalAccum.next_eq hacc b₁.scanParams.interval
          rw [hnext, Logged.lift_ok_bind]
          exact .of_quiet .nil
        · rename_i hidx
          exact scanListen_sends (Nat.not_le.mp hidx) env
    rw [hper, Logged.mk_ok_bind]
    refine .after_quiet hback.quiet ?_
    intro pdu hpdu
    obtain ⟨target, htarget⟩ := hstep pdu hpdu
    exact ⟨target, htarget.trans (hsame target)⟩

end Ble

/-! ## What the history says of the address -/

/-- The operations of an initiator: the address, its key, and the scan of `gap_connect`. -/
def BleOp.initiator : BleOp → Bool
  | .gapAddressSet _ _ | .gapPrivacySet _ | .gapRotateRpa _ | .call (.gapConnect _ _ _)
  | .call .gapScanStop | .scanTick _ => true
  | _ => false

/-- The own address was last set by `gap_address_set` with a random type, or by `gap_rotate_rpa`. -/
def addressRandom : List Move → Bool
  | [] => false
  | m :: moves =>
    match m.op with
    | .gapAddressSet _ addrType => addrType.isRandom
    | .gapRotateRpa _ => m.before.irk.isSome || addressRandom moves
    | _ => addressRandom moves

/-- It was so after the latest `gap_connect` that started a scan. -/
def setSinceConnect : List Move → Bool
  | [] => false
  | m :: moves =>
    match m.op with
    | .gapAddressSet _ _ => true
    | .gapRotateRpa _ => m.before.irk.isSome || setSinceConnect moves
    | .call (.gapConnect target targetType now) =>
      !(ApiCall.gapConnect target targetType now).accepted m.before && setSinceConnect moves
    | _ => setSinceConnect moves

/-- The type field says what the history does. -/
def TypeTold (moves : List Move) (b : Ble) : Prop :=
  b.ownAddrType.isRandom = (addressRandom moves && setSinceConnect moves)

theorem typeTold_gapConnect {hw : Hw} {moves : List Move} {b b' : Ble} (h : TypeTold moves b)
    (target : Buf 6) (targetType : AddrType) (now : UInt32) (log : List BleAct)
    (hb' : ((BleOp.call (.gapConnect target targetType now)).run hw b).res = .ok b') :
    TypeTold (⟨.call (.gapConnect target targetType now), b, log⟩ :: moves) b' := by
  have hrun : (BleOp.call (.gapConnect target targetType now)).run hw b =
      b.gapConnect target targetType now >>= fun r => pure r.2 := rfl
  unfold TypeTold
  show _ = (addressRandom moves &&
    (!(ApiCall.gapConnect target targetType now).accepted b && setSinceConnect moves))
  rw [hrun] at hb'
  have hcall : (ApiCall.gapConnect target targetType now).run b =
      b.gapConnect target targetType now := rfl
  unfold ApiCall.accepted
  by_cases hidle : b.scanState = .idle
  · obtain ⟨accum, compare, _, heq⟩ := Ble.gapConnect_eq hidle target targetType now
    rw [heq] at hb'
    rw [hcall, heq]
    cases hb'
    exact (Bool.and_false _).symm
  · have heq : b.gapConnect target targetType now = ⟨[], .ok (.error .alreadyRunning, b)⟩ :=
      if_pos hidle
    rw [heq] at hb'
    rw [hcall, heq]
    cases hb'
    exact h

/-- One operation of an initiator. -/
theorem typeTold_step {hw : Hw} {moves : List Move} {b b' : Ble} (hb : b.Bounds) (h : TypeTold moves b)
    (op : BleOp) (hop : op.initiator = true) (log : List BleAct) (hb' : (op.run hw b).res = .ok b') :
    TypeTold (⟨op, b, log⟩ :: moves) b' := by
  cases op with
  | gapAddressSet addr addrType =>
    cases hb'
    exact (Bool.and_true _).symm
  | gapPrivacySet irk =>
    cases hb'
    exact h
  | gapRotateRpa now =>
    unfold TypeTold
    show _ = ((b.irk.isSome || addressRandom moves) && (b.irk.isSome || setSinceConnect moves))
    cases hirk : b.irk with
    | none =>
      have hsame : b' = b := by
        cases hb'
        unfold Ble.gapRotateRpa
        rw [hirk]
      rw [hsame]
      exact h
    | some irk =>
      have hrpa : b'.ownAddrType = .randomPrivateResolvable := by
        cases hb'
        unfold Ble.gapRotateRpa
        rw [hirk]
      rw [hrpa]
      rfl
  | scanTick env =>
    obtain ⟨log', b₁, htick, _, heff⟩ := Ble.scanTick_effect hb env
    rw [show (BleOp.scanTick env).run hw b = b.scanTick env from rfl, htick] at hb'
    cases hb'
    have htype : b'.ownAddrType = b.ownAddrType := by rw [heff.frame]
    unfold TypeTold
    rw [htype]
    exact h
  | call call =>
    cases call with
    | gapConnect target targetType now => exact typeTold_gapConnect h target targetType now log hb'
    | gapScanStop =>
      have htype : b'.ownAddrType = b.ownAddrType := by
        rw [show (BleOp.call .gapScanStop).run hw b = b.gapScanStop >>= fun r => pure r.2 from rfl] at hb'
        unfold Ble.gapScanStop at hb'
        split at hb' <;> (cases hb'; rfl)
      unfold TypeTold
      rw [htype]
      exact h
    | _ => cases hop
  | _ => cases hop

/-- **The type field over a run**: random iff the address was set to a random one since the latest
    `gap_connect`. -/
theorem Run.told {hw : Hw} {moves : List Move} {r : Except Panic Ble} (h : Run hw moves r)
    (hops : ∀ m ∈ moves, m.op.initiator = true) : ∀ b, r = .ok b → TypeTold moves b := by
  induction h with
  | start =>
    rintro b ⟨⟩
    rfl
  | @step moves b op hrun ih =>
    obtain ⟨hop, hbefore⟩ := List.forall_mem_cons.mp hops
    exact fun b' hb' => typeTold_step (hrun.bounds b rfl) (ih hbefore b rfl) op hop _ hb'

/-! ## The requests of a run -/

/-- The run sent this `CONNECT_REQ`, with this history behind it. -/
def Requested (moves earlier : List Move) (pdu : List UInt8) : Prop :=
  ∃ later env b log, moves = later ++ ⟨.scanTick env, b, log⟩ :: earlier ∧ pdu ∈ connectReqs log

/-- Every `CONNECT_REQ` of the run has TxAdd set iff its own address is random. -/
def FollowsAddress (moves : List Move) : Prop :=
  ∀ earlier pdu, Requested moves earlier pdu → txAddBit pdu = addressRandom earlier

/-- **When the type follows the address.**  In every run of an initiator, the TxAdd bit of a
    `CONNECT_REQ` says what its own address was set to iff that is not random, or was set after the
    latest `gap_connect`. -/
theorem txAdd_follows_iff {hw : Hw} {moves : List Move} {r : Except Panic Ble} (h : Run hw moves r)
    (hops : ∀ m ∈ moves, m.op.initiator = true) {earlier : List Move} {pdu : List UInt8}
    (hreq : Requested moves earlier pdu) :
    txAddBit pdu = addressRandom earlier ↔
      (addressRandom earlier = false ∨ setSinceConnect earlier = true) := by
  obtain ⟨later, env, b, log, rfl, hpdu⟩ := hreq
  obtain ⟨_, hbefore⟩ := List.forall_mem_cons.mp (List.forall_mem_append.mp hops).2
  obtain ⟨r', hrun⟩ := h.of_append
  cases hrun with
  | step op hrun =>
    have htold : b.ownAddrType.isRandom = _ := hrun.told hbefore b rfl
    obtain ⟨target, rfl⟩ := Ble.scanTick_sends (hrun.bounds b rfl) env pdu hpdu
    have hbit : txAddBit (b.requestTo target) = b.ownAddrType.isRandom := txAddBit_bytes _ _ _
    rw [hbit, htold]
    cases addressRandom earlier <;> cases setSinceConnect earlier <;> decide

/-- A static random address. -/
def staticAddr : Buf 6 := ⟨[1, 2, 3, 4, 5, 0xC6], rfl⟩

/-- Connect, and set a random address while the scan is on. -/
def setLate : List BleOp :=
  [.gapAddressSet staticAddr .randomStatic, .call (.gapConnect otherAddr .«public» 0)]

/-- Set a random address, and connect. -/
def setEarly : List BleOp :=
  [.call (.gapConnect otherAddr .«public» 0), .gapAddressSet staticAddr .randomStatic]

/-- The target is heard: what this run ends with, as a request. -/
theorem requested_of_sent (ops : List BleOp) (pdu : List UInt8)
    (h : ((history Hw.standIn ops).2.map fun b =>
      connectReqs ((BleOp.scanHears (.advInd otherAddr [])).run Hw.standIn b).log) = .ok [pdu]) :
    Requested (history Hw.standIn (.scanHears (.advInd otherAddr []) :: ops)).1
      (history Hw.standIn ops).1 pdu := by
  cases hend : (history Hw.standIn ops).2 with
  | error p => rw [hend] at h; cases h
  | ok b =>
    rw [hend] at h
    have hlog : connectReqs ((BleOp.scanHears (.advInd otherAddr [])).run Hw.standIn b).log = [pdu] :=
      Except.ok.inj h
    rw [history_cons hend]
    exact ⟨[], _, b, _, rfl, by rw [hlog]; exact List.mem_singleton_self pdu⟩

/-- The address set late is sent as a random one. -/
theorem txAdd_follows_late :
    txAddBit ((AdvPdu.connectReq staticAddr otherAddr Ble.connectParams.bytes).bytes true false) =
      addressRandom (history Hw.standIn setLate).1 := by
  have hops : ((history Hw.standIn (.scanHears (.advInd otherAddr []) :: setLate)).1.all
      fun m => m.op.initiator) = true := by decide +kernel
  have hsent := requested_of_sent setLate ((AdvPdu.connectReq staticAddr otherAddr
    Ble.connectParams.bytes).bytes true false) (by decide +kernel)
  exact (txAdd_follows_iff (Run.of_history Hw.standIn _) (List.all_eq_true.mp hops) hsent).mpr
    (.inr (by decide +kernel))

/-- The one set early is sent as a public one. -/
theorem txAdd_departs_early :
    ¬ FollowsAddress (history Hw.standIn (.scanHears (.advInd otherAddr []) :: setEarly)).1 := by
  intro h
  have hsent := requested_of_sent setEarly ((AdvPdu.connectReq staticAddr otherAddr
    Ble.connectParams.bytes).bytes false false) (by decide +kernel)
  exact absurd (h _ _ hsent) (by decide +kernel)

end NrfBle
