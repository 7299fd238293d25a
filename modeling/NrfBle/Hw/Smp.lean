/-
  The SMP pairing state (`src/hw/smp.rs`): legacy pairing (c1, s1), the LE Secure Connections key
  exchange and f5, and the methods that build and handle pairing PDUs.

  A method with a `&mut self` receiver gives back its answer together with the state it leaves,
  ALSO when the answer is an error: some methods write before they check
  (`handlePublicKey` stores the peer's point, `handleRandom` the peer's random value).
-/
import Mathlib.Tactic
import NrfBle.Hw.Drivers

namespace NrfBle

open Checked

/-! ## Opcodes and reasons -/

abbrev smpPairingRequest : UInt8 := 0x01
abbrev smpPairingResponse : UInt8 := 0x02
abbrev smpPairingConfirm : UInt8 := 0x03
abbrev smpPairingRandom : UInt8 := 0x04
abbrev smpPairingFailed : UInt8 := 0x05
abbrev smpSecurityRequest : UInt8 := 0x0B
abbrev smpPublicKey : UInt8 := 0x0C
abbrev smpPairingFailedUnspecified : UInt8 := 0x08
abbrev smpReasonOob : UInt8 := 0x02
abbrev smpReasonAuth : UInt8 := 0x05
abbrev smpReasonConfirm : UInt8 := 0x06
abbrev ioNoInputNoOutput : UInt8 := 0x03

/-- SMP's L2CAP channel. -/
abbrev l2capSmpCid : UInt16 := 0x0006

/-! ## The key generation functions -/

/-- Inputs of the confirm value function. -/
structure C1Inputs where
  r : Buf 16
  preq : Buf 7
  pres : Buf 7
  iat : UInt8
  rat : UInt8
  ia : Buf 6
  ra : Buf 6

/-- The first block c1 mixes in: address types, pairing request, pairing response. -/
def C1Inputs.p1 (i : C1Inputs) : Buf 16 :=
  ⟨[i.iat, i.rat] ++ i.preq.bytes ++ i.pres.bytes, by simp [i.preq.size, i.pres.size]⟩

/-- The second block: responder address, initiator address, four zeroes. -/
def C1Inputs.p2 (i : C1Inputs) : Buf 16 :=
  ⟨i.ra.bytes ++ i.ia.bytes ++ List.replicate 4 0, by simp [i.ra.size, i.ia.size]⟩

/-- `c1`. -/
def c1 (hw : Hw) (tk : Buf 16) (i : C1Inputs) : Buf 16 :=
  hw.aesEncrypt tk ((hw.aesEncrypt tk (i.r.xor i.p1)).xor i.p2)

/-- `s1`: the session key of two random values. -/
def s1 (hw : Hw) (k r1 r2 : Buf 16) : Buf 16 :=
  hw.aesEncrypt k ⟨r2.bytes.take 8 ++ r1.bytes.take 8, by simp [r1.size, r2.size]⟩

/-! ## The pairing state -/

/-- `SmpError`. -/
inductive SmpError
  | invalidPdu
  | confirmMismatch
  deriving DecidableEq, Repr

/-- `SmpState`. -/
inductive SmpState
  | idle
  | waitPairingResponse
  | waitConfirm
  | waitRandom
  | waitingStartEnc
  | encrypted
  deriving DecidableEq, Repr

/-- `Smp`. -/
structure Smp where
  state : SmpState
  ownRandom : Buf 16
  peerRandom : Buf 16
  ownConfirm : Buf 16
  peerConfirm : Buf 16
  preq : Buf 7
  pres : Buf 7
  iat : UInt8
  rat : UInt8
  ia : Buf 6
  ra : Buf 6
  stk : Buf 16
  responder : Bool
  pairingFailed : UInt8
  passkey : Option UInt32
  sc : Bool
  ownPrivate : Buf 32
  peerPublic : Buf 64
  dhkey : Buf 32

namespace Smp

/-- `Smp::new`. -/
def new : Smp where
  state := .idle
  ownRandom := Buf.zero 16
  peerRandom := Buf.zero 16
  ownConfirm := Buf.zero 16
  peerConfirm := Buf.zero 16
  preq := Buf.zero 7
  pres := Buf.zero 7
  iat := 0
  rat := 0
  ia := Buf.zero 6
  ra := Buf.zero 6
  stk := Buf.zero 16
  responder := false
  pairingFailed := 0
  passkey := none
  sc := false
  ownPrivate := Buf.zero 32
  peerPublic := Buf.zero 64
  dhkey := Buf.zero 32

/-- `Smp::set_passkey`. -/
def setPasskey (s : Smp) (passkey : Option UInt32) : Smp := { s with passkey := passkey }

/-- `Smp::enable_sc`. -/
def enableSc (s : Smp) : Smp := { s with sc := true }

/-- `Smp::tk`: the passkey in the four low bytes, or all zeroes. -/
def tk (s : Smp) : Buf 16 :=
  match s.passkey with
  | some pk => ⟨leBytes 4 pk.toNat ++ List.replicate 12 0, by simp⟩
  | none => Buf.zero 16

/-- The inputs c1 gets from the state, for a random value `r`. -/
def c1Inputs (s : Smp) (r : Buf 16) : C1Inputs := ⟨r, s.preq, s.pres, s.iat, s.rat, s.ia, s.ra⟩

/-- `Smp::build_pairing_request`. -/
def buildPairingRequest (s : Smp) : Buf 7 × Smp :=
  let p : Buf 7 :=
    ⟨[smpPairingRequest, if s.passkey.isSome then 0x02 else ioNoInputNoOutput, 0,
      0x01 ||| (if s.sc then 0x08 else 0), 16, 0x01, 0x01], rfl⟩
  (p, { s with preq := p })

/-- The pairing response this stack always gives. -/
def pairingResponse : Buf 7 := ⟨[smpPairingResponse, ioNoInputNoOutput, 0, 0x01, 16, 0x01, 0x01], rfl⟩

/-- `Smp::handle_pairing_request`. -/
def handlePairingRequest (s : Smp) (data : List UInt8) : Except SmpError (Buf 7) × Smp :=
  if h : data.length < 7 then (.error .invalidPdu, s)
  else
    (.ok pairingResponse,
      { s with
        preq := ⟨data.take 7, by rw [List.length_take]; omega⟩
        rat := 0
        responder := true
        state := .waitConfirm
        pres := pairingResponse })

/-- `Smp::handle_pairing_response`. -/
def handlePairingResponse (s : Smp) (data : List UInt8) : Except SmpError Unit × Smp :=
  if h : data.length < 7 then (.error .invalidPdu, s)
  else
    (.ok (),
      { s with pres := ⟨data.take 7, by rw [List.length_take]; omega⟩, state := .waitConfirm })

/-- `Smp::build_public_key`: the private key is unwrapped, so an invalid one panics. -/
def buildPublicKey (hw : Hw) (s : Smp) : Except Panic (List UInt8) :=
  match hw.publicPoint s.ownPrivate with
  | some point => .ok (smpPublicKey :: point.bytes)
  | none => .error .unwrap

/-- `Smp::handle_public_key`: the peer's point is stored before it is checked. -/
def handlePublicKey (hw : Hw) (s : Smp) (data : List UInt8) : Except SmpError Unit × Smp :=
  if h : data.length < 65 then (.error .invalidPdu, s)
  else
    let point : Buf 64 := ⟨(data.take 65).drop 1, by rw [List.length_drop, List.length_take]; omega⟩
    let s := { s with peerPublic := point }
    match hw.diffieHellman s.ownPrivate point with
    | none => (.error .invalidPdu, s)
    | some dh => (.ok (), { s with dhkey := dh, sc := true })

/-- `Smp::compute_ltk_sc`.  The second CMAC is keyed with the first one's output, as in the
    source. -/
def computeLtkSc (hw : Hw) (s : Smp) (n1 n2 : Buf 16) (a1 a2 : Buf 7) : Buf 16 :=
  let btle : List UInt8 := [0x65, 0x6c, 0x74, 0x62]
  let salt : Buf 16 :=
    ⟨[0xbe, 0x83, 0x60, 0x5a, 0xdb, 0x0b, 0x37, 0x60, 0x38, 0xa5, 0xf5, 0xaa, 0x91, 0x83, 0x88,
      0x6c], rfl⟩
  let t := hw.aesCmac salt s.dhkey.bytes
  let m : List UInt8 := [0x00, 0x01] ++ a2.bytes ++ a1.bytes ++ n2.bytes ++ n1.bytes ++ btle
  let mackey := hw.aesCmac t (m ++ [0])
  hw.aesCmac mackey (m ++ [1])

/-- `Smp::build_failed`. -/
def buildFailed (reason : UInt8) : List UInt8 := [smpPairingFailed, reason]

/-- The common part of the methods that fail the pairing for a reason of their own. -/
def failWith (s : Smp) (reason : UInt8) : List UInt8 × Smp :=
  (buildFailed reason, { s with pairingFailed := reason })

/-- `Smp::fail_unspecified`. -/
def failUnspecified (s : Smp) : List UInt8 × Smp := s.failWith smpPairingFailedUnspecified

/-- `Smp::fail_oob`. -/
def failOob (s : Smp) : List UInt8 × Smp := s.failWith smpReasonOob

/-- `Smp::fail_auth`. -/
def failAuth (s : Smp) : List UInt8 × Smp := s.failWith smpReasonAuth

/-- `Smp::build_confirm`: the random value is the constant `0x5A` everywhere. -/
def buildConfirm (hw : Hw) (s : Smp) (iat : UInt8) (ia ra : Buf 6) : List UInt8 × Smp :=
  let s := { s with
    iat := iat, ia := ia, ra := ra, ownRandom := ⟨List.replicate 16 0x5A, List.length_replicate⟩ }
  let confirm := c1 hw s.tk (s.c1Inputs s.ownRandom)
  (smpPairingConfirm :: confirm.bytes, { s with ownConfirm := confirm })

/-- `Smp::handle_confirm`. -/
def handleConfirm (s : Smp) (data : List UInt8) : Except SmpError Unit × Smp :=
  if h : data.length < 17 then (.error .invalidPdu, s)
  else
    (.ok (),
      { s with
        peerConfirm := ⟨(data.take 17).drop 1, by rw [List.length_drop, List.length_take]; omega⟩
        state := .waitRandom })

/-- `Smp::build_random`. -/
def buildRandom (s : Smp) : List UInt8 := smpPairingRandom :: s.ownRandom.bytes

/-- `Smp::handle_random`: verify the peer's confirm value and derive the session key. -/
def handleRandom (hw : Hw) (s : Smp) (data : List UInt8) : Except SmpError (List UInt8) × Smp :=
  if h : data.length < 17 then (.error .invalidPdu, s)
  else
    let s := { s with
      peerRandom := ⟨(data.take 17).drop 1, by rw [List.length_drop, List.length_take]; omega⟩ }
    if c1 hw s.tk (s.c1Inputs s.peerRandom) ≠ s.peerConfirm then
      (.error .confirmMismatch, { s with pairingFailed := smpReasonConfirm })
    else
      (.ok s.buildRandom,
        { s with
          stk := s1 hw s.tk s.ownRandom s.peerRandom
          state := .waitingStartEnc
          pairingFailed := 0 })

/-! ## The session key -/

theorem handlePairingRequest_stk (s : Smp) (data : List UInt8) :
    (s.handlePairingRequest data).2.stk = s.stk := by
  unfold handlePairingRequest
  split <;> rfl

theorem handlePairingResponse_stk (s : Smp) (data : List UInt8) :
    (s.handlePairingResponse data).2.stk = s.stk := by
  unfold handlePairingResponse
  split <;> rfl

theorem handleConfirm_stk (s : Smp) (data : List UInt8) : (s.handleConfirm data).2.stk = s.stk := by
  unfold handleConfirm
  split <;> rfl

/-- A rejected Pairing Random does not set the key. -/
theorem handleRandom_stk_of_error {hw : Hw} {s s' : Smp} {data : List UInt8} {e : SmpError}
    (h : s.handleRandom hw data = (.error e, s')) : s'.stk = s.stk := by
  unfold handleRandom at h
  split at h
  · cases h; rfl
  · dsimp only at h
    split at h
    · cases h; rfl
    · cases h

end Smp

end NrfBle
