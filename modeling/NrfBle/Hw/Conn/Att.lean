/-
  The ATT server of a connection (`src/hw/conn.rs`, `Conn::handle_att` and the attribute table of
  the Nordic UART Service).

  A request is a byte list that the peer chose.  Its opcode decides which offsets are read, and no
  branch checks the length first, so each opcode has a least length below which the handler
  panics: `attNeed`.  `returns_handleAtt` says that these are the ONLY panics: the response buffers
  are guarded entry by entry and every queueing operation clips.
-/
import Mathlib.Tactic
import NrfBle.Hw.Conn.Tx

namespace NrfBle

open Checked

/-! ## The attribute table -/

abbrev gattUuidPrimaryService : UInt16 := 0x2800
abbrev gattUuidCharacteristic : UInt16 := 0x2803
abbrev gattUuidClientCharCfg : UInt16 := 0x2902

abbrev handlePrimaryService : UInt16 := 0x0001
abbrev handleRxCharDecl : UInt16 := 0x0002
abbrev handleRxValue : UInt16 := 0x0003
abbrev handleTxCharDecl : UInt16 := 0x0004
abbrev handleTxCccd : UInt16 := 0x0006

/-- The 128-bit UUIDs of the service differ in one byte. -/
def nusUuid (k : UInt8) : Buf 16 :=
  ⟨[0x9E, 0xCA, 0xDC, 0x24, 0x0E, 0xE5, 0xA9, 0xE0, 0x93, 0xF3, 0xA3, 0xB5, k, 0x00, 0x40, 0x6E],
    rfl⟩

def nusServiceUuid : Buf 16 := nusUuid 0x01
def nusRxCharUuid : Buf 16 := nusUuid 0x02
def nusTxCharUuid : Buf 16 := nusUuid 0x03

/-- `GattUuid`. -/
inductive GattUuid
  | uuid16 (u : UInt16)
  | uuid128 (u : Buf 16)
  deriving DecidableEq

/-- `GattUuid::as_u16`. -/
def GattUuid.asU16 : GattUuid → Option UInt16
  | .uuid16 u => some u
  | .uuid128 _ => none

/-- `GattUuid::to_128`. -/
def GattUuid.to128 : GattUuid → Buf 16
  | .uuid128 u => u
  | .uuid16 _ => Buf.zero 16

namespace Conn

/-- `Conn::entries`: the attributes with a handle in the range. -/
def entries (start stop : UInt16) : List (UInt16 × GattUuid) :=
  ([(handlePrimaryService, .uuid128 nusServiceUuid),
    (handleRxCharDecl, .uuid16 gattUuidCharacteristic),
    (handleRxValue, .uuid128 nusRxCharUuid),
    (handleTxCharDecl, .uuid16 gattUuidCharacteristic),
    (handleTxValue, .uuid128 nusTxCharUuid),
    (handleTxCccd, .uuid16 gattUuidClientCharCfg)] : List (UInt16 × GattUuid)).filter
    (fun e => e.1 ≥ start ∧ e.1 ≤ stop)

/-- A handle and value, if the handle is in the range. -/
def inRange (start stop h : UInt16) (value : List UInt8) : List (UInt16 × List UInt8) :=
  if h ≥ start ∧ h ≤ stop then [(h, value)] else []

/-- `Conn::by_type`: handles with the used part of their values. -/
def byType (start stop uuid : UInt16) : List (UInt16 × List UInt8) :=
  (if uuid = gattUuidPrimaryService then
    inRange start stop handlePrimaryService nusServiceUuid.bytes
  else []) ++
  (if uuid = gattUuidCharacteristic then
    inRange start stop handleRxCharDecl (0x08 :: le16 handleRxValue ++ nusRxCharUuid.bytes) ++
    inRange start stop handleTxCharDecl (0x20 :: le16 handleTxValue ++ nusTxCharUuid.bytes)
  else []) ++
  (if uuid = gattUuidClientCharCfg then inRange start stop handleTxCccd [0, 0] else [])

/-- `Conn::primary_services`. -/
def primaryServices (start stop : UInt16) : List (UInt16 × List UInt8) :=
  inRange start stop handlePrimaryService nusServiceUuid.bytes

/-- `Conn::read`: the bytes of a readable attribute. -/
def read (c : Conn) (handle : UInt16) : Option (List UInt8) :=
  if handle = handleTxValue then some []
  else if handle = handleTxCccd then some [c.nusCccd, 0]
  else none

/-- Replace the received data. -/
def storeRxData (c : Conn) (data : List UInt8) (n : Nat) (h : n ≤ 244) : Conn :=
  { c with
    rxData := c.rxData.splice 0 (data.take n) (by rw [List.length_take]; omega)
    rxDataLen := n }

/-- `Conn::write`. -/
def write (c : Conn) (handle : UInt16) (value : List UInt8) (result : ConnEvent) :
    Except Error Unit × Conn × ConnEvent :=
  if handle = handleRxValue then
    (.ok (), c.storeRxData value (min value.length attPayloadMax) (Nat.min_le_right _ _), .data)
  else if handle = handleTxCccd then
    (.ok (),
      { c with
        nusCccd := if value.length ≥ 2 ∧ value.getD 0 0 &&& 0x01 ≠ 0 then 0x01 else 0 },
      result)
  else (.error .invalidPdu, c, result)

/-! ## Building responses -/

/-- Append a handle and a value to a response buffer if `width` more bytes fit. -/
def putEntry {n : Nat} (rsp : Buf n) (pos width : Nat) (handle : UInt16) (value : List UInt8) :
    Except Panic (Buf n × Nat) :=
  if pos + width ≤ n then do
    let rsp ← rsp.write pos (le16 handle)
    let rsp ← rsp.write (pos + 2) value
    return (rsp, pos + width)
  else return (rsp, pos)

/-- One attribute of a Find Information response, short or long form. -/
def putUuid (uuid16 : Bool) (rsp : Buf 64) (pos : Nat) (handle : UInt16) (uuid : GattUuid) :
    Except Panic (Buf 64 × Nat) :=
  match uuid.asU16 with
  | some u =>
    if uuid16 then putEntry rsp pos 4 handle (le16 u)
    else putEntry rsp pos 18 handle ([0, 0] ++ le16 u ++ List.replicate 12 0)
  | none => putEntry rsp pos 18 handle uuid.to128.bytes

/-- The loop over the attributes. -/
def putUuids (uuid16 : Bool) : List (UInt16 × GattUuid) → Buf 64 → Nat → Except Panic (Buf 64 × Nat)
  | [], rsp, pos => return (rsp, pos)
  | (handle, uuid) :: es, rsp, pos => do
    let (rsp, pos) ← putUuid uuid16 rsp pos handle uuid
    putUuids uuid16 es rsp pos

/-- The loop over values of a Read By (Group) Type response: the first value fixes the width. -/
def putValues {n : Nat} : List (UInt16 × List UInt8) → Buf n → Nat → UInt8 →
    Except Panic (Buf n × Nat)
  | [], rsp, pos, _ => return (rsp, pos)
  | (handle, value) :: es, rsp, pos, width => do
    let width' := if width = 0 then 2 + UInt8.ofNat value.length else width
    let rsp := if width = 0 then rsp.set 1 width' else rsp
    let (rsp, pos) ← putEntry rsp pos width'.toNat handle value
    putValues es rsp pos width'

/-- A response with all values, or the error response when nothing was written at all. -/
def valuesReply (n : Nat) (code : UInt8) (values : List (UInt16 × List UInt8))
    (err : List UInt8) : Except Panic (List UInt8) := do
  let (rsp, pos) ← putValues values ((Buf.zero n).set 0 code) 2 0
  -- `pos` starts at two, so the test of the source for an empty response never holds
  if pos = 1 then return err else rsp.upto pos

/-- Find Information (0x04). -/
def findInformation (att : List UInt8) : Except Panic (List UInt8) := do
  let start ← rd16 att 1
  let stop ← rd16 att 3
  let es := entries start stop
  let uuid16 := es.all (fun e => e.2.asU16.isSome)
  let rsp := ((Buf.zero 64).set 0 0x05).set 1 (if uuid16 then 0x01 else 0x02)
  let (rsp, pos) ← putUuids uuid16 es rsp 2
  rsp.upto pos

/-- Read By Type (0x08): type, then handle range. -/
def readByType (att : List UInt8) : Except Panic (List UInt8) := do
  let uuid ← rd16 att 1
  let start ← rd16 att 3
  let stop ← rd16 att 5
  valuesReply 64 0x09 (byType start stop uuid) [0x01, 0x0A, 0x00, 0x00, 0x08]

/-- Read (0x0A). -/
def readRequest (c : Conn) (att : List UInt8) : Except Panic (List UInt8) := do
  let handle ← rd16 att 1
  match c.read handle with
  | some value => return 0x0B :: value
  | none => return [0x01, 0x0A, 0x00, 0x00, 0x0A]

/-- Read Blob (0x0C). -/
def readBlob (c : Conn) (att : List UInt8) : Except Panic (List UInt8) := do
  let handle ← rd16 att 1
  let offset ← rd16 att 3
  match c.read handle with
  | some value =>
    if offset.toNat < value.length then return 0x0D :: value.drop offset.toNat
    else return [0x01, 0x0C, 0x00, 0x00, 0x0A]
  | none => return [0x01, 0x0C, 0x00, 0x00, 0x0A]

/-- Read By Group Type (0x10): type, then handle range. -/
def readByGroupType (att : List UInt8) : Except Panic (List UInt8) := do
  let uuid ← rd16 att 1
  let start ← rd16 att 3
  let stop ← rd16 att 5
  if uuid = gattUuidPrimaryService then
    valuesReply 32 0x11 (primaryServices start stop) [0x01, 0x10, 0x00, 0x00, 0x10]
  else return [0x01, 0x10, 0x00, 0x00, 0x10]

/-- The answer to a request that is answered without a side effect. -/
def attReply (c : Conn) (op : UInt8) (att : List UInt8) : Except Panic (List UInt8) :=
  match op with
  | 0x02 => return 0x03 :: le16 c.attMtu ++ [0, 0]
  | 0x04 => findInformation att
  | 0x08 => readByType att
  | 0x0A => c.readRequest att
  | 0x0C => c.readBlob att
  | 0x10 => readByGroupType att
  -- Request Not Supported, also for commands and stray responses
  | op => return [0x01, op, 0x00, 0x00, 0x06]

/-! ## The handler -/

/-- The opcodes that answer a request of ours. -/
def isAttResponse (op : UInt8) : Bool :=
  op ∈ [0x01, 0x03, 0x09, 0x0B, 0x11, 0x13, 0x15, 0x17]

/-- The MTU after a response: an Exchange MTU response lowers it, not below the default. -/
def mtuAfter (c : Conn) (op : UInt8) (att : List UInt8) : Except Panic UInt16 :=
  if op = 0x03 ∧ att.length ≥ 3 then do
    let peer ← rd16 att 1
    return max (min c.attMtu peer) (UInt16.ofNat attMtuDefault)
  else return c.attMtu

/-- A response to our pending request: keep it for the host. -/
def takeResponse (c : Conn) (op : UInt8) (att : List UInt8) : Except Panic Conn := do
  let attMtu ← c.mtuAfter op att
  let n := min att.length 64
  return { c with
    attMtu := attMtu
    pendingRequest := false
    gattResult := c.gattResult.splice 0 (att.take n) (by rw [List.length_take]; omega)
    gattResultLen := n }

/-- A notification: at most twenty bytes of it become received data. -/
def takeNotification (c : Conn) (att : List UInt8) : Except Panic Conn := do
  let _handle ← rd16 att 1
  let len ← sub att.length 3
  let value ← slice att 3 (3 + min len 20)
  return c.storeRxData value (min len 20) (by omega)

/-- The two write requests: handle, then value. -/
def attWrite (c : Conn) (att : List UInt8) (result : ConnEvent) :
    Except Panic (Except Error Unit × Conn × ConnEvent) := do
  let handle ← rd16 att 1
  let value ← slice att 3 att.length
  return c.write handle value result

/-- `Conn::handle_att`. -/
def handleAtt (c : Conn) (att : List UInt8) (result : ConnEvent) :
    Except Panic (Conn × ConnEvent) :=
  match att with
  | [] => return (c, result)
  | op :: _ =>
    if c.pendingRequest ∧ isAttResponse op then do
      let c ← c.takeResponse op att
      return (c, result)
    else if op = 0x1B then do
      let c ← c.takeNotification att
      return (c, .data)
    else if op = 0x12 then do
      let (answer, c, result) ← c.attWrite att result
      match answer with
      | .ok () => return (c.queueAtt [0x13], result)
      | .error _ => return (c.queueAtt [0x01, 0x12, 0x00, 0x00, 0x12], result)
    else if op = 0x52 then do
      let (_, c, result) ← c.attWrite att result
      return (c, result)
    else do
      let rsp ← c.attReply op att
      return (c.queueAtt rsp, result)

/-! ## What the handler leaves alone -/

/-- The fields serving ATT can change. -/
def AttFrame (c c' : Conn) : Prop :=
  c' = { c with
    attMtu := c'.attMtu, pendingRequest := c'.pendingRequest, gattResult := c'.gattResult
    gattResultLen := c'.gattResultLen, rxData := c'.rxData, rxDataLen := c'.rxDataLen
    nusCccd := c'.nusCccd, txAtt := c'.txAtt, txAttLen := c'.txAttLen
    txPending := c'.txPending }

theorem AttFrame.link {c c' : Conn} (h : AttFrame c c') : c'.link = c.link := by
  rw [h]; rfl

theorem AttFrame.keys {c c' : Conn} (h : AttFrame c c') : c'.keys = c.keys := by
  rw [h]; rfl

theorem AttFrame.coc {c c' : Conn} (h : AttFrame c c') : c'.coc = c.coc := by
  rw [h]

theorem AttFrame.queueAtt {c c' : Conn} (h : AttFrame c c') (att : List UInt8) :
    AttFrame c (c'.queueAtt att) := by
  unfold AttFrame at h ⊢
  rw [h]; rfl

theorem takeResponse_frame {c c' : Conn} {op : UInt8} {att : List UInt8}
    (h : c.takeResponse op att = .ok c') : AttFrame c c' := by
  obtain ⟨_, _, h⟩ := bind_eq_ok.mp h
  cases h
  rfl

/-- Taking a response ends the request. -/
theorem takeResponse_done {c c' : Conn} {op : UInt8} {att : List UInt8}
    (h : c.takeResponse op att = .ok c') : c'.pendingRequest = false := by
  obtain ⟨_, _, h⟩ := bind_eq_ok.mp h
  cases h
  rfl

/-- The fields a write or a notification can change. -/
def WriteFrame (c c' : Conn) : Prop :=
  c' = { c with rxData := c'.rxData, rxDataLen := c'.rxDataLen, nusCccd := c'.nusCccd }

theorem WriteFrame.attFrame {c c' : Conn} (h : WriteFrame c c') : AttFrame c c' := by
  unfold WriteFrame at h
  unfold AttFrame
  rw [h]

theorem WriteFrame.attMtu {c c' : Conn} (h : WriteFrame c c') : c'.attMtu = c.attMtu := by
  rw [h]

theorem takeNotification_frame {c c' : Conn} {att : List UInt8}
    (h : c.takeNotification att = .ok c') : WriteFrame c c' := by
  obtain ⟨_, _, h⟩ := bind_eq_ok.mp h
  obtain ⟨_, _, h⟩ := bind_eq_ok.mp h
  obtain ⟨_, _, h⟩ := bind_eq_ok.mp h
  cases h
  rfl

theorem write_frame (c : Conn) (handle : UInt16) (value : List UInt8) (result : ConnEvent) :
    WriteFrame c (c.write handle value result).2.1 := by
  unfold write
  split
  · rfl
  · split <;> rfl

/-- A write reports the value it received, or nothing. -/
theorem write_event (c : Conn) (handle : UInt16) (value : List UInt8) (result : ConnEvent) :
    (c.write handle value result).2.2 = result ∨ (c.write handle value result).2.2 = .data := by
  unfold write
  split
  · exact .inr rfl
  · split <;> exact .inl rfl

theorem attWrite_spec {c c' : Conn} {att : List UInt8} {result result' : ConnEvent}
    {answer : Except Error Unit} (h : c.attWrite att result = .ok (answer, c', result')) :
    WriteFrame c c' ∧ (result' = result ∨ result' = .data) := by
  obtain ⟨handle, _, h⟩ := bind_eq_ok.mp h
  obtain ⟨value, _, h⟩ := bind_eq_ok.mp h
  have hframe := write_frame c handle value result
  have hevent := write_event c handle value result
  rw [show c.write handle value result = (answer, c', result') from Except.ok.inj h] at hframe hevent
  exact ⟨hframe, hevent⟩

/-! ## What handling a message can be -/

/-- A PDU with this opcode is answered: it is no response to a pending request, no notification and
    no Write Command. -/
def answersAtt (c : Conn) (op : UInt8) : Prop :=
  ¬ (c.pendingRequest = true ∧ isAttResponse op = true) ∧ op ≠ 0x1B ∧ op ≠ 0x52

/-- **What can become of an ATT message**: nothing; it is kept as the response to the pending
    request; it is received without an answer; it is a Write Request, written and answered; or it is
    answered and nothing else. -/
inductive Served (c : Conn) (result : ConnEvent) : List UInt8 → Conn → ConnEvent → Prop
  | empty : Served c result [] c result
  | response {op : UInt8} {rest : List UInt8} {c' : Conn}
    (hresp : c.pendingRequest = true ∧ isAttResponse op = true)
    (hrun : c.takeResponse op (op :: rest) = .ok c') : Served c result (op :: rest) c' result
  | received {op : UInt8} {rest : List UInt8} {c' : Conn} {result' : ConnEvent}
    (hresp : ¬ (c.pendingRequest = true ∧ isAttResponse op = true)) (hop : op = 0x1B ∨ op = 0x52)
    (hframe : WriteFrame c c') (hevent : result' = result ∨ result' = .data) :
    Served c result (op :: rest) c' result'
  | written {op : UInt8} {rest rsp : List UInt8} {c' : Conn} {result' : ConnEvent}
    (hans : c.answersAtt op) (hop : op = 0x12) (hframe : WriteFrame c c')
    (hrsp : rsp = [0x13] ∨ rsp = [0x01, 0x12, 0x00, 0x00, 0x12])
    (hevent : result' = result ∨ result' = .data) :
    Served c result (op :: rest) (c'.queueAtt rsp) result'
  | replied {op : UInt8} {rest rsp : List UInt8} (hans : c.answersAtt op)
    (hrsp : c.attReply op (op :: rest) = .ok rsp) :
    Served c result (op :: rest) (c.queueAtt rsp) result

theorem handleAtt_cases {c c' : Conn} {att : List UInt8} {result result' : ConnEvent}
    (h : c.handleAtt att result = .ok (c', result')) : Served c result att c' result' := by
  unfold handleAtt at h
  split at h
  · cases h
    exact .empty
  · split at h
    · rename_i hresp
      obtain ⟨c₁, h₁, h⟩ := bind_eq_ok.mp h
      cases h
      exact .response hresp h₁
    · rename_i hresp
      split at h
      · rename_i h1B
        obtain ⟨c₁, h₁, h⟩ := bind_eq_ok.mp h
        cases h
        exact .received hresp (.inl h1B) (takeNotification_frame h₁) (.inr rfl)
      · rename_i h1B
        split at h
        · rename_i h12
          have hans : c.answersAtt _ := ⟨hresp, h1B, by rw [h12]; decide⟩
          obtain ⟨⟨answer, c₁, r₁⟩, h₁, h⟩ := bind_eq_ok.mp h
          obtain ⟨hframe, hevent⟩ := attWrite_spec h₁
          cases answer with
          | ok =>
            cases h
            exact .written hans h12 hframe (.inl rfl) hevent
          | error =>
            cases h
            exact .written hans h12 hframe (.inr rfl) hevent
        · split at h
          · rename_i h52
            obtain ⟨⟨answer, c₁, r₁⟩, h₁, h⟩ := bind_eq_ok.mp h
            obtain ⟨hframe, hevent⟩ := attWrite_spec h₁
            cases h
            exact .received hresp (.inr h52) hframe hevent
          · rename_i h52
            obtain ⟨rsp, hrsp, h⟩ := bind_eq_ok.mp h
            cases h
            exact .replied ⟨hresp, h1B, h52⟩ hrsp

/-- Serving ATT changes only the server's and client's data and the transmit slot. -/
theorem handleAtt_frame {c c' : Conn} {att : List UInt8} {result result' : ConnEvent}
    (h : c.handleAtt att result = .ok (c', result')) : AttFrame c c' := by
  cases handleAtt_cases h with
  | empty | replied => rfl
  | response _ hrun => exact takeResponse_frame hrun
  | received _ _ hframe => exact hframe.attFrame
  | written _ _ hframe => exact hframe.attFrame.queueAtt _

/-! ## When the handler returns -/

/-- A written entry fits: the guard leaves room for handle and value. -/
theorem putEntry_ok {n : Nat} (rsp : Buf n) {pos width : Nat} (handle : UInt16)
    {value : List UInt8} (hw : 2 + value.length ≤ width) (hp : pos ≤ n) :
    ∃ rsp' pos', putEntry rsp pos width handle value = .ok (rsp', pos') ∧ pos' ≤ n := by
  unfold putEntry
  by_cases h : pos + width ≤ n
  · rw [if_pos h]
    have hfit : pos + (le16 handle).length ≤ n := by rw [le16_length]; omega
    have hfit' : pos + 2 + value.length ≤ n := by omega
    obtain ⟨b₁, h₁, _⟩ := rsp.write_of_le hfit
    obtain ⟨b₂, h₂, _⟩ := b₁.write_of_le hfit'
    rw [h₁, ok_bind, h₂]
    exact ⟨b₂, pos + width, rfl, h⟩
  · rw [if_neg h]
    exact ⟨rsp, pos, rfl, hp⟩

theorem putUuid_ok (uuid16 : Bool) (rsp : Buf 64) {pos : Nat} (handle : UInt16) (uuid : GattUuid)
    (hp : pos ≤ 64) : ∃ rsp' pos', putUuid uuid16 rsp pos handle uuid = .ok (rsp', pos') ∧
      pos' ≤ 64 := by
  unfold putUuid
  split
  · split
    · exact putEntry_ok rsp handle (by simp) hp
    · exact putEntry_ok rsp handle (by simp) hp
  · exact putEntry_ok rsp handle (by simp [Buf.size]) hp

/-- The Find Information loop returns a position inside the buffer. -/
theorem putUuids_ok (uuid16 : Bool) (es : List (UInt16 × GattUuid)) (rsp : Buf 64) (pos : Nat)
    (hp : pos ≤ 64) : ∃ rsp' pos', putUuids uuid16 es rsp pos = .ok (rsp', pos') ∧ pos' ≤ 64 := by
  induction es generalizing rsp pos with
  | nil => exact ⟨rsp, pos, rfl, hp⟩
  | cons e es ih =>
    obtain ⟨rsp₁, pos₁, h₁, hp₁⟩ := putUuid_ok uuid16 rsp e.1 e.2 hp
    obtain ⟨rsp₂, pos₂, h₂, hp₂⟩ := ih rsp₁ pos₁ hp₁
    refine ⟨rsp₂, pos₂, ?_, hp₂⟩
    rw [putUuids, h₁, ok_bind]
    exact h₂

/-- The value loop returns when all values have one length, the one the width stands for. -/
theorem putValues_ok {n L : Nat} (hL : L ≤ 19) (es : List (UInt16 × List UInt8))
    (he : ∀ e ∈ es, e.2.length = L) (rsp : Buf n) (pos : Nat) (width : UInt8)
    (hw : width = 0 ∨ width.toNat = 2 + L) (hp : pos ≤ n) :
    ∃ rsp' pos', putValues es rsp pos width = .ok (rsp', pos') ∧ pos' ≤ n := by
  induction es generalizing rsp pos width with
  | nil => exact ⟨rsp, pos, rfl, hp⟩
  | cons e es ih =>
    have hlen : e.2.length = L := he e (by simp)
    have hw' : (if width = 0 then 2 + UInt8.ofNat e.2.length else width).toNat = 2 + L := by
      rcases hw with rfl | hw
      · rw [if_pos rfl, hlen, UInt8.toNat_add, UInt8.toNat_ofNat']
        simp only [UInt8.reduceToNat]
        omega
      · rw [if_neg (by rintro rfl; simp only [UInt8.toNat_zero] at hw; omega), hw]
    have hfit : 2 + e.2.length ≤
        (if width = 0 then 2 + UInt8.ofNat e.2.length else width).toNat := by rw [hw', hlen]
    obtain ⟨rsp₁, pos₁, h₁, hp₁⟩ := putEntry_ok
      (if width = 0 then rsp.set 1 (if width = 0 then 2 + UInt8.ofNat e.2.length else width)
        else rsp) e.1 hfit hp
    obtain ⟨rsp₂, pos₂, h₂, hp₂⟩ := ih (fun e' h' => he e' (by simp [h'])) rsp₁ pos₁ _ (.inr hw') hp₁
    refine ⟨rsp₂, pos₂, ?_, hp₂⟩
    rw [putValues]
    dsimp only
    rw [h₁, ok_bind]
    exact h₂

theorem valuesReply_returns {n L : Nat} (hn : 2 ≤ n) (hL : L ≤ 19) (code : UInt8)
    (es : List (UInt16 × List UInt8)) (err : List UInt8) (he : ∀ e ∈ es, e.2.length = L) :
    Returns (valuesReply n code es err) := by
  obtain ⟨rsp, pos, h, hp⟩ := putValues_ok hL es he ((Buf.zero n).set 0 code) 2 0 (.inl rfl) hn
  unfold valuesReply
  rw [h, ok_bind]
  dsimp only
  split
  · exact returns_pure _
  · exact (rsp.returns_upto).mpr hp

theorem inRange_length {start stop h : UInt16} {value : List UInt8} {e : UInt16 × List UInt8}
    (he : e ∈ inRange start stop h value) : e.2.length = value.length := by
  unfold inRange at he
  split at he
  · rw [List.mem_singleton.mp he]
  · cases he

/-- The values of one type have one length. -/
theorem byType_length (start stop uuid : UInt16) :
    ∃ L ≤ 19, ∀ e ∈ byType start stop uuid, e.2.length = L := by
  by_cases h1 : uuid = gattUuidPrimaryService
  · refine ⟨16, by omega, ?_⟩
    intro e he
    rw [byType, if_pos h1, h1, if_neg (by decide), if_neg (by decide), List.append_nil,
      List.append_nil] at he
    exact inRange_length he
  · by_cases h2 : uuid = gattUuidCharacteristic
    · refine ⟨19, by omega, ?_⟩
      intro e he
      rw [byType, if_neg h1, if_pos h2, h2, if_neg (by decide), List.append_nil,
        List.nil_append] at he
      rcases List.mem_append.mp he with he | he <;> exact inRange_length he
    · refine ⟨2, by omega, ?_⟩
      intro e he
      rw [byType, if_neg h1, if_neg h2, List.nil_append, List.nil_append] at he
      split at he
      · exact inRange_length he
      · cases he

/-- The least length of a request, by opcode. -/
def attNeed (op : UInt8) : Nat :=
  match op with
  | 0x0A | 0x12 | 0x1B | 0x52 => 3
  | 0x04 | 0x0C => 5
  | 0x08 | 0x10 => 7
  | _ => 0

theorem returns_findInformation (att : List UInt8) :
    Returns (findInformation att) ↔ 5 ≤ att.length := by
  unfold findInformation
  rw [returns_rd16_bind fun start => returns_rd16_bind fun stop => iff_true_intro ?_]
  · simp only [and_true]; omega
  · obtain ⟨rsp, pos, h, hp⟩ := putUuids_ok ((entries start stop).all fun e => e.2.asU16.isSome)
      (entries start stop) (((Buf.zero 64).set 0 0x05).set 1
        (if (entries start stop).all fun e => e.2.asU16.isSome then 0x01 else 0x02)) 2 (by omega)
    exact returns_bind.mpr ⟨_, h, (rsp.returns_upto).mpr hp⟩

theorem returns_readByType (att : List UInt8) : Returns (readByType att) ↔ 7 ≤ att.length := by
  unfold readByType
  rw [returns_rd16_bind fun uuid => returns_rd16_bind fun start => returns_rd16_bind fun stop =>
    iff_true_intro ?_]
  · simp only [and_true]; omega
  · obtain ⟨L, hL, he⟩ := byType_length start stop uuid
    exact valuesReply_returns (by omega) hL 0x09 _ _ he

theorem returns_readRequest (c : Conn) (att : List UInt8) :
    Returns (c.readRequest att) ↔ 3 ≤ att.length := by
  unfold readRequest
  rw [returns_rd16_bind fun handle => iff_true_intro ?_]
  · simp only [and_true]; omega
  · split <;> exact returns_pure _

theorem returns_readBlob (c : Conn) (att : List UInt8) :
    Returns (c.readBlob att) ↔ 5 ≤ att.length := by
  unfold readBlob
  rw [returns_rd16_bind fun handle => returns_rd16_bind fun offset => iff_true_intro ?_]
  · simp only [and_true]; omega
  · split
    · split <;> exact returns_pure _
    · exact returns_pure _

theorem returns_readByGroupType (att : List UInt8) :
    Returns (readByGroupType att) ↔ 7 ≤ att.length := by
  unfold readByGroupType
  rw [returns_rd16_bind fun uuid => returns_rd16_bind fun start => returns_rd16_bind fun stop =>
    iff_true_intro ?_]
  · simp only [and_true]; omega
  · split
    · exact valuesReply_returns (by omega) (by omega : 16 ≤ 19) 0x11 _ _
        (fun e he => inRange_length he)
    · exact returns_pure _

/-- When a request without side effect is answered. -/
theorem returns_attReply (c : Conn) (op : UInt8) (att : List UInt8) (h₁ : op ≠ 0x12)
    (h₂ : op ≠ 0x1B) (h₃ : op ≠ 0x52) :
    Returns (c.attReply op att) ↔ attNeed op ≤ att.length := by
  unfold attReply
  split
  · exact iff_of_true (returns_pure _) (Nat.zero_le _)
  · exact returns_findInformation att
  · exact returns_readByType att
  · exact returns_readRequest c att
  · exact returns_readBlob c att
  · exact returns_readByGroupType att
  · rename_i h02 h04 h08 h0A h0C h10
    have hneed : attNeed op = 0 := by
      unfold attNeed
      split <;> simp_all
    rw [hneed]
    exact iff_of_true (returns_pure _) (Nat.zero_le _)

theorem returns_takeResponse (c : Conn) (op : UInt8) (att : List UInt8) :
    Returns (c.takeResponse op att) := by
  have hmtu : Returns (c.mtuAfter op att) := by
    unfold mtuAfter
    split
    · rename_i h
      exact (returns_rd16_bind fun peer => iff_true_intro (returns_pure _)).mpr ⟨by omega, trivial⟩
    · exact returns_pure _
  obtain ⟨mtu, hm⟩ := hmtu
  exact returns_bind.mpr ⟨mtu, hm, returns_pure _⟩

theorem returns_takeNotification (c : Conn) (att : List UInt8) :
    Returns (c.takeNotification att) ↔ 3 ≤ att.length := by
  constructor
  · intro h
    obtain ⟨_, h1, _⟩ := returns_bind.mp h
    have := returns_rd16.mp ⟨_, h1⟩
    omega
  · intro h
    refine returns_bind.mpr ⟨_, rd16_of_lt (by omega), ?_⟩
    refine returns_bind.mpr ⟨_, sub_of_le h, ?_⟩
    exact returns_bind.mpr ⟨_, slice_of_le (by omega) (by omega), returns_pure _⟩

theorem returns_attWrite (c : Conn) (att : List UInt8) (result : ConnEvent) :
    Returns (c.attWrite att result) ↔ 3 ≤ att.length := by
  constructor
  · intro h
    obtain ⟨_, h1, _⟩ := returns_bind.mp h
    have := returns_rd16.mp ⟨_, h1⟩
    omega
  · intro h
    refine returns_bind.mpr ⟨_, rd16_of_lt (by omega), ?_⟩
    exact returns_bind.mpr ⟨_, slice_of_le (by omega) (Nat.le_refl _), returns_pure _⟩

/-- The message is safe to hand to `handleAtt`: it is long enough for its opcode, or it is taken
    as the response to a pending request. -/
def AttSafe (c : Conn) (op : UInt8) (len : Nat) : Prop :=
  (c.pendingRequest = true ∧ isAttResponse op = true) ∨ attNeed op ≤ len

/-- **When `handle_att` returns.**  A non-empty message is served iff it is long enough for its
    opcode or taken as a response. -/
theorem returns_handleAtt (c : Conn) (op : UInt8) (rest : List UInt8) (result : ConnEvent) :
    Returns (c.handleAtt (op :: rest) result) ↔ c.AttSafe op (op :: rest).length := by
  unfold handleAtt
  dsimp only
  split
  · rename_i h
    exact iff_of_true ((returns_bind_left (fun _ => returns_pure _)).mpr
      (returns_takeResponse c op (op :: rest))) (.inl h)
  · rename_i hresp
    have hsafe : c.AttSafe op (op :: rest).length ↔ attNeed op ≤ (op :: rest).length :=
      ⟨fun h => h.resolve_left hresp, .inr⟩
    rw [hsafe]
    split
    · rename_i h1B
      subst h1B
      rw [show attNeed 0x1B = 3 from rfl, ← returns_takeNotification c]
      exact returns_bind_left (fun _ => returns_pure _)
    · rename_i h1B
      split
      · rename_i h12
        subst h12
        rw [show attNeed 0x12 = 3 from rfl, ← returns_attWrite c _ result]
        refine returns_bind_left ?_
        rintro ⟨answer, c', result'⟩
        cases answer <;> exact returns_pure _
      · rename_i h12
        split
        · rename_i h52
          subst h52
          rw [show attNeed 0x52 = 3 from rfl, ← returns_attWrite c _ result]
          exact returns_bind_left (fun _ => returns_pure _)
        · rename_i h52
          rw [← returns_attReply c op _ h12 h1B h52]
          exact returns_bind_left (fun _ => returns_pure _)

/-! ## The client's side -/

/-- `Conn::gatt_take_result`. -/
def gattTakeResult (c : Conn) : (UInt8 × Buf 64 × Nat) × Conn :=
  let op := c.gattResult.bytes.getD 0 0
  ((op, c.gattResult.set 0 op, c.gattResultLen),
    { c with gattResultLen := 0, gattResult := c.gattResult.set 0 0 })

end Conn

end NrfBle
