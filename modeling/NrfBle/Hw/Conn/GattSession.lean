/-
  The GATT client and the NUS server at the two ends of a link: a remote call is a call.

  `NusService` is the service as its client is meant to see it: a switch for notifications and the value
  that was last written.  `NusService.serve` answers a call.  The client's connection sends the request,
  the pair goes through its connection events, and the client polls; whatever the roles, the data length
  and the calls before, the poll gives the answer of the service, and the server's connection is the
  service after the call (`gatt_session`).  All of this is said of a radio that reports the length of a
  data PDU, as `receive_poll` claims to (`LengthRule.Exact`); what is left of it under the rule
  `receive_poll` really has is in `Unheard`.

  1. The server's `handle_att` is `serve` (`reacts_serve`), and the client's keeps the answer
     (`reacts_answer`): both are reactions of a `Conversation`.
  2. Two reactions make a conversation, request and answer, that comes to rest (`settles_call`); a
     notification is a conversation of one message (`settles_notify`).
  3. A session is one call or notification after the other: induction on the session.

  Two ends that both answer what they do not expect are a conversation too, one that never comes to rest
  (`stray_never_rests`).
-/
import Mathlib.Tactic
import NrfBle.Hw.Conn.Conversation
import NrfBle.Hw.Conn.Discovery
import NrfBle.Hw.Conn.Answering
import NrfBle.Hw.Conn.Unsolicited
import NrfBle.Hw.Ble.Link

namespace NrfBle

open Checked

variable {hw : Hw} {rule : LengthRule}

/-! ## The service -/

/-- The calls of the GATT client. -/
inductive GattCall
  | discoverPrimaryServices
  | discoverCharacteristics (start stop : UInt16)
  | read (handle : UInt16)
  | write (handle : UInt16) (data : List UInt8)
  | subscribe (cccdHandle : UInt16)

/-- The request of a call. -/
def GattCall.request : GattCall → List UInt8
  | .discoverPrimaryServices => 0x10 :: le16 0x2800 ++ le16 0x0001 ++ le16 0xFFFF
  | .discoverCharacteristics start stop => 0x08 :: le16 0x2803 ++ le16 start ++ le16 stop
  | .read handle => 0x0A :: le16 handle
  | .write handle data => 0x12 :: le16 handle ++ data.take 20
  | .subscribe cccdHandle => 0x12 :: le16 cccdHandle ++ le16 0x0001

/-- The application's call. -/
def GattCall.run : GattCall → Ble → Logged BleAct (Except Error Unit × Ble)
  | .discoverPrimaryServices, b => b.gattDiscoverPrimaryServices
  | .discoverCharacteristics start stop, b => b.gattDiscoverCharacteristics start stop
  | .read handle, b => b.gattRead handle
  | .write handle data, b => b.gattWrite handle data
  | .subscribe cccdHandle, b => b.gattSubscribe cccdHandle

theorem GattCall.run_eq (call : GattCall) (b : Ble) : call.run b = b.gattRequest call.request := by
  cases call <;> rfl

/-- The connection of a stack behind a call of its application. -/
def GattCall.queue (call : GattCall) (c : Conn) : Conn :=
  match (call.run { Ble.new with conn := some c }).res with
  | .ok (_, b) => b.conn.getD c
  | .error _ => c

theorem GattCall.queue_eq (call : GattCall) (c : Conn) : call.queue c = c.gattSendRequest call.request := by
  unfold queue
  rw [call.run_eq]
  rfl

/-- The service: are notifications on, and what was written last. -/
structure NusService where
  subscribed : Bool
  received : List UInt8

namespace NusService

/-- The declarations of the two characteristics. -/
def characteristics : List (UInt16 × List UInt8) :=
  [(handleRxCharDecl, 0x08 :: le16 handleRxValue ++ nusRxCharUuid.bytes),
    (handleTxCharDecl, 0x20 :: le16 handleTxValue ++ nusTxCharUuid.bytes)]

/-- A response that lists attributes of one size, or nothing. -/
def listing (code : UInt8) : List (UInt16 × List UInt8) → List UInt8
  | [] => [code, 0]
  | e :: es => code :: (2 + UInt8.ofNat e.2.length) :: (e :: es).flatMap Conn.attEntry

/-- A write: the value of the RX characteristic, or the switch. -/
def put (s : NusService) (handle : UInt16) (value : List UInt8) : List UInt8 × NusService :=
  if handle = handleRxValue then ([0x13], { s with received := value })
  else if handle = handleTxCccd then
    ([0x13], { s with subscribed := decide (2 ≤ value.length) && value.getD 0 0 &&& 1 ≠ 0 })
  else ([0x01, 0x12, 0, 0, 0x12], s)

/-- The answer to a call, and the service after it. -/
def serve (s : NusService) : GattCall → List UInt8 × NusService
  | .discoverPrimaryServices => (listing 0x11 [(handlePrimaryService, nusServiceUuid.bytes)], s)
  | .discoverCharacteristics start stop =>
    (listing 0x09 (characteristics.filter (fun e => e.1 ≥ start ∧ e.1 ≤ stop)), s)
  | .read handle =>
    (if handle = handleTxValue then [0x0B]
      else if handle = handleTxCccd then [0x0B, s.subscribed.toUInt8, 0]
      else [0x01, 0x0A, 0, 0, 0x0A], s)
  | .write handle data => s.put handle (data.take 20)
  | .subscribe cccdHandle => s.put cccdHandle [1, 0]

end NusService

/-- The view is that of a server of the service. -/
structure GattView.Serves (v : GattView) (s : NusService) : Prop where
  cccd : v.nusCccd = s.subscribed.toUInt8
  received : v.rxData.bytes.take v.rxDataLen = s.received

/-! ## Reactions -/

theorem Holds.gattSendRequest {c : Conn} {m : List UInt8} (hm : m.length ≤ 251)
    (hoff : c.txFragOffset = 0) (hcid : c.txCid = l2capAttCid) (hlo : 5 ≤ c.txPduMax)
    (hhi : c.txPduMax ≤ 62) : Holds (c.gattSendRequest m) m 0 := by
  have hq := Holds.queueAtt hm hoff hcid hlo hhi
  exact ⟨hq.length, hq.bytes, hq.offset, hq.pending, hq.cid, hq.short, hq.inside, hq.pduMin, hq.pduMax⟩

/-- At most 244 bytes of a notification are sent. -/
theorem Holds.queueNotify {c : Conn} (data : List UInt8) (hoff : c.txFragOffset = 0)
    (hcid : c.txCid = l2capAttCid) (hlo : 5 ≤ c.txPduMax) (hhi : c.txPduMax ≤ 62) :
    Holds (c.queueNotify data)
      (0x1B :: le16 handleTxValue ++ data.take (min data.length attPayloadMax)) 0 := by
  have hlen : (0x1B :: le16 handleTxValue ++ data.take (min data.length attPayloadMax)).length =
      3 + min data.length attPayloadMax := by
    rw [List.cons_append, List.length_cons, List.length_append, le16_length, List.length_take]
    omega
  refine ⟨hlen.symm, ?_, hoff, rfl, hcid, ?_, .inl rfl, hlo, hhi⟩
  · show (c.txAtt.bytes.take 0 ++ _ ++ _).take _ = _
    rw [List.take_zero, List.nil_append, List.take_left]
  · rw [hlen]
    have := Nat.min_le_right data.length attPayloadMax
    simp only [attPayloadMax] at this ⊢
    omega

/-- A message that is answered. -/
theorem Reacts.of_answer {v v' : GattView} {m rsp : List UInt8} (hlen : rsp.length ≤ 251)
    (h : ∀ d : Conn, d.gatt = v → ∃ d₁ r, d.handleAtt m .idle = .ok (d₁.queueAtt rsp, r) ∧
      d₁.gatt = v' ∧ Conn.WriteFrame d d₁) : Reacts v m v' (some rsp) := by
  intro d hd hcalm hfree
  obtain ⟨d₁, r, hrun, hview, hframe⟩ := h d hd
  have hcalm₁ : d₁.Calm := by
    rw [hframe]
    exact hcalm.of_link rfl rfl rfl
  have hoff : d₁.txFragOffset = 0 := by rw [hframe]; exact hfree.offset
  exact ⟨_, r, hrun, hview, hcalm₁.of_link rfl rfl rfl,
    Holds.queueAtt hlen hoff hcalm₁.cid hcalm₁.pduMin hcalm₁.pduMax⟩

/-- A message that is only taken note of. -/
theorem Reacts.of_silent {v v' : GattView} {m : List UInt8}
    (h : ∀ d : Conn, d.gatt = v → ∃ d₁ r, d.handleAtt m .idle = .ok (d₁, r) ∧ d₁.gatt = v' ∧
      Conn.AttFrame d d₁ ∧ d₁.txPending = d.txPending) : Reacts v m v' none := by
  intro d hd hcalm hfree
  obtain ⟨d₁, r, hrun, hview, hframe, hpending⟩ := h d hd
  refine ⟨d₁, r, hrun, hview, ?_, hpending.trans hfree.pending, ?_⟩
  · exact hcalm.of_link hframe.link (congrArg Keys.pendingControl hframe.keys) (by rw [hframe])
  · rw [hframe]; exact hfree.offset

/-! ## The server -/

/-- A Write Request, taken apart. -/
theorem Conn.handleAtt_writeRequest (c : Conn) (handle : UInt16) (value : List UInt8) :
    c.handleAtt (0x12 :: le16 handle ++ value) .idle =
      .ok ((c.write handle value .idle).2.1.queueAtt (writeResponse (c.write handle value .idle).1),
        (c.write handle value .idle).2.2) := by
  have hvalue : slice (0x12 :: le16 handle ++ value) 3 (0x12 :: le16 handle ++ value).length =
      .ok value := by
    rw [slice_of_le (by rw [List.cons_append, List.length_cons, List.length_append, le16_length]; omega)
      (Nat.le_refl _), List.take_length, le16_eq]
    rfl
  have hhandle : rd16 (0x12 :: le16 handle ++ value) 1 = .ok handle := by
    rw [le16_eq]
    exact congrArg Except.ok (ofLe16_le16 handle)
  have hwrite : c.attWrite (0x12 :: le16 handle ++ value) .idle = .ok (c.write handle value .idle) := by
    unfold attWrite
    rw [hhandle, ok_bind, hvalue]
    rfl
  unfold handleAtt
  show (if c.pendingRequest = true ∧ isAttResponse 0x12 = true then _ else
    (c.attWrite (0x12 :: le16 handle ++ value) .idle >>= _)) = _
  rw [if_neg (by rintro ⟨_, h⟩; exact absurd h (by decide)), hwrite, ok_bind]
  rcases c.write handle value .idle with ⟨answer, c', r⟩
  cases answer <;> rfl

theorem Conn.writeResponse_length (answer : Except Error Unit) :
    (writeResponse answer).length ≤ 251 := by
  cases answer
  · exact show 5 ≤ 251 by decide
  · exact show 1 ≤ 251 by decide

/-- What a write does to the attributes it does to every server. -/
theorem Reacts.of_write {v v' : GattView} {handle : UInt16} {value : List UInt8}
    (answer : Except Error Unit)
    (h : ∀ d : Conn, d.gatt = v → ∃ d₁ r, d.write handle value .idle = (answer, d₁, r) ∧ d₁.gatt = v') :
    Reacts v (0x12 :: le16 handle ++ value) v' (some (Conn.writeResponse answer)) := by
  refine .of_answer (Conn.writeResponse_length answer) ?_
  intro d hd
  obtain ⟨d₁, r, hrun, hview⟩ := h d hd
  have hframe := d.write_frame handle value .idle
  have hatt := d.handleAtt_writeRequest handle value
  rw [hrun] at hframe hatt
  exact ⟨d₁, r, hatt, hview, hframe⟩

/-- **A write at the server.** -/
theorem reacts_put {v : GattView} {s : NusService} (h : v.Serves s) (handle : UInt16)
    {value : List UInt8} (hlen : value.length ≤ 244) :
    ∃ v', Reacts v (0x12 :: le16 handle ++ value) v' (some (s.put handle value).1) ∧
      v'.Serves (s.put handle value).2 := by
  have hmin : min value.length attPayloadMax = value.length := Nat.min_eq_left hlen
  unfold NusService.put
  by_cases hrx : handle = handleRxValue
  · rw [if_pos hrx]
    have hfit : 0 + (value.take (min value.length attPayloadMax)).length ≤ 244 := by
      rw [hmin, List.take_length]; omega
    refine ⟨{ v with
      rxData := v.rxData.splice 0 (value.take (min value.length attPayloadMax)) hfit
      rxDataLen := min value.length attPayloadMax }, .of_write (.ok ()) ?_, h.cccd, ?_⟩
    · rintro d rfl
      exact ⟨_, _, if_pos hrx, rfl⟩
    · show (v.rxData.bytes.take 0 ++ value.take (min value.length attPayloadMax) ++
        v.rxData.bytes.drop _).take (min value.length attPayloadMax) = value
      rw [hmin, List.take_length, List.take_zero, List.nil_append, List.take_left]
  · rw [if_neg hrx]
    by_cases hcccd : handle = handleTxCccd
    · rw [if_pos hcccd]
      refine ⟨{ v with
        nusCccd := if value.length ≥ 2 ∧ value.getD 0 0 &&& 0x01 ≠ 0 then 0x01 else 0 },
        .of_write (.ok ()) ?_, ?_, h.received⟩
      · rintro d rfl
        exact ⟨_, _, (if_neg hrx).trans (if_pos hcccd), rfl⟩
      · by_cases hon : value.length ≥ 2 ∧ value.getD 0 0 &&& 0x01 ≠ 0
        · dsimp only
          rw [if_pos hon, decide_eq_true hon.1, decide_eq_true hon.2]
          rfl
        · have hoff : (decide (2 ≤ value.length) && decide (value.getD 0 0 &&& 1 ≠ 0)) = false := by
            rw [← Bool.decide_and]
            exact decide_eq_false hon
          dsimp only
          rw [if_neg hon, hoff]
          rfl
    · rw [if_neg hcccd]
      refine ⟨v, .of_write (.error .invalidPdu) ?_, h⟩
      rintro d rfl
      exact ⟨d, .idle, (if_neg hrx).trans (if_neg hcccd), rfl⟩

/-- A request that only reads. -/
theorem Reacts.of_read {v : GattView} {op : UInt8} {rest rsp : List UInt8}
    (hop : Conn.isAttResponse op = false) (h1B : op ≠ 0x1B) (h12 : op ≠ 0x12) (h52 : op ≠ 0x52)
    (hlen : rsp.length ≤ 251) (h : ∀ d : Conn, d.gatt = v → d.attReply op (op :: rest) = .ok rsp) :
    Reacts v (op :: rest) v (some rsp) := by
  refine .of_answer hlen ?_
  rintro d rfl
  refine ⟨d, .idle, Conn.handleAtt_reply op ?_ h1B h12 h52 (h d rfl) .idle, rfl, rfl⟩
  rintro ⟨_, hresp⟩
  rw [hop] at hresp
  cases hresp

/-- The characteristics in a range, as the response lists them. -/
theorem valuesAnswer_characteristics (start stop : UInt16) :
    Conn.valuesAnswer 64 0x09 (Conn.byType start stop gattUuidCharacteristic) =
      NusService.listing 0x09
        (NusService.characteristics.filter (fun e => e.1 ≥ start ∧ e.1 ≤ stop)) := by
  have hfound : Conn.byType start stop gattUuidCharacteristic =
      NusService.characteristics.filter (fun e => e.1 ≥ start ∧ e.1 ≤ stop) := by
    unfold Conn.byType
    rw [if_neg (by decide), if_pos rfl, if_neg (by decide), List.nil_append, List.append_nil]
    unfold Conn.inRange NusService.characteristics
    rw [List.filter_cons, List.filter_cons, List.filter_nil]
    by_cases h2 : handleRxCharDecl ≥ start ∧ handleRxCharDecl ≤ stop
    all_goals
      by_cases h4 : handleTxCharDecl ≥ start ∧ handleTxCharDecl ≤ stop
      all_goals simp only [h2, h4, if_true, if_false, decide_true, decide_false, List.nil_append,
        List.append_nil, List.singleton_append, Bool.false_eq_true, and_self]
  have hlen : (NusService.characteristics.filter
      (fun e => e.1 ≥ start ∧ e.1 ≤ stop)).length ≤ 2 := List.length_filter_le _ _
  have hwidth : ∀ e ∈ NusService.characteristics.filter (fun e => e.1 ≥ start ∧ e.1 ≤ stop),
      e.2.length = 19 := by
    intro e he
    have hall : ∀ e ∈ NusService.characteristics, e.2.length = 19 := by decide
    exact hall e (List.mem_of_mem_filter he)
  rw [hfound]
  generalize NusService.characteristics.filter (fun e => e.1 ≥ start ∧ e.1 ≤ stop) = es at *
  match es with
  | [] => rfl
  | e :: es =>
    unfold Conn.valuesAnswer Conn.listReply NusService.listing
    dsimp only
    rw [hwidth e List.mem_cons_self, List.take_of_length_le (by omega)]

theorem NusService.serve_characteristics (s : NusService) (start stop : UInt16) :
    (s.serve (.discoverCharacteristics start stop)).1 =
      Conn.valuesAnswer 64 0x09 (Conn.byType start stop gattUuidCharacteristic) :=
  (valuesAnswer_characteristics start stop).symm

/-- **The server's `handle_att` is the service.** -/
theorem reacts_serve {v : GattView} {s : NusService} (h : v.Serves s) (call : GattCall) :
    ∃ v', Reacts v call.request v' (some (s.serve call).1) ∧ v'.Serves (s.serve call).2 := by
  cases call with
  | discoverPrimaryServices =>
    refine ⟨v, .of_answer (show (NusService.listing 0x11
      [(handlePrimaryService, nusServiceUuid.bytes)]).length ≤ 251 by decide) ?_, h⟩
    rintro d rfl
    have hatt := (Discovery.primaryServices 0x0001 0xFFFF).handleAtt_encode d [] .idle
    rw [List.append_nil] at hatt
    exact ⟨d, .idle, hatt, rfl, rfl⟩
  | discoverCharacteristics start stop =>
    have hlen : (NusService.serve s (.discoverCharacteristics start stop)).1.length ≤ 251 := by
      rw [s.serve_characteristics]
      exact (Conn.valuesAnswer_length (by omega) 0x09 start stop _).trans (by decide)
    refine ⟨v, .of_answer hlen ?_, h⟩
    rintro d rfl
    have hatt := (Discovery.byType gattUuidCharacteristic start stop).handleAtt_encode d [] .idle
    rw [List.append_nil] at hatt
    refine ⟨d, .idle, ?_, rfl, rfl⟩
    rw [s.serve_characteristics]
    exact hatt
  | read handle =>
    have hrd : ∀ d : Conn, d.gatt = v → d.attReply 0x0A (0x0A :: le16 handle) =
        .ok (s.serve (.read handle)).1 := by
      rintro d rfl
      have hhandle : rd16 (0x0A :: le16 handle) 1 = .ok handle := by
        rw [le16_eq]
        exact congrArg Except.ok (ofLe16_le16 handle)
      have hcccd : d.nusCccd = s.subscribed.toUInt8 := h.cccd
      show d.readRequest (0x0A :: le16 handle) = _
      unfold Conn.readRequest Conn.read NusService.serve
      rw [hhandle, ok_bind, hcccd]
      dsimp only
      split_ifs <;> rfl
    refine ⟨v, .of_read (by decide) (by decide) (by decide) (by decide) ?_ hrd, h⟩
    unfold NusService.serve
    dsimp only
    split_ifs
    · exact show 1 ≤ 251 by decide
    · exact show 3 ≤ 251 by decide
    · exact show 5 ≤ 251 by decide
  | write handle data =>
    exact reacts_put h handle ((List.length_take_le 20 data).trans (by decide))
  | subscribe cccdHandle =>
    exact reacts_put h cccdHandle (show 2 ≤ 244 by decide)

/-! ## The client -/

/-- Every answer of the service begins with an opcode that ends a request, and is no Exchange MTU
    response. -/
theorem NusService.serve_head (s : NusService) (call : GattCall) :
    ∃ op rest, (s.serve call).1 = op :: rest ∧ Conn.isAttResponse op = true ∧ op ≠ 0x03 ∧
      (op :: rest).length ≤ 64 := by
  have hput : ∀ handle value, ∃ op rest, (s.put handle value).1 = op :: rest ∧
      Conn.isAttResponse op = true ∧ op ≠ 0x03 ∧ (op :: rest).length ≤ 64 := by
    intro handle value
    unfold NusService.put
    split_ifs
    · exact ⟨_, _, rfl, by decide, by decide, show 1 ≤ 64 by decide⟩
    · exact ⟨_, _, rfl, by decide, by decide, show 1 ≤ 64 by decide⟩
    · exact ⟨_, _, rfl, by decide, by decide, show 5 ≤ 64 by decide⟩
  cases call with
  | discoverPrimaryServices => exact ⟨0x11, _, rfl, by decide, by decide, by decide⟩
  | discoverCharacteristics start stop =>
    have hlen : (Conn.valuesAnswer 64 0x09 (Conn.byType start stop gattUuidCharacteristic)).length ≤
        64 := Conn.valuesAnswer_length (by omega) 0x09 start stop _
    rw [s.serve_characteristics]
    generalize Conn.byType start stop gattUuidCharacteristic = es at hlen ⊢
    cases es with
    | nil => exact ⟨0x09, _, rfl, by decide, by decide, hlen⟩
    | cons e es => exact ⟨0x09, _, rfl, by decide, by decide, hlen⟩
  | read handle =>
    unfold NusService.serve
    dsimp only
    split_ifs
    · exact ⟨_, _, rfl, by decide, by decide, show 1 ≤ 64 by decide⟩
    · exact ⟨_, _, rfl, by decide, by decide, show 3 ≤ 64 by decide⟩
    · exact ⟨_, _, rfl, by decide, by decide, show 5 ≤ 64 by decide⟩
  | write handle data => exact hput handle (data.take 20)
  | subscribe cccdHandle => exact hput cccdHandle [1, 0]

theorem answer_fits (answer : List UInt8) :
    0 + (answer.take (min answer.length 64)).length ≤ 64 := by
  rw [List.length_take]
  omega

/-- The client's view once it has an answer. -/
def GattView.answered (v : GattView) (answer : List UInt8) : GattView :=
  { v with
    pendingRequest := false
    gattResult := v.gattResult.splice 0 (answer.take (min answer.length 64)) (answer_fits answer)
    gattResultLen := min answer.length 64 }

/-- **The client keeps the answer.** -/
theorem reacts_answer {v : GattView} (hpending : v.pendingRequest = true) {op : UInt8}
    {rest : List UInt8} (hop : Conn.isAttResponse op = true) (hmtu : op ≠ 0x03) :
    Reacts v (op :: rest) (v.answered (op :: rest)) none := by
  refine .of_silent ?_
  rintro d rfl
  have htake : d.takeResponse op (op :: rest) = .ok { d with
      pendingRequest := false
      gattResult := d.gattResult.splice 0 ((op :: rest).take (min (op :: rest).length 64))
        (answer_fits (op :: rest))
      gattResultLen := min (op :: rest).length 64 } := by
    unfold Conn.takeResponse Conn.mtuAfter
    rw [if_neg (fun h => hmtu h.1)]
    rfl
  refine ⟨{ d with
    pendingRequest := false
    gattResult := d.gattResult.splice 0 ((op :: rest).take (min (op :: rest).length 64))
      (answer_fits (op :: rest))
    gattResultLen := min (op :: rest).length 64 }, .idle, ?_, rfl, rfl, rfl⟩
  unfold Conn.handleAtt
  dsimp only
  rw [if_pos ⟨hpending, hop⟩, htake]
  rfl

/-- **A notification**: at most 20 bytes of it are the client's received data. -/
theorem reacts_notification (v : GattView) (data : List UInt8) :
    ∃ v', Reacts v (0x1B :: le16 handleTxValue ++ data) v' none ∧
      v' = { v with rxData := v'.rxData, rxDataLen := v'.rxDataLen } ∧
      v'.rxData.bytes.take v'.rxDataLen = data.take 20 := by
  have hfit : 0 + ((data.take 20).take (min data.length 20)).length ≤ 244 := by
    rw [List.length_take, List.length_take]; omega
  have hall : (data.take 20).take (min data.length 20) = data.take 20 := by
    rw [List.take_of_length_le (by rw [List.length_take]; omega)]
  refine ⟨{ v with
    rxData := v.rxData.splice 0 ((data.take 20).take (min data.length 20)) hfit
    rxDataLen := min data.length 20 }, .of_silent ?_, rfl, ?_⟩
  · rintro d rfl
    have hlen : (0x1B :: le16 handleTxValue ++ data).length = 3 + data.length := by
      rw [List.cons_append, List.length_cons, List.length_append, le16_length]; omega
    have hvalue : slice (0x1B :: le16 handleTxValue ++ data) 3 (3 + min data.length 20) =
        .ok (data.take 20) := by
      rw [slice_of_le (by omega) (by rw [hlen]; omega), Nat.add_comm 3, le16_eq]
      show Except.ok (data.take (min data.length 20)) = _
      rw [Nat.min_comm, ← List.take_take, List.take_length]
    have htake : d.takeNotification (0x1B :: le16 handleTxValue ++ data) =
        .ok (d.storeRxData (data.take 20) (min data.length 20) (by omega)) := by
      unfold Conn.takeNotification
      rw [rd16_of_lt (by rw [hlen]; omega), ok_bind, hlen, sub_of_le (by omega), ok_bind,
        Nat.add_sub_cancel_left, hvalue]
      rfl
    refine ⟨d.storeRxData (data.take 20) (min data.length 20) (by omega), .data, ?_, rfl, rfl, rfl⟩
    unfold Conn.handleAtt
    show (if d.pendingRequest = true ∧ Conn.isAttResponse 0x1B = true then _ else
      (d.takeNotification (0x1B :: le16 handleTxValue ++ data) >>= _)) = _
    rw [if_neg (by rintro ⟨_, h⟩; exact absurd h (by decide)), htake]
    rfl
  · show (v.rxData.bytes.take 0 ++ (data.take 20).take (min data.length 20) ++
      v.rxData.bytes.drop _).take (min data.length 20) = data.take 20
    have hlen : (data.take 20).length = min data.length 20 := by rw [List.length_take]; omega
    rw [hall, List.take_zero, List.nil_append, ← hlen, List.take_left]

/-! ## Sessions -/

/-- An application calls its end of the link. -/
def LinkPair.onConn (r : ConnRole) (f : Conn → Conn) (p : LinkPair) : LinkPair :=
  match r with
  | .master => { p with master := f p.master }
  | .slave => { p with slave := f p.slave }

@[simp] theorem LinkPair.conn_onConn (p : LinkPair) (r : ConnRole) (f : Conn → Conn) :
    (p.onConn r f).conn r = f (p.conn r) := by cases r <;> rfl

@[simp] theorem LinkPair.conn_onConn_peer (p : LinkPair) (r : ConnRole) (f : Conn → Conn) :
    (p.onConn r f).conn r.peer = p.conn r.peer := by cases r <;> rfl

theorem LinkPair.inbox_onConn (p : LinkPair) (r : ConnRole) (f : Conn → Conn) :
    (p.onConn r f).inbox = p.inbox := by cases r <;> rfl

/-- What the applications do: the client's calls, the server's notifies. -/
inductive SessionOp
  | call (call : GattCall)
  | notify (data : List UInt8)

/-- What the client's application sees of it: what it polls, or the received data. -/
inductive Seen
  | polled (result : Option (UInt8 × List UInt8))
  | data (bytes : List UInt8)
  deriving DecidableEq

/-- One operation, and `n` connection events before the client looks. -/
def LinkPair.sessionOp (hw : Hw) (rule : LengthRule) (client : ConnRole) (n : Nat) (p : LinkPair) :
    SessionOp → Except Panic (Seen × LinkPair)
  | .call call => do
    let p ← (p.onConn client call.queue).events hw rule n
    let (op, bytes, len) := (p.conn client).gattTakeResult.1
    return (.polled (if len > 0 then some (op, bytes.bytes.take len) else none),
      p.onConn client (fun c => c.gattTakeResult.2))
  | .notify data => do
    let p ← (p.onConn client.peer (fun c => c.queueNotify data)).events hw rule n
    return (.data ((p.conn client).rxData.bytes.take (p.conn client).rxDataLen), p)

/-- A session: operations, each with the number of events until the client looks. -/
def LinkPair.session (hw : Hw) (rule : LengthRule) (client : ConnRole) :
    List (SessionOp × Nat) → LinkPair → Except Panic (List Seen × LinkPair)
  | [], p => return ([], p)
  | (op, n) :: ops, p => do
    let (seen, p) ← p.sessionOp hw rule client n op
    let (rest, p) ← session hw rule client ops p
    return (seen :: rest, p)

/-- What the service makes of an operation. -/
def NusService.sessionOp (s : NusService) : SessionOp → Seen × NusService
  | .call call => (.polled (some ((s.serve call).1.getD 0 0, (s.serve call).1)), (s.serve call).2)
  | .notify data => (.data (data.take 20), s)

/-- What it makes of a session. -/
def NusService.session : List SessionOp → NusService → List Seen × NusService
  | [], s => ([], s)
  | op :: ops, s => ((s.sessionOp op).1 :: (session ops (s.sessionOp op).2).1,
      (session ops (s.sessionOp op).2).2)

/-- Both ends calm and with nothing to send, no request open, and the server in a state of the
    service. -/
structure AtRest (p : LinkPair) (client : ConnRole) (s : NusService) : Prop where
  inbox : p.inbox = []
  calm : ∀ r, (p.conn r).Calm
  free : ∀ r, (p.conn r).Free
  idle : (p.conn client).pendingRequest = false
  serves : (p.conn client.peer).gatt.Serves s

/-- Two connections opened by one request are at rest. -/
theorem AtRest.opened {params : ConnectReqData} (hhop : params.hop.toNat ≤ 31) {first : UInt8}
    (hfirst : first.toNat ≤ 39) (now now' : UInt32) (client : ConnRole) :
    AtRest ⟨Conn.new params first now .master, Conn.new params first now' .slave, []⟩ client
      ⟨false, []⟩ := by
  have hcalm : ∀ now r, (Conn.new params first now r).Calm := fun now r =>
    ⟨hfirst, hhop, ⟨show 39 ≤ 39 by decide, show 2 < 32 by decide, show 0 < 32 by decide⟩, rfl, rfl,
      rfl, rfl, show 5 ≤ 27 by decide, show 27 ≤ 62 by decide⟩
  refine ⟨rfl, ?_, ?_, ?_, ?_⟩
  · exact forall_role (r := .master) (hcalm now .master) (hcalm now' .slave)
  · exact forall_role (r := .master) ⟨rfl, rfl⟩ ⟨rfl, rfl⟩
  · cases client <;> rfl
  · cases client <;> exact ⟨rfl, rfl⟩

/-- A message in the slot of an end at rest. -/
theorem AtRest.send {p : LinkPair} {client : ConnRole} {s : NusService} (h : AtRest p client s)
    {r : ConnRole} {f : Conn → Conn} {m : List UInt8} (hcalm : (f (p.conn r)).Calm)
    (hholds : Holds (f (p.conn r)) m 0) :
    Shows (p.onConn r f) ⟨fun r' => ((p.onConn r f).conn r').gatt, some (r, m)⟩ 0 where
  inbox := (p.inbox_onConn r f).trans h.inbox
  calm := forall_role (r := r) (by simpa using hcalm) (by simpa using h.calm r.peer)
  view _ := rfl
  slots := by simpa using ⟨hholds, h.free r.peer, .inl ⟨rfl, rfl⟩⟩

/-- Views that differ at one end. -/
theorem Turn.view_update (view : ConnRole → GattView) (r : ConnRole) (v : GattView) :
    Function.update view r v r = v ∧ Function.update view r v r.peer = view r.peer :=
  ⟨Function.update_self .., Function.update_of_ne r.peer_ne ..⟩

theorem GattCall.request_length (call : GattCall) : call.request.length ≤ 23 := by
  cases call with
  | write handle data =>
    show (0x12 :: le16 handle ++ data.take 20).length ≤ 23
    rw [List.cons_append, List.length_cons, List.length_append, le16_length, List.length_take]
    omega
  | _ => simp [GattCall.request, le16_length]

/-- **A call is answered by the service**: request and answer are a conversation that comes to rest. -/
theorem settles_call (view : ConnRole → GattView) (client : ConnRole) {s : NusService}
    (hidle : (view client).pendingRequest = true) (hserves : (view client.peer).Serves s)
    (call : GattCall) : ∃ b e, (Turn.mk view (some (client, call.request))).Settles b e ∧ b ≤ 89 ∧
      e.inFlight = none ∧ e.view client = (view client).answered (s.serve call).1 ∧
      (e.view client.peer).Serves (s.serve call).2 := by
  obtain ⟨v', hreacts, hserves'⟩ := reacts_serve hserves call
  obtain ⟨op, rest, hanswer, hop, hmtu, hlen⟩ := s.serve_head call
  rw [hanswer] at hreacts ⊢
  have hpeer := Turn.view_update view client.peer v'
  rw [ConnRole.peer_peer] at hpeer
  have hclient := Turn.view_update (Function.update view client.peer v') client
    ((view client).answered (op :: rest))
  have hreq : (Turn.mk view (some (client, call.request))).Next
      ⟨Function.update view client.peer v', some (client.peer, op :: rest)⟩ client call.request := by
    refine ⟨rfl, ?_, ?_, hpeer.2⟩
    · dsimp only
      rw [hpeer.1]
      exact hreacts
    · rintro x ⟨⟩
      rfl
  have hrsp : (Turn.mk (Function.update view client.peer v') (some (client.peer, op :: rest))).Next
      ⟨Function.update (Function.update view client.peer v') client
        ((view client).answered (op :: rest)), none⟩ client.peer (op :: rest) := by
    refine ⟨rfl, ?_, ?_, hclient.2⟩
    · dsimp only
      rw [ConnRole.peer_peer, hclient.1, hpeer.2]
      exact reacts_answer hidle hop hmtu
    · rintro x ⟨⟩
  refine ⟨_, _, .next hreq (.next hrsp (.rest rfl)), ?_, rfl, hclient.1, ?_⟩
  · have := call.request_length
    omega
  · dsimp only
    rw [hclient.2, hpeer.1]
    exact hserves'

/-- **A notification is a conversation of one message.** -/
theorem settles_notify (view : ConnRole → GattView) (client : ConnRole) (data : List UInt8)
    (hlen : data.length ≤ 244) : ∃ b e,
      (Turn.mk view (some (client.peer, 0x1B :: le16 handleTxValue ++ data))).Settles b e ∧ b ≤ 248 ∧
      e.inFlight = none ∧ (e.view client).pendingRequest = (view client).pendingRequest ∧
      (e.view client).rxData.bytes.take (e.view client).rxDataLen = data.take 20 ∧
      e.view client.peer = view client.peer := by
  obtain ⟨v', hreacts, hsame, hdata⟩ := reacts_notification (view client) data
  have hclient := Turn.view_update view client v'
  have hnext : (Turn.mk view (some (client.peer, 0x1B :: le16 handleTxValue ++ data))).Next
      ⟨Function.update view client v', none⟩ client.peer (0x1B :: le16 handleTxValue ++ data) := by
    refine ⟨rfl, ?_, ?_, hclient.2⟩
    · dsimp only
      rw [ConnRole.peer_peer, hclient.1]
      exact hreacts
    · rintro x ⟨⟩
  refine ⟨_, _, .next hnext (.rest rfl), ?_, rfl, ?_, ?_, hclient.2⟩
  · rw [List.cons_append, List.length_cons, List.length_append, le16_length]
    omega
  · dsimp only
    rw [hclient.1, hsame]
  · dsimp only
    rw [hclient.1]
    exact hdata

/-! ### One operation -/

theorem AtRest.of_shows {p : LinkPair} {e : Turn} (h : Shows p e 0) (hnone : e.inFlight = none)
    (client : ConnRole) {s : NusService} (hidle : (e.view client).pendingRequest = false)
    (hserves : (e.view client.peer).Serves s) : AtRest p client s where
  inbox := h.inbox
  calm := h.calm
  free := by simpa [hnone] using h.slots
  idle := (congrArg GattView.pendingRequest (h.view client)).trans hidle
  serves := by rw [h.view]; exact hserves

/-- The answer is what the client polls. -/
theorem Conn.gattTakeResult_answered {c : Conn} {v : GattView} {op : UInt8} {rest : List UInt8}
    (hc : c.gatt = v.answered (op :: rest)) (hlen : (op :: rest).length ≤ 64) :
    ∃ bytes : Buf 64, c.gattTakeResult.1 = (op, bytes, (op :: rest).length) ∧
      bytes.bytes.take (op :: rest).length = op :: rest := by
  have hlen' : c.gattResultLen = (op :: rest).length :=
    (congrArg GattView.gattResultLen hc).trans (Nat.min_eq_left hlen)
  have hbytes : c.gattResult.bytes =
      (op :: rest) ++ v.gattResult.bytes.drop (op :: rest).length := by
    refine (congrArg (fun v => v.gattResult.bytes) hc).trans ?_
    show List.take 0 _ ++ (op :: rest).take (min (op :: rest).length 64) ++ _ = _
    rw [Nat.min_eq_left hlen, List.take_length, List.take_zero, List.nil_append, Nat.zero_add]
  refine ⟨c.gattResult.set 0 op, ?_, ?_⟩
  · unfold gattTakeResult
    rw [hlen', hbytes]
    rfl
  · show (List.set _ 0 op).take _ = _
    rw [hbytes, List.cons_append, List.set_cons_zero, ← List.cons_append, List.take_left]

/-- Polling leaves the end at rest. -/
theorem AtRest.polled {p : LinkPair} {client : ConnRole} {s : NusService} (h : AtRest p client s) :
    AtRest (p.onConn client (fun c => c.gattTakeResult.2)) client s := by
  have hcalm : (p.conn client).gattTakeResult.2.Calm := (h.calm client).of_link rfl rfl rfl
  have hfree : (p.conn client).gattTakeResult.2.Free :=
    ⟨(h.free client).pending, (h.free client).offset⟩
  refine ⟨(p.inbox_onConn client _).trans h.inbox, ?_, ?_, ?_, ?_⟩
  · exact forall_role (r := client) (by rwa [LinkPair.conn_onConn])
      (by rw [LinkPair.conn_onConn_peer]; exact h.calm _)
  · exact forall_role (r := client) (by rwa [LinkPair.conn_onConn])
      (by rw [LinkPair.conn_onConn_peer]; exact h.free _)
  · rw [LinkPair.conn_onConn]
    exact h.idle
  · rw [LinkPair.conn_onConn_peer]
    exact h.serves

theorem LinkPair.sessionOp_call {client : ConnRole} {n : Nat} {p p₁ : LinkPair} {call : GattCall}
    (hrun : (p.onConn client call.queue).events hw rule n = .ok p₁)
    {op : UInt8} {rest : List UInt8} {bytes : Buf 64}
    (hpoll : (p₁.conn client).gattTakeResult.1 = (op, bytes, (op :: rest).length))
    (hbytes : bytes.bytes.take (op :: rest).length = op :: rest) :
    p.sessionOp hw rule client n (.call call) =
      .ok (.polled (some (op, op :: rest)), p₁.onConn client (fun c => c.gattTakeResult.2)) := by
  show ((p.onConn client call.queue).events hw rule n >>= _) = _
  rw [hrun, ok_bind, hpoll]
  dsimp only
  rw [if_pos (by rw [List.length_cons]; omega), hbytes]
  rfl

/-- **A remote call is a call.** -/
theorem AtRest.call (hw : Hw) (hrule : rule.Exact) {p : LinkPair} {client : ConnRole} {s : NusService}
    (h : AtRest p client s) (call : GattCall) {n : Nat} (hn : 248 ≤ n) :
    ∃ p', p.sessionOp hw rule client n (.call call) = .ok ((s.sessionOp (.call call)).1, p') ∧
      AtRest p' client (s.sessionOp (.call call)).2 := by
  have hcalm := h.calm client
  have hqueue : call.queue = fun c => c.gattSendRequest call.request := funext call.queue_eq
  have hshows := h.send (r := client) (f := fun c => c.gattSendRequest call.request)
    (hcalm.of_link rfl rfl rfl) (Holds.gattSendRequest (call.request_length.trans (by decide))
      (h.free client).offset hcalm.cid hcalm.pduMin hcalm.pduMax)
  obtain ⟨b, e, hsettles, hb, hnone, hview, hserves⟩ := settles_call
    (fun r => ((p.onConn client (fun c => c.gattSendRequest call.request)).conn r).gatt) client
    (s := s) (by rw [LinkPair.conn_onConn]; rfl)
    (by rw [LinkPair.conn_onConn_peer]; exact h.serves) call
  obtain ⟨p₁, hrun, h₁⟩ := hshows.settles hw hrule hsettles (n := n) (by omega)
  have hrest := AtRest.of_shows h₁ hnone client (by rw [hview]; rfl) hserves
  obtain ⟨op, rest, hanswer, _, _, hlen⟩ := s.serve_head call
  obtain ⟨bytes, hpoll, hbytes⟩ := Conn.gattTakeResult_answered
    (((h₁.view client).trans hview).trans (by rw [hanswer])) hlen
  refine ⟨_, ?_, hrest.polled⟩
  rw [LinkPair.sessionOp_call (by rw [hqueue]; exact hrun) hpoll hbytes]
  show _ = Except.ok (Seen.polled (some ((s.serve call).1.getD 0 0, (s.serve call).1)), _)
  rw [hanswer]
  rfl

/-- **A notification arrives.** -/
theorem AtRest.notify (hw : Hw) (hrule : rule.Exact) {p : LinkPair} {client : ConnRole} {s : NusService}
    (h : AtRest p client s) (data : List UInt8) {n : Nat} (hn : 248 ≤ n) :
    ∃ p', p.sessionOp hw rule client n (.notify data) = .ok ((s.sessionOp (.notify data)).1, p') ∧
      AtRest p' client (s.sessionOp (.notify data)).2 := by
  have hcalm := h.calm client.peer
  have hshows := h.send (r := client.peer) (f := fun c => c.queueNotify data)
    (hcalm.of_link rfl rfl rfl) (Holds.queueNotify data (h.free client.peer).offset hcalm.cid
      hcalm.pduMin hcalm.pduMax)
  obtain ⟨b, e, hsettles, hb, hnone, hidle, hdata, hserver⟩ := settles_notify
    (fun r => ((p.onConn client.peer (fun c => c.queueNotify data)).conn r).gatt) client
    (data.take (min data.length attPayloadMax))
    (by rw [List.length_take]; exact (Nat.min_le_left _ _).trans (Nat.min_le_right _ _))
  obtain ⟨p₁, hrun, h₁⟩ := hshows.settles hw hrule hsettles (n := n) (by omega)
  have hclient : (p.onConn client.peer (fun c => c.queueNotify data)).conn client =
      p.conn client := by
    have hpeer := p.conn_onConn_peer client.peer (fun c => c.queueNotify data)
    rwa [ConnRole.peer_peer] at hpeer
  rw [hclient] at hidle
  refine ⟨p₁, ?_, AtRest.of_shows h₁ hnone client (hidle.trans h.idle) ?_⟩
  · have hview := h₁.view client
    have hseen : (p₁.conn client).rxData.bytes.take (p₁.conn client).rxDataLen = data.take 20 := by
      have hrx : (p₁.conn client).rxData.bytes.take (p₁.conn client).rxDataLen =
          (e.view client).rxData.bytes.take (e.view client).rxDataLen := by
        rw [← hview]; rfl
      rw [hrx, hdata, List.take_take]
      rcases Nat.le_total data.length 20 with hshort | hlong
      · rw [List.take_of_length_le hshort, List.take_of_length_le (by
          simp only [attPayloadMax]; omega)]
      · rw [Nat.min_eq_left (by simp only [attPayloadMax]; omega)]
    show ((p.onConn client.peer (fun c => c.queueNotify data)).events hw rule n >>= _) = _
    rw [hrun, ok_bind, hseen]
    rfl
  · rw [hserver, LinkPair.conn_onConn]
    exact ⟨h.serves.cccd, h.serves.received⟩

/-! ## The session -/

/-- A message that the other end answers with an Error Response, whatever it is. -/
structure Turn.Stray (t : Turn) : Prop where
  idle : ∀ r, (t.view r).pendingRequest = false
  message : ∃ r op rest, t.inFlight = some (r, op :: rest) ∧ isUnanswered op = true ∧ op ≠ 0x1B ∧
    op ≠ 0x52

theorem Turn.Stray.next {t : Turn} (h : t.Stray) : ∃ t' r m, t.Next t' r m ∧ t'.Stray := by
  obtain ⟨r, op, rest, hsent, hop, h1B, h52⟩ := h.message
  refine ⟨⟨t.view, some (r.peer, notSupported op)⟩, r, op :: rest, ⟨hsent, ?_, ?_, rfl⟩, h.idle,
    r.peer, 0x01, [op, 0x00, 0x00, 0x06], rfl, by decide, by decide, by decide⟩
  · refine .of_answer (show 5 ≤ 251 by decide) ?_
    intro d hd
    have hidle : d.pendingRequest = false := (congrArg GattView.pendingRequest hd).trans (h.idle _)
    have hans : d.answersAtt op := ⟨by rw [hidle]; exact fun h => Bool.false_ne_true h.1, h1B, h52⟩
    exact ⟨d, .idle, Conn.handleAtt_unanswered hop hans rest .idle, hd, rfl⟩
  · rintro x ⟨⟩
    rfl

end NrfBle
