/-
  ATT messages between two connected ends, fragment by fragment, where the radio measures them right.

  `LinkPair.event` moves one PDU each way.  A PDU is taken when the radio reports its length
  (`LengthRule.Exact`), which `receive_poll` says it does and does not.  Then, when both ends have
  nothing but data to send (`Calm`), an event is two halves: one end sends its next PDU and the other
  takes it, and then the other way round (`event_of_halves`).  A half carries nothing, a fragment that is
  only collected, or the last fragment of a message, which `handle_att` gets.
-/
import Mathlib.Tactic
import NrfBle.Hw.Conn.Handshake
import NrfBle.Hw.Conn.Reassembly
import NrfBle.Hw.Conn.Hopping

namespace NrfBle

open Checked

variable {hw : Hw}

/-! ## The link layer's own fields, and GATT's -/

/-- What an end knows of GATT, as a server and as a client. -/
structure GattView where
  attMtu : UInt16
  nusCccd : UInt8
  rxData : Buf 244
  rxDataLen : Nat
  pendingRequest : Bool
  gattResult : Buf 64
  gattResultLen : Nat

namespace Conn

/-- The GATT part of a connection. -/
def gatt (c : Conn) : GattView :=
  ⟨c.attMtu, c.nusCccd, c.rxData, c.rxDataLen, c.pendingRequest, c.gattResult, c.gattResultLen⟩

/-- Only the link layer's own fields differ. -/
def SameData (c c' : Conn) : Prop :=
  c' = { c with
    interval := c'.interval, timeout := c'.timeout, channel := c'.channel, sn := c'.sn
    nesn := c'.nesn, anchor := c'.anchor, accum := c'.accum, txBuf := c'.txBuf, rxBuf := c'.rxBuf
    eventCounter := c'.eventCounter, packetCounter := c'.packetCounter }

/-- A connection whose events only exchange data, on the ATT channel. -/
structure Calm (c : Conn) : Prop where
  channel : c.channel.toNat ≤ 39
  hop : c.hop.toNat ≤ 31
  accum : c.accum.Bounded
  terminate : c.terminatePending = false
  control : c.pendingControl = none
  encrypted : c.encrypted = false
  cid : c.txCid = l2capAttCid
  pduMin : 5 ≤ c.txPduMax
  pduMax : c.txPduMax ≤ 62

/-- Nothing to send. -/
structure Free (c : Conn) : Prop where
  pending : c.txPending = false
  offset : c.txFragOffset = 0

theorem SameData.gatt {c c' : Conn} (h : SameData c c') : c'.gatt = c.gatt := by
  rw [h]; rfl

theorem SameData.free {c c' : Conn} (h : SameData c c') (hf : c.Free) : c'.Free := by
  rw [h]; exact ⟨hf.pending, hf.offset⟩

theorem SameData.holds {c c' : Conn} (h : SameData c c') {m : List UInt8} {o : Nat}
    (hm : NrfBle.Holds c m o) : NrfBle.Holds c' m o := by
  rw [h]
  exact ⟨hm.length, hm.bytes, hm.offset, hm.pending, hm.cid, hm.short, hm.inside, hm.pduMin, hm.pduMax⟩

/-- The bytes collected so far are in the receiver's own fields. -/
theorem collects_self {d₀ d : Conn} {m : List UInt8} {o : Nat} (h : Collects d₀ d m o) :
    Collects d d m o := by
  refine ⟨?_, h.bytes⟩
  have hf := h.frame
  rw [hf]

theorem SameData.ready {d d' : Conn} (h : SameData d d') {m : List UInt8} {o : Nat}
    (hr : Ready d d m o) : Ready d' d' m o := by
  rcases hr with ⟨h0, _⟩ | ⟨hpos, hc⟩
  · exact .inl ⟨h0, rfl⟩
  · refine .inr ⟨hpos, ?_, ?_⟩
    · have hf := hc.frame
      rw [h, hf]
    · rw [h]; exact hc.bytes

/-- A calm connection stays calm when only the listed fields change. -/
theorem Calm.of_link {c c' : Conn} (h : c.Calm) (hl : c'.link = c.link)
    (hctl : c'.pendingControl = c.pendingControl) (hcid : c'.txCid = c.txCid) : c'.Calm where
  channel := by rw [show c'.channel = c.channel from congrArg Link.channel hl]; exact h.channel
  hop := by rw [show c'.hop = c.hop from congrArg Link.hop hl]; exact h.hop
  accum := by rw [show c'.accum = c.accum from congrArg Link.accum hl]; exact h.accum
  terminate := (congrArg Link.terminatePending hl).trans h.terminate
  control := hctl.trans h.control
  encrypted := (congrArg Link.encrypted hl).trans h.encrypted
  cid := hcid.trans h.cid
  pduMin := by rw [show c'.txPduMax = c.txPduMax from congrArg Link.txPduMax hl]; exact h.pduMin
  pduMax := by rw [show c'.txPduMax = c.txPduMax from congrArg Link.txPduMax hl]; exact h.pduMax

/-- The start of an event of a calm connection. -/
theorem Calm.beginEvent {c : Conn} (h : c.Calm) :
    ∃ c', c.beginEvent = .ok c' ∧ SameData c c' ∧ c'.Calm := by
  have hupd : ∀ d : Conn, d.applyUpdate.channel = d.channel ∧ d.applyUpdate.hop = d.hop ∧
      d.applyUpdate.channelMap = d.channelMap ∧ (d.accum.Bounded → d.applyUpdate.accum.Bounded) := by
    intro d
    unfold applyUpdate
    split
    · split
      · exact ⟨rfl, rfl, rfl, fun _ => ⟨Nat.le_refl 39, show 2 < 32 by decide, show 0 < 32 by decide⟩⟩
      · exact ⟨rfl, rfl, rfl, id⟩
    · exact ⟨rfl, rfl, rfl, id⟩
  obtain ⟨h1, h2, h3, h4⟩ := hupd { c with
    eventCounter := c.eventCounter + 1
    packetCounter := if c.encrypted then c.packetCounter + 1 else c.packetCounter }
  obtain ⟨ticks, accum, hnext, hacc⟩ := IntervalAccum.next_eq (h4 h.accum)
    (applyUpdate { c with
      eventCounter := c.eventCounter + 1
      packetCounter := if c.encrypted then c.packetCounter + 1 else c.packetCounter }).interval
  obtain ⟨ch, hch, hval⟩ := nextChannel_eq c.channelMap h.channel h.hop
  have hlt : ch.toNat < 37 := by
    rw [hval]
    exact skipUnused_lt _ _ (Nat.mod_lt _ (by decide))
  obtain ⟨c', hc'⟩ : Returns c.beginEvent := by
    unfold Conn.beginEvent
    dsimp only
    rw [hnext, ok_bind, h1, h2, h3, hch]
    exact ⟨_, rfl⟩
  have hframe := beginEvent_frame hc'
  have hacc' : c'.accum = accum ∧ c'.channel = ch := by
    unfold Conn.beginEvent at hc'
    dsimp only at hc'
    rw [hnext, ok_bind, h1, h2, h3, hch, ok_bind] at hc'
    cases hc'
    exact ⟨rfl, rfl⟩
  refine ⟨c', hc', ?_, ?_⟩
  · rw [hframe]; rfl
  · have hle : c'.channel.toNat ≤ 39 := by rw [hacc'.2]; omega
    have hb : c'.accum.Bounded := by rw [hacc'.1]; exact hacc
    rw [hframe]
    exact ⟨hle, h.hop, hb, h.terminate, h.control, h.encrypted, h.cid, h.pduMin, h.pduMax⟩

/-! ## One PDU -/

/-- A data PDU on the air. -/
def dataAir (b0 : UInt8) (payload : List UInt8) : List UInt8 :=
  b0 :: UInt8.ofNat payload.length :: payload

end Conn

/-- The radio reports the length of a data PDU: "Returns the PDU length when a valid packet was
    received", as `receive_poll` has it. -/
def LengthRule.Exact (rule : LengthRule) : Prop :=
  ∀ b0 payload, payload.length ≤ 62 → rule (Conn.dataAir b0 payload) = (Conn.dataAir b0 payload).length

namespace Conn

theorem dataAir_length (b0 : UInt8) (payload : List UInt8) :
    (dataAir b0 payload).length = 2 + payload.length := by
  unfold dataAir
  rw [List.length_cons, List.length_cons]
  omega

/-- The driver's own rule is right for the empty PDU, and for no other. -/
theorem receivePoll_exact_iff (b0 : UInt8) {payload : List UInt8} (h : payload.length ≤ 62) :
    LengthRule.receivePoll (dataAir b0 payload) = (dataAir b0 payload).length ↔ payload = [] := by
  rw [dataAir_length, ← List.length_eq_zero_iff]
  show 2 + ((UInt8.ofNat payload.length >>> 1) &&& 0x3F).toNat = _ ↔ _
  rw [half_lengthByte h]
  omega

theorem packetBuf_front (b0 : UInt8) {payload : List UInt8} (h : payload.length ≤ 62) :
    FrontPdu (packetBuf (dataAir b0 payload)) b0 payload := by
  have hlen := dataAir_length b0 payload
  unfold FrontPdu packetBuf Buf.splice
  dsimp only
  rw [List.take_zero, List.nil_append,
    List.take_of_length_le (by omega : (dataAir b0 payload).length ≤ 64), ← hlen, List.take_left]
  rfl

/-- The receiver once the PDU is in its buffer and acknowledged. -/
def heard (d : Conn) (b0 : UInt8) (payload : List UInt8) : Conn :=
  { d with rxBuf := packetBuf (dataAir b0 payload), nesn := (b0 &&& 0b1000) != 0 }

theorem heard_sameData (d : Conn) (b0 : UInt8) (payload : List UInt8) :
    SameData d (d.heard b0 payload) := rfl

/-- What is done with the payload of a data PDU: nothing if there is none. -/
def take (hw : Hw) (d : Conn) (b0 : UInt8) (payload : List UInt8) : Except Panic Conn :=
  if payload = [] then return d
  else do
    let r ← d.handleL2cap hw payload (b0 &&& 0b11) .idle
    return r.1

theorem receiveAt_clear {d : Conn} (hd : d.encrypted = false) (b0 : UInt8) {payload : List UInt8}
    (h : payload.length ≤ 62) :
    d.receiveAt hw (packetBuf (dataAir b0 payload)) (dataAir b0 payload).length =
      .ok (some (.ok (DataPdu.ofBytes b0 payload)),
        { d with rxBuf := packetBuf (dataAir b0 payload) }) := by
  have hrx : rx hw { d with rxBuf := packetBuf (dataAir b0 payload) } =
      (true, { d with rxBuf := packetBuf (dataAir b0 payload) }) :=
    if_neg (by rw [hd]; exact Bool.false_ne_true)
  obtain ⟨bytes, hup, hdec⟩ := bind_eq_ok.mp
    (((packetBuf_front b0 h).decode_iff h (2 + payload.length)).mpr rfl)
  unfold receiveAt
  rw [hrx, dataAir_length]
  dsimp only
  rw [if_pos rfl, hup, ok_bind, hdec]
  rfl

/-- The actions that are no transmission do not reach the air. -/
theorem airs_append (log acts : List Act) : airs (log ++ acts) = airs log ++ airs acts :=
  List.filterMap_append ..

theorem deliver_res (d : Conn) (tag : Nat) (pdu : DataPdu) (result : ConnEvent) :
    (d.deliver hw tag pdu result).res = d.handleL2cap hw (pdu.payload.take 64) pdu.llid result := rfl

/-- The payload of a received PDU is short enough to be taken whole. -/
theorem ofBytes_payload (b0 : UInt8) {payload : List UInt8} (h : payload.length ≤ 62) :
    (DataPdu.ofBytes b0 payload).payload.take 64 = payload :=
  List.take_of_length_le (show payload.length ≤ 64 by omega)

/-- A master takes a data PDU. -/
theorem masterHears_data {rule : LengthRule} (hrule : rule.Exact) {d : Conn} (hd : d.encrypted = false)
    {b0 : UInt8} {payload : List UInt8} (h : payload.length ≤ 62) (hllid : b0 &&& 0b11 ≠ llidControl) :
    (d.masterHears hw rule (dataAir b0 payload)).res = (d.heard b0 payload).take hw b0 payload := by
  have hpay := ofBytes_payload b0 h
  have hhandle : (masterHandle hw { d with rxBuf := packetBuf (dataAir b0 payload) } 0
      (DataPdu.ofBytes b0 payload)).res.map Prod.snd = (d.heard b0 payload).take hw b0 payload := by
    unfold masterHandle take
    rw [acknowledge_eq, Logged.emit_bind, hpay]
    match payload with
    | [] => rfl
    | op :: rest =>
      dsimp only
      rw [if_neg (show ¬ (DataPdu.ofBytes b0 (op :: rest)).llid = llidControl from hllid),
        if_neg (List.cons_ne_nil _ _), Logged.bind_res, deliver_res, hpay]
      unfold heard
      dsimp only [DataPdu.ofBytes]
      cases handleL2cap hw { d with
          rxBuf := packetBuf (dataAir b0 (op :: rest)), nesn := (b0 &&& 0b1000) != 0 }
        (op :: rest) (b0 &&& 0b11) .idle <;> rfl
  rw [← hhandle]
  unfold masterHears
  rw [hrule b0 payload h, receiveAt_clear hd b0 h, Logged.lift_ok_bind]
  dsimp only
  rw [Logged.bind_res]
  cases (masterHandle hw { d with rxBuf := packetBuf (dataAir b0 payload) } 0
    (DataPdu.ofBytes b0 payload)).res <;> rfl

/-- A slave takes a data PDU and then sends its own. -/
theorem slaveHears_data {rule : LengthRule} (hrule : rule.Exact) {d d' : Conn} (hd : d.encrypted = false)
    {b0 : UInt8} {payload : List UInt8} (h : payload.length ≤ 62) (hllid : b0 &&& 0b11 ≠ llidControl)
    (htake : (d.heard b0 payload).take hw b0 payload = .ok d') (hterm : d'.terminatePending = false) :
    airs (d.slaveHears hw rule (dataAir b0 payload)).log = airs (d'.respond hw).log ∧
      (d.slaveHears hw rule (dataAir b0 payload)).res = (d'.respond hw).res := by
  have hpay := ofBytes_payload b0 h
  -- handling the PDU puts nothing on the air
  have hhandle : ∃ r, (slaveHandle hw { d with rxBuf := packetBuf (dataAir b0 payload) } 0
        (DataPdu.ofBytes b0 payload) .idle).res = .ok (.ok r, d') ∧
      airs (slaveHandle hw { d with rxBuf := packetBuf (dataAir b0 payload) } 0
        (DataPdu.ofBytes b0 payload) .idle).log = [] := by
    unfold slaveHandle
    rw [acknowledge_eq, Logged.emit_bind, hpay]
    unfold take at htake
    match payload with
    | [] =>
      cases htake
      exact ⟨_, rfl, rfl⟩
    | op :: rest =>
      rw [if_neg (List.cons_ne_nil _ _)] at htake
      obtain ⟨⟨d₁, r⟩, hrun, htake⟩ := bind_eq_ok.mp htake
      cases htake
      dsimp only
      rw [if_neg (show ¬ (DataPdu.ofBytes b0 (op :: rest)).llid = llidControl from hllid)]
      refine ⟨r, ?_, ?_⟩
      · rw [Logged.bind_res, deliver_res, hpay]
        unfold heard at hrun
        dsimp only [DataPdu.ofBytes]
        rw [hrun]
        rfl
      · show airs (Act.accept _ _ _ :: _) = []
        rw [Logged.bind_log (fun _ => rfl)]
        rfl
  obtain ⟨r, hres, hair⟩ := hhandle
  unfold slaveHears
  rw [hrule b0 payload h, receiveAt_clear hd b0 h, Logged.lift_ok_bind]
  dsimp only
  rw [Logged.bind_of_ok hres]
  dsimp only
  rw [if_neg (by rw [hterm]; exact Bool.false_ne_true)]
  exact ⟨by rw [airs_append, hair, List.nil_append], rfl⟩

/-- What is sent in the clear. -/
theorem tx_clear (hw : Hw) {c : Conn} (h : c.encrypted = false) (kind : TxKind) {b0 : UInt8}
    {payload : List UInt8} (hn : payload.length ≤ 62) (hfront : FrontPdu c.txBuf b0 payload) :
    airs (c.tx hw kind (2 + payload.length)).log = [dataAir b0 payload] ∧
      (c.tx hw kind (2 + payload.length)).res = .ok c := by
  unfold tx
  rw [if_neg (by rw [h]; exact Bool.false_ne_true), transmitRaw_of_le _ _ (by omega)]
  refine ⟨?_, rfl⟩
  show [c.txBuf.bytes.take (2 + payload.length)] = _
  rw [hfront]
  rfl

theorem respond_empty {c : Conn} (hctl : c.pendingControl = none) (hp : c.txPending = false) :
    c.respond hw =
      tx hw { c with txBuf := (c.txBuf.set 0 (c.txHeader llidDataComplete)).set 1 0 } .empty 2 := by
  unfold respond
  split
  · rename_i hsome
    rw [hctl] at hsome
    cases hsome
  · rw [if_neg (by rw [hp]; exact Bool.false_ne_true)]

theorem respond_pending {c c₁ : Conn} {n : Nat} (hctl : c.pendingControl = none)
    (hp : c.txPending = true) (hfrag : c.txFragment = .ok (n, c₁)) :
    c.respond hw = tx hw { c₁ with sn := !c₁.sn } .fragment n := by
  unfold respond
  split
  · rename_i hsome
    rw [hctl] at hsome
    cases hsome
  · rw [if_pos hp, hfrag, Logged.lift_ok_bind]

/-- With nothing to send an empty PDU goes out. -/
theorem Calm.respond_free (hw : Hw) {c : Conn} (h : c.Calm) (hf : c.Free) :
    ∃ b0 c', b0 &&& 0b11 ≠ llidControl ∧ airs (c.respond hw).log = [dataAir b0 []] ∧
      (c.respond hw).res = .ok c' ∧ SameData c c' ∧ c'.Calm := by
  have hllid : c.txHeader llidDataComplete &&& 0b11 ≠ llidControl := by
    rw [txHeader_llid]
    decide
  obtain ⟨hair, hres⟩ := tx_clear hw
    (c := { c with txBuf := (c.txBuf.set 0 (c.txHeader llidDataComplete)).set 1 0 }) h.encrypted .empty
    (show ([] : List UInt8).length ≤ 62 from Nat.zero_le _) (Buf.take_two_set _ _ _ (by omega))
  rw [respond_empty h.control hf.pending]
  exact ⟨_, _, hllid, hair, hres, rfl, ⟨h.channel, h.hop, h.accum, h.terminate, h.control,
    h.encrypted, h.cid, h.pduMin, h.pduMax⟩⟩

/-- A connection with a message sends its next fragment. -/
theorem Calm.respond_fragment (hw : Hw) {c : Conn} (h : c.Calm) {m : List UInt8} {o : Nat}
    (hm : NrfBle.Holds c m o) :
    ∃ b0 b c', b0 &&& 0b11 = c.fragLlid &&& 3 ∧ (fragmentPayload m o c.fragChunk).length ≤ 62 ∧
      airs (c.respond hw).log = [dataAir b0 (fragmentPayload m o c.fragChunk)] ∧
      (c.respond hw).res = .ok c' ∧ SameData (c.afterFragment b) c' ∧ c'.Calm := by
  have hfits := hm.slotInv.fragFits
  obtain ⟨hpay, -⟩ := hm.sending.fragment hfits hm.chunk.1
  have hpay' : c.fragPayload = fragmentPayload m o c.fragChunk := hpay
  obtain ⟨b, hok, htake⟩ := txFragment_ok hfits
  have hlen : c.fragPayload.length ≤ 62 :=
    (hfits.payload_le (Nat.le_trans (by decide) h.pduMin)).trans h.pduMax
  obtain ⟨hair, hres⟩ := tx_clear hw
    (c := { c.afterFragment b with sn := !(c.afterFragment b).sn }) h.encrypted .fragment hlen htake
  rw [respond_pending h.control hm.pending hok, ← hpay']
  exact ⟨_, b, _, c.txHeader_llid _, hlen, hair, hres, rfl, ⟨h.channel, h.hop, h.accum, h.terminate,
    h.control, h.encrypted, h.cid, h.pduMin, h.pduMax⟩⟩

/-! ## Half an event -/

/-- One end sends its next PDU, and the other takes it. -/
def Half (hw : Hw) (c d c' d' : Conn) : Prop :=
  ∃ b0 payload, payload.length ≤ 62 ∧ b0 &&& 0b11 ≠ llidControl ∧
    airs (c.respond hw).log = [dataAir b0 payload] ∧ (c.respond hw).res = .ok c' ∧
    (d.heard b0 payload).take hw b0 payload = .ok d'

end Conn

open Conn in
/-- **An event is two halves.** -/
theorem LinkPair.event_of_halves {rule : LengthRule} (hrule : rule.Exact) {m s m₁ s₁ m₂ s₂ m₃ s₃ : Conn} (hm : m.beginEvent = .ok m₁)
    (hs : s.beginEvent = .ok s₁) (hm₁ : m₁.terminatePending = false) (hs₁ : s₁.encrypted = false)
    (hout : Half hw m₁ s₁ m₂ s₂) (hs₂ : s₂.terminatePending = false) (hm₂ : m₂.encrypted = false)
    (hback : Half hw s₂ m₂ s₃ m₃) : LinkPair.event hw rule ⟨m, s, []⟩ = .ok ⟨m₃, s₃, []⟩ := by
  obtain ⟨b0, payload, hlen, hllid, hair, hres, htake⟩ := hout
  obtain ⟨b0', payload', hlen', hllid', hair', hres', htake'⟩ := hback
  obtain ⟨hlog, hans⟩ := slaveHears_data hrule hs₁ hlen hllid htake hs₂
  have hsend : (m₁.eventMaster hw []).res = .ok (.ok .idle, m₂) ∧
      airs (m₁.eventMaster hw []).log = [dataAir b0 payload] := by
    unfold eventMaster
    rw [if_neg (by rw [hm₁]; exact Bool.false_ne_true), Logged.bind_of_ok hres]
    exact ⟨rfl, by rw [airs_append, hair]; rfl⟩
  have hall : airs (slaveHearsAll hw rule [dataAir b0 payload] s₁).log = [dataAir b0' payload'] ∧
      (slaveHearsAll hw rule [dataAir b0 payload] s₁).res = .ok s₃ := by
    unfold slaveHearsAll
    rw [Logged.bind_of_ok (hans.trans hres')]
    exact ⟨by rw [airs_append, hlog, hair']; rfl, rfl⟩
  unfold LinkPair.event
  rw [hm, ok_bind]
  dsimp only
  rw [hsend.1, ok_bind]
  dsimp only
  rw [hs, ok_bind, hsend.2, hall.2, ok_bind, hall.1]
  dsimp only [List.nil_append]
  rw [masterHears_data hrule hm₂ hlen' hllid', htake']
  rfl

namespace Conn

/-! ### What half an event does -/

theorem Calm.heard {d : Conn} (h : d.Calm) (b0 : UInt8) (payload : List UInt8) :
    (d.heard b0 payload).Calm :=
  ⟨h.channel, h.hop, h.accum, h.terminate, h.control, h.encrypted, h.cid, h.pduMin, h.pduMax⟩

/-- An end without a message changes nothing. -/
theorem Calm.half_free (hw : Hw) {c : Conn} (h : c.Calm) (hf : c.Free) (d : Conn) :
    ∃ c' d', Half hw c d c' d' ∧ SameData c c' ∧ c'.Calm ∧ SameData d d' ∧ (d.Calm → d'.Calm) := by
  obtain ⟨b0, c', hllid, hair, hres, hsame, hcalm⟩ := h.respond_free hw hf
  exact ⟨c', d.heard b0 [], ⟨b0, [], Nat.zero_le _, hllid, hair, hres, if_pos rfl⟩, hsame, hcalm,
    heard_sameData .., fun hd => hd.heard b0 []⟩

/-- A fragment is never an empty PDU. -/
theorem fragmentPayload_ne_nil {c : Conn} {m : List UInt8} {o : Nat} (h : NrfBle.Holds c m o) :
    fragmentPayload m o c.fragChunk ≠ [] := by
  have hchunk := h.chunk
  have hin := h.inside
  intro hnil
  have hlen := congrArg List.length hnil
  unfold fragmentPayload at hlen
  rw [List.length_append, List.length_drop, List.length_take, List.length_nil] at hlen
  split at hlen
  · rw [List.length_append, le16_length] at hlen
    omega
  · rw [List.length_nil] at hlen
    omega

theorem fragLlid_data (c : Conn) : c.fragLlid &&& 3 ≠ llidControl := by
  unfold fragLlid
  split
  · split <;> decide
  · decide

theorem Calm.collects {d d' : Conn} {m : List UInt8} {o : Nat} (h : d.Calm) (hc : Collects d d' m o) :
    d'.Calm ∧ d'.gatt = d.gatt ∧ (d.Free → d'.Free) := by
  rw [hc.frame]
  exact ⟨⟨h.channel, h.hop, h.accum, h.terminate, h.control, h.encrypted, h.cid, h.pduMin, h.pduMax⟩,
    rfl, fun hf => ⟨hf.pending, hf.offset⟩⟩

/-- **A fragment.**  It is collected, and the message is further on; or it is the last, the sender is
    free and the receiver has handed the message to `handle_att`. -/
theorem Calm.half_message (hw : Hw) {c d : Conn} (hc : c.Calm) {m : List UInt8} {o : Nat}
    (hm : NrfBle.Holds c m o)
    (hd : d.Calm) (hready : Ready d d m o) :
    ∃ c', c'.Calm ∧ c'.gatt = c.gatt ∧
      ((∃ o' d', o < o' ∧ o' < m.length ∧ Half hw c d c' d' ∧ NrfBle.Holds c' m o' ∧ d'.Calm ∧
          d'.gatt = d.gatt ∧ (d.Free → d'.Free) ∧ Ready d' d' m o') ∨
        (c'.Free ∧ ∃ d₂ : Conn, d₂.Calm ∧ d₂.gatt = d.gatt ∧ (d.Free → d₂.Free) ∧
          ∀ d₃ r, d₂.handleAtt m .idle = .ok (d₃, r) →
            Half hw c d c' { d₃ with rxL2capLen := 0 })) := by
  obtain ⟨b0, b, c', hb0, hlen, hair, hres, hsame, hcalm⟩ := hc.respond_fragment hw hm
  have hllid : b0 &&& 0b11 ≠ llidControl := by rw [hb0]; exact c.fragLlid_data
  have hheard := heard_sameData d b0 (fragmentPayload m o c.fragChunk)
  obtain ⟨d₁, hd₁, hstep⟩ := Ready.step hw hm (hheard.ready hready)
  have htake : (d.heard b0 (fragmentPayload m o c.fragChunk)).take hw b0
      (fragmentPayload m o c.fragChunk) =
      if o + c.fragChunk < m.length then .ok d₁
      else do
        let r ← d₁.handleAtt m .idle
        return { r.1 with rxL2capLen := 0 } := by
    unfold take
    rw [if_neg (fragmentPayload_ne_nil hm), hb0]
    unfold handleL2cap
    rw [hstep]
    split
    · rfl
    · cases d₁.handleAtt m .idle <;> rfl
  obtain ⟨hcalm₁, hgatt₁, hfree₁⟩ := (hd.heard b0 _).collects hd₁
  have hgatt : c'.gatt = c.gatt := hsame.gatt
  refine ⟨c', hcalm, hgatt, ?_⟩
  rcases hm.next b with ⟨hall, hidle⟩ | ⟨hmore, hnext⟩
  · refine .inr ⟨hsame.free ⟨hidle, ?_⟩, d₁, hcalm₁, hgatt₁, fun hf => hfree₁ (hheard.free hf), ?_⟩
    · unfold afterFragment
      dsimp only
      rw [if_pos (by rw [hm.length, hm.offset]; omega)]
    · intro d₃ r hrun
      refine ⟨b0, _, hlen, hllid, hair, hres, ?_⟩
      rw [htake, if_neg (by omega), hrun]
      rfl
  · have hpos : 0 < c.fragChunk := hm.chunk.2.resolve_right (by omega)
    refine .inl ⟨o + c.fragChunk, d₁, by omega, hmore, ?_, hsame.holds hnext, hcalm₁, hgatt₁,
      fun hf => hfree₁ (hheard.free hf), .inr ⟨by omega, collects_self hd₁⟩⟩
    refine ⟨b0, _, hlen, hllid, hair, hres, ?_⟩
    rw [htake, if_pos hmore]

end Conn

end NrfBle
