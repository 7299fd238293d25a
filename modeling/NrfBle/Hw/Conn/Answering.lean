/-
  Whether a slave answers (`src/hw/conn.rs`, `Conn::event`).

  The four listening windows of a slave event share one flag, `received`, and one `result`.

  1. **The result** — the handlers get the result so far and give it back or replace it.  So what
     an event reports is decided by the PDUs one by one: `Threads` says of a handler that it puts a
     result of its OWN on top of the one before, `slaveHandle_threads` that handling a PDU does.

  2. **The answer** — the flag is taken back before every window but the first.  When a window
     brings nothing usable, the event returns as if nothing had been received: no response, and no
     result of the PDUs it handled.  `Unbroken` says that this does not happen.

  3. **The equivalence** (`answers_iff`) — an event ends with a response on the air, and reports the
     last result, iff every window it listens in brings a PDU that is handled, up to one that
     announces no more or the fourth, and the response fits the buffer.
-/
import Mathlib.Tactic
import NrfBle.Lib.Threading
import NrfBle.Hw.Conn.Hopping
import NrfBle.Hw.Conn.Outcome

namespace NrfBle

open Checked

/-! ## The result so far -/

/-- A result on top of the one before; `Idle` is none. -/
def ConnEvent.onto : ConnEvent → ConnEvent → ConnEvent
  | .idle, before => before
  | own, _ => own

theorem ConnEvent.idle_onto (e : ConnEvent) : ConnEvent.idle.onto e = e := rfl

theorem ConnEvent.onto_idle (e : ConnEvent) : e.onto .idle = e := by
  cases e <;> rfl

theorem ConnEvent.onto_of_ne {e : ConnEvent} (h : e ≠ .idle) (before : ConnEvent) :
    e.onto before = e := by
  cases e with
  | idle => exact absurd rfl h
  | _ => rfl

theorem ConnEvent.onto_assoc (e f g : ConnEvent) : (e.onto f).onto g = e.onto (f.onto g) := by
  cases e <;> rfl

/-- Results, one on top of the other. -/
instance ConnEvent.monoid : Monoid ConnEvent where
  mul := ConnEvent.onto
  one := .idle
  mul_assoc := ConnEvent.onto_assoc
  one_mul := ConnEvent.idle_onto
  mul_one := ConnEvent.onto_idle

namespace Conn

theorem write_threads (c : Conn) (handle : UInt16) (value : List UInt8) :
    Threads (fun before => .ok (((c.write handle value before).1, (c.write handle value before).2.1),
      (c.write handle value before).2.2)) := by
  unfold write
  by_cases hrx : handle = handleRxValue
  · simp only [if_pos hrx]
    exact .report _ (ConnEvent.onto_of_ne (by decide))
  · by_cases hcccd : handle = handleTxCccd
    · simp only [if_neg hrx, if_pos hcccd]
      exact .pass _
    · simp only [if_neg hrx, if_neg hcccd]
      exact .pass _

theorem attWrite_threads (c : Conn) (att : List UInt8) :
    Threads (fun before => c.attWrite att before >>= fun r => .ok ((r.1, r.2.1), r.2.2)) := by
  refine .congr (.after (rd16 att 1) fun handle => .after (slice att 3 att.length) fun value =>
    c.write_threads handle value) ?_
  intro before
  unfold attWrite
  cases rd16 att 1 with
  | error p => rfl
  | ok handle => cases slice att 3 att.length <;> rfl

/-- What follows a write request looks at its outcome only. -/
theorem attWrite_then_threads (c : Conn) (att : List UInt8) (f : Except Error Unit → Conn → Conn) :
    Threads (fun before => c.attWrite att before >>= fun r => .ok (f r.1 r.2.1, r.2.2)) := by
  refine .congr ((c.attWrite_threads att).bind fun b => .pass (f b.1 b.2)) ?_
  intro before
  cases c.attWrite att before <;> rfl

/-- The response to a write request. -/
def writeResponse : Except Error Unit → List UInt8
  | .ok () => [0x13]
  | .error _ => [0x01, 0x12, 0x00, 0x00, 0x12]

theorem handleAtt_threads (c : Conn) (att : List UInt8) : Threads (c.handleAtt att) := by
  cases att with
  | nil => exact .pass c
  | cons op rest =>
    unfold handleAtt
    refine .ite (.after _ fun c' => .pass c') (.ite (.after _ fun c' => .report c' (ConnEvent.onto_of_ne (by decide))) ?_)
    refine .ite ?_ (.ite ?_ (.after _ fun rsp => .pass _))
    -- a write request, answered by its outcome
    · refine .congr (c.attWrite_then_threads (op :: rest) fun answer c' =>
        c'.queueAtt (writeResponse answer)) ?_
      intro before
      refine congrArg (c.attWrite (op :: rest) before >>= ·) (funext ?_)
      rintro ⟨answer, c', result⟩
      cases answer <;> rfl
    -- a write command
    · exact c.attWrite_then_threads (op :: rest) fun _ c' => c'

theorem reassemble_threads (c : Conn) (body : List UInt8) :
    Threads (c.reassemble handleAtt body) := by
  unfold reassemble
  refine .after _ fun room => .after _ fun rxL2cap => .ite (.after _ fun msg => ?_) (.pass _)
  exact (handleAtt_threads _ msg).bind fun c' => .pass { c' with rxL2capLen := 0 }

theorem rxCocSdu_threads (c : Conn) (body : List UInt8) : Threads (c.rxCocSdu body) := by
  unfold rxCocSdu
  cases c.coc with
  | none => exact .pass c
  | some coc => exact .ite (.pass c) (.after _ fun coc' => .ite (.report _ (ConnEvent.onto_of_ne (by decide))) (.pass _))

/-- **A data PDU puts its own result on top of the one before.** -/
theorem handleL2cap_threads (hw : Hw) (c : Conn) (payload : List UInt8) (llid : UInt8) :
    Threads (c.handleL2cap hw payload llid) := by
  unfold handleL2cap handleL2capWith startMessage
  refine .ite (.ite (.pass c) ?_) (reassemble_threads c payload)
  refine .after _ fun msgLen => .after _ fun cid => .after _ fun body => ?_
  refine .ite (.pass _) (.ite (.after _ fun c' => .pass _) (.ite (reassemble_threads _ body) ?_))
  exact .ite (rxCocSdu_threads _ body) (.report _ (ConnEvent.onto_of_ne (by simp)))

/-- **Handling a PDU**: what is logged and what is left does not depend on the result so far, and the
    PDU's own result is put on top of that. -/
theorem slaveHandle_threads (hw : Hw) (c : Conn) (tag : Nat) (pdu : DataPdu) (before : ConnEvent) :
    c.slaveHandle hw tag pdu before = ⟨(c.slaveHandle hw tag pdu .idle).log,
      (c.slaveHandle hw tag pdu .idle).res >>= fun r => .ok (r.1.map (·.onto before), r.2)⟩ := by
  rcases slaveHandle_cases hw c tag pdu with hx | ⟨op, rest, hx⟩ | hx <;> rw [hx, hx]
  · rfl
  · cases ((c.acknowledge pdu.sn).handleLlControl hw (op :: rest)).res with
    | error p => rfl
    | ok r =>
      obtain ⟨answer, c'⟩ := r
      cases answer <;> rfl
  · rw [handleL2cap_threads hw _ _ _ before]
    cases (c.acknowledge pdu.sn).handleL2cap hw (pdu.payload.take 64) pdu.llid .idle <;> rfl

end Conn

/-! ## Reading the log of an event -/

/-- The PDU an action accepts, with the state it is handled in and its tag. -/
def Act.accepted : Act → Option (Conn × Nat × DataPdu)
  | .accept c tag pdu => some (c, tag, pdu)
  | _ => none

/-- The PDUs accepted in a log, in order. -/
def acceptedPdus (log : List Act) : List (Conn × Nat × DataPdu) := log.filterMap Act.accepted

/-- The result of a PDU's own, if handling it gives one. -/
def ownResult (hw : Hw) (p : Conn × Nat × DataPdu) : Option ConnEvent :=
  match (p.1.slaveHandle hw p.2.1 p.2.2 .idle).res with
  | .ok (.ok evt, _) => if evt = .idle then none else some evt
  | _ => none

/-- The results the accepted PDUs gave, in order. -/
def results (hw : Hw) (log : List Act) : List ConnEvent := (acceptedPdus log).filterMap (ownResult hw)

/-- The last of these results, or the one before them. -/
def lastResult (hw : Hw) (log : List Act) (before : ConnEvent) : ConnEvent :=
  (results hw log).getLast?.getD before

theorem acceptedPdus_append (log acts : List Act) :
    acceptedPdus (log ++ acts) = acceptedPdus log ++ acceptedPdus acts := List.filterMap_append

theorem results_append (hw : Hw) (log acts : List Act) :
    results hw (log ++ acts) = results hw log ++ results hw acts := by
  unfold results
  rw [acceptedPdus_append, List.filterMap_append]

theorem lastResult_append (hw : Hw) (log acts : List Act) (before : ConnEvent) :
    lastResult hw (log ++ acts) before = lastResult hw acts (lastResult hw log before) := by
  unfold lastResult
  rw [results_append, List.getLast?_append]
  cases (results hw acts).getLast? <;> rfl

/-- The PDU an action sends, unless it is a control PDU that is answered at once. -/
def Act.answer : Act → Option TxRec
  | .tx t => if t.kind = .control then none else some t
  | _ => none

theorem Act.answer_control {t : TxRec} (h : t.kind = .control) : Act.answer (.tx t) = none := if_pos h

theorem handleLlControl_silent (hw : Hw) (c : Conn) (payload : List UInt8) :
    Logged.Silent Act.accepted (c.handleLlControl hw payload) ∧
      Logged.Silent Act.answer (c.handleLlControl hw payload) := by
  unfold Logged.Silent
  obtain ⟨hlog, _⟩ := c.handleLlControl_spec hw payload
  rcases hlog with ⟨hlog, _⟩ | ⟨t, hlog, hsent⟩
  · rw [hlog]
    exact ⟨rfl, rfl⟩
  · have hkind : t.kind = .control := hsent.elim (fun h => h.2.2.kind) (fun h => h.2.kind)
    rw [hlog]
    exact ⟨rfl, List.filterMap_cons_none (Act.answer_control hkind)⟩

/-- Handling a PDU logs that one PDU, and sends no answer. -/
theorem slaveHandle_log (hw : Hw) (c : Conn) (tag : Nat) (pdu : DataPdu) (before : ConnEvent) :
    acceptedPdus (c.slaveHandle hw tag pdu before).log = [(c, tag, pdu)] ∧
      Logged.Silent Act.answer (c.slaveHandle hw tag pdu before) := by
  rcases Conn.slaveHandle_cases hw c tag pdu with hx | ⟨op, rest, hx⟩ | hx <;> rw [hx]
  · exact ⟨rfl, rfl⟩
  · obtain ⟨haccepted, hanswer⟩ := handleLlControl_silent hw (c.acknowledge pdu.sn) (op :: rest)
    exact ⟨congrArg ((c, tag, pdu) :: ·) haccepted, hanswer⟩
  · exact ⟨rfl, rfl⟩

/-! ## The response -/

/-- The cipher encrypts whatever it is given. -/
def Hw.Encrypts (hw : Hw) : Prop := ∀ cfg buf, (hw.crypt false cfg buf).2 = false

namespace Conn

variable {hw : Hw}

/-- What goes through `tx` is on the air, or there is no room for it and for the code behind it. -/
theorem tx_on_air (hcipher : hw.Encrypts) (c : Conn) (kind : TxKind) (len : Nat) :
    (len + (if c.encrypted then llMicLen else 0) ≤ 64 ∧
      ∃ t c', c.tx hw kind len = ⟨[.tx t], .ok c'⟩ ∧ t.kind = kind ∧ t.air.isSome = true) ∨
    (64 < len + (if c.encrypted then llMicLen else 0) ∧ ∃ p, (c.tx hw kind len).res = .error p) := by
  unfold tx
  by_cases henc : c.encrypted = true
  · simp only [if_pos henc]
    have hr : ((Ccm.setup c.smp.stk c.packetCounter c.txDirection).process hw false c.txBuf).1 =
        true := by
      unfold Ccm.process
      dsimp only
      rw [hcipher]
      rfl
    rw [if_neg (by rw [hr]; decide)]
    rcases Nat.lt_or_ge 64 (len + llMicLen) with hgt | hle
    · refine .inr ⟨hgt, ?_⟩
      rw [Logged.emit_bind]
      cases hup : Buf.upto _ (len + llMicLen) with
      | error p => exact ⟨p, rfl⟩
      | ok air => exact absurd ((Buf.returns_upto _).mp ⟨air, hup⟩) (by omega)
    · refine .inl ⟨hle, ?_⟩
      rw [Buf.upto_of_le _ hle]
      exact ⟨_, _, rfl, rfl, rfl⟩
  · simp only [if_neg henc, Nat.add_zero]
    rcases Nat.lt_or_ge 64 len with hgt | hle
    · refine .inr ⟨hgt, ?_⟩
      unfold transmitRaw
      cases hup : c.txBuf.upto len with
      | error p => exact ⟨p, rfl⟩
      | ok air => exact absurd ((Buf.returns_upto _).mp ⟨air, hup⟩) (by omega)
    · refine .inl ⟨hle, ?_⟩
      rw [transmitRaw_of_le c kind hle]
      exact ⟨_, _, rfl, rfl, rfl⟩

theorem tx_short_on_air (hcipher : hw.Encrypts) (c : Conn) (kind : TxKind) {len : Nat}
    (h : len + llMicLen ≤ 64) :
    ∃ t c', c.tx hw kind len = ⟨[.tx t], .ok c'⟩ ∧ t.kind = kind ∧ t.air.isSome = true := by
  rcases c.tx_on_air hcipher kind len with ⟨_, hair⟩ | ⟨hgt, _⟩
  · exact hair
  · split at hgt <;> omega

/-- The response an event chooses in this state fits the buffer: if it is a fragment, that can be
    built, and on an encrypted link there is room for the code behind it. -/
def ResponseFits (c : Conn) : Prop :=
  c.pendingControl = none → c.txPending = true →
    c.FragFits ∧ (c.encrypted = true → c.fragPayload.length ≤ 58)

/-- `t` went on the air as the response of an event. -/
structure Response (t : TxRec) : Prop where
  control : t.kind ≠ .control
  terminate : t.kind ≠ .terminate
  air : t.air.isSome = true

/-- **What `respond` comes to**: a response on the air if it fits, and a panic if it does not. -/
theorem respond_on_air (hcipher : hw.Encrypts) (c : Conn) :
    (c.ResponseFits ∧ ∃ t c', c.respond hw = ⟨[.tx t], .ok c'⟩ ∧ Response t) ∨
    (¬ c.ResponseFits ∧ ∃ p, (c.respond hw).res = .error p) := by
  have hmic : llMicLen = 4 := rfl
  unfold respond
  split
  · rename_i ctrl hctrl
    obtain ⟨b, hb, _⟩ := ((c.txBuf.set 0 (c.txHeader llidControl)).set 1 18).write_of_le
      (show 2 + (ctrl.bytes.take 18).length ≤ 64 by rw [List.length_take, ctrl.size]; omega)
    dsimp only
    rw [hb, Logged.lift_ok_bind]
    refine .inl ⟨fun hnone => ?_, ?_⟩
    · rw [hctrl] at hnone; cases hnone
    · obtain ⟨t, c', htx, hkind, hair⟩ := tx_short_on_air hcipher
        { c with pendingControl := none, txBuf := b } .pendingControl (show 20 + llMicLen ≤ 64 by decide)
      exact ⟨t, c', htx, ⟨by rw [hkind]; decide, by rw [hkind]; decide, hair⟩⟩
  · rename_i hnone
    split
    · rename_i hpending
      by_cases hfits : c.FragFits
      · obtain ⟨b, hok, _⟩ := txFragment_ok hfits
        rw [hok, Logged.lift_ok_bind]
        dsimp only
        have hlen := hfits.payload
        rw [← hfits.payload_length] at hlen
        have henc : (c.afterFragment b).encrypted = c.encrypted := rfl
        rcases tx_on_air hcipher { c.afterFragment b with sn := !(c.afterFragment b).sn } .fragment
          (2 + c.fragPayload.length) with ⟨hle, t, c', htx, hkind, hair⟩ | ⟨hgt, hpanic⟩
        · refine .inl ⟨fun _ _ => ⟨hfits, fun h => ?_⟩, t, c', htx,
            ⟨by rw [hkind]; decide, by rw [hkind]; decide, hair⟩⟩
          dsimp only at hle
          rw [henc, if_pos h] at hle
          omega
        · refine .inr ⟨fun hroom => ?_, hpanic⟩
          have h58 := (hroom hnone hpending).2
          dsimp only at hgt
          rw [henc] at hgt
          split at hgt
          · rename_i h
            have := h58 h
            omega
          · omega
      · refine .inr ⟨fun hroom => hfits (hroom hnone hpending).1, ?_⟩
        cases hf : c.txFragment with
        | error p => exact ⟨p, rfl⟩
        | ok r => exact absurd (fragFits_of_ok hf) hfits
    · rename_i hidle
      refine .inl ⟨fun _ hpending => absurd hpending hidle, ?_⟩
      obtain ⟨t, c', htx, hkind, hair⟩ := tx_short_on_air hcipher
        { c with txBuf := (c.txBuf.set 0 (c.txHeader llidDataComplete)).set 1 0 } .empty
        (show 2 + llMicLen ≤ 64 by decide)
      exact ⟨t, c', htx, ⟨by rw [hkind]; decide, by rw [hkind]; decide, hair⟩⟩

end Conn

/-! ## The listening loop -/

/-- Every window the loop listens in brings a PDU that is handled and does not end the link, up to one
    that announces no more data or the fourth; the connection gets from the first state to the
    second. -/
inductive Unbroken (hw : Hw) : List Window → Nat → Conn → Conn → Prop
  | last {w : Window} {ws : List Window} {handled : Nat} {c c₁ c₂ : Conn} {pdu : DataPdu}
      {evt : ConnEvent} (heard : c.listen hw w.rx = .ok (some (.ok pdu), c₁))
      (handles : (Conn.slaveHandle hw { c₁ with lastRx := w.now } w.rx.tag pdu .idle).res =
        .ok (.ok evt, c₂))
      (stop : pdu.md = false ∨ handled + 1 ≥ 4) : Unbroken hw (w :: ws) handled c c₂
  | more {w : Window} {ws : List Window} {handled : Nat} {c c₁ c₂ d : Conn} {pdu : DataPdu}
      {evt : ConnEvent} (heard : c.listen hw w.rx = .ok (some (.ok pdu), c₁))
      (handles : (Conn.slaveHandle hw { c₁ with lastRx := w.now } w.rx.tag pdu .idle).res =
        .ok (.ok evt, c₂))
      (goOn : pdu.md = true ∧ handled + 1 < 4) (rest : Unbroken hw ws (handled + 1) c₂ d) :
      Unbroken hw (w :: ws) handled c d

section Loop

variable {hw : Hw}

/-- The result after a PDU that was handled. -/
theorem lastResult_slaveHandle {c c' : Conn} {tag : Nat} {pdu : DataPdu} {evt : ConnEvent}
    (handles : (c.slaveHandle hw tag pdu .idle).res = .ok (.ok evt, c')) (before : ConnEvent) :
    lastResult hw (c.slaveHandle hw tag pdu .idle).log before = evt.onto before := by
  unfold lastResult results
  rw [(slaveHandle_log hw c tag pdu .idle).1, List.filterMap_cons, List.filterMap_nil]
  unfold ownResult
  dsimp only
  rw [handles]
  cases evt <;> rfl

/-- One round of the loop. -/
theorem slaveLoop_round {w : Window} {c c₁ c₂ : Conn} {pdu : DataPdu} {evt : ConnEvent}
    (heard : c.listen hw w.rx = .ok (some (.ok pdu), c₁))
    (handles : (Conn.slaveHandle hw { c₁ with lastRx := w.now } w.rx.tag pdu .idle).res =
      .ok (.ok evt, c₂)) (ws : List Window) (handled : Nat) (before : ConnEvent) :
    Conn.slaveLoop hw (w :: ws) handled before c =
      (if !pdu.md || handled + 1 ≥ 4 then pure (.done (evt.onto before), c₂)
        else Conn.slaveLoop hw ws (handled + 1) (evt.onto before) c₂).prepend
          (Conn.slaveHandle hw { c₁ with lastRx := w.now } w.rx.tag pdu .idle).log := by
  rw [Conn.slaveLoop, heard, Logged.lift_ok_bind]
  dsimp only
  rw [Conn.slaveHandle_threads, handles, ok_bind]
  rfl

/-- **An unbroken loop comes to its end**, with the result of the last PDU that gave one. -/
theorem Unbroken.done {ws : List Window} {handled : Nat} {c d : Conn}
    (h : Unbroken hw ws handled c d) (before : ConnEvent) :
    ∃ log, Conn.slaveLoop hw ws handled before c = ⟨log, .ok (.done (lastResult hw log before), d)⟩ := by
  induction h generalizing before with
  | @last w _ _ _ c₁ _ pdu _ heard handles stop =>
    refine ⟨(Conn.slaveHandle hw { c₁ with lastRx := w.now } w.rx.tag pdu .idle).log, ?_⟩
    rw [slaveLoop_round heard handles, if_pos (by simpa using stop), Logged.pure_eq_mk,
      Logged.prepend_mk, List.append_nil, lastResult_slaveHandle handles]
  | @more w _ _ _ c₁ _ _ pdu evt heard handles goOn _ ih =>
    obtain ⟨log, hlog⟩ := ih (evt.onto before)
    refine ⟨(Conn.slaveHandle hw { c₁ with lastRx := w.now } w.rx.tag pdu .idle).log ++ log, ?_⟩
    rw [slaveLoop_round heard handles, if_neg (by simp [goOn.1]; omega), hlog, Logged.prepend_mk,
      lastResult_append, lastResult_slaveHandle handles]

/-- A loop that comes to its end was unbroken: by induction on the windows. -/
theorem unbroken_of_done {ws : List Window} {handled : Nat} {before evt : ConnEvent} {c d : Conn}
    (h : (Conn.slaveLoop hw ws handled before c).res = .ok (.done evt, d)) :
    Unbroken hw ws handled c d := by
  have hown : ∀ {c c' : Conn} {tag : Nat} {pdu : DataPdu} {before result : ConnEvent},
      (c.slaveHandle hw tag pdu before).res = .ok (.ok result, c') →
        ∃ own, (c.slaveHandle hw tag pdu .idle).res = .ok (.ok own, c') := by
    intro c c' tag pdu before result h
    rw [Conn.slaveHandle_threads] at h
    obtain ⟨⟨own, c₁⟩, handles, heq⟩ := bind_eq_ok.mp h
    cases own <;> cases heq
    exact ⟨_, handles⟩
  induction ws generalizing handled before c with
  | nil => cases h
  | cons w ws ih =>
    cases Conn.slaveLoop_cases h with
    | last heard handles stop =>
      obtain ⟨own, handles⟩ := hown handles
      exact .last heard handles stop
    | next heard handles goOn rest =>
      obtain ⟨own, handles⟩ := hown handles
      exact .more heard handles goOn (ih rest)

/-- The loop sends no answer: by induction on the windows. -/
theorem slaveLoop_silent (hw : Hw) (ws : List Window) (handled : Nat) (before : ConnEvent) (c : Conn) :
    Logged.Silent Act.answer (Conn.slaveLoop hw ws handled before c) := by
  induction ws generalizing handled before c with
  | nil => exact .pure _
  | cons w ws ih =>
    refine .bind (.lift _) ?_
    rintro ⟨got, c₁⟩
    dsimp only
    split
    · exact .pure _
    · exact .pure _
    · rename_i pdu
      refine .bind (slaveHandle_log hw _ w.rx.tag pdu before).2 ?_
      rintro ⟨step, c₂⟩
      dsimp only
      split
      · exact .pure _
      · split
        · exact .pure _
        · exact ih _ _ _

end Loop

/-! ## The event -/

namespace Conn

variable {hw : Hw}

/-- Only the host asks for a termination. -/
theorem slaveHandle_terminatePending {c c' : Conn} {tag : Nat} {pdu : DataPdu} {before : ConnEvent}
    {step : Except DisconnectReason ConnEvent}
    (h : (c.slaveHandle hw tag pdu before).res = .ok (step, c')) :
    c'.terminatePending = c.terminatePending := by
  have hack : (c.acknowledge pdu.sn).terminatePending = c.terminatePending := by
    rw [acknowledge_eq]
  rcases slaveHandle_cases hw c tag pdu with hx | ⟨op, rest, hx⟩ | hx <;> rw [hx] at h
  · cases h; exact hack
  · obtain ⟨⟨answer, c₁⟩, hc, h⟩ := bind_eq_ok.mp h
    have hflag := congrArg Conn.terminatePending ((handleLlControl_spec hw _ _).2 answer c₁ hc).frame
    cases h; exact hflag.trans hack
  · obtain ⟨⟨c₁, r⟩, hrun, h⟩ := bind_eq_ok.mp h
    have hflag := congrArg Link.terminatePending (handleL2cap_effect hrun).link
    cases h; exact hflag.trans hack

/-- The termination PDU is on the air, and the event reports that the host ended the link. -/
theorem sendTerminate_on_air (c : Conn) : ∃ t c',
    c.sendTerminate = ⟨[.terminate c, .tx t], .ok (.ok (.disconnected .hostTerminate), c')⟩ ∧
      t.kind = .terminate ∧ t.air.isSome = true := by
  unfold sendTerminate
  dsimp only
  rw [transmitRaw_of_le _ _ (by omega)]
  exact ⟨_, _, rfl, rfl, rfl⟩

end Conn

/-- The PDU ends the link. -/
def DataPdu.EndsLink (pdu : DataPdu) : Prop :=
  pdu.llid = llidControl ∧ pdu.payload.head? = some llControlTerminateInd

instance DataPdu.decidableEndsLink (pdu : DataPdu) : Decidable pdu.EndsLink :=
  inferInstanceAs (Decidable (_ ∧ _))

/-- The event accepted and handled a PDU, and none that ended the link. -/
structure TookPdu (hw : Hw) (c : Conn) (ws : List Window) : Prop where
  handled : ∃ p ∈ acceptedPdus (c.event hw ws).log, Returns (p.1.slaveHandle hw p.2.1 p.2.2 .idle).res
  stays : ∀ p ∈ acceptedPdus (c.event hw ws).log, ¬ p.2.2.EndsLink

/-- The event returns a result, and the last thing it does before is to put its response on the
    air. -/
structure Responds (hw : Hw) (c : Conn) (ws : List Window) (log : List Act) (t : TxRec)
    (evt : ConnEvent) : Prop where
  returns : ∃ d, c.event hw ws = ⟨log ++ [.tx t], .ok (.ok evt, d)⟩
  response : t.kind ≠ .control
  air : t.air.isSome = true

/-- The event answers: with `LL_TERMINATE_IND`, which it reports, or with what `respond` sends, and
    then it reports the last result a PDU gave. -/
def Answers (hw : Hw) (c : Conn) (ws : List Window) : Prop :=
  ∃ log t evt, Responds hw c ws log t evt ∧
    evt = if t.kind = .terminate then .disconnected .hostTerminate else lastResult hw log .idle

/-- The event answers, and reports the last result a PDU gave also when it answers with
    `LL_TERMINATE_IND`. -/
def AnswersWithResult (hw : Hw) (c : Conn) (ws : List Window) : Prop :=
  ∃ log t evt, Responds hw c ws log t evt ∧ ∀ last, (results hw log).getLast? = some last → evt = last

/-- The event listens without a break, and can answer. -/
def AllHeard (hw : Hw) (c : Conn) (ws : List Window) : Prop :=
  ∃ c' d, c.beginEvent = .ok c' ∧ Unbroken hw ws 0 c' d ∧
    (c.terminatePending = true ∨ d.ResponseFits)

section Event

variable {hw : Hw} {c : Conn} {ws : List Window}

theorem Unbroken.terminatePending {handled : Nat} {d : Conn} (h : Unbroken hw ws handled c d) :
    d.terminatePending = c.terminatePending := by
  have hheard : ∀ {c c₁ : Conn} {r : Reception} {got : Option (Except Error DataPdu)},
      c.listen hw r = .ok (got, c₁) → c₁.terminatePending = c.terminatePending := by
    intro c c₁ r got heard
    rw [Conn.listen_frame heard]
  induction h with
  | last heard handles _ =>
    have hhandled := Conn.slaveHandle_terminatePending handles
    have hlistened := hheard heard
    exact hhandled.trans hlistened
  | more heard handles _ _ ih =>
    have hhandled := Conn.slaveHandle_terminatePending handles
    have hlistened := hheard heard
    exact ih.trans (hhandled.trans hlistened)

/-- **An event that listens without a break answers.** -/
theorem responds_of_allHeard (hcipher : hw.Encrypts) (hslave : c.role = .slave)
    (h : AllHeard hw c ws) : ∃ log t, (t.kind = .terminate ↔ c.terminatePending = true) ∧
      Responds hw c ws log t
        (if c.terminatePending then .disconnected .hostTerminate else lastResult hw log .idle) := by
  obtain ⟨c', d, hb, hun, hfits⟩ := h
  obtain ⟨log, hloop⟩ := hun.done .idle
  have hbegin := congrArg Conn.terminatePending (Conn.beginEvent_frame hb)
  have hpending : d.terminatePending = c.terminatePending := hun.terminatePending.trans hbegin
  have hevent : c.event hw ws = ((if d.terminatePending then d.sendTerminate else
      d.respond hw >>= fun d' => pure (.ok (lastResult hw log .idle), d')).prepend log).prepend
        [.tick c] := by
    rw [Conn.event_slave hslave hb, Conn.eventSlave, hloop, Logged.mk_ok_bind]
  rw [hpending] at hevent
  by_cases hterm : c.terminatePending = true
  · obtain ⟨t, c₁, hsend, hkind, hair⟩ := d.sendTerminate_on_air
    rw [if_pos hterm, hsend] at hevent
    refine ⟨.tick c :: (log ++ [.terminate d]), t, iff_of_true hkind hterm, ⟨c₁, ?_⟩,
      by rw [hkind]; decide, hair⟩
    rw [hevent, if_pos hterm]
    simp
  · rcases d.respond_on_air hcipher with ⟨_, t, c₁, hsend, hresponse⟩ | ⟨hnot, _⟩
    · rw [if_neg hterm, hsend] at hevent
      refine ⟨.tick c :: log, t, iff_of_false hresponse.terminate hterm, ⟨c₁, ?_⟩,
        hresponse.control, hresponse.air⟩
      rw [hevent, if_neg hterm]
      rfl
    · exact absurd (hfits.resolve_left hterm) hnot

theorem Responds.not_silent {log : List Act} {t : TxRec} {evt : ConnEvent}
    (h : Responds hw c ws log t evt) : ¬ Logged.Silent Act.answer (c.event hw ws) := by
  obtain ⟨⟨d, hevent⟩, hkind, _⟩ := h
  unfold Logged.Silent
  rw [hevent, List.filterMap_append]
  intro hnone
  have hlast := (List.append_eq_nil_iff.mp hnone).2
  rw [List.filterMap_cons_some (show Act.answer (.tx t) = some t from if_neg hkind)] at hlast
  cases hlast

/-- **An event that answers listened without a break**: otherwise all it sent were control PDUs that
    are answered at once. -/
theorem allHeard_of_responds (hcipher : hw.Encrypts) (hslave : c.role = .slave) {log : List Act}
    {t : TxRec} {evt : ConnEvent} (h : Responds hw c ws log t evt) : AllHeard hw c ws := by
  have hanswer := h.not_silent
  obtain ⟨⟨e, hevent⟩, _, _⟩ := h
  have hres := congrArg Logged.res hevent
  cases hb : c.beginEvent with
  | error p =>
    rw [Conn.event_stuck hb] at hres
    cases hres
  | ok c' =>
    have hbegin := congrArg Conn.terminatePending (Conn.beginEvent_frame hb)
    have hquiet := slaveLoop_silent hw ws 0 .idle c'
    unfold Logged.Silent at hanswer hquiet
    rw [Conn.event_slave hslave hb] at hanswer hres
    unfold Conn.eventSlave at hanswer hres
    cases hloop : (Conn.slaveLoop hw ws 0 .idle c').res with
    | error p =>
      rw [Logged.bind_of_error hloop] at hres
      cases hres
    | ok r =>
      obtain ⟨fin, d⟩ := r
      rw [Logged.bind_of_ok hloop] at hanswer hres
      -- a loop that did not come to its end leaves nothing to send
      have hsilent : (Act.tick c :: ((Conn.slaveLoop hw ws 0 .idle c').log ++ [])).filterMap
          Act.answer = [] := by
        rw [List.append_nil, List.filterMap_cons_none rfl, hquiet]
      cases fin with
      | silent => exact absurd hsilent hanswer
      | invalid => cases hres
      | disconnected reason => exact absurd hsilent hanswer
      | done result =>
        have hun := unbroken_of_done hloop
        refine ⟨c', d, hb, hun, ?_⟩
        by_cases hterm : d.terminatePending = true
        · exact .inl ((hun.terminatePending.trans hbegin).symm.trans hterm)
        · right
          rcases d.respond_on_air hcipher with ⟨hfits, _⟩ | ⟨_, p, hp⟩
          · exact hfits
          · dsimp only [Logged.prepend] at hres
            rw [if_neg hterm, Logged.bind_of_error hp] at hres
            cases hres

/-- **When an event answers.** -/
theorem answers_iff (hcipher : hw.Encrypts) (hslave : c.role = .slave) :
    Answers hw c ws ↔ AllHeard hw c ws := by
  constructor
  · rintro ⟨log, t, evt, hresponds, _⟩
    exact allHeard_of_responds hcipher hslave hresponds
  · intro h
    obtain ⟨log, t, hkind, hresponds⟩ := responds_of_allHeard hcipher hslave h
    exact ⟨log, t, _, hresponds, if_congr hkind.symm rfl rfl⟩

/-- A result of a PDU's own does not say that the link ended. -/
theorem ownResult_open {p : Conn × Nat × DataPdu} {evt : ConnEvent} (h : ownResult hw p = some evt) :
    Conn.Open evt := by
  unfold ownResult at h
  split at h
  · rename_i own c' hres
    split at h
    · cases h
    · cases h
      exact (Conn.slaveHandle_outcome Conn.open_idle hres).2.1 evt rfl
  · cases h

/-- **When it reports the last result in every case.** -/
theorem answersWithResult_iff (hcipher : hw.Encrypts) (hslave : c.role = .slave) :
    AnswersWithResult hw c ws ↔ AllHeard hw c ws ∧
      (c.terminatePending = true → results hw (c.event hw ws).log = []) := by
  have hresults : ∀ {log t evt}, Responds hw c ws log t evt →
      results hw (c.event hw ws).log = results hw log := by
    rintro log t evt ⟨⟨d, hevent⟩, _, _⟩
    rw [hevent, results_append]
    exact List.append_nil _
  constructor
  · rintro ⟨log, t, evt, hresponds, hlast⟩
    have hall := allHeard_of_responds hcipher hslave hresponds
    refine ⟨hall, ?_⟩
    intro hterm
    rw [hresults hresponds]
    -- it reports that the host ended the link, which is no result of a PDU
    have hevt : evt = .disconnected .hostTerminate := by
      obtain ⟨log', t', _, hresponds'⟩ := responds_of_allHeard hcipher hslave hall
      obtain ⟨d, hevent⟩ := hresponds.returns
      obtain ⟨d', hevent'⟩ := hresponds'.returns
      rw [hevent, if_pos hterm] at hevent'
      cases congrArg Logged.res hevent'
      rfl
    cases hget : (results hw log).getLast? with
    | none => exact List.getLast?_eq_none_iff.mp hget
    | some last =>
      obtain ⟨p, _, hown⟩ := List.mem_filterMap.mp (List.mem_of_getLast? hget)
      exact absurd ((hlast last hget).symm.trans hevt) (ownResult_open hown .hostTerminate)
  · rintro ⟨h, hnone⟩
    obtain ⟨log, t, _, hresponds⟩ := responds_of_allHeard hcipher hslave h
    refine ⟨log, t, _, hresponds, ?_⟩
    intro last hlast
    by_cases hterm : c.terminatePending = true
    · rw [← hresults hresponds, hnone hterm] at hlast
      cases hlast
    · rw [if_neg hterm, lastResult, hlast]
      rfl

end Event

/-- **A slave event answers what it accepted iff it listens without a break.**  For every state of a
    slave and everything its windows may bring: if the event accepts and handles a PDU, and none that
    ends the link, it puts its response on the air and reports the last result a PDU gave — or, with a
    termination due, `LL_TERMINATE_IND` and that — iff every window it listens in brings a PDU, up to
    one that announces no more or the fourth, each handler returns, and the response fits its buffer.

    Taken by the letter, it is to report the last result with `LL_TERMINATE_IND` as well, and does so
    iff besides no PDU gives one when a termination is due. -/
theorem event_answers_iff (hw : Hw) (hcipher : hw.Encrypts) (c : Conn) (ws : List Window)
    (hslave : c.role = .slave) :
    ((TookPdu hw c ws → Answers hw c ws) ↔ (TookPdu hw c ws → AllHeard hw c ws)) ∧
    ((TookPdu hw c ws → AnswersWithResult hw c ws) ↔ (TookPdu hw c ws → AllHeard hw c ws ∧
      (c.terminatePending = true → results hw (c.event hw ws).log = []))) :=
  ⟨imp_congr_right fun _ => answers_iff hcipher hslave,
    imp_congr_right fun _ => answersWithResult_iff hcipher hslave⟩

/-- The stand-in's cipher raises no error when it encrypts. -/
theorem Hw.standIn_encrypts : Hw.standIn.Encrypts := by
  intro cfg buf
  show (if buf.bytes.getD 1 0 = 0 then (buf, false) else (buf.set 1 (buf.bytes.getD 1 0 + 4), false)).2 =
    false
  split <;> rfl

/-- The connection of the repository's own tests, on an encrypted link. -/
def encryptedSlave : Conn := { Conn.sample .slave with encrypted := true }

/-- A ping that announces more data, and an empty PDU that does not. -/
def pingThenEmpty : List Window :=
  [Window.of 7 [0x12, 8, llControlPingReq, 0, 0, 0] (by decide), Window.of 8 [0x01, 0] (by decide)]

/-- Both are heard: the event answers the ping and reports it. -/
theorem event_answers_ping :
    TookPdu Hw.standIn encryptedSlave pingThenEmpty ∧
      Answers Hw.standIn encryptedSlave pingThenEmpty := by
  have htook : TookPdu Hw.standIn encryptedSlave pingThenEmpty :=
    ⟨by decide +kernel, by decide +kernel⟩
  refine ⟨htook, (event_answers_iff Hw.standIn Hw.standIn_encrypts encryptedSlave pingThenEmpty
    rfl).1.mpr (fun _ => ?_) htook⟩
  refine ⟨_, _, rfl, .more rfl rfl ⟨rfl, by decide⟩ (.last rfl rfl (.inl rfl)), .inr ?_⟩
  intro hnone
  cases hnone

/-- An empty PDU that announces more data, and nothing behind it: the event returns `Idle` and sends
    nothing. -/
theorem event_silent_after_more :
    let ws := [Window.of 7 [0x11, 0] (by decide), ⟨.timeout, 0⟩]
    TookPdu Hw.standIn (Conn.sample .slave) ws ∧ ¬ Answers Hw.standIn (Conn.sample .slave) ws := by
  refine ⟨⟨by decide +kernel, by decide +kernel⟩, ?_⟩
  rintro ⟨log, t, evt, ⟨⟨d, hevent⟩, _, _⟩, _⟩
  have hsent := congrArg (fun x => x.log.getLast?.bind Act.sent) hevent
  rw [List.getLast?_concat] at hsent
  cases hsent

end NrfBle
