/-
  The life cycle of a connection, as the application sees it: `Connected` and `Disconnected` events.

  The stack has room for ONE connection, and none of the three places that touch it looks whether
  there is one: a `CONNECT_REQ` received while advertising and one sent while scanning replace the
  connection they find, and `conn_tick` reports a `Disconnected` also when it finds none.

  So the events alternate in a run iff every one of its moves was CALM: it found no connection where it
  opened one, and one where it drove it (`alternates_iff_calm`).  The invariant that carries the
  induction: after calm moves, the connection is open iff the number of events is odd.
-/
import Mathlib.Tactic
import NrfBle.Hw.Ble.Run

namespace NrfBle

open Checked

/-- What a history did, from the first move on. -/
def actsOf : List Move → List BleAct
  | [] => []
  | m :: moves => actsOf moves ++ m.log

/-- `Connected` and `Disconnected` strictly alternate, starting with `Connected`. -/
def Alternates (evts : List LinkEvent) : Prop :=
  ∀ (i : Nat) (h : i < evts.length), evts[i] = if i % 2 = 0 then .connected else .disconnected

/-- The move found the link as it expects it. -/
def Move.Calm (m : Move) : Prop :=
  (m.op.opens m.before = true → m.before.conn = none) ∧
    (m.op.isConnTick = true → m.before.conn.isSome)

instance (m : Move) : Decidable m.Calm :=
  inferInstanceAs (Decidable ((m.op.opens m.before = true → m.before.conn = none) ∧
    (m.op.isConnTick = true → m.before.conn.isSome)))

theorem Alternates.nil : Alternates [] := fun i h => by cases h

/-- One more event. -/
theorem alternates_snoc {evts : List LinkEvent} {evt : LinkEvent} :
    Alternates (evts ++ [evt]) ↔
      Alternates evts ∧ evt = if evts.length % 2 = 0 then .connected else .disconnected := by
  constructor
  · intro h
    constructor
    · intro i hi
      have := h i (by rw [List.length_append]; omega)
      rwa [List.getElem_append_left hi] at this
    · have := h evts.length (by simp)
      rwa [List.getElem_concat_length rfl] at this
  · rintro ⟨h, hevt⟩ i hi
    rw [List.length_append, List.length_singleton] at hi
    by_cases hlt : i < evts.length
    · rw [List.getElem_append_left hlt]
      exact h i hlt
    · obtain rfl : i = evts.length := by omega
      rw [List.getElem_concat_length rfl]
      exact hevt

/-- The connection, and the number of link events so far. -/
def InStep (r : Except Panic Ble) (evts : List LinkEvent) : Prop :=
  ∀ b, r = .ok b → (b.conn.isSome ↔ evts.length % 2 = 1)

/-- One move: whether the events still alternate, and whether the connection is still in step. -/
theorem alternates_step {op : BleOp} {b : Ble} {x : Logged BleAct Ble} {evts : List LinkEvent}
    (h : LinkDone op b x) (hin : InStep (.ok b) evts) (halt : Alternates evts) :
    (Alternates (evts ++ linkEvents x.log) ↔ (⟨op, b, x.log⟩ : Move).Calm) ∧
      ((⟨op, b, x.log⟩ : Move).Calm → InStep x.res (evts ++ linkEvents x.log)) := by
  have hparity := hin b rfl
  cases h with
  | opened hop hconn hbonds hlog hdrive =>
    rw [hlog, alternates_snoc]
    have hcalm : ∀ log, (⟨op, b, log⟩ : Move).Calm ↔ b.conn = none := fun log =>
      ⟨fun h => h.1 hop, fun h => ⟨fun _ => h, by rw [hdrive]; rintro ⟨⟩⟩⟩
    rw [hcalm]
    constructor
    · rw [← Option.not_isSome_iff_eq_none, hparity]
      constructor
      · rintro ⟨_, h⟩ hodd
        rw [if_neg (by omega)] at h
        cases h
      · exact fun h => ⟨halt, by rw [if_pos (by omega)]⟩
    · rintro hnone b' ⟨⟩
      rw [hnone] at hparity
      rw [hconn, List.length_append, List.length_singleton]
      have : ¬ evts.length % 2 = 1 := fun h => by cases hparity.mpr h
      exact ⟨fun _ => by omega, fun _ => rfl⟩
  | closed hdrive hconn hlog =>
    rw [hlog, alternates_snoc]
    have hopens : op.opens b = false := by
      cases op <;> first | rfl | cases hdrive
    have hcalm : ∀ log, (⟨op, b, log⟩ : Move).Calm ↔ b.conn.isSome := fun log =>
      ⟨fun h => h.2 hdrive, fun h => ⟨by rw [hopens]; rintro ⟨⟩, fun _ => h⟩⟩
    rw [hcalm, hparity]
    constructor
    · constructor
      · rintro ⟨_, h⟩
        by_contra hodd
        rw [if_pos (by omega)] at h
        cases h
      · exact fun h => ⟨halt, by rw [if_neg (by omega)]⟩
    · rintro hodd b' ⟨⟩
      rw [hconn, List.length_append, List.length_singleton]
      exact ⟨by rintro ⟨⟩, fun h => by omega⟩
  | kept hop hdrive hlink hlog =>
    rw [hlog, List.append_nil]
    refine ⟨⟨fun _ => ⟨by rw [hop]; rintro ⟨⟩, hdrive⟩, fun _ => halt⟩, ?_⟩
    rintro - b' ⟨⟩
    rw [hlink.isSome, ← hparity]
    cases op <;> simp [BleOp.bonded]
  | panicked hdrive hconn hlog =>
    rw [hlog, List.append_nil]
    have hopens : op.opens b = false := by
      cases op <;> first | rfl | cases hdrive
    refine ⟨⟨fun _ => ⟨by rw [hopens]; rintro ⟨⟩, fun _ => hconn⟩, fun _ => halt⟩, ?_⟩
    rintro - b' ⟨⟩

theorem Alternates.of_append {evts evts' : List LinkEvent} (h : Alternates (evts ++ evts')) :
    Alternates evts := by
  intro i hi
  have := h i (by rw [List.length_append]; omega)
  rwa [List.getElem_append_left hi] at this

/-- **The life cycle, in every run**: the events alternate iff no move opened a connection over an open
    one or drove a connection that was not there. -/
theorem alternates_iff_calm {hw : Hw} {moves : List Move} {r : Except Panic Ble} (h : Run hw moves r) :
    Alternates (linkEvents (actsOf moves)) ↔ ∀ m ∈ moves, m.Calm := by
  have hboth : (Alternates (linkEvents (actsOf moves)) ↔ ∀ m ∈ moves, m.Calm) ∧
      ((∀ m ∈ moves, m.Calm) → InStep r (linkEvents (actsOf moves))) := by
    induction h with
    | start =>
      refine ⟨⟨fun _ m hm => (by cases hm), fun _ => .nil⟩, ?_⟩
      rintro - b ⟨⟩
      exact ⟨by rintro ⟨⟩, by rintro ⟨⟩⟩
    | @step moves b op hrun ih =>
      obtain ⟨halt, hin⟩ := ih
      have hdone := linkDone hw op (hrun.bounds b rfl)
      rw [actsOf, linkEvents_append, List.forall_mem_cons]
      by_cases hcalm : ∀ m ∈ moves, m.Calm
      · obtain ⟨hiff, hstep⟩ := alternates_step hdone (hin hcalm) (halt.mpr hcalm)
        exact ⟨hiff.trans ⟨fun h => ⟨h, hcalm⟩, And.left⟩, fun h => hstep h.1⟩
      · -- the events were out of order before
        refine ⟨⟨fun h => absurd (halt.mp h.of_append) hcalm, fun h => absurd h.2 hcalm⟩, ?_⟩
        exact fun h => absurd h.2 hcalm
  exact hboth.1

/-- Advertise until a central connects. -/
def acceptOne : List BleOp :=
  [.advHears (.connectReq (Buf.zero 6) (Buf.zero 6) Ble.connectParams.bytes), .call (.gapAdvStart {} 0)]

/-- After one connection the one event is in order. -/
theorem one_connection_alternates :
    Alternates (linkEvents (actsOf (history Hw.standIn acceptOne).1)) :=
  (alternates_iff_calm (Run.of_history Hw.standIn acceptOne)).mpr (by decide +kernel)

/-- Advertising is started again on an open link, and a second central connects. -/
theorem second_connection_replaces_first :
    linkEvents (actsOf (history Hw.standIn (acceptOne ++ acceptOne)).1) = [.connected, .connected] ∧
      ¬ Alternates (linkEvents (actsOf (history Hw.standIn (acceptOne ++ acceptOne)).1)) := by
  have h : linkEvents (actsOf (history Hw.standIn (acceptOne ++ acceptOne)).1) =
      [.connected, .connected] := by decide +kernel
  refine ⟨h, ?_⟩
  rw [h]
  intro halt
  have := halt 1 (by decide)
  cases this

end NrfBle
