/-
  Connection updates over whole runs (`src/hw/conn.rs`, `Conn::handle_ll_control` and `Conn::event`).

  1. **The PDU** — an `LL_CONNECTION_UPDATE_REQ` is an opcode, a one-byte window size and five 16-bit
     fields.  The handler reads interval, timeout and instant at the offsets 3, 7 and 9; they stand
     at 4, 8 and 10 (`takeUpdate_encode` says what it gets instead).

  2. **The timeline** — `Params.timeline` is what should become of interval, timeout and accumulator
     from event to event when one event takes over an update.  `AppliedOnce` says of the events of a
     log that they follow it, the event being the first whose counter equals the instant.

  3. **The run** — the record `pending_update` is never taken back, so the branch of `event` is
     entered at every event whose counter equals the instant READ, once in 65536 events.  `Elapsed` is
     what a run does to the timing of a connection; `appliedOnce_iff` compares the two.
-/
import Mathlib.Tactic
import NrfBle.Hw.Conn.Run

namespace NrfBle

open Checked

/-! ## The PDU -/

/-- The fields of an `LL_CONNECTION_UPDATE_REQ`. -/
structure UpdateReq where
  winSize : UInt8
  winOffset : UInt16
  interval : UInt16
  latency : UInt16
  timeout : UInt16
  instant : UInt16
  deriving DecidableEq

/-- The low byte of a 16-bit number. -/
def loByte (x : UInt16) : UInt8 := UInt8.ofNat (x.toNat % 256)

/-- The high byte of a 16-bit number. -/
def hiByte (x : UInt16) : UInt8 := UInt8.ofNat (x.toNat / 256 % 256)

theorem ofLe16_bytes (x : UInt16) : ofLe16 (loByte x) (hiByte x) = x := ofLe16_le16 x

/-- Two bytes are those of a number iff they are its low and its high byte. -/
theorem ofLe16_eq_iff {a b : UInt8} {x : UInt16} : ofLe16 a b = x ↔ a = loByte x ∧ b = hiByte x := by
  rw [← ofLe16_inj, ofLe16_bytes]

namespace UpdateReq

/-- The PDU's payload. -/
def encode (u : UpdateReq) : List UInt8 :=
  [llControlConnectionUpdateReq, u.winSize] ++ le16 u.winOffset ++ le16 u.interval ++ le16 u.latency ++
    le16 u.timeout ++ le16 u.instant

theorem encode_length (u : UpdateReq) : u.encode.length = 12 := rfl

/-- Bytes 3 and 4 of the payload. -/
def readInterval (u : UpdateReq) : UInt16 := ofLe16 (hiByte u.winOffset) (loByte u.interval)

/-- Bytes 7 and 8 of the payload. -/
def readTimeout (u : UpdateReq) : UInt16 := ofLe16 (hiByte u.latency) (loByte u.timeout)

/-- Bytes 9 and 10 of the payload. -/
def readInstant (u : UpdateReq) : UInt16 := ofLe16 (hiByte u.timeout) (loByte u.instant)

/-- Reading one byte early makes no difference: the two bytes of each of the three fields are the
    same, and the same as the byte before them. -/
def Aligned (u : UpdateReq) : Prop :=
  (hiByte u.winOffset = loByte u.interval ∧ loByte u.interval = hiByte u.interval) ∧
  (hiByte u.latency = loByte u.timeout ∧ loByte u.timeout = hiByte u.timeout) ∧
  (hiByte u.timeout = loByte u.instant ∧ loByte u.instant = hiByte u.instant)

instance decidableAligned (u : UpdateReq) : Decidable u.Aligned :=
  inferInstanceAs (Decidable (_ ∧ _ ∧ _))

theorem aligned_iff (u : UpdateReq) :
    u.Aligned ↔ u.readInterval = u.interval ∧ u.readTimeout = u.timeout ∧
      u.readInstant = u.instant := by
  unfold Aligned readInterval readTimeout readInstant
  rw [ofLe16_eq_iff, ofLe16_eq_iff, ofLe16_eq_iff]

end UpdateReq

/-- **What the handler parks.** -/
theorem takeUpdate_encode (c : Conn) (u : UpdateReq) :
    c.takeUpdate u.encode = .ok { c with
      pendingUpdate := some (u.readInterval, u.readTimeout)
      pendingUpdateInstant := u.readInstant } := by
  unfold Conn.takeUpdate
  rw [if_pos (show u.encode.length ≥ 10 by rw [u.encode_length]; omega)]
  rfl

/-! ## The timeline -/

/-- What a connection update sets. -/
structure Params where
  interval : UInt16
  timeout : UInt16
  accum : IntervalAccum
  deriving DecidableEq

namespace Params

/-- The parameters with an update taken over, if there is one. -/
def takeOver (p : Params) : Option (UInt16 × UInt16) → Params
  | some (interval, timeout) => ⟨interval, timeout, IntervalAccum.new125ms⟩
  | none => p

/-- The parameters after an event that takes over `u`. -/
def event (p : Params) (u : Option (UInt16 × UInt16)) : Except Panic Params := do
  let p := p.takeOver u
  let (_, accum) ← p.accum.next p.interval
  return { p with accum := accum }

/-- The parameters when event `n` begins, if event number `first` takes over `u` and no other event
    takes over anything. -/
def timeline (p : Params) (first : Nat) (u : UInt16 × UInt16) : Nat → Except Panic Params
  | 0 => return p
  | n + 1 => do
    let p ← p.timeline first u n
    p.event (if n = first then some u else none)

end Params

namespace Conn

/-- The parameters of a connection. -/
def params (c : Conn) : Params := ⟨c.interval, c.timeout, c.accum⟩

/-- The update that the event beginning in this state takes over: `pending_update`, if the counter
    reaches the instant with this event. -/
def applied (c : Conn) : Option (UInt16 × UInt16) :=
  if c.eventCounter + 1 = c.pendingUpdateInstant then c.pendingUpdate else none

/-- What decides about updates: the parameters, the counter and the parked record. -/
structure Timing where
  params : Params
  eventCounter : UInt16
  pendingUpdate : Option (UInt16 × UInt16)
  pendingUpdateInstant : UInt16

/-- The timing is of the link layer's part of a connection. -/
def Timing.ofLink (l : Link) : Timing :=
  ⟨⟨l.interval, l.timeout, l.accum⟩, l.eventCounter, l.pendingUpdate, l.pendingUpdateInstant⟩

/-- The timing of a connection. -/
def timing (c : Conn) : Timing := .ofLink c.link

theorem timing_of_link {c c' : Conn} (h : c'.link = c.link) : c'.timing = c.timing :=
  congrArg Timing.ofLink h

theorem applyUpdate_params (c : Conn) :
    c.applyUpdate.params = c.params.takeOver
      (if c.eventCounter = c.pendingUpdateInstant then c.pendingUpdate else none) := by
  unfold applyUpdate
  split
  · rename_i interval timeout hpending
    rw [hpending]
    split <;> rfl
  · rename_i hpending
    rw [hpending, ite_self]
    rfl

/-- **What the start of an event does to the timing.**  It takes over what `applied` says, and hands
    the interval to the accumulator. -/
theorem beginEvent_timing {c c' : Conn} (h : c.beginEvent = .ok c') :
    c.params.event c.applied = .ok c'.params ∧ c'.eventCounter = c.eventCounter + 1 ∧
      c'.pendingUpdate = c.pendingUpdate ∧ c'.pendingUpdateInstant = c.pendingUpdateInstant := by
  have hframe := beginEvent_frame h
  have hcounter := congrArg Conn.eventCounter hframe
  have hpending := congrArg Conn.pendingUpdate hframe
  have hinstant := congrArg Conn.pendingUpdateInstant hframe
  refine ⟨?_, hcounter, hpending, hinstant⟩
  obtain ⟨⟨ticks, accum⟩, hnext, h⟩ := bind_eq_ok.mp h
  obtain ⟨channel, _, h⟩ := bind_eq_ok.mp h
  have htake := applyUpdate_params { c with
    eventCounter := c.eventCounter + 1
    packetCounter := if c.encrypted then c.packetCounter + 1 else c.packetCounter }
  cases h
  refine bind_eq_ok.mpr ⟨(ticks, accum), ?_, ?_⟩
  · rw [show c.params.takeOver c.applied = _ from htake.symm]
    exact hnext
  · rw [show c.params.takeOver c.applied = _ from htake.symm]
    rfl

end Conn

/-! ## The events of a run -/

/-- The state an event began in. -/
def Act.began : Act → Option Conn
  | .tick c => some c
  | _ => none

/-- The states the events of a log began in, in order. -/
def began (log : List Act) : List Conn := log.filterMap Act.began

/-- The action is a new update: the handler gets a PDU that it parks. -/
def Act.parks : Act → Prop
  | .ctrl _ payload => payload.head? = some llControlConnectionUpdateReq ∧ 11 ≤ payload.length
  | _ => False

instance Act.decidableParks (a : Act) : Decidable a.parks :=
  match a with
  | .ctrl _ payload => inferInstanceAs
      (Decidable (payload.head? = some llControlConnectionUpdateReq ∧ 11 ≤ payload.length))
  | .tick _ | .accept _ _ _ | .l2cap _ _ _ _ | .terminate _ | .bondKey | .tx _ =>
    inferInstanceAs (Decidable False)

/-- From the state `c`, the events that begin in the states `ds` lead to `d`; besides them nothing
    happens to the timing. -/
inductive Elapsed (c : Conn) : List Conn → Conn → Prop
  | start : Elapsed c [] c
  | other {ds : List Conn} {d d' : Conn} : Elapsed c ds d → d'.timing = d.timing → Elapsed c ds d'
  | event {ds : List Conn} {d d' : Conn} : Elapsed c ds d → d.beginEvent = .ok d' →
      Elapsed c (ds ++ [d]) d'

namespace Elapsed

variable {c d : Conn} {ds : List Conn}

/-- The counter counts the events, and the parked record stays. -/
theorem counts (h : Elapsed c ds d) : d.eventCounter = c.eventCounter + UInt16.ofNat ds.length ∧
    d.pendingUpdate = c.pendingUpdate ∧ d.pendingUpdateInstant = c.pendingUpdateInstant := by
  induction h with
  | start => exact ⟨(UInt16.add_zero _).symm, rfl, rfl⟩
  | other _ hsame ih =>
    obtain ⟨hcounter, hpending, hinstant⟩ := ih
    exact ⟨(congrArg Conn.Timing.eventCounter hsame).trans hcounter,
      (congrArg Conn.Timing.pendingUpdate hsame).trans hpending,
      (congrArg Conn.Timing.pendingUpdateInstant hsame).trans hinstant⟩
  | event _ hb ih =>
    obtain ⟨hcounter, hpending, hinstant⟩ := ih
    obtain ⟨_, hcounter', hpending', hinstant'⟩ := Conn.beginEvent_timing hb
    refine ⟨?_, hpending'.trans hpending, hinstant'.trans hinstant⟩
    rw [hcounter', hcounter, List.length_append, UInt16.ofNat_add, UInt16.add_assoc]
    rfl

/-- Each of the events began after the ones before it. -/
theorem nth (h : Elapsed c ds d) {n : Nat} {e : Conn} (hn : ds[n]? = some e) :
    Elapsed c (ds.take n) e ∧ ∃ e', e.beginEvent = .ok e' ∧ Elapsed c (ds.take (n + 1)) e' := by
  induction h with
  | start => cases hn
  | other _ _ ih => exact ih hn
  | @event ds d d' hs hb ih =>
    rcases Nat.lt_trichotomy n ds.length with hlt | rfl | hgt
    · rw [List.getElem?_append_left hlt] at hn
      rw [List.take_append_of_le_length (Nat.le_of_lt hlt), List.take_append_of_le_length hlt]
      exact ih hn
    · rw [List.getElem?_append_right (Nat.le_refl _), Nat.sub_self] at hn
      cases hn
      rw [List.take_left, List.take_of_length_le (by rw [List.length_append]; rfl)]
      exact ⟨hs, d', hb, .event hs hb⟩
    · rw [List.getElem?_eq_none (by rw [List.length_append]; exact hgt)] at hn
      cases hn

/-- If the events take over what they should, the parameters follow the timeline. -/
theorem timeline {first : Nat} {u : UInt16 × UInt16} (h : Elapsed c ds d)
    (happlied : ∀ n e, ds[n]? = some e → e.applied = if n = first then some u else none) :
    c.params.timeline first u ds.length = .ok d.params := by
  induction h with
  | start => rfl
  | other _ hsame ih =>
    exact (ih happlied).trans (congrArg (fun t : Conn.Timing => Except.ok t.params) hsame).symm
  | @event ds d d' hs hb ih =>
    have hbefore : ∀ n e, ds[n]? = some e → e.applied = if n = first then some u else none := by
      intro n e hn
      refine happlied n e ?_
      rw [List.getElem?_append_left (List.getElem?_eq_some_iff.mp hn).1]
      exact hn
    have hnow := happlied ds.length d (by
      rw [List.getElem?_append_right (Nat.le_refl _), Nat.sub_self]; rfl)
    rw [List.length_append, List.length_singleton, Params.timeline, ih hbefore, ok_bind, ← hnow]
    exact (Conn.beginEvent_timing hb).1

end Elapsed

/-! ## Steps and updates -/

/-- What is known of the last update parked: the state it was handled in, the PDU, and the states the
    events since began in. -/
abbrev Watch : Type := Option (Conn × List UInt8 × List Conn)

/-- An action seen. -/
def Act.watch (w : Watch) : Act → Watch
  | .ctrl c payload => if (Act.ctrl c payload).parks then some (c, payload, []) else w
  | .tick c => w.map fun known => (known.1, known.2.1, known.2.2 ++ [c])
  | _ => w

/-- A log seen. -/
def watched (log : List Act) : Watch := log.foldl Act.watch none

/-- Behind an update, up to the next one, the events are counted. -/
theorem watch_since {c : Conn} {payload : List UInt8} {post : List Act}
    (hnew : ∀ a ∈ post, ¬ a.parks) (ds : List Conn) :
    post.foldl Act.watch (some (c, payload, ds)) = some (c, payload, ds ++ began post) := by
  induction post generalizing ds with
  | nil => exact congrArg (fun l => some (c, payload, l)) (List.append_nil ds).symm
  | cons a post ih =>
    have hrest : ∀ b ∈ post, ¬ b.parks := fun b hb => hnew b (List.mem_cons_of_mem _ hb)
    rw [List.foldl_cons]
    cases a with
    | tick d =>
      show post.foldl Act.watch (some (c, payload, ds ++ [d])) = _
      rw [ih hrest, List.append_assoc]
      rfl
    | ctrl d received =>
      have hold : Act.watch (some (c, payload, ds)) (.ctrl d received) = some (c, payload, ds) :=
        if_neg (hnew _ List.mem_cons_self)
      rw [hold]
      exact ih hrest ds
    | _ => exact ih hrest ds

/-- What is known of an update when no other one came after it. -/
theorem watched_split {c : Conn} {payload : List UInt8} (pre : List Act) {post : List Act}
    (hparks : (Act.ctrl c payload).parks) (hnew : ∀ a ∈ post, ¬ a.parks) :
    watched (pre ++ .ctrl c payload :: post) = some (c, payload, began post) := by
  have hseen : ∀ w, Act.watch w (.ctrl c payload) = some (c, payload, []) := fun w => if_pos hparks
  unfold watched
  rw [List.foldl_append, List.foldl_cons, hseen, watch_since hnew]
  rfl

/-- A step, as far as updates are concerned. -/
inductive UpdateStep (c : Conn) (acts : List Act) (c' : Conn) : Prop
  | other (hacts : ∀ w, acts.foldl Act.watch w = w) (same : c'.timing = c.timing)
  | event (hacts : acts = [.tick c]) (begins : c.beginEvent = .ok c')
  | parked (payload : List UInt8) (hacts : ∀ w, acts.foldl Act.watch w = some (c, payload, []))
      (parked : c.takeUpdate payload = .ok c')

section Steps

variable {hw : Hw}

/-- The other opcodes leave the timing alone. -/
theorem controlStep_timing {c c' : Conn} {op : UInt8} {payload : List UInt8}
    (hop : op ≠ llControlConnectionUpdateReq)
    (h : (c.controlStep hw op payload).res = .ok c') : c'.timing = c.timing := by
  rcases Conn.controlStep_cases h with ⟨hupdate, _⟩ | ⟨c₁, htake, hc'⟩ | hc'
  · exact absurd hupdate hop
  · rw [hc', Conn.takeLengths_frame htake]
    rfl
  · rw [hc']
    rfl

/-- A control PDU that parks no update leaves the timing alone, also when its handler stops. -/
theorem handleLlControl_timing {c : Conn} {payload : List UInt8}
    (hparks : ¬ (Act.ctrl c payload).parks) :
    (stateAfter (c.handleLlControl hw payload).res Prod.snd c).timing = c.timing := by
  rcases handleLlControl_after hw c payload with hsame | ⟨op, rest, c', rfl, hstep, hafter⟩
  · rw [hsame]
  · rw [hafter]
    by_cases hop : op = llControlConnectionUpdateReq
    · subst hop
      have htake : c.takeUpdate (llControlConnectionUpdateReq :: rest) = .ok c' := hstep
      have hten := (Conn.returns_takeUpdate c _).mp ⟨c', htake⟩
      have hshort : ¬ (llControlConnectionUpdateReq :: rest).length ≥ 10 := by
        have hless : ¬ 11 ≤ (llControlConnectionUpdateReq :: rest).length :=
          fun hlong => hparks ⟨rfl, hlong⟩
        omega
      unfold Conn.takeUpdate at htake
      rw [if_neg hshort] at htake
      cases htake; rfl
    · exact controlStep_timing hop hstep

/-- **The step relation seen from updates.** -/
theorem Step.update {s s' : Sys} {acts : List Act} (h : Step hw s acts s') :
    UpdateStep s.conn acts s'.conn := by
  cases h with
  | tick hb => exact .event rfl hb
  | heard c o rxBuf ccm lastRx => exact .other (fun _ => rfl) rfl
  | accept c o tag pdu => exact .other (fun _ => rfl) (by rw [Conn.acknowledge_eq]; rfl)
  | deliver c o tag pdu result hne hllid =>
    refine .other (fun _ => rfl) ((Conn.timing_of_link (link_deliver hw _ _ _ _)).trans ?_)
    rw [Conn.acknowledge_eq]; rfl
  | l2cap c o llid payload result =>
    exact .other (fun _ => rfl) (Conn.timing_of_link (link_deliver hw _ _ _ _))
  | ctrl c o payload =>
    by_cases hparks : (Act.ctrl c payload).parks
    · obtain ⟨hop, hlen⟩ := hparks
      cases payload with
      | nil => cases hop
      | cons op rest =>
        obtain rfl : op = llControlConnectionUpdateReq := Option.some.inj hop
        obtain ⟨c', hc'⟩ := (Conn.returns_takeUpdate c (llControlConnectionUpdateReq :: rest)).mpr
          (by omega)
        obtain ⟨hlog, hres⟩ := Conn.handleLlControl_cons hw c llControlConnectionUpdateReq rest
          (by decide)
        have hstep : c.controlStep hw llControlConnectionUpdateReq
            (llControlConnectionUpdateReq :: rest) = Logged.lift (.ok c') := by
          rw [← hc']; rfl
        rw [hlog, hres, hstep]
        exact .parked (llControlConnectionUpdateReq :: rest) (fun _ => if_pos ⟨rfl, hlen⟩) hc'
    · obtain ⟨hlog, _⟩ := Conn.handleLlControl_spec hw c payload
      refine .other ?_ (handleLlControl_timing hparks)
      intro w
      rcases hlog with ⟨hlog, _⟩ | ⟨t, hlog, _⟩ <;> rw [hlog] <;> exact if_neg hparks
  | respond c =>
    rcases c.afterRespond_spec hw with ⟨hlog, hc⟩ | ⟨t, kind, hlog, _, _, hc⟩
    all_goals
      have hsame := congrArg Conn.timing hc
      exact .other (fun w => by rw [hlog]; rfl) hsame
  | terminate c o =>
    obtain ⟨t, r, c', hx, _, hf⟩ := c.sendTerminate_spec
    have hsame := congrArg Conn.timing hf
    rw [hx]
    exact .other (fun _ => rfl) hsame
  | bondKey c o ltk => exact .other (fun _ => rfl) rfl
  | call c o call =>
    have hsame := congrArg Conn.Timing.ofLink (call.run_effect c).link
    exact .other (fun _ => rfl) hsame

end Steps

/-! ## Runs -/

/-- What is known of an update says how the connection got from parking it to where it is. -/
def Tracked (log : List Act) (d : Conn) : Prop :=
  ∀ c payload ds, watched log = some (c, payload, ds) →
    ∃ c', c.takeUpdate payload = .ok c' ∧ Elapsed c' ds d

theorem Tracked.step {log acts : List Act} {d d' : Conn} (h : Tracked log d)
    (hs : UpdateStep d acts d') : Tracked (log ++ acts) d' := by
  intro c payload ds hw
  unfold watched at hw
  rw [List.foldl_append] at hw
  rcases hs with ⟨hacts, hsame⟩ | ⟨rfl, hb⟩ | ⟨received, hacts, hpark⟩
  · rw [hacts] at hw
    obtain ⟨c', hc', helapsed⟩ := h c payload ds hw
    exact ⟨c', hc', .other helapsed hsame⟩
  · obtain ⟨⟨c₁, payload₁, ds₁⟩, hw₁, heq⟩ := Option.map_eq_some_iff.mp hw
    cases heq
    obtain ⟨c', hc', helapsed⟩ := h c₁ payload₁ ds₁ hw₁
    exact ⟨c', hc', .event helapsed hb⟩
  · rw [hacts] at hw
    cases hw
    exact ⟨d', hpark, .start⟩

/-- **The events of a run.**  Behind an update, up to the next one, a run counts its events and does
    nothing else to the timing. -/
theorem runOps_elapsed (hw : Hw) (ops : List Op) {c₀ c c' : Conn} {payload : List UInt8}
    {pre post : List Act} (hlog : (Conn.runOps hw ops c₀).log = pre ++ .ctrl c payload :: post)
    (hparks : (Act.ctrl c payload).parks) (hnew : ∀ a ∈ post, ¬ a.parks)
    (hpark : c.takeUpdate payload = .ok c') : ∃ d, Elapsed c' (began post) d := by
  obtain ⟨⟨s, htracked⟩, _⟩ := runOps_invariant hw (I := fun log s => Tracked log s.conn) ops c₀
    (fun _ _ _ h => by cases h) (fun _ _ _ _ h hs => Tracked.step h hs.update)
  rw [hlog] at htracked
  obtain ⟨c₁, hc₁, helapsed⟩ := htracked c payload (began post) (watched_split pre hparks hnew)
  rw [hpark] at hc₁
  cases hc₁
  exact ⟨s.conn, helapsed⟩

/-! ## Once, and at the instant -/

/-- How many events begin before the first one whose counter is the instant. -/
def eventsBefore (counter instant : UInt16) : Nat := (instant - counter - 1).toNat

theorem eventsBefore_lt (counter instant : UInt16) : eventsBefore counter instant < 65536 :=
  UInt16.toNat_lt _

theorem eventsBefore_inj {counter instant instant' : UInt16}
    (h : eventsBefore counter instant = eventsBefore counter instant') : instant = instant' := by
  have hsub := UInt16.toNat.inj h
  grind

/-- The counter is the instant once in 65536 events. -/
theorem counter_eq_iff (counter instant : UInt16) (n : Nat) :
    counter + UInt16.ofNat n + 1 = instant ↔ n % 65536 = eventsBefore counter instant := by
  have hn : n % 65536 = (UInt16.ofNat n).toNat := UInt16.toNat_ofNat'.symm
  rw [hn, eventsBefore]
  constructor
  · rintro rfl
    congr 1
    grind
  · intro h
    rw [UInt16.toNat.inj h]
    grind

/-- What each event takes over: the parked record, once in 65536 events. -/
theorem Elapsed.applied {c d e : Conn} {ds : List Conn} (h : Elapsed c ds d) {n : Nat}
    (hn : ds[n]? = some e) :
    e.applied = if n % 65536 = eventsBefore c.eventCounter c.pendingUpdateInstant then
      c.pendingUpdate else none := by
  obtain ⟨hcounter, hpending, hinstant⟩ := (h.nth hn).1.counts
  have hlen : (ds.take n).length = n :=
    List.length_take_of_le (Nat.le_of_lt (List.getElem?_eq_some_iff.mp hn).1)
  unfold Conn.applied
  rw [hcounter, hpending, hinstant, hlen]
  exact if_congr (counter_eq_iff _ _ n) rfl rfl

/-- One of `count` events, number `e`, should take over `v`; number `e'` takes over `r`, and so does
    every 65536th event after it.  The two agree as long as neither has happened, or if they are the
    same and the second round has not come. -/
theorem once_iff {α : Type} {count e e' : Nat} (he : e < 65536) (he' : e' < 65536) (r v : α) :
    (∀ n < count, (if n % 65536 = e' then some r else none) = if n = e then some v else none) ↔
      count ≤ min e e' ∨ (e' = e ∧ r = v) ∧ count ≤ e + 65536 := by
  constructor
  · intro h
    rcases Nat.lt_or_ge (min e e') count with hlt | hge
    · right
      have hsame : e' = e := by
        by_contra hne
        rcases Nat.lt_or_gt_of_ne hne with hless | hmore
        · -- taken over too early
          have hearly := h e' (by omega)
          rw [if_pos (Nat.mod_eq_of_lt he'), if_neg hne] at hearly
          cases hearly
        · -- not taken over at the instant
          have hlate := h e (by omega)
          rw [if_neg (by omega), if_pos rfl] at hlate
          cases hlate
      subst hsame
      have hnow := h e' (by omega)
      rw [if_pos (Nat.mod_eq_of_lt he'), if_pos rfl] at hnow
      refine ⟨⟨rfl, Option.some.inj hnow⟩, ?_⟩
      by_contra hmore
      -- taken over a second time
      have hagain := h (e' + 65536) (by omega)
      rw [if_pos (by omega), if_neg (by omega)] at hagain
      cases hagain
    · exact .inl hge
  · rintro (hle | ⟨⟨rfl, rfl⟩, hle⟩) n hn
    · rw [if_neg (by omega), if_neg (by omega)]
    · exact if_congr (by omega) rfl rfl

/-- What should become of the update `u`, handled in the state `c`, in the events behind it: each
    takes over what it should, the parameters it begins with are those of the timeline, and so are
    the ones it leaves. -/
def AppliedOnce (c : Conn) (u : UpdateReq) (post : List Act) : Prop :=
  let first := eventsBefore c.eventCounter u.instant
  let timeline := c.params.timeline first (u.interval, u.timeout)
  ∀ n d, (began post)[n]? = some d →
    d.applied = (if n = first then some (u.interval, u.timeout) else none) ∧
    timeline n = .ok d.params ∧ ∃ d', d.beginEvent = .ok d' ∧ timeline (n + 1) = .ok d'.params

/-- Whether the update is applied once is a matter of what the events take over; the rest of the
    timeline follows. -/
theorem Elapsed.follows_iff {c c' d : Conn} {u : UpdateReq} {post : List Act}
    (h : Elapsed c' (began post) d) (hparams : c'.params = c.params) :
    AppliedOnce c u post ↔ ∀ n e, (began post)[n]? = some e → e.applied =
      if n = eventsBefore c.eventCounter u.instant then some (u.interval, u.timeout) else none := by
  constructor
  · intro hlaw n e hn
    exact (hlaw n e hn).1
  · intro happlied n e hn
    obtain ⟨hbefore, e', hb, hafter⟩ := h.nth hn
    have hlt : n < (began post).length := (List.getElem?_eq_some_iff.mp hn).1
    have hfront : ∀ k i x, ((began post).take k)[i]? = some x → x.applied =
        if i = eventsBefore c.eventCounter u.instant then some (u.interval, u.timeout) else none := by
      intro k i x hi
      rw [List.getElem?_take] at hi
      split at hi
      · exact happlied i x hi
      · cases hi
    have hn₁ := hbefore.timeline (hfront n)
    have hn₂ := hafter.timeline (hfront (n + 1))
    rw [hparams, List.length_take_of_le (by omega)] at hn₁ hn₂
    exact ⟨happlied n e hn, hn₁, e', hb, hn₂⟩

/-- **When a connection update is applied once, at its instant, with its values.**  An
    `LL_CONNECTION_UPDATE_REQ` is handled in the course of a run, no new update comes after it, and
    anything else may happen.  Of the events behind it, the first whose counter equals the instant
    takes over its interval and timeout and starts the accumulator afresh, and every other one keeps
    what there is, iff

    * the run ends before both the instant of the PDU and the one the handler read, or
    * reading the fields one byte early makes no difference, and the counter has not come round to
      the instant a second time. -/
theorem appliedOnce_iff (hw : Hw) (ops : List Op) (c₀ c : Conn) (u : UpdateReq)
    (pre post : List Act) (hlog : (Conn.runOps hw ops c₀).log = pre ++ .ctrl c u.encode :: post)
    (hnew : ∀ a ∈ post, ¬ a.parks) :
    AppliedOnce c u post ↔
      (began post).length ≤
          min (eventsBefore c.eventCounter u.instant) (eventsBefore c.eventCounter u.readInstant) ∨
        u.Aligned ∧ (began post).length ≤ eventsBefore c.eventCounter u.instant + 65536 := by
  obtain ⟨d, helapsed⟩ := runOps_elapsed hw ops hlog ⟨rfl, by rw [u.encode_length]; omega⟩ hnew
    (takeUpdate_encode c u)
  have haligned : (eventsBefore c.eventCounter u.readInstant = eventsBefore c.eventCounter u.instant ∧
      (u.readInterval, u.readTimeout) = (u.interval, u.timeout)) ↔ u.Aligned := by
    rw [u.aligned_iff, Prod.mk.injEq]
    constructor
    · rintro ⟨hinstant, hinterval, htimeout⟩
      exact ⟨hinterval, htimeout, eventsBefore_inj hinstant⟩
    · rintro ⟨hinterval, htimeout, hinstant⟩
      exact ⟨by rw [hinstant], hinterval, htimeout⟩
  rw [helapsed.follows_iff (c := c) rfl, ← haligned,
    ← once_iff (eventsBefore_lt _ _) (eventsBefore_lt _ _) _ _]
  constructor
  · intro h n hn
    have hget := List.getElem?_eq_getElem hn
    exact (helapsed.applied hget).symm.trans (h n _ hget)
  · intro h n e hn
    exact (helapsed.applied hn).trans (h n (List.getElem?_eq_some_iff.mp hn).1)

/-- An update is handled, and then nothing is heard for `n` events. -/
def updateOps (u : UpdateReq) (n : Nat) : List Op :=
  .llControl u.encode :: List.replicate n (.event [⟨.timeout, 0⟩])

/-- The connection of the repository's own tests, with the counter at 0xFF. -/
def lateSample : Conn := { Conn.sample .slave with eventCounter := 0x00FF }

/-- Every byte that is mistaken for another one is equal to it.  The second of three events takes the
    update over. -/
theorem appliedOnce_aligned :
    let u : UpdateReq := ⟨1, 0x0600, 0x0606, 0x0100, 0x0101, 0x0101⟩
    AppliedOnce lateSample u (Conn.runOps Hw.standIn (updateOps u 3) lateSample).log.tail :=
  (appliedOnce_iff Hw.standIn (updateOps ⟨1, 0x0600, 0x0606, 0x0100, 0x0101, 0x0101⟩ 3) lateSample
    lateSample _ [] _ rfl (by decide +kernel)).mpr (.inr ⟨by decide +kernel, by decide +kernel⟩)

/-- Interval 24, timeout 200 and instant 2, handled with the counter at 0: event 2 takes nothing
    over. -/
theorem update_departs :
    let u : UpdateReq := ⟨1, 0, 24, 0, 200, 2⟩
    let log := (Conn.runOps Hw.standIn (updateOps u 2) (Conn.sample .slave)).log
    log = [] ++ .ctrl (Conn.sample .slave) u.encode :: log.tail ∧ (∀ a ∈ log.tail, ¬ a.parks) ∧
      ¬ AppliedOnce (Conn.sample .slave) u log.tail := by
  refine ⟨rfl, by decide +kernel, ?_⟩
  intro h
  have hsecond := (h 1 _ rfl).1
  revert hsecond
  decide +kernel

end NrfBle
