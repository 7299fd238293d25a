/-
  Sequence numbers over whole runs: which PDUs of the peer are delivered, and what becomes of the
  fragments that are sent.

  RECEIVING.  `nesn` holds the sequence number of the last PDU that was accepted, and a PDU is new
  when its own differs from it.  Both roles work that out and then call `handle_l2cap` regardless,
  so a repeated PDU is delivered again.  `delivered_nodup` is what remains: if no repeated PDU
  arrives, each one is delivered at most once — whatever is lost, and whatever else happens.

  SENDING.  There is no retransmission.  The received NESN bit is never looked at; `respond` turns
  `sn` and moves the fragment offset on as soon as a fragment is built.  So the fragments of a run
  carry alternating sequence numbers, whatever is received in between (`fragments_alternate`).
-/
import Mathlib.Tactic
import NrfBle.Hw.Conn.Run

namespace NrfBle

open Checked

variable {hw : Hw}

/-! ## Receiving -/

/-- The PDU an action accepts: its tag and its sequence number. -/
def Act.heard : Act → Option (Nat × Bool)
  | .accept _ tag pdu => some (tag, pdu.sn)
  | _ => none

/-- The tag of the PDU an action delivers to L2CAP. -/
def Act.delivered : Act → Option Nat
  | .l2cap _ tag _ _ => tag
  | _ => none

/-- The PDUs accepted in a log, in order. -/
def heard (log : List Act) : List (Nat × Bool) := log.filterMap Act.heard

/-- The tags delivered in a log, in order. -/
def delivered (log : List Act) : List Nat := log.filterMap Act.delivered

theorem heard_append (log acts : List Act) : heard (log ++ acts) = heard log ++ heard acts :=
  List.filterMap_append

theorem delivered_append (log acts : List Act) :
    delivered (log ++ acts) = delivered log ++ delivered acts := List.filterMap_append

/-- A step, as far as receiving is concerned. -/
inductive RxStep : Conn → List Act → Conn → Prop
  | other {c c' : Conn} {acts : List Act} (hheard : heard acts = [])
      (hdelivered : delivered acts = []) (nesn : c'.nesn = c.nesn) : RxStep c acts c'
  | heard {c c' : Conn} {tag : Nat} {pdu : DataPdu} (nesn : c'.nesn = pdu.sn) :
      RxStep c [.accept c tag pdu] c'
  | delivered {c c' d : Conn} {tag : Nat} {pdu : DataPdu} {llid : UInt8} {payload : List UInt8}
      (hne : pdu.payload ≠ []) (hllid : pdu.llid ≠ llidControl) (nesn : c'.nesn = pdu.sn) :
      RxStep c [.accept c tag pdu, .l2cap d (some tag) llid payload] c'

/-- **The step relation seen from receiving.** -/
theorem Step.rx {s s' : Sys} {acts : List Act} (h : Step hw s acts s') :
    RxStep s.conn acts s'.conn := by
  cases h with
  | tick hb =>
    have hnesn := congrArg Conn.nesn (Conn.beginEvent_frame hb)
    exact .other rfl rfl hnesn
  | heard c o rxBuf ccm lastRx => exact .other rfl rfl rfl
  | accept c o tag pdu =>
    refine .heard ?_
    show (c.acknowledge pdu.sn).nesn = pdu.sn
    rw [Conn.acknowledge_eq]
  | deliver c o tag pdu result hne hllid =>
    refine .delivered hne hllid ((congrArg Link.nesn (link_deliver hw _ _ _ _)).trans ?_)
    show (c.acknowledge pdu.sn).nesn = pdu.sn
    rw [Conn.acknowledge_eq]
  | l2cap c o llid payload result =>
    exact .other rfl rfl (congrArg Link.nesn (link_deliver hw _ _ _ _))
  | ctrl c o payload =>
    have heff := controlEffect_after hw c payload
    have hnesn := congrArg Conn.nesn heff.frame
    obtain ⟨hlog, _⟩ := Conn.handleLlControl_spec hw c payload
    rcases hlog with ⟨hlog, _⟩ | ⟨t, hlog, _⟩ <;> rw [hlog] <;> exact .other rfl rfl hnesn
  | respond c =>
    rcases c.afterRespond_spec hw with ⟨hlog, hc⟩ | ⟨t, kind, hlog, _, _, hc⟩
    all_goals
      have hnesn := congrArg Conn.nesn hc
      rw [hlog]
      exact .other rfl rfl hnesn
  | terminate c o =>
    obtain ⟨t, r, c', hx, _, hf⟩ := c.sendTerminate_spec
    have hnesn : c'.nesn = c.nesn := by rw [hf]
    rw [hx]
    exact .other rfl rfl hnesn
  | bondKey c o ltk => exact .other rfl rfl rfl
  | call c o call => exact .other rfl rfl (congrArg Link.nesn (call.run_effect c).link)

/-- The action is no repetition: if it accepts an L2CAP PDU with a payload, and some PDU was
    accepted before, its sequence number differs from the last accepted one. -/
def Act.fresh (before : Bool) : Act → Bool
  | .accept c _ pdu =>
    !before || pdu.payload.isEmpty || pdu.llid == llidControl || pdu.sn != c.nesn
  | _ => true

/-- No action of the log is a repetition; `before` says whether a PDU was accepted before. -/
def allFresh : Bool → List Act → Bool
  | _, [] => true
  | before, a :: log => a.fresh before && allFresh (before || a.heard.isSome) log

theorem allFresh_append (before : Bool) (log acts : List Act) :
    allFresh before (log ++ acts) =
      (allFresh before log && allFresh (before || !(heard log).isEmpty) acts) := by
  induction log generalizing before with
  | nil => simp [allFresh, heard]
  | cons a log ih =>
    simp only [List.cons_append, allFresh, ih, Bool.and_assoc]
    have hflag : (before || a.heard.isSome || !(heard log).isEmpty) =
        (before || !(heard (a :: log)).isEmpty) := by
      cases ha : a.heard with
      | none => simp [heard, ha]
      | some p => simp [heard, ha]
    rw [hflag]

/-- The invariant: delivered PDUs are among the accepted ones, each once, and `nesn` is the
    sequence number of the last accepted one. -/
structure RxInv (sn : Nat → Bool) (log : List Act) (c : Conn) : Prop where
  nodup : (delivered log).Nodup
  among : ∀ t ∈ delivered log, t ∈ (heard log).map Prod.fst
  nesn : ∀ p, (heard log).getLast? = some p → c.nesn = sn p.1

/-- In a nondecreasing list every element is at most the last. -/
theorem le_getLast {l : List Nat} {t last : Nat} (hl : l.Pairwise (· ≤ ·)) (ht : t ∈ l)
    (hlast : l.getLast? = some last) : t ≤ last := by
  obtain ⟨l', rfl⟩ := List.getLast?_eq_some_iff.mp hlast
  rcases List.mem_append.mp ht with h | h
  · exact (List.pairwise_append.mp hl).2.2 t h last (by simp)
  · rw [List.mem_singleton.mp h]

/-- A PDU that is no repetition was not delivered before: a tag delivered before would be the one
    accepted last, and have its sequence number. -/
theorem RxInv.not_delivered {sn : Nat → Bool} {log : List Act} {c : Conn} {tag : Nat} {pdu : DataPdu}
    (hinv : RxInv sn log c) (hsn : pdu.sn = sn tag)
    (horder : ((heard log ++ [(tag, pdu.sn)]).map Prod.fst).Pairwise (· ≤ ·))
    (hne : pdu.payload ≠ []) (hllid : pdu.llid ≠ llidControl)
    (hfresh : Act.fresh (!(heard log).isEmpty) (.accept c tag pdu) = true) : tag ∉ delivered log := by
  intro hmem
  have hmem' := hinv.among tag hmem
  have hheard : heard log ≠ [] := by
    intro hnil
    rw [hnil] at hmem'
    cases hmem'
  obtain ⟨p, hp⟩ := Option.ne_none_iff_exists'.mp (mt List.getLast?_eq_none_iff.mp hheard)
  rw [List.map_append, List.pairwise_append] at horder
  have hle : tag ≤ p.1 := le_getLast horder.1 hmem' (by rw [List.getLast?_map, hp]; rfl)
  have hge : p.1 ≤ tag := horder.2.2 p.1
    (List.mem_map_of_mem (List.mem_of_getLast? hp)) tag (by simp)
  have hnesn : c.nesn = pdu.sn := by
    rw [hinv.nesn p hp, hsn, Nat.le_antisymm hge hle]
  dsimp only [Act.fresh] at hfresh
  rw [List.isEmpty_eq_false_iff.mpr hheard, hnesn, List.isEmpty_eq_false_iff.mpr hne,
    beq_eq_false_iff_ne.mpr hllid, bne_self_eq_false] at hfresh
  cases hfresh

/-- The PDU accepted last is the one just accepted. -/
theorem nesn_of_accepted {sn : Nat → Bool} {c' : Conn} {tag : Nat} {pdu : DataPdu}
    (hnesn : c'.nesn = pdu.sn) (hsn : pdu.sn = sn tag) (before : List (Nat × Bool))
    (p : Nat × Bool) (hp : (before ++ [(tag, pdu.sn)]).getLast? = some p) : c'.nesn = sn p.1 := by
  rw [List.getLast?_append, List.getLast?_singleton] at hp
  cases hp
  exact hnesn.trans hsn

theorem RxInv.step {sn : Nat → Bool} {log acts : List Act} {c c' : Conn} (h : RxStep c acts c')
    (hcopies : ∀ p ∈ heard (log ++ acts), p.2 = sn p.1)
    (horder : ((heard (log ++ acts)).map Prod.fst).Pairwise (· ≤ ·))
    (hfresh : allFresh (!(heard log).isEmpty) acts = true) (hinv : RxInv sn log c) :
    RxInv sn (log ++ acts) c' := by
  cases h with
  | other hheard hdelivered nesn =>
    have hh : heard (log ++ acts) = heard log := by rw [heard_append, hheard, List.append_nil]
    have hd : delivered (log ++ acts) = delivered log := by
      rw [delivered_append, hdelivered, List.append_nil]
    exact ⟨by rw [hd]; exact hinv.nodup, by rw [hd, hh]; exact hinv.among,
      by rw [hh, nesn]; exact hinv.nesn⟩
  | @heard _ tag pdu nesn =>
    have hh : heard (log ++ [Act.accept c tag pdu]) = heard log ++ [(tag, pdu.sn)] := by
      rw [heard_append]; rfl
    have hd : delivered (log ++ [Act.accept c tag pdu]) = delivered log := by
      rw [delivered_append]; exact List.append_nil _
    rw [hh] at hcopies
    have hsn : pdu.sn = sn tag := hcopies (tag, pdu.sn) (by simp)
    refine ⟨by rw [hd]; exact hinv.nodup, ?_, by rw [hh]; exact nesn_of_accepted nesn hsn _⟩
    intro t ht
    rw [hd] at ht
    rw [hh, List.map_append]
    exact List.mem_append_left _ (hinv.among t ht)
  | @delivered _ d tag pdu llid payload hne hllid nesn =>
    have hh : heard (log ++ [Act.accept c tag pdu, Act.l2cap d (some tag) llid payload]) =
        heard log ++ [(tag, pdu.sn)] := by
      rw [heard_append]; rfl
    have hd : delivered (log ++ [Act.accept c tag pdu, Act.l2cap d (some tag) llid payload]) =
        delivered log ++ [tag] := by
      rw [delivered_append]; rfl
    rw [hh] at hcopies horder
    have hsn : pdu.sn = sn tag := hcopies (tag, pdu.sn) (by simp)
    rw [allFresh, Bool.and_eq_true] at hfresh
    have hnew := hinv.not_delivered hsn horder hne hllid hfresh.1
    refine ⟨?_, ?_, by rw [hh]; exact nesn_of_accepted nesn hsn _⟩
    · rw [hd, ← List.concat_eq_append]
      exact hinv.nodup.concat hnew
    · intro t ht
      rw [hd] at ht
      rw [hh, List.map_append]
      rcases List.mem_append.mp ht with ht | ht
      · exact List.mem_append_left _ (hinv.among t ht)
      · rw [List.mem_singleton.mp ht]
        exact List.mem_append_right _ (by simp)

/-- **At most once, without repetitions.**  In any run from any state, against a peer that gives all
    copies of a PDU one sequence number and never goes back to an earlier PDU: if no L2CAP PDU with
    a payload arrives with the sequence number of the PDU accepted last (the run's first accepted
    PDU apart), each PDU of the peer is passed to `handle_l2cap` at most once. -/
theorem delivered_nodup (hw : Hw) (ops : List Op) (c : Conn) (sn : Nat → Bool)
    (hcopies : ∀ p ∈ heard (Conn.runOps hw ops c).log, p.2 = sn p.1)
    (horder : ((heard (Conn.runOps hw ops c).log).map Prod.fst).Pairwise (· ≤ ·))
    (hfresh : allFresh false (Conn.runOps hw ops c).log = true) :
    (delivered (Conn.runOps hw ops c).log).Nodup := by
  obtain ⟨⟨s, h⟩, _⟩ := runOps_invariant hw
    (I := fun log s => (∀ p ∈ heard log, p.2 = sn p.1) →
      ((heard log).map Prod.fst).Pairwise (· ≤ ·) → allFresh false log = true →
        RxInv sn log s.conn) ops c
    (fun _ _ _ => ⟨List.nodup_nil, fun t ht => (by cases ht), fun p hp => (by cases hp)⟩) (by
      intro log s acts s' ih hstep hcop hord hfr
      rw [allFresh_append, Bool.and_eq_true, Bool.false_or] at hfr
      refine RxInv.step hstep.rx hcop hord hfr.2 (ih ?_ ?_ hfr.1)
      · intro p hp
        exact hcop p (by rw [heard_append]; exact List.mem_append_left _ hp)
      · rw [heard_append, List.map_append, List.pairwise_append] at hord
        exact hord.1)
  exact (h hcopies horder hfresh).nodup

/-- Two PDUs, with sequence numbers 0 and 1, are delivered once each. -/
theorem delivered_nodup_two_pdus :
    let log := (Conn.runOps Hw.standIn
      [.llControl [llControlStartEncRsp], .event [Window.of 0 [3, 8, 0, 0, 9, 9] (by decide)],
        .event [⟨.timeout, 0⟩], .event [Window.of 1 [11, 8, 0, 0, 9, 9] (by decide)]]
      (Conn.sample .slave)).log
    delivered log = [0, 1] ∧ (delivered log).Nodup :=
  ⟨by decide +kernel, delivered_nodup Hw.standIn
    [.llControl [llControlStartEncRsp], .event [Window.of 0 [3, 8, 0, 0, 9, 9] (by decide)],
      .event [⟨.timeout, 0⟩], .event [Window.of 1 [11, 8, 0, 0, 9, 9] (by decide)]]
    (Conn.sample .slave) (fun t => t % 2 == 1) (by decide +kernel) (by decide +kernel)
    (by decide +kernel)⟩

/-- The answer to a PDU is lost, the peer repeats the PDU, and it is delivered a second time. -/
theorem repeated_pdu_delivered_twice :
    let log := (Conn.runOps Hw.standIn
      [.llControl [llControlStartEncRsp], .event [Window.of 0 [3, 8, 0, 0, 9, 9] (by decide)],
        .event [Window.of 0 [3, 8, 0, 0, 9, 9] (by decide)]] (Conn.sample .slave)).log
    heard log = [(0, false), (0, false)] ∧ delivered log = [0, 0] ∧ ¬ (delivered log).Nodup := by
  decide +kernel

/-! ## Sending -/

/-- The data fragments of a log, in order. -/
def fragments (log : List Act) : List TxRec :=
  (log.filterMap Act.sent).filter (fun t => t.kind = .fragment)

theorem fragments_append (log acts : List Act) :
    fragments (log ++ acts) = fragments log ++ fragments acts := by
  rw [fragments, List.filterMap_append, List.filter_append]; rfl

/-- A step, as far as sending is concerned. -/
inductive TxStep : Conn → List Act → Conn → Prop
  | other {c c' : Conn} {acts : List Act} (hacts : fragments acts = []) (sn : c'.sn = c.sn) :
      TxStep c acts c'
  | fragment {c c' : Conn} {t : TxRec} {acts : List Act} (hacts : fragments acts = [t])
      (htsn : t.sn = c.sn) (sn : c'.sn = !c.sn) : TxStep c acts c'

/-- A record of another kind is no fragment. -/
theorem fragments_of_kind (pre : List Act) {t : TxRec} (hpre : fragments pre = [])
    (hkind : t.kind ≠ .fragment) : fragments (pre ++ [.tx t]) = [] := by
  rw [fragments_append, hpre, List.nil_append]
  exact List.filter_cons_of_neg (by simpa using hkind)

/-- **The step relation seen from sending.** -/
theorem Step.tx {s s' : Sys} {acts : List Act} (h : Step hw s acts s') :
    TxStep s.conn acts s'.conn := by
  cases h with
  | tick hb =>
    have hsn := congrArg Conn.sn (Conn.beginEvent_frame hb)
    exact .other rfl hsn
  | heard c o rxBuf ccm lastRx => exact .other rfl rfl
  | accept c o tag pdu =>
    refine .other rfl ?_
    show (c.acknowledge pdu.sn).sn = c.sn
    rw [Conn.acknowledge_eq]
  | deliver c o tag pdu result hne hllid =>
    refine .other rfl ((congrArg Link.sn (link_deliver hw _ _ _ _)).trans ?_)
    show (c.acknowledge pdu.sn).sn = c.sn
    rw [Conn.acknowledge_eq]
  | l2cap c o llid payload result =>
    exact .other rfl (congrArg Link.sn (link_deliver hw _ _ _ _))
  | ctrl c o payload =>
    have heff := controlEffect_after hw c payload
    have hsn := congrArg Conn.sn heff.frame
    obtain ⟨hlog, _⟩ := Conn.handleLlControl_spec hw c payload
    rcases hlog with ⟨hlog, _⟩ | ⟨t, hlog, ⟨_, _, hsent⟩ | ⟨_, hsent⟩⟩ <;> rw [hlog]
    · exact .other rfl hsn
    all_goals
      have hkind : t.kind ≠ .fragment := by rw [hsent.kind]; decide
      exact .other (fragments_of_kind [.ctrl c payload] rfl hkind) hsn
  | respond c =>
    rcases c.afterRespond_spec hw with ⟨hlog, hc⟩ | ⟨t, kind, hlog, hsent, htsn, hc⟩
    · have hsn := congrArg Conn.sn hc
      rw [hlog]; exact .other rfl hsn
    · have hsn := congrArg Conn.sn hc
      rw [hlog]
      by_cases hk : kind = .fragment
      · rw [if_pos hk] at hsn
        refine .fragment (t := t) ?_ htsn hsn
        exact List.filter_cons_of_pos (by simpa using hsent.kind.trans hk)
      · rw [if_neg hk] at hsn
        exact .other (fragments_of_kind [] rfl (by rw [hsent.kind]; exact hk)) hsn
  | terminate c o =>
    obtain ⟨t, r, c', hx, hsent, hf⟩ := c.sendTerminate_spec
    have hsn : c'.sn = c.sn := by rw [hf]
    have hkind : t.kind ≠ .fragment := by rw [hsent.kind]; decide
    rw [hx]
    exact .other (fragments_of_kind [.terminate c] rfl hkind) hsn
  | bondKey c o ltk => exact .other rfl rfl
  | call c o call => exact .other rfl (congrArg Link.sn (call.run_effect c).link)

/-- The sequence number of the `k`-th fragment of a run that starts with `sn`. -/
def fragmentSn (sn : Bool) (k : Nat) : Bool := sn ^^ decide (k % 2 = 1)

theorem fragmentSn_succ (sn : Bool) (k : Nat) : fragmentSn sn (k + 1) = !fragmentSn sn k := by
  unfold fragmentSn
  rcases Nat.mod_two_eq_zero_or_one k with h | h
  · have h' : (k + 1) % 2 = 1 := by omega
    rw [h, h']; cases sn <;> rfl
  · have h' : (k + 1) % 2 = 0 := by omega
    rw [h, h']; cases sn <;> rfl

/-- The sequence numbers of the fragments of a run alternate, and `sn` is the next one's. -/
theorem fragments_sn (hw : Hw) (ops : List Op) (c : Conn) :
    let log := (Conn.runOps hw ops c).log
    (fragments log).map TxRec.sn = (List.range (fragments log).length).map (fragmentSn c.sn) ∧
      ∀ c', (Conn.runOps hw ops c).res = .ok c' →
        c'.sn = fragmentSn c.sn (fragments log).length := by
  obtain ⟨⟨_, hlog, _⟩, hres⟩ := runOps_invariant hw
    (I := fun log s =>
      (fragments log).map TxRec.sn = (List.range (fragments log).length).map (fragmentSn c.sn) ∧
        s.conn.sn = fragmentSn c.sn (fragments log).length) ops c
    ⟨rfl, by simp [fragmentSn, fragments]⟩ (by
      rintro log s acts s' ⟨hall, hnext⟩ hstep
      rw [fragments_append]
      cases hstep.tx with
      | other hacts sn =>
        rw [hacts, List.append_nil]
        exact ⟨hall, sn.trans hnext⟩
      | @fragment _ t _ hacts htsn sn =>
        rw [hacts, List.map_append, List.length_append, List.length_singleton, List.range_succ,
          List.map_append, hall]
        refine ⟨?_, ?_⟩
        · rw [List.map_singleton, List.map_singleton, htsn, hnext]
        · rw [sn, hnext, fragmentSn_succ])
  refine ⟨hlog, ?_⟩
  intro c' h
  obtain ⟨o, _, hsn⟩ := hres c' h
  exact hsn

/-- A fragment is sent from the slot as it stands, and the slot moves on with it. -/
theorem Conn.respond_fragment {c c' : Conn} (hctrl : c.pendingControl = none)
    (hpending : c.txPending = true) (h : (c.respond hw).res = .ok c') :
    ∃ t, (c.respond hw).log = [.tx t] ∧ t.kind = .fragment ∧
      t.plain = c.txHeader c.fragLlid :: UInt8.ofNat c.fragPayload.length :: c.fragPayload ∧
      c'.sn = !c.sn ∧ c'.txFragOffset = (c.afterFragment c'.txBuf).txFragOffset ∧
      c'.txPending = (c.afterFragment c'.txBuf).txPending := by
  have hresp : c.respond hw = (do
      let r ← Logged.lift c.txFragment
      tx hw { r.2 with sn := !r.2.sn } .fragment r.1) := by
    unfold respond
    rw [hctrl, if_pos hpending]
  rw [hresp] at h ⊢
  cases hf : c.txFragment with
  | error p => rw [hf] at h; cases h
  | ok r =>
    obtain ⟨b, hok, htake⟩ := txFragment_ok (fragFits_of_ok hf)
    rw [hf] at hok
    cases hok
    rw [hf, Logged.lift_ok_bind] at h
    rw [Logged.lift_ok_bind]
    rcases tx_spec hw { c.afterFragment b with sn := !(c.afterFragment b).sn } .fragment
      (2 + c.fragPayload.length) with ⟨_, p, herr⟩ | ⟨t, hlog, hsent, hplain, hres⟩
    · rw [herr] at h; cases h
    · have hframe := hres c' h
      have hsn := congrArg Conn.sn hframe
      have hoff := congrArg Conn.txFragOffset hframe
      have hpend := congrArg Conn.txPending hframe
      exact ⟨t, hlog, hsent.kind, hplain.trans htake, hsn, hoff, hpend⟩

/-- **Fragments go out once.**  In any run from any state, whatever is received or lost, the `k`-th
    fragment carries the first one's sequence number turned `k` times, and `sn` after the run is
    the next one's.  And whatever state a fragment is sent in: it is cut out of the slot at the
    current offset, and sending it is what turns `sn` and moves the offset to the next fragment. -/
theorem fragments_alternate (hw : Hw) (ops : List Op) (c : Conn) :
    ((fragments (Conn.runOps hw ops c).log).map TxRec.sn =
        (List.range (fragments (Conn.runOps hw ops c).log).length).map (fragmentSn c.sn) ∧
      ∀ c', (Conn.runOps hw ops c).res = .ok c' →
        c'.sn = fragmentSn c.sn (fragments (Conn.runOps hw ops c).log).length) ∧
    ∀ d d' : Conn, d.pendingControl = none → d.txPending = true → (d.respond hw).res = .ok d' →
      ∃ t, (d.respond hw).log = [.tx t] ∧ t.kind = .fragment ∧
        t.plain = d.txHeader d.fragLlid :: UInt8.ofNat d.fragPayload.length :: d.fragPayload ∧
        d'.sn = !d.sn ∧ d'.txFragOffset = (d.afterFragment d'.txBuf).txFragOffset ∧
        d'.txPending = (d.afterFragment d'.txBuf).txPending :=
  ⟨fragments_sn hw ops c, fun _ _ hctrl hpending h => Conn.respond_fragment hctrl hpending h⟩

/-- A notification in two fragments: the first leaves the offset at 23 and `sn` turned. -/
theorem fragments_alternate_notify :
    let c := (Conn.sample .master).queueNotify (List.replicate 57 7)
    c.pendingControl = none ∧ c.txPending = true ∧
      ∃ d t, (c.respond Hw.standIn).res = .ok d ∧ (c.respond Hw.standIn).log = [.tx t] ∧
        t.kind = .fragment ∧ d.sn = true ∧ d.txFragOffset = 23 := by
  have hres : Checked.Returns
      (((Conn.sample .master).queueNotify (List.replicate 57 7)).respond Hw.standIn).res := by
    decide +kernel
  obtain ⟨d, hd⟩ := hres
  obtain ⟨t, hlog, hkind, _, hsn, hoff, _⟩ := (fragments_alternate Hw.standIn []
    (Conn.sample .master)).2 _ d rfl rfl hd
  exact ⟨rfl, rfl, d, t, hd, hlog, hkind, hsn, hoff.trans rfl⟩

/-- A master that hears nothing goes on to the second fragment, with the next sequence number. -/
theorem unacknowledged_fragment_abandoned :
    let log := (Conn.runOps Hw.standIn
      [.call (.queueNotify (List.replicate 57 7)), .event [], .event []] (Conn.sample .master)).log
    heard log = [] ∧ (fragments log).map TxRec.sn = [false, true] ∧
      ((fragments log).map TxRec.plain).Nodup := by
  decide +kernel

end NrfBle
