/-
  Encryption over whole runs: when the link counts as encrypted, what leaves it in the clear, and
  which nonces are used.

  Three questions about any run of a connection, and one answer each, with the condition under which
  the expected answer is right:

  * `encrypted` implies an agreed key — IF every LL_START_ENC PDU is handled after the handshake
    and the key (`encrypted_agreed`).  The code asks neither.
  * nothing is sent in the clear on an encrypted link — IFF no version or feature PDU is answered
    and no termination is sent on it (`no_plaintext_iff`).  These go straight to the radio.
  * no nonce is used twice — IF no LL_START_ENC PDU arrives on an encrypted link and the counter
    does not wrap round (`nonces_nodup`).  Such a PDU restarts the counter under the same key.

  All three are invariants of the step relation.  `Step.sec` says once what a step does to role,
  `encrypted` flag and packet counter and which records it logs; `Step.keeps` what it does to
  `want_encrypt` and the key.
-/
import Mathlib.Tactic
import NrfBle.Hw.Conn.Run

namespace NrfBle

open Checked

variable {hw : Hw}

/-! ## What a step does to the encryption state -/

/-- Role, flag and counter are as before. -/
structure SameSec (c c' : Conn) : Prop where
  role : c'.role = c.role
  encrypted : c'.encrypted = c.encrypted
  packetCounter : c'.packetCounter = c.packetCounter

theorem SameSec.of_link {c c' : Conn} (h : c'.link = c.link) : SameSec c c' :=
  ⟨congrArg Link.role h, congrArg Link.encrypted h, congrArg Link.packetCounter h⟩

/-- An action that neither sends, nor begins an event, nor handles a control PDU. -/
def Act.quiet : Act → Bool
  | .accept _ _ _ => true
  | .l2cap _ _ _ _ => true
  | .bondKey => true
  | _ => false

/-- A step, as far as encryption is concerned. -/
inductive SecStep : Sys → List Act → Sys → Prop
  | tick {c c' : Conn} {o : Bool} (role : c'.role = c.role) (encrypted : c'.encrypted = c.encrypted)
      (packetCounter : c'.packetCounter =
        if c.encrypted then c.packetCounter + 1 else c.packetCounter) :
      SecStep ⟨c, o⟩ [.tick c] ⟨c', true⟩
  | quiet {c c' : Conn} {o : Bool} {acts : List Act} (hquiet : acts.all Act.quiet = true)
      (same : SameSec c c') : SecStep ⟨c, o⟩ acts ⟨c', o⟩
  | ctrl {c c' : Conn} {o : Bool} {payload : List UInt8} (hraw : Conn.answersRaw payload = false)
      (effect : Conn.ControlEffect (Conn.startsEnc payload) c c') :
      SecStep ⟨c, o⟩ [.ctrl c payload] ⟨c', o⟩
  | ctrlSent {c c' : Conn} {o : Bool} {payload : List UInt8} {t : TxRec}
      (hraw : Conn.answersRaw payload = false) (hstart : Conn.startsEnc payload = true)
      (sent : c.Sent .control t) (effect : Conn.ControlEffect true c c') :
      SecStep ⟨c, o⟩ [.ctrl c payload, .tx t] ⟨c', o⟩
  | ctrlRaw {c c' : Conn} {o : Bool} {payload : List UInt8} {t : TxRec}
      (hraw : Conn.answersRaw payload = true) (sent : c.SentRaw .control t)
      (effect : Conn.ControlEffect (Conn.startsEnc payload) c c') :
      SecStep ⟨c, o⟩ [.ctrl c payload, .tx t] ⟨c', o⟩
  | answer {c c' : Conn} {kind : TxKind} {t : TxRec} (sent : c.Sent kind t) (same : SameSec c c') :
      SecStep ⟨c, true⟩ [.tx t] ⟨c', false⟩
  | stopped {c : Conn} : SecStep ⟨c, true⟩ [] ⟨c, false⟩
  | terminate {c c' : Conn} {o : Bool} {t : TxRec} (sent : c.SentRaw .terminate t)
      (same : SameSec c c') : SecStep ⟨c, o⟩ [.terminate c, .tx t] ⟨c', o⟩

theorem SameSec.acknowledge {c c' : Conn} {sn : Bool} (h : SameSec (c.acknowledge sn) c') :
    SameSec c c' := by
  rw [Conn.acknowledge_eq] at h
  exact ⟨h.role, h.encrypted, h.packetCounter⟩

/-- **The step relation seen from encryption.** -/
theorem Step.sec {s s' : Sys} {acts : List Act} (h : Step hw s acts s') : SecStep s acts s' := by
  cases h with
  | tick hb =>
    have hf := Conn.beginEvent_frame hb
    exact .tick (by rw [hf]) (by rw [hf]) (by rw [hf])
  | heard c o rxBuf ccm lastRx => exact .quiet rfl ⟨rfl, rfl, rfl⟩
  | accept c o tag pdu => exact .quiet rfl (SameSec.acknowledge ⟨rfl, rfl, rfl⟩)
  | deliver c o tag pdu result hne hllid =>
    exact .quiet rfl (SameSec.acknowledge (.of_link (link_deliver hw _ _ _ _)))
  | l2cap c o llid payload result => exact .quiet rfl (.of_link (link_deliver hw _ _ _ _))
  | ctrl c o payload =>
    have heff := controlEffect_after hw c payload
    obtain ⟨hlog, _⟩ := Conn.handleLlControl_spec hw c payload
    rcases hlog with ⟨hlog, hraw⟩ | ⟨t, hlog, ⟨hs, hraw, hsent⟩ | ⟨hraw, hsent⟩⟩
    · rw [hlog]; exact .ctrl hraw heff
    · rw [hs] at heff
      rw [hlog]; exact .ctrlSent hraw hs hsent heff
    · rw [hlog]; exact .ctrlRaw hraw hsent heff
  | respond c =>
    rcases c.afterRespond_spec hw with ⟨hlog, hc⟩ | ⟨t, kind, hlog, hsent, _, hc⟩
    · rw [hlog, hc]; exact .stopped
    · rw [hlog]
      refine .answer hsent ?_
      rw [hc]
      exact ⟨rfl, rfl, rfl⟩
  | terminate c o =>
    obtain ⟨t, r, c', hx, hsent, hc'⟩ := c.sendTerminate_spec
    rw [hx]
    refine .terminate hsent ?_
    show SameSec c c'
    rw [hc']
    exact ⟨rfl, rfl, rfl⟩
  | bondKey c o ltk => exact .quiet rfl ⟨rfl, rfl, rfl⟩
  | call c o call =>
    have hl := (call.run_effect c).link
    exact .quiet rfl
      ⟨congrArg Link.role hl, congrArg Link.encrypted hl, congrArg Link.packetCounter hl⟩

/-! ## Nothing in the clear -/

/-- A PDU sent on an encrypted link without having gone through the cipher. -/
def Act.leaks : Act → Bool
  | .tx t => t.encrypted && t.nonce.isNone
  | _ => false

/-- An action that, on an encrypted link, goes to the radio past the cipher. -/
def Act.bypasses : Act → Bool
  | .ctrl c payload => c.encrypted && Conn.answersRaw payload
  | .terminate c => c.encrypted
  | _ => false

theorem leaks_of_sent {c : Conn} {kind : TxKind} {t : TxRec} (h : c.Sent kind t) :
    (Act.tx t).leaks = false := by
  show (t.encrypted && t.nonce.isNone) = false
  rw [h.encrypted, h.nonce]
  cases c.encrypted <;> rfl

theorem leaks_of_sentRaw {c : Conn} {kind : TxKind} {t : TxRec} (h : c.SentRaw kind t) :
    (Act.tx t).leaks = c.encrypted := by
  show (t.encrypted && t.nonce.isNone) = c.encrypted
  rw [h.encrypted, h.nonce]
  exact Bool.and_true _

theorem any_of_quiet {acts : List Act} (h : acts.all Act.quiet = true) :
    acts.any Act.leaks = false ∧ acts.any Act.bypasses = false := by
  induction acts with
  | nil => exact ⟨rfl, rfl⟩
  | cons a acts ih =>
    rw [List.all_cons, Bool.and_eq_true] at h
    rw [List.any_cons, List.any_cons, (ih h.2).1, (ih h.2).2]
    cases a <;> first | exact ⟨rfl, rfl⟩ | cases h.1

/-- A step leaks exactly when it bypasses the cipher. -/
theorem SecStep.leaks_eq {s s' : Sys} {acts : List Act} (h : SecStep s acts s') :
    acts.any Act.leaks = acts.any Act.bypasses := by
  cases h with
  | tick => rfl
  | quiet hquiet same => rw [(any_of_quiet hquiet).1, (any_of_quiet hquiet).2]
  | ctrl hraw effect =>
    show false = ((_ && Conn.answersRaw _) || false)
    rw [hraw, Bool.and_false]; rfl
  | ctrlSent hraw hstart sent effect =>
    show (false || ((Act.tx _).leaks || false)) = ((_ && Conn.answersRaw _) || (false || false))
    rw [leaks_of_sent sent, hraw, Bool.and_false]
  | ctrlRaw hraw sent effect =>
    show (false || ((Act.tx _).leaks || false)) = ((_ && Conn.answersRaw _) || (false || false))
    rw [leaks_of_sentRaw sent, hraw, Bool.and_true, Bool.false_or]; rfl
  | answer sent same =>
    show ((Act.tx _).leaks || false) = (false || false)
    rw [leaks_of_sent sent]
  | stopped => rfl
  | terminate sent same =>
    show (false || ((Act.tx _).leaks || false)) = (_ || (false || false))
    rw [leaks_of_sentRaw sent, Bool.false_or]; rfl

/-- A run leaks exactly when it bypasses the cipher. -/
theorem runOps_leaks_eq (hw : Hw) (ops : List Op) (c : Conn) :
    (Conn.runOps hw ops c).log.any Act.leaks = (Conn.runOps hw ops c).log.any Act.bypasses := by
  obtain ⟨⟨_, h⟩, _⟩ := runOps_invariant hw
    (I := fun log _ => log.any Act.leaks = log.any Act.bypasses) ops c rfl (by
      intro log s acts s' ih hstep
      rw [List.any_append, List.any_append, ih, hstep.sec.leaks_eq])
  exact h

/-- **Plaintext on an encrypted link.**  In any run from any state: every PDU handed to the radio
    while `encrypted` is set has gone through the cipher IFF no version or feature PDU was handled
    while it was set and no `LL_TERMINATE_IND` was due while it was set. -/
theorem no_plaintext_iff (hw : Hw) (ops : List Op) (c : Conn) :
    (∀ t, Act.tx t ∈ (Conn.runOps hw ops c).log → t.encrypted = true → t.nonce.isSome = true) ↔
      (∀ d payload, Act.ctrl d payload ∈ (Conn.runOps hw ops c).log → d.encrypted = true →
        Conn.answersRaw payload = false) ∧
      (∀ d, Act.terminate d ∈ (Conn.runOps hw ops c).log → d.encrypted = false) := by
  have h := runOps_leaks_eq hw ops c
  generalize (Conn.runOps hw ops c).log = log at h ⊢
  constructor
  · intro hall
    have hnone : log.any Act.bypasses = false := by
      rw [← h, List.any_eq_false]
      intro a ha
      cases a with
      | tx t =>
        intro hl
        have ht : t.encrypted = true ∧ t.nonce.isNone = true := by
          rw [← Bool.and_eq_true]; exact hl
        have := hall t ha ht.1
        rw [Option.isSome_iff_ne_none] at this
        exact this (Option.isNone_iff_eq_none.mp ht.2)
      | _ => exact Bool.false_ne_true
    rw [List.any_eq_false] at hnone
    constructor
    · intro d payload hd henc
      have := hnone _ hd
      simpa [Act.bypasses, henc] using this
    · intro d hd
      simpa [Act.bypasses] using hnone _ hd
  · rintro ⟨hctrl, hterm⟩ t ht henc
    have hnone : log.any Act.leaks = false := by
      rw [h, List.any_eq_false]
      intro a ha
      cases a with
      | ctrl d payload =>
        intro hb
        have hd : d.encrypted = true ∧ Conn.answersRaw payload = true := by
          rw [← Bool.and_eq_true]; exact hb
        rw [hctrl d payload ha hd.1] at hd
        cases hd.2
      | terminate d =>
        show ¬ d.encrypted = true
        rw [hterm d ha]
        exact Bool.false_ne_true
      | _ => exact Bool.false_ne_true
    rw [List.any_eq_false] at hnone
    have := hnone _ ht
    cases hn : t.nonce with
    | some n => rfl
    | none => exact absurd (by show (t.encrypted && t.nonce.isNone) = true; rw [henc, hn]; rfl) this

/-- A slave whose link was switched to encrypted answers a version PDU and terminates in the clear:
    both PDUs are on the air as they were built. -/
theorem version_and_termination_in_the_clear :
    let log := (Conn.runOps Hw.standIn
      [.llControl [llControlStartEncRsp], .llControl [llControlVersionInd], .call .terminate,
        .event [Window.of 0 [1, 0] (by decide)]] (Conn.sample .slave)).log
    log.filterMap Act.sent =
      [⟨.control, true, [6, 4, 0x0C, 0x0C, 0xFF, 0xFF, 0, 0], none,
          some [6, 4, 0x0C, 0x0C, 0xFF, 0xFF, 0, 0]⟩,
        ⟨.terminate, true, [6, 2, 2, 0x13], none, some [6, 2, 2, 0x13]⟩] ∧
    ¬ ∀ t, Act.tx t ∈ log → t.encrypted = true → t.nonce.isSome = true := by
  have hlog : (Conn.runOps Hw.standIn
      [.llControl [llControlStartEncRsp], .llControl [llControlVersionInd], .call .terminate,
        .event [Window.of 0 [1, 0] (by decide)]] (Conn.sample .slave)).log.filterMap Act.sent =
      [⟨.control, true, [6, 4, 0x0C, 0x0C, 0xFF, 0xFF, 0, 0], none,
          some [6, 4, 0x0C, 0x0C, 0xFF, 0xFF, 0, 0]⟩,
        ⟨.terminate, true, [6, 2, 2, 0x13], none, some [6, 2, 2, 0x13]⟩] := by decide +kernel
  refine ⟨hlog, ?_⟩
  intro hall
  have hmem : (⟨.terminate, true, [6, 2, 2, 0x13], none, some [6, 2, 2, 0x13]⟩ : TxRec) ∈
      (Conn.runOps Hw.standIn
        [.llControl [llControlStartEncRsp], .llControl [llControlVersionInd], .call .terminate,
          .event [Window.of 0 [1, 0] (by decide)]] (Conn.sample .slave)).log.filterMap Act.sent := by
    rw [hlog]; decide
  have hsome := hall _ (mem_of_sent hmem) rfl
  cases hsome

/-! ## Nonces -/

/-- The nonce an action uses. -/
def Act.nonce : Act → Option (UInt64 × UInt8)
  | .tx t => t.nonce
  | _ => none

/-- The nonces of a log, in order. -/
def nonces (log : List Act) : List (UInt64 × UInt8) := log.filterMap Act.nonce

/-- The action neither restarts the packet counter of an encrypted link nor lets it wrap round. -/
def Act.keepsCounter : Act → Bool
  | .ctrl c payload => !(c.encrypted && Conn.startsEnc payload)
  | .tick c => !(c.encrypted && c.packetCounter == 0xFFFFFFFFFFFFFFFF)
  | _ => true

/-- The invariant: all nonces so far differ, none was used before encryption started, and every
    one lies below the counter — strictly, as long as the current event has not answered. -/
structure NonceInv (log : List Act) (s : Sys) : Prop where
  nodup : (nonces log).Nodup
  plain : s.conn.encrypted = false → nonces log = []
  below : ∀ n ∈ nonces log,
    if s.owes then n.1.toNat < s.conn.packetCounter.toNat else n.1.toNat ≤ s.conn.packetCounter.toNat

theorem nonces_append (log acts : List Act) : nonces (log ++ acts) = nonces log ++ nonces acts :=
  List.filterMap_append

theorem nonces_of_quiet {acts : List Act} (h : acts.all Act.quiet = true) : nonces acts = [] := by
  rw [nonces, List.filterMap_eq_nil_iff]
  intro a ha
  have hq := List.all_eq_true.mp h a ha
  cases a <;> first | rfl | cases hq

theorem NonceInv.le {log : List Act} {s : Sys} (h : NonceInv log s) {n : UInt64 × UInt8}
    (hn : n ∈ nonces log) : n.1.toNat ≤ s.conn.packetCounter.toNat := by
  have := h.below n hn
  split at this <;> omega

/-- A step that uses no nonce and does not touch flag and counter keeps the invariant. -/
theorem NonceInv.of_same {log acts : List Act} {c c' : Conn} {o : Bool}
    (h : NonceInv log ⟨c, o⟩) (hacts : nonces acts = []) (henc : c'.encrypted = c.encrypted)
    (hpc : c'.packetCounter = c.packetCounter) : NonceInv (log ++ acts) ⟨c', o⟩ := by
  have hlog : nonces (log ++ acts) = nonces log := by
    rw [nonces_append, hacts, List.append_nil]
  refine ⟨by rw [hlog]; exact h.nodup, ?_, ?_⟩
  · intro he
    rw [hlog]
    exact h.plain (henc ▸ he)
  · rw [hlog]
    show ∀ n ∈ nonces log, if o then n.1.toNat < c'.packetCounter.toNat
      else n.1.toNat ≤ c'.packetCounter.toNat
    rw [hpc]
    exact h.below

/-- Without nonces so far, any step without nonces keeps the invariant. -/
theorem NonceInv.of_empty {log : List Act} {s : Sys} (h : nonces log = []) : NonceInv log s :=
  ⟨by rw [h]; exact List.nodup_nil, fun _ => h, by rw [h]; intro n hn; cases hn⟩

/-- Handling a control PDU that uses no nonce keeps the invariant: a START_ENC PDU comes on an
    unencrypted link, where none was used yet. -/
theorem NonceInv.ctrl {log acts : List Act} {c c' : Conn} {o start : Bool}
    (h : NonceInv log ⟨c, o⟩) (hacts : nonces acts = [])
    (hsafe : (c.encrypted && start) = false) (effect : Conn.ControlEffect start c c') :
    NonceInv (log ++ acts) ⟨c', o⟩ := by
  cases start with
  | false => exact h.of_same hacts effect.encrypted effect.packetCounter
  | true =>
    have henc : c.encrypted = false := by simpa using hsafe
    -- the counter restarts, below nothing
    refine .of_empty ?_
    rw [nonces_append, hacts, List.append_nil]
    exact h.plain henc

theorem no_restart {c : Conn} {payload : List UInt8} {acts : List Act}
    (h : (Act.ctrl c payload :: acts).all Act.keepsCounter = true) :
    (c.encrypted && Conn.startsEnc payload) = false := by
  rw [List.all_cons, Bool.and_eq_true] at h
  have hnot : (!(c.encrypted && Conn.startsEnc payload)) = true := h.1
  rwa [Bool.not_eq_true'] at hnot

/-- A new event of an encrypted link raises the counter above every nonce so far. -/
theorem NonceInv.tick {log : List Act} {c c' : Conn} {o : Bool} (h : NonceInv log ⟨c, o⟩)
    (henc : c'.encrypted = true) (hmax : c.packetCounter ≠ 0xFFFFFFFFFFFFFFFF)
    (hpc : c'.packetCounter = c.packetCounter + 1) : NonceInv log ⟨c', true⟩ := by
  have hnext : c'.packetCounter.toNat = c.packetCounter.toNat + 1 := by
    have hlt : c.packetCounter.toNat < 2 ^ 64 := c.packetCounter.toNat_lt
    have hne : c.packetCounter.toNat ≠ 2 ^ 64 - 1 := by
      intro he
      exact hmax (UInt64.toNat.inj (he.trans (by decide)))
    rw [hpc, UInt64.toNat_add, UInt64.toNat_one]
    omega
  refine ⟨h.nodup, ?_, ?_⟩
  · intro he
    cases henc.symm.trans he
  · intro n hn
    have hle := h.le hn
    show n.1.toNat < c'.packetCounter.toNat
    rw [hnext]
    exact Nat.lt_succ_of_le hle

/-- The answer of an encrypted link uses the counter itself, and every earlier nonce lies strictly
    below it. -/
theorem NonceInv.answer {log acts : List Act} {c c' : Conn} {direction : UInt8}
    (h : NonceInv log ⟨c, true⟩) (hacts : nonces acts = [(c.packetCounter, direction)])
    (henc : c'.encrypted = true) (hpc : c'.packetCounter = c.packetCounter) :
    NonceInv (log ++ acts) ⟨c', false⟩ := by
  have hbelow : ∀ n ∈ nonces log, n.1.toNat < c.packetCounter.toNat := h.below
  have hnew : (c.packetCounter, direction) ∉ nonces log := by
    intro hn
    exact Nat.lt_irrefl _ (hbelow _ hn)
  have hlog : nonces (log ++ acts) = (nonces log).concat (c.packetCounter, direction) := by
    rw [nonces_append, hacts, List.concat_eq_append]
  refine ⟨by rw [hlog]; exact h.nodup.concat hnew, ?_, ?_⟩
  · intro he
    cases henc.symm.trans he
  · intro n hn
    show n.1.toNat ≤ c'.packetCounter.toNat
    rw [hpc]
    rw [nonces_append, hacts] at hn
    rcases List.mem_append.mp hn with hn | hn
    · exact Nat.le_of_lt (hbelow n hn)
    · rw [List.mem_singleton.mp hn]

theorem SecStep.nonceInv {s s' : Sys} {acts log : List Act} (h : SecStep s acts s')
    (hacts : acts.all Act.keepsCounter = true) (hinv : NonceInv log s) :
    NonceInv (log ++ acts) s' := by
  cases h with
  | @tick c c' o role encrypted packetCounter =>
    have hlog : nonces (log ++ [Act.tick c]) = nonces log := by
      rw [nonces_append]; exact List.append_nil _
    cases henc : c.encrypted with
    | false => exact .of_empty (by rw [hlog]; exact hinv.plain henc)
    | true =>
      have hmax : c.packetCounter ≠ 0xFFFFFFFFFFFFFFFF := by
        simpa [Act.keepsCounter, henc] using hacts
      have hlater : NonceInv (log ++ [Act.tick c]) ⟨c, o⟩ := hinv.of_same rfl rfl rfl
      exact hlater.tick (encrypted.trans henc) hmax (by rw [packetCounter, if_pos henc])
  | quiet hquiet same =>
    exact hinv.of_same (nonces_of_quiet hquiet) same.encrypted same.packetCounter
  | ctrl hraw effect =>
    exact hinv.ctrl rfl (no_restart hacts) effect
  | @ctrlSent c c' o payload t hraw hstart sent effect =>
    have hsafe : (c.encrypted && true) = false := hstart ▸ no_restart hacts
    have hnone : t.nonce = none := by
      rw [sent.nonce, if_neg (by simpa using hsafe)]
    exact hinv.ctrl (by simp [nonces, Act.nonce, hnone]) hsafe effect
  | ctrlRaw hraw sent effect =>
    exact hinv.ctrl (by simp [nonces, Act.nonce, sent.nonce]) (no_restart hacts) effect
  | @answer c c' kind t sent same =>
    cases henc : c.encrypted with
    | false =>
      have hnone : nonces [Act.tx t] = [] := by
        simp [nonces, Act.nonce, sent.nonce, henc]
      exact .of_empty (by rw [nonces_append, hnone, List.append_nil]; exact hinv.plain henc)
    | true =>
      have hsome : nonces [Act.tx t] = [(c.packetCounter, c.txDirection)] := by
        simp [nonces, Act.nonce, sent.nonce, henc]
      exact hinv.answer hsome (same.encrypted.trans henc) same.packetCounter
  -- an answer that panics before the radio uses no nonce, but is no longer owed
  | stopped =>
    rw [List.append_nil]
    exact ⟨hinv.nodup, hinv.plain, fun n hn => hinv.le hn⟩
  | terminate sent same =>
    exact hinv.of_same (by simp [nonces, Act.nonce, sent.nonce]) same.encrypted same.packetCounter

/-- **Nonces are not reused.**  In any run from any state in which no LL_START_ENC PDU is handled
    on an encrypted link and the packet counter of an encrypted link does not wrap round, all
    (packet counter, direction) pairs that PDUs are encrypted under are different. -/
theorem nonces_nodup (hw : Hw) (ops : List Op) (c : Conn)
    (hsafe : (Conn.runOps hw ops c).log.all Act.keepsCounter = true) :
    (nonces (Conn.runOps hw ops c).log).Nodup := by
  obtain ⟨⟨s, h⟩, _⟩ := runOps_invariant hw
    (I := fun log s => log.all Act.keepsCounter = true → NonceInv log s) ops c
    (fun _ => .of_empty rfl) (by
      intro log s acts s' ih hstep hall
      rw [List.all_append, Bool.and_eq_true] at hall
      exact hstep.sec.nonceInv hall.2 (ih hall.1))
  exact (h hsafe).nodup

/-- Two events of an encrypted link use two nonces. -/
theorem nonces_nodup_two_events :
    let log := (Conn.runOps Hw.standIn
      [.llControl [llControlStartEncRsp], .event [Window.of 0 [1, 0] (by decide)],
        .event [Window.of 1 [9, 0] (by decide)]] (Conn.sample .slave)).log
    nonces log = [(1, 0), (2, 0)] ∧ (nonces log).Nodup :=
  ⟨by decide +kernel, nonces_nodup Hw.standIn
    [.llControl [llControlStartEncRsp], .event [Window.of 0 [1, 0] (by decide)],
      .event [Window.of 1 [9, 0] (by decide)]] (Conn.sample .slave) (by decide +kernel)⟩

/-- The peer repeats LL_START_ENC_RSP: under one and the same key an empty PDU and a notification
    are encrypted with the nonce (1, 0). -/
theorem repeated_start_enc_reuses_nonce :
    let x := Conn.runOps Hw.standIn
      [.llControl [llControlStartEncRsp], .event [Window.of 0 [1, 0] (by decide)],
        .llControl [llControlStartEncRsp], .call (.queueNotify [0x2A]),
        .event [Window.of 1 [9, 0] (by decide)]] (Conn.sample .slave)
    (x.log.filterMap Act.sent).map (fun t => (t.plain, t.nonce)) =
        [([7, 0], some (1, 0)), ([3, 8, 4, 0, 4, 0, 0x1B, 5, 0, 0x2A], some (1, 0))] ∧
      x.res.toOption.map (fun c => c.smp.stk) = some (Conn.sample .slave).smp.stk := by
  decide +kernel

/-! ## The key behind the flag -/

/-- The action sets the session key: from a stored bond, or by a Pairing Random that verifies. -/
def Act.setsKey (hw : Hw) : Act → Bool
  | .bondKey => true
  | .l2cap c _ llid payload => c.setsKey hw payload llid
  | _ => false

/-- The session key was set. -/
def keySet (hw : Hw) (log : List Act) : Bool := log.any (Act.setsKey hw)

/-- The action is no LL_START_ENC PDU, or comes when encryption was asked for and the key set. -/
def Act.agreed (keyed : Bool) : Act → Bool
  | .ctrl c payload => !Conn.startsEnc payload || (c.wantEncrypt && keyed)
  | _ => true

/-- Every LL_START_ENC PDU of the log is handled with `want_encrypt` set and after the session key
    was set; `keyed` says whether it was set before the log begins. -/
def startsAgreed (hw : Hw) : Bool → List Act → Bool
  | _, [] => true
  | keyed, a :: log => a.agreed keyed && startsAgreed hw (keyed || a.setsKey hw) log

theorem startsAgreed_append (keyed : Bool) (log acts : List Act) :
    startsAgreed hw keyed (log ++ acts) =
      (startsAgreed hw keyed log && startsAgreed hw (keyed || keySet hw log) acts) := by
  induction log generalizing keyed with
  | nil => simp [startsAgreed, keySet]
  | cons a log ih =>
    simp only [List.cons_append, startsAgreed, ih, keySet, List.any_cons, Bool.and_assoc,
      Bool.or_assoc]

/-- What every step keeps of the security state. -/
structure Keeps (hw : Hw) (acts : List Act) (c c' : Conn) : Prop where
  wants : c.wantEncrypt = true → c'.wantEncrypt = true
  stk : c'.smp.stk = c.smp.stk ∨ keySet hw acts = true

theorem keeps_deliver (hw : Hw) (c : Conn) (tag : Option Nat) (payload : List UInt8) (llid : UInt8)
    (result : ConnEvent) : Keeps hw [.l2cap c tag llid payload] c
      (stateAfter (c.handleL2cap hw payload llid result) Prod.fst c) := by
  cases h : c.handleL2cap hw payload llid result with
  | error p => exact ⟨id, .inl rfl⟩
  | ok r =>
    have heff := Conn.handleL2cap_effect h
    refine ⟨heff.wants, heff.stk.imp id ?_⟩
    intro hkey
    show (c.setsKey hw payload llid || false) = true
    rw [hkey]; rfl

theorem Step.keeps {s s' : Sys} {acts : List Act} (h : Step hw s acts s') :
    Keeps hw acts s.conn s'.conn := by
  cases h with
  | tick hb =>
    have hf := Conn.beginEvent_frame hb
    exact ⟨fun h => by rw [hf]; exact h, .inl (by rw [hf])⟩
  | heard c o rxBuf ccm lastRx => exact ⟨id, .inl rfl⟩
  | accept c o tag pdu =>
    show Keeps hw _ c (c.acknowledge pdu.sn)
    rw [Conn.acknowledge_eq]
    exact ⟨id, .inl rfl⟩
  | deliver c o tag pdu result hne hllid =>
    have hk := keeps_deliver hw (c.acknowledge pdu.sn) (some tag) (pdu.payload.take 64)
      pdu.llid result
    have hack := Conn.acknowledge_eq c pdu.sn
    refine ⟨fun h => hk.wants (by rw [hack]; exact h), hk.stk.imp (fun h => ?_) (fun h => ?_)⟩
    · rw [h, hack]
    · exact h
  | l2cap c o llid payload result => exact keeps_deliver hw c none payload llid result
  | ctrl c o payload =>
    have heff := controlEffect_after hw c payload
    exact ⟨heff.wants, .inl (congrArg (fun d => d.smp.stk) heff.frame)⟩
  | respond c =>
    rcases c.afterRespond_spec hw with ⟨_, hc⟩ | ⟨t, kind, _, _, _, hc⟩
    · rw [hc]; exact ⟨id, .inl rfl⟩
    · exact ⟨fun hw => (congrArg Conn.wantEncrypt hc).trans hw,
        .inl (congrArg (fun d => d.smp.stk) hc)⟩
  | terminate c o =>
    obtain ⟨t, r, c', hx, _, hf⟩ := c.sendTerminate_spec
    rw [hx]
    exact ⟨fun hw => (congrArg Conn.wantEncrypt hf).trans hw,
      .inl (congrArg (fun d => d.smp.stk) hf)⟩
  | bondKey c o ltk => exact ⟨fun _ => rfl, .inr rfl⟩
  | call c o call => exact ⟨(call.run_effect c).wants, .inl (call.run_effect c).stk⟩

/-- The link becomes encrypted only by a START_ENC PDU. -/
theorem SecStep.encrypted_of {s s' : Sys} {acts : List Act} (h : SecStep s acts s')
    (he : s'.conn.encrypted = true) : s.conn.encrypted = true ∨
      ∃ payload rest, acts = .ctrl s.conn payload :: rest ∧ Conn.startsEnc payload = true := by
  have key : ∀ {c c' : Conn} {start : Bool}, Conn.ControlEffect start c c' →
      c'.encrypted = true → c.encrypted = true ∨ start = true := by
    intro c c' start heff henc
    rw [heff.encrypted, Bool.or_eq_true] at henc
    exact henc.symm
  cases h with
  | tick role encrypted packetCounter => exact .inl (encrypted ▸ he)
  | quiet hquiet same => exact .inl (same.encrypted ▸ he)
  | ctrl hraw effect => exact (key effect he).imp id (fun hs => ⟨_, _, rfl, hs⟩)
  | ctrlSent hraw hstart sent effect => exact .inr ⟨_, _, rfl, hstart⟩
  | ctrlRaw hraw sent effect => exact (key effect he).imp id (fun hs => ⟨_, _, rfl, hs⟩)
  | answer sent same => exact .inl (same.encrypted ▸ he)
  | stopped => exact .inl he
  | terminate sent same => exact .inl (same.encrypted ▸ he)

/-- The flag stands for a requested handshake and a set key, and a key never set is all zero. -/
structure AgreedInv (hw : Hw) (log : List Act) (c : Conn) : Prop where
  agreed : c.encrypted = true → c.wantEncrypt = true ∧ keySet hw log = true
  unset : keySet hw log = false → c.smp.stk = Buf.zero 16

theorem keySet_append (log acts : List Act) :
    keySet hw (log ++ acts) = (keySet hw log || keySet hw acts) := List.any_append

theorem Step.agreedInv {s s' : Sys} {log acts : List Act} (h : Step hw s acts s')
    (hacts : startsAgreed hw (keySet hw log) acts = true) (hinv : AgreedInv hw log s.conn) :
    AgreedInv hw (log ++ acts) s'.conn := by
  have hk := h.keeps
  constructor
  · intro he
    have hbefore : s.conn.wantEncrypt = true ∧ keySet hw log = true := by
      rcases h.sec.encrypted_of he with he | ⟨payload, rest, rfl, hstart⟩
      · exact hinv.agreed he
      · -- the START_ENC PDU itself: its condition is what is to be shown
        rw [startsAgreed, Bool.and_eq_true] at hacts
        have ha : (!Conn.startsEnc payload || (s.conn.wantEncrypt && keySet hw log)) = true :=
          hacts.1
        rw [hstart, Bool.not_true, Bool.false_or, Bool.and_eq_true] at ha
        exact ha
    refine ⟨hk.wants hbefore.1, ?_⟩
    rw [keySet_append, hbefore.2]; rfl
  · intro hu
    rw [keySet_append, Bool.or_eq_false_iff] at hu
    rcases hk.stk with hstk | hset
    · rw [hstk]
      exact hinv.unset hu.1
    · rw [hu.2] at hset
      cases hset

/-- **The flag and the key.**  In any run of a new connection in which every LL_START_ENC_REQ and
    LL_START_ENC_RSP is handled with `want_encrypt` set and after the session key was set (by a
    verified Pairing Random or from a stored bond), the link is encrypted only with `want_encrypt`
    set and the key set; and as long as the key was not set it is all zero. -/
theorem encrypted_agreed (hw : Hw) (params : ConnectReqData) (firstChannel : UInt8) (now : UInt32)
    (role : ConnRole) (ops : List Op) (c : Conn)
    (hrun : (Conn.runOps hw ops (Conn.new params firstChannel now role)).res = .ok c)
    (hstarts : startsAgreed hw false
      (Conn.runOps hw ops (Conn.new params firstChannel now role)).log = true) :
    let log := (Conn.runOps hw ops (Conn.new params firstChannel now role)).log
    (c.encrypted = true → c.wantEncrypt = true ∧ keySet hw log = true) ∧
      (keySet hw log = false → c.smp.stk = Buf.zero 16) := by
  obtain ⟨_, h⟩ := runOps_invariant hw
    (I := fun log s => startsAgreed hw false log = true → AgreedInv hw log s.conn) ops
    (Conn.new params firstChannel now role)
    (fun _ => ⟨fun he => (by cases he), fun _ => rfl⟩) (by
      intro log s acts s' ih hstep hall
      rw [startsAgreed_append, Bool.and_eq_true, Bool.false_or] at hall
      exact hstep.agreedInv hall.2 (ih hall.1))
  obtain ⟨o, hinv⟩ := h c hrun
  exact ⟨(hinv hstarts).agreed, (hinv hstarts).unset⟩

/-- The handshake of a bonded master: the key comes from the store, encryption was asked for, and
    then it starts. -/
theorem encrypted_agreed_bonded :
    let ops : List Op :=
      [.call (.setPeer (Buf.zero 6)), .call (.gapBondSave (Buf.zero 6) ((Buf.zero 16).set 0 1) none),
        .gapEncrypt, .llControl [llControlStartEncRsp]]
    ∃ c, (Conn.runOps Hw.standIn ops (Conn.sample .master)).res = .ok c ∧ c.encrypted = true ∧
      c.wantEncrypt = true ∧
      keySet Hw.standIn (Conn.runOps Hw.standIn ops (Conn.sample .master)).log = true := by
  refine ⟨_, rfl, rfl, ?_⟩
  exact (encrypted_agreed Hw.standIn _ _ _ .master
    [.call (.setPeer (Buf.zero 6)), .call (.gapBondSave (Buf.zero 6) ((Buf.zero 16).set 0 1) none),
      .gapEncrypt, .llControl [llControlStartEncRsp]] _ rfl (by decide +kernel)).1 rfl

/-- A peer that never paired sends LL_START_ENC_RSP to a fresh slave: the link counts as
    encrypted, under the all-zero key. -/
theorem start_enc_without_key :
    let x := Conn.runOps Hw.standIn [.llControl [llControlStartEncRsp]] (Conn.sample .slave)
    ∃ c, x.res = .ok c ∧ c.encrypted = true ∧ c.wantEncrypt = false ∧
      keySet Hw.standIn x.log = false ∧ c.smp.stk = Buf.zero 16 :=
  ⟨_, rfl, rfl, rfl, rfl, rfl⟩

end NrfBle
