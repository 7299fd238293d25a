/-
  The ATT MTU, and what is put into the transmit slot for ATT.

  The MTU is 23 in every state of a connection: an Exchange MTU response lowers it to what the peer
  offers and raises it to the default again, and nothing else writes it.  But no builder of a PDU
  looks at it.  Each has a bound of its own, 247 bytes for a notification and 64 or 32 for a list, so
  whether a PDU fits the MTU is decided by what it carries: a notification of at most twenty bytes,
  a discovery answer with a single entry.
-/
import Mathlib.Tactic
import NrfBle.Hw.Conn.Discovery
import NrfBle.Hw.Conn.Safety

namespace NrfBle

open Checked

variable {hw : Hw}

namespace Conn

/-! ## The MTU is the default -/

/-- The ATT MTU is the default one. -/
def MtuDefault (c : Conn) : Prop := c.attMtu = UInt16.ofNat attMtuDefault

theorem mtuAfter_default {c : Conn} (h : c.MtuDefault) {op : UInt8} {att : List UInt8} {mtu : UInt16}
    (hm : c.mtuAfter op att = .ok mtu) : mtu = UInt16.ofNat attMtuDefault := by
  unfold mtuAfter at hm
  split at hm
  · obtain ⟨peer, _, hm⟩ := bind_eq_ok.mp hm
    cases hm
    have hle : min c.attMtu peer ≤ UInt16.ofNat attMtuDefault := by
      rw [← show c.attMtu = UInt16.ofNat attMtuDefault from h]
      exact Std.min_le_left
    exact if_pos hle
  · cases hm
    exact h

theorem MtuDefault.handleAtt {c c' : Conn} {att : List UInt8} {result result' : ConnEvent}
    (hc : c.MtuDefault) (h : c.handleAtt att result = .ok (c', result')) : c'.MtuDefault := by
  cases handleAtt_cases h with
  | empty | replied => exact hc
  | response _ hrun =>
    obtain ⟨mtu, hm, hrun⟩ := bind_eq_ok.mp hrun
    cases hrun
    exact mtuAfter_default hc hm
  | received _ _ hframe => exact hframe.attMtu.trans hc
  | written _ _ hframe => exact hframe.attMtu.trans hc

theorem MtuDefault.reassemble {c c' : Conn} {body : List UInt8} {result result' : ConnEvent}
    (hc : c.MtuDefault) (h : c.reassemble Conn.handleAtt body result = .ok (c', result')) :
    c'.MtuDefault := by
  rcases reassemble_cases h with ⟨b, n, ⟨rfl, _⟩ | ⟨msg, c₁, hatt, rfl⟩⟩
  · exact hc
  · have hmtu : c₁.MtuDefault := MtuDefault.handleAtt (by exact hc) hatt
    exact hmtu

/-- A data PDU leaves the MTU at the default. -/
theorem MtuDefault.handleL2cap {c c' : Conn} {payload : List UInt8} {llid : UInt8}
    {result result' : ConnEvent} (hc : c.MtuDefault)
    (h : c.handleL2cap hw payload llid result = .ok (c', result')) : c'.MtuDefault := by
  cases handleL2cap_cases h with
  | continued _ hrun => exact hc.reassemble hrun
  | dropped | unknown => exact hc
  | @smp l₀ l₁ d₀ d₁ body _ _ =>
    have hmtu := congrArg Conn.attMtu
      (handleSmp_frame hw (c.headerRead (ofLe16 l₀ l₁) (ofLe16 d₀ d₁)) body)
    exact hmtu.trans hc
  | signaling _ hrun =>
    rcases handleLeSignaling_cases hrun with rfl | ⟨_, _, _, rfl⟩ | ⟨_, _, _, rfl, _⟩ | rfl
    all_goals exact hc
  | @att l₀ l₁ d₀ d₁ body _ _ hrun =>
    have hread : (c.headerRead (ofLe16 l₀ l₁) (ofLe16 d₀ d₁)).MtuDefault := hc
    exact hread.reassemble hrun
  | coc _ hrun =>
    have hmtu := congrArg Conn.attMtu (rxCocSdu_frame hrun)
    exact hmtu.trans hc

end Conn

/-- **Every step keeps the MTU.** -/
theorem Step.mtuDefault {s s' : Sys} {acts : List Act} (h : Step hw s acts s')
    (hc : s.conn.MtuDefault) : s'.conn.MtuDefault :=
  h.levels_invariant (I := fun l => l.attMtu = UInt16.ofNat attMtuDefault)
    (fun _ _ _ _ _ hrun hmtu => Conn.MtuDefault.handleL2cap hmtu hrun)
    (fun c call hmtu => (call.run_frame c).2.2.trans hmtu) hc

theorem Reachable.mtuDefault {c : Conn} (h : Reachable hw c) : c.MtuDefault :=
  h.invariant (fun _ _ _ _ => rfl) (fun _ _ _ hstep hc => hstep.mtuDefault hc)

namespace Conn

/-! ## How long the answers are -/

/-- A discovery whose range has more than one match. -/
def listsSeveral : List UInt8 → Bool
  | 0x04 :: s₀ :: s₁ :: e₀ :: e₁ :: _ =>
    decide (2 ≤ (entries (ofLe16 s₀ s₁) (ofLe16 e₀ e₁)).length)
  | 0x08 :: t₀ :: t₁ :: s₀ :: s₁ :: e₀ :: e₁ :: _ =>
    decide (2 ≤ (byType (ofLe16 s₀ s₁) (ofLe16 e₀ e₁) (ofLe16 t₀ t₁)).length)
  | _ => false

/-- Two neighbours are not both short. -/
theorem allShort_of_two {start stop : UInt16} (h : 2 ≤ (entries start stop).length) :
    allShort start stop = false := by
  have halt := entries_alternate start stop
  unfold allShort
  cases hfound : entries start stop with
  | nil =>
    rw [hfound] at h
    cases h
  | cons a rest =>
    cases rest with
    | nil =>
      rw [hfound, List.length_singleton] at h
      omega
    | cons b rest =>
      rw [hfound] at halt
      by_contra hall
      have hboth := List.all_eq_true.mp (Bool.eq_true_of_not_eq_false hall)
      exact halt.rel ((hboth a List.mem_cons_self).trans
        (hboth b (List.mem_cons_of_mem _ List.mem_cons_self)).symm)

theorem informationReply_fits_iff (start stop : UInt16) :
    (informationReply start stop).length ≤ attMtuDefault ↔ (entries start stop).length < 2 := by
  have hlen := listReply_length (n := 64) 0x05 (if allShort start stop then 1 else 2)
    (fun _ he => informationEntries_length start stop he)
  rw [informationWidth] at hlen
  have hcount : (informationEntries start stop).length = (entries start stop).length := List.length_map _
  rw [hcount] at hlen
  show (listReply _ _ _ _ _).length ≤ 23 ↔ _
  rw [hlen]
  rcases Nat.lt_or_ge (entries start stop).length 2 with hone | htwo
  · refine iff_of_true ?_ hone
    cases allShort start stop <;> simp only [if_true, if_false, Bool.false_eq_true] <;> omega
  · refine iff_of_false ?_ (by omega)
    rw [allShort_of_two htwo]
    simp only [if_false, Bool.false_eq_true]
    omega

theorem inRange_length_le (start stop h : UInt16) (value : List UInt8) :
    (inRange start stop h value).length ≤ 1 := by
  unfold inRange
  split <;> simp

/-- Only the two characteristic declarations share a type. -/
theorem characteristic_of_two {start stop uuid : UInt16} (h : 2 ≤ (byType start stop uuid).length) :
    uuid = gattUuidCharacteristic := by
  by_contra hne
  have hps := inRange_length_le start stop handlePrimaryService nusServiceUuid.bytes
  have hcccd := inRange_length_le start stop handleTxCccd [0, 0]
  unfold byType at h
  rw [if_neg hne, List.append_nil, List.length_append] at h
  by_cases hps' : uuid = gattUuidPrimaryService
  · rw [if_pos hps', hps', if_neg (by decide), List.length_nil] at h
    omega
  · rw [if_neg hps', List.length_nil] at h
    split at h
    · omega
    · cases h

theorem characteristic_length (start stop : UInt16) {e : UInt16 × List UInt8}
    (he : e ∈ byType start stop gattUuidCharacteristic) : e.2.length = 19 := by
  unfold byType at he
  rw [if_neg (by decide), if_pos rfl, if_neg (by decide), List.nil_append, List.append_nil] at he
  rcases List.mem_append.mp he with he | he <;> exact inRange_length he

theorem valuesAnswer_fits_iff (start stop uuid : UInt16) :
    (valuesAnswer 64 0x09 (byType start stop uuid)).length ≤ attMtuDefault ↔
      (byType start stop uuid).length < 2 := by
  show _ ≤ 23 ↔ _
  rcases Nat.lt_or_ge (byType start stop uuid).length 2 with hone | htwo
  · refine iff_of_true ?_ hone
    obtain ⟨L, hL, he⟩ := byType_length start stop uuid
    cases hfound : byType start stop uuid with
    | nil => decide
    | cons e es =>
      rw [hfound] at he hone
      rw [valuesAnswer, he e List.mem_cons_self, listReply_length _ _ he]
      have hcount : min ((64 - 2) / (2 + L)) (e :: es).length ≤ 1 := by omega
      have hmul := Nat.mul_le_mul_right (2 + L) hcount
      omega
  · refine iff_of_false ?_ (by omega)
    obtain rfl := characteristic_of_two htwo
    have he := fun e he => characteristic_length start stop (e := e) he
    cases hfound : byType start stop gattUuidCharacteristic with
    | nil =>
      rw [hfound] at htwo
      cases htwo
    | cons e es =>
      rw [hfound] at he htwo
      rw [valuesAnswer, he e List.mem_cons_self, listReply_length _ _ he]
      omega

theorem not_listsSeveral {op : UInt8} (h04 : op ≠ 0x04) (h08 : op ≠ 0x08) (rest : List UInt8) :
    listsSeveral (op :: rest) = false := by
  unfold listsSeveral
  split
  · exact absurd (List.cons.inj ‹_›).1 h04
  · exact absurd (List.cons.inj ‹_›).1 h08
  · rfl

theorem read_length {c : Conn} {handle : UInt16} {value : List UInt8}
    (h : c.read handle = some value) : value.length ≤ 2 := by
  unfold read at h
  split at h
  · cases h
    exact Nat.zero_le _
  · split at h
    · cases h
      exact Nat.le_refl _
    · cases h

theorem readRequest_length {c : Conn} {att rsp : List UInt8} (h : c.readRequest att = .ok rsp) :
    rsp.length ≤ 5 := by
  obtain ⟨handle, _, h⟩ := bind_eq_ok.mp h
  split at h
  · rename_i value hvalue
    cases h
    have hlen := read_length hvalue
    rw [List.length_cons]
    omega
  · cases h
    exact Nat.le_refl _

theorem readBlob_length {c : Conn} {att rsp : List UInt8} (h : c.readBlob att = .ok rsp) :
    rsp.length ≤ 5 := by
  obtain ⟨handle, _, h⟩ := bind_eq_ok.mp h
  obtain ⟨offset, _, h⟩ := bind_eq_ok.mp h
  split at h
  · rename_i value hvalue
    have hlen := read_length hvalue
    split at h
    · cases h
      rw [List.length_cons, List.length_drop]
      omega
    · cases h
      exact Nat.le_refl _
  · cases h
    exact Nat.le_refl _

theorem readByGroupType_length {att rsp : List UInt8} (h : readByGroupType att = .ok rsp) :
    rsp.length ≤ attMtuDefault := by
  obtain ⟨uuid, _, h⟩ := bind_eq_ok.mp h
  obtain ⟨start, _, h⟩ := bind_eq_ok.mp h
  obtain ⟨stop, _, h⟩ := bind_eq_ok.mp h
  split at h
  · rw [primaryServices_eq, valuesReply_byType (by omega)] at h
    cases h
    have hone : (byType start stop gattUuidPrimaryService).length ≤ 1 := by
      rw [← primaryServices_eq]
      exact inRange_length_le _ _ _ _
    have hlen : ∀ e ∈ byType start stop gattUuidPrimaryService, e.2.length = 16 := by
      rw [← primaryServices_eq]
      exact fun e he => inRange_length he
    cases hfound : byType start stop gattUuidPrimaryService with
    | nil => decide
    | cons e es =>
      rw [hfound] at hone hlen
      show _ ≤ 23
      rw [valuesAnswer, hlen e List.mem_cons_self, listReply_length _ _ hlen]
      omega
  · cases h
    decide

/-- **The answer to a request** fits the default MTU iff it has not to list several attributes. -/
theorem attReply_fits_iff {c : Conn} {op : UInt8} {rest rsp : List UInt8}
    (h : c.attReply op (op :: rest) = .ok rsp) :
    rsp.length ≤ attMtuDefault ↔ listsSeveral (op :: rest) = false := by
  have hdefault : 5 ≤ attMtuDefault := by decide
  unfold attReply at h
  split at h
  · cases h
    exact iff_of_true hdefault (not_listsSeveral (by decide) (by decide) rest)
  · have hlen := (returns_findInformation _).mp ⟨rsp, h⟩
    rw [List.length_cons] at hlen
    obtain hshort | ⟨s₀, s₁, e₀, e₁, rest, rfl⟩ := short_or_header rest
    · omega
    · rw [findInformation_eq] at h
      cases h
      exact (informationReply_fits_iff _ _).trans (decide_eq_false_iff_not.trans Nat.not_le).symm
  · have hlen := (returns_readByType _).mp ⟨rsp, h⟩
    rw [List.length_cons] at hlen
    obtain hshort | ⟨t₀, t₁, s₀, s₁, rest, rfl⟩ := short_or_header rest
    · omega
    · obtain ⟨e₀, e₁, rest, rfl⟩ : ∃ e₀ e₁ tail, rest = e₀ :: e₁ :: tail := by
        cases rest with
        | nil =>
          simp only [List.length_cons, List.length_nil] at hlen
          omega
        | cons e₀ rest =>
          cases rest with
          | nil =>
            simp only [List.length_cons, List.length_nil] at hlen
            omega
          | cons e₁ rest => exact ⟨e₀, e₁, rest, rfl⟩
      rw [readByType_eq] at h
      cases h
      exact (valuesAnswer_fits_iff _ _ _).trans (decide_eq_false_iff_not.trans Nat.not_le).symm
  · exact iff_of_true ((readRequest_length h).trans hdefault)
      (not_listsSeveral (by decide) (by decide) rest)
  · exact iff_of_true ((readBlob_length h).trans hdefault)
      (not_listsSeveral (by decide) (by decide) rest)
  · exact iff_of_true (readByGroupType_length h) (not_listsSeveral (by decide) (by decide) rest)
  · rename_i h04 h08 _ _ _
    cases h
    exact iff_of_true hdefault (not_listsSeveral h04 h08 rest)

/-! ## What is put into the slot -/

/-- **An answered PDU**: its answer is queued, after a write, or with nothing else done. -/
theorem handleAtt_answers {c c' : Conn} {op : UInt8} {rest : List UInt8} {result result' : ConnEvent}
    (hop : c.answersAtt op) (h : c.handleAtt (op :: rest) result = .ok (c', result')) :
    (∃ (c₁ : Conn) (rsp : List UInt8), op = 0x12 ∧ rsp.length ≤ 5 ∧ c' = c₁.queueAtt rsp) ∨
      ∃ rsp, c.attReply op (op :: rest) = .ok rsp ∧ c' = c.queueAtt rsp ∧ result' = result := by
  cases handleAtt_cases h with
  | response hresp => exact absurd hresp hop.1
  | received _ hsilent => exact absurd hsilent (not_or.mpr hop.2)
  | @written _ _ rsp c₁ _ _ h12 _ hrsp =>
    refine .inl ⟨c₁, rsp, h12, ?_, rfl⟩
    rcases hrsp with rfl | rfl <;> decide
  | replied _ hrsp => exact .inr ⟨_, hrsp, rfl, rfl⟩

end Conn

/-- **Every PDU for ATT, in every reachable state.**  A notification fits the MTU iff it has at most
    twenty bytes of data, the answer to a request iff the request is no discovery with more than one
    match. -/
theorem att_fits_mtu_iff {c : Conn} (hc : Reachable hw c) :
    (∀ data, (c.queueNotify data).txAttLen ≤ (c.queueNotify data).attMtu.toNat ↔ data.length ≤ 20) ∧
      ∀ op rest c' result result', c.answersAtt op →
        c.handleAtt (op :: rest) result = .ok (c', result') →
          (c'.txAttLen ≤ c'.attMtu.toNat ↔ Conn.listsSeveral (op :: rest) = false) := by
  have hmtu : c.MtuDefault := hc.mtuDefault
  constructor
  · intro data
    show 3 + min data.length 244 ≤ c.attMtu.toNat ↔ _
    rw [show c.attMtu.toNat = 23 from congrArg UInt16.toNat hmtu]
    show 3 + min data.length 244 ≤ 23 ↔ _
    omega
  · intro op rest c' result result' hop h
    have hmtu' : c'.attMtu.toNat = 23 := congrArg UInt16.toNat (hmtu.handleAtt h)
    rw [hmtu']
    rcases Conn.handleAtt_answers hop h with ⟨c₁, rsp, rfl, hlen, rfl⟩ | ⟨rsp, hrsp, rfl, _⟩
    · refine iff_of_true ?_ (Conn.not_listsSeveral (by decide) (by decide) rest)
      show min rsp.length 251 ≤ 23
      omega
    · rw [← Conn.attReply_fits_iff hrsp]
      show min rsp.length 251 ≤ 23 ↔ rsp.length ≤ 23
      omega

theorem sample_reachable (hw : Hw) (role : ConnRole) : Reachable hw (Conn.sample role) :=
  ⟨_, _, _, _, [], rfl⟩

/-- Two bytes of data, and the UUID of the one attribute 3. -/
theorem att_fits_mtu_single :
    ((Conn.sample .slave).queueNotify [1, 2]).txAttLen ≤ 23 ∧
      ∃ c', (Conn.sample .slave).handleAtt [0x04, 3, 0, 3, 0] .idle = .ok (c', .idle) ∧
        c'.txAttLen ≤ c'.attMtu.toNat := by
  obtain ⟨hnotify, hatt⟩ := att_fits_mtu_iff (sample_reachable Hw.standIn .slave)
  have hop : (Conn.sample .slave).answersAtt 0x04 := ⟨(fun h => nomatch h.2), by decide, by decide⟩
  exact ⟨(hnotify [1, 2]).mpr (by decide), _, rfl, (hatt 0x04 [3, 0, 3, 0] _ .idle .idle hop rfl).mpr rfl⟩

/-- A notification of 21 bytes, and the UUIDs of all attributes: 24 and 56 bytes, where the MTU is 23. -/
theorem long_att_exceeds_mtu :
    Reachable Hw.standIn (Conn.sample .slave) ∧ (Conn.sample .slave).attMtu = 23 ∧
      ((Conn.sample .slave).queueNotify (List.replicate 21 0)).txAttLen = 24 ∧
      ((Conn.sample .slave).handleAtt [0x04, 1, 0, 0xFF, 0xFF] .idle).map
        (fun r => (r.1.attMtu, r.1.txAttLen)) = .ok (23, 56) ∧
      ((Conn.sample .slave).handleAtt [0x08, 0x03, 0x28, 1, 0, 0xFF, 0xFF] .idle).map
        (fun r => (r.1.attMtu, r.1.txAttLen)) = .ok (23, 44) :=
  ⟨sample_reachable _ _, rfl, rfl, by decide +kernel, by decide +kernel⟩

end NrfBle
