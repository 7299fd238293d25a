/-
  Channel hopping against Channel Selection Algorithm #1.

  The algorithm keeps an UNMAPPED channel that advances by `hop` modulo 37 from 0, and uses it, or,
  where the map disables it, the enabled channel with that number modulo how many there are.
  `next_channel` keeps one channel: it advances the channel LAST USED and goes on to the next enabled
  one, and the first advance starts from the advertising channel the CONNECT_REQ was heard on.

  1. **The run** (`hops_run`) — the channels of any run, whatever else happens in it, are those of
     the pure sequence `hopFrom`: no operation changes the channel, the hop or the map.

  2. **The search** (`nextChannel_first`) — the loop goes once round the data channels, so on a map with
     a data channel no event is ever on another.

  3. **The comparison** (`hopFrom_eq_csa1_iff`) — were the two sequences equal, remapping would
     respect the rotation by `hop` of the 37 channels.  That leaves only the full map, and on it only
     the start from channel 37, which is 0 modulo 37.
-/
import Mathlib.Tactic
import NrfBle.Lib.Rotation
import NrfBle.Hw.Timer
import NrfBle.Hw.Conn.Run

namespace NrfBle

open Checked

/-! ## Channel Selection Algorithm #1 -/

/-- The channel is in the map. -/
def enabled (map : Buf 5) (ch : Nat) : Bool :=
  map.bytes.getD (ch / 8) 0 &&& ((1 : UInt8) <<< UInt8.ofNat (ch % 8)) ≠ 0

/-- The data channels in the map, ascending. -/
def enabledChannels (map : Buf 5) : List Nat := (List.range 37).filter (enabled map)

/-- The unmapped channel of the `n`-th event. -/
def unmapped (hop : Nat) : Nat → Nat
  | 0 => 0
  | n + 1 => (unmapped hop n + hop) % 37

/-- The channel used for an unmapped channel. -/
def remap (map : Buf 5) (u : Nat) : Nat :=
  if enabled map u then u
  else (enabledChannels map).getD (u % (enabledChannels map).length) 0

/-- The channel of the `n`-th event. -/
def csa1 (map : Buf 5) (hop n : Nat) : Nat := remap map (unmapped hop n)

/-! ## The sequence of `next_channel` -/

/-- The channel after `n` calls of `next_channel`. -/
def hopFrom (map : Buf 5) (hop first : Nat) : Nat → Nat
  | 0 => first
  | n + 1 => skipUnused map 37 ((hopFrom map hop first n + hop) % 37)

theorem skipUnused_lt (map : Buf 5) (guard : Nat) {ch : Nat} (h : ch < 37) :
    skipUnused map guard ch < 37 := by
  induction guard generalizing ch with
  | zero => exact h
  | succ guard ih =>
    unfold skipUnused
    split
    · exact ih (Nat.mod_lt _ (by decide))
    · exact h

theorem skipUnused_enabled {map : Buf 5} {ch : Nat} (h : enabled map ch = true) (guard : Nat) :
    skipUnused map guard ch = ch := by
  cases guard with
  | zero => rfl
  | succ guard =>
    unfold skipUnused
    rw [if_neg (of_decide_eq_true h)]

theorem hopFrom_le (map : Buf 5) (hop : Nat) {first : Nat} (h : first ≤ 39) (n : Nat) :
    hopFrom map hop first n ≤ 39 := by
  cases n with
  | zero => exact h
  | succ n =>
    have hlt := skipUnused_lt map 37
      (show (hopFrom map hop first n + hop) % 37 < 37 from Nat.mod_lt _ (by decide))
    exact Nat.le_of_lt (Nat.lt_of_lt_of_le hlt (by decide))

/-- On the channels and hops of a connection the 8-bit sum does not overflow. -/
theorem nextChannel_eq {current hop : UInt8} (map : Buf 5) (hc : current.toNat ≤ 39)
    (hh : hop.toNat ≤ 31) :
    ∃ ch, nextChannel current hop map = .ok ch ∧
      ch.toNat = skipUnused map 37 ((current.toNat + hop.toNat) % 37) := by
  have hfit : fit 8 (current.toNat + hop.toNat) = .ok (current.toNat + hop.toNat) :=
    if_pos (by omega)
  have hlt := skipUnused_lt map 37
    (show (current.toNat + hop.toNat) % 37 < 37 from Nat.mod_lt _ (by decide))
  refine ⟨UInt8.ofNat (skipUnused map 37 ((current.toNat + hop.toNat) % 37)), ?_, ?_⟩
  · unfold nextChannel
    rw [hfit]
    rfl
  · exact Nat.mod_eq_of_lt (Nat.lt_trans hlt (by decide))

theorem mem_enabledChannels {map : Buf 5} {ch : Nat} :
    ch ∈ enabledChannels map ↔ ch < 37 ∧ enabled map ch = true := by
  unfold enabledChannels
  rw [List.mem_filter, List.mem_range]

/-! ## The search of `next_channel` -/

/-- The skipping loop with its index and its sums checked.  The loop reads the map once more when the
    guard is used up. -/
def skipUnusedChecked (map : Buf 5) : Nat → Nat → Except Panic Nat
  | 0, ch => do
    let _ ← idx map.bytes (ch / 8)
    return ch
  | guard + 1, ch => do
    let byte ← idx map.bytes (ch / 8)
    if byte &&& ((1 : UInt8) <<< UInt8.ofNat (ch % 8)) = 0 then
      let ch ← fit 8 (ch + 1)
      skipUnusedChecked map guard (ch % 37)
    else return ch

/-- `next_channel` with every operation checked. -/
def nextChannelChecked (current hop : UInt8) (map : Buf 5) : Except Panic UInt8 := do
  let sum ← fit 8 (current.toNat + hop.toNat)
  let ch ← skipUnusedChecked map 37 (sum % 37)
  return UInt8.ofNat ch

/-- The first enabled channel from `start` on, once round the data channels, or `start`. -/
def firstEnabled (map : Buf 5) (start : Nat) : Nat :=
  (Rotation.firstFrom 37 (enabled map) start).getD start

theorem idx_map (map : Buf 5) {ch : Nat} (h : ch < 37) :
    idx map.bytes (ch / 8) = .ok (map.bytes.getD (ch / 8) 0) := by
  have hlen : ch / 8 < map.bytes.length := by
    rw [map.size]
    omega
  rw [idx_of_lt hlen, List.getD_eq_getElem?_getD, List.getElem?_eq_getElem hlen, Option.getD_some]

/-- No check of the loop fails. -/
theorem skipUnusedChecked_eq (map : Buf 5) (guard : Nat) {ch : Nat} (h : ch < 37) :
    skipUnusedChecked map guard ch = .ok (skipUnused map guard ch) := by
  induction guard generalizing ch with
  | zero => rw [skipUnusedChecked, idx_map map h, ok_bind]; rfl
  | succ guard ih =>
    rw [skipUnusedChecked, skipUnused, idx_map map h, ok_bind]
    split
    · rw [show fit 8 (ch + 1) = .ok (ch + 1) from if_pos (by omega), ok_bind]
      exact ih (Nat.mod_lt _ (by decide))
    · rfl

/-- With `guard` steps left the loop searches `guard` channels, and stops behind them. -/
theorem skipUnused_eq_find (map : Buf 5) (guard : Nat) {ch : Nat} (h : ch < 37) :
    skipUnused map guard ch =
      ((Rotation.roundFrom 37 ch guard).find? (enabled map)).getD ((ch + guard) % 37) := by
  induction guard generalizing ch with
  | zero => exact (Nat.mod_eq_of_lt h).symm
  | succ guard ih =>
    rw [Rotation.roundFrom_succ h, List.find?_cons]
    cases hen : enabled map ch with
    | true => exact skipUnused_enabled hen _
    | false =>
      have hskip : skipUnused map (guard + 1) ch = skipUnused map guard ((ch + 1) % 37) :=
        if_pos (by simpa [enabled] using hen)
      rw [hskip, ih (Nat.mod_lt _ (by decide)), Nat.mod_add_mod, Nat.add_assoc, Nat.add_comm 1 guard]

/-- Thirty-seven steps are once round. -/
theorem skipUnused_eq_first (map : Buf 5) {ch : Nat} (h : ch < 37) :
    skipUnused map 37 ch = firstEnabled map ch := by
  rw [skipUnused_eq_find map 37 h, Nat.add_mod_right, Nat.mod_eq_of_lt h]
  rfl

/-- A map with a data channel never leaves the search empty-handed. -/
theorem firstEnabled_mem {map : Buf 5} (hmap : enabledChannels map ≠ []) {ch : Nat} (h : ch < 37) :
    firstEnabled map ch ∈ enabledChannels map := by
  obtain ⟨x, hx⟩ := List.exists_mem_of_ne_nil _ hmap
  obtain ⟨hlt, hen⟩ := mem_enabledChannels.mp hx
  obtain ⟨y, hy⟩ := Option.isSome_iff_exists.mp ((Rotation.firstFrom_isSome h).mpr ⟨x, hlt, hen⟩)
  unfold firstEnabled
  rw [hy, Option.getD_some]
  exact mem_enabledChannels.mpr (Rotation.firstFrom_some h hy)

/-! ## The two sequences -/

theorem unmapped_eq (hop n : Nat) : unmapped hop n = n * hop % 37 := by
  induction n with
  | zero => simp [unmapped]
  | succ n ih =>
    unfold unmapped
    rw [ih, Nat.mod_add_mod, Nat.succ_mul]

theorem remap_mem {map : Buf 5} (hmap : enabledChannels map ≠ []) {u : Nat} (hu : u < 37) :
    remap map u ∈ enabledChannels map := by
  unfold remap
  split
  · rename_i h
    exact mem_enabledChannels.mpr ⟨hu, h⟩
  · have hpos := List.length_pos_iff.mpr hmap
    have hlt := Nat.mod_lt u hpos
    rw [List.getD_eq_getElem?_getD, List.getElem?_eq_getElem hlt]
    exact List.getElem_mem hlt

theorem remap_enabled {map : Buf 5} {u : Nat} (h : enabled map u = true) : remap map u = u :=
  if_pos h

section Comparison

instance factPrimeChannels : Fact (Nat.Prime 37) := ⟨by norm_num⟩

/-- Remapping, on the residues modulo 37. -/
def remapZ (map : Buf 5) (u : ZMod 37) : Nat := remap map u.val

theorem unmapped_val (hop n : Nat) : ((n : ZMod 37) * (hop : ZMod 37)).val = unmapped hop n := by
  rw [← Nat.cast_mul, ZMod.val_natCast, unmapped_eq]

variable {map : Buf 5} {hop first : Nat}

/-- If the sequences agree from the first event on, remapping respects the rotation by `hop`. -/
theorem remapZ_respects (hh : (hop : ZMod 37) ≠ 0)
    (heq : ∀ n, hopFrom map hop first (n + 1) = csa1 map hop (n + 1)) :
    Rotation.Respects (remapZ map) (hop : ZMod 37) := by
  -- every residue is the unmapped channel of some event
  have hreach : ∀ u : ZMod 37, ∃ n : ℕ, u = ((n + 1 : ℕ) : ZMod 37) * hop := by
    intro u
    obtain ⟨n, hn⟩ := Rotation.exists_turns hh (hop : ZMod 37) u
    refine ⟨n, hn.trans ?_⟩
    push_cast
    ring
  have hnext : ∀ n : ℕ, remapZ map (((n + 1 : ℕ) : ZMod 37) * hop + hop) =
      skipUnused map 37 ((remapZ map (((n + 1 : ℕ) : ZMod 37) * hop) + hop) % 37) := by
    intro n
    have hsucc : ((n + 1 : ℕ) : ZMod 37) * hop + hop = ((n + 2 : ℕ) : ZMod 37) * hop := by
      push_cast
      ring
    rw [hsucc]
    unfold remapZ
    rw [unmapped_val, unmapped_val]
    show csa1 map hop (n + 2) = skipUnused map 37 ((csa1 map hop (n + 1) + hop) % 37)
    rw [← heq (n + 1), ← heq n]
    rfl
  intro u v huv
  obtain ⟨m, rfl⟩ := hreach u
  obtain ⟨n, rfl⟩ := hreach v
  rw [hnext, hnext, huv]

/-- Two enabled channels are not remapped to one. -/
theorem remapZ_not_const (hmap : 2 ≤ (enabledChannels map).length) :
    ¬ ∀ u v : ZMod 37, remapZ map u = remapZ map v := by
  intro hconst
  have hnodup : (enabledChannels map).Nodup := List.nodup_range.filter _
  have hfix : ∀ i (h : i < (enabledChannels map).length),
      remapZ map (((enabledChannels map)[i] : ℕ) : ZMod 37) = (enabledChannels map)[i] := by
    intro i h
    obtain ⟨hlt, hen⟩ := mem_enabledChannels.mp (List.getElem_mem h)
    unfold remapZ
    rw [ZMod.val_natCast, Nat.mod_eq_of_lt hlt, remap_enabled hen]
  have h01 : (enabledChannels map)[0] = (enabledChannels map)[1] := by
    rw [← hfix 0 (by omega), ← hfix 1 (by omega)]
    exact hconst _ _
  have hidx := (hnodup.getElem_inj_iff (i := 0) (j := 1)).mp h01
  omega

/-- **When hopping is CSA#1.**  For a map with two channels, a hop that moves and an advertising
    channel to start from, the two sequences agree at every event iff the map is full and the start
    is channel 37. -/
theorem hopFrom_eq_csa1_iff (hhop : 5 ≤ hop ∧ hop ≤ 16) (hmap : 2 ≤ (enabledChannels map).length)
    (hfirst : 37 ≤ first ∧ first ≤ 39) :
    (∀ n, hopFrom map hop first (n + 1) = csa1 map hop (n + 1)) ↔
      first = 37 ∧ ∀ ch < 37, enabled map ch = true := by
  have hne : (hop : ZMod 37) ≠ 0 := by
    intro h0
    have hdvd := (ZMod.natCast_eq_zero_iff hop 37).mp h0
    have hle := Nat.le_of_dvd (by omega) hdvd
    omega
  constructor
  · intro heq
    have hinj : Function.Injective (remapZ map) :=
      ((remapZ_respects hne heq).injective_or_const hne).resolve_right (remapZ_not_const hmap)
    have hnil : enabledChannels map ≠ [] := List.ne_nil_of_length_pos (by omega)
    have hfull : ∀ ch < 37, enabled map ch = true := by
      intro ch hch
      -- what `ch` is remapped to is enabled, so remapped to itself
      obtain ⟨hlt, hen⟩ := mem_enabledChannels.mp (remap_mem hnil hch)
      have hval : ∀ x < 37, ((x : ℕ) : ZMod 37).val = x := by
        intro x hx
        rw [ZMod.val_natCast, Nat.mod_eq_of_lt hx]
      have hsame : remapZ map ((ch : ℕ) : ZMod 37) =
          remapZ map ((remap map ch : ℕ) : ZMod 37) := by
        unfold remapZ
        rw [hval _ hch, hval _ hlt, remap_enabled hen]
      have hcast := congrArg ZMod.val (hinj hsame)
      rw [hval _ hch, hval _ hlt] at hcast
      rw [hcast]
      exact hen
    refine ⟨?_, hfull⟩
    have h1 := heq 0
    have hmod : ∀ x, x % 37 < 37 := fun x => Nat.mod_lt x (by decide)
    unfold csa1 at h1
    rw [unmapped_eq, remap_enabled (hfull _ (hmod _))] at h1
    have hskip : hopFrom map hop first 1 = (first + hop) % 37 :=
      skipUnused_enabled (hfull _ (hmod _)) 37
    rw [hskip] at h1
    omega
  · rintro ⟨rfl, hfull⟩ n
    have hmod : ∀ x, enabled map (x % 37) = true := fun x => hfull _ (Nat.mod_lt x (by decide))
    have hcsa : ∀ n, csa1 map hop n = unmapped hop n := by
      intro n
      unfold csa1
      rw [unmapped_eq]
      exact remap_enabled (hmod _)
    rw [hcsa]
    induction n with
    | zero =>
      show skipUnused map 37 ((37 + hop) % 37) = (0 + hop) % 37
      rw [skipUnused_enabled (hmod _)]
      omega
    | succ n ih =>
      show skipUnused map 37 ((hopFrom map hop 37 (n + 1) + hop) % 37) = _
      rw [skipUnused_enabled (hmod _), ih]
      rfl

end Comparison

/-! ## The channels of a run -/

/-- The channel an event uses. -/
def Act.hop : Act → Option UInt8
  | .tick c =>
    match c.beginEvent with
    | .ok c' => some c'.channel
    | .error _ => none
  | _ => none

theorem Act.hop_tick {c c' : Conn} (h : c.beginEvent = .ok c') :
    Act.hop (.tick c) = some c'.channel := by
  unfold Act.hop
  dsimp only
  rw [h]

/-- The channels the events of a run used, in order. -/
def hops (log : List Act) : List UInt8 := log.filterMap Act.hop

theorem hops_append (log acts : List Act) : hops (log ++ acts) = hops log ++ hops acts :=
  List.filterMap_append ..

/-- A step, as far as hopping is concerned. -/
inductive HopStep (c : Conn) (acts : List Act) (c' : Conn) : Prop
  | other (hacts : hops acts = []) (channel : c'.channel = c.channel)
  | hop (hacts : hops acts = [c'.channel])
      (channel : nextChannel c.channel c.hop c.channelMap = .ok c'.channel)

section Steps

variable {hw : Hw}

theorem Conn.beginEvent_channel {c c' : Conn} (h : c.beginEvent = .ok c') :
    nextChannel c.channel c.hop c.channelMap = .ok c'.channel := by
  have happly : ∀ d : Conn, d.applyUpdate.channel = d.channel ∧ d.applyUpdate.hop = d.hop ∧
      d.applyUpdate.channelMap = d.channelMap := by
    intro d
    unfold applyUpdate
    split
    · split <;> exact ⟨rfl, rfl, rfl⟩
    · exact ⟨rfl, rfl, rfl⟩
  obtain ⟨_, _, h⟩ := bind_eq_ok.mp h
  obtain ⟨channel, hch, h⟩ := bind_eq_ok.mp h
  cases h
  obtain ⟨h1, h2, h3⟩ := happly { c with
    eventCounter := c.eventCounter + 1
    packetCounter := if c.encrypted then c.packetCounter + 1 else c.packetCounter }
  rw [h1, h2, h3] at hch
  exact hch

/-- The channel of an event is a data channel. -/
theorem Conn.beginEvent_channel_lt {c c' : Conn} (h : c.beginEvent = .ok c') : c'.channel.toNat < 37 := by
  obtain ⟨sum, _, hch⟩ := bind_eq_ok.mp (Conn.beginEvent_channel h)
  have hlt := skipUnused_lt c.channelMap 37 (show sum % 37 < 37 from Nat.mod_lt _ (by decide))
  rw [← Except.ok.inj hch, UInt8.toNat_ofNat', Nat.mod_eq_of_lt (Nat.lt_trans hlt (by decide))]
  exact hlt

/-- An event whose start panics does nothing. -/
theorem Conn.event_stuck {c : Conn} {p : Panic} (hb : c.beginEvent = .error p) (ws : List Window) :
    c.event hw ws = ⟨[], .error p⟩ := by
  unfold Conn.event
  rw [hb]
  rfl

/-- An event, its start done, is the part of the role. -/
theorem Conn.event_begun {c c' : Conn} (hb : c.beginEvent = .ok c') (ws : List Window) :
    c.event hw ws = (match c.role with
      | .master => c'.eventMaster hw ws
      | .slave => c'.eventSlave hw ws).prepend [.tick c] := by
  have hfreq : channelFrequency c'.channel = .ok (2404 + 2 * c'.channel.toNat) := by
    have hlt := beginEvent_channel_lt hb
    exact if_pos (by omega)
  unfold Conn.event
  rw [hb, Logged.lift_ok_bind, Logged.emit_bind, hfreq, show c'.role = c.role by rw [beginEvent_frame hb]]
  rfl

theorem Conn.event_slave {c c' : Conn} (hslave : c.role = .slave) (hb : c.beginEvent = .ok c')
    (ws : List Window) : c.event hw ws = (c'.eventSlave hw ws).prepend [.tick c] := by
  rw [event_begun hb, hslave]

theorem Conn.event_master {c c' : Conn} (hmaster : c.role = .master) (hb : c.beginEvent = .ok c')
    (ws : List Window) : c.event hw ws = (c'.eventMaster hw ws).prepend [.tick c] := by
  rw [event_begun hb, hmaster]

/-- **The step relation seen from hopping.**  Only an event changes the channel; the hop and the map
    stay. -/
theorem Step.hops {s s' : Sys} {acts : List Act} (h : Step hw s acts s') :
    HopStep s.conn acts s'.conn ∧ s'.conn.hop = s.conn.hop ∧
      s'.conn.channelMap = s.conn.channelMap := by
  have key : ∀ {c c' : Conn}, c'.link = c.link →
      c'.channel = c.channel ∧ c'.hop = c.hop ∧ c'.channelMap = c.channelMap := by
    intro c c' hl
    exact ⟨congrArg Link.channel hl, congrArg Link.hop hl, congrArg Link.channelMap hl⟩
  cases h with
  | tick hb =>
    have hframe := Conn.beginEvent_frame hb
    have hhop := congrArg Conn.hop hframe
    have hmap := congrArg Conn.channelMap hframe
    exact ⟨.hop (List.filterMap_cons_some (Act.hop_tick hb)) (Conn.beginEvent_channel hb), hhop,
      hmap⟩
  | heard c o rxBuf ccm lastRx => exact ⟨.other rfl rfl, rfl, rfl⟩
  | accept c o tag pdu =>
    rw [Conn.acknowledge_eq]
    exact ⟨.other rfl rfl, rfl, rfl⟩
  | deliver c o tag pdu result hne hllid =>
    rw [Conn.acknowledge_eq]
    obtain ⟨hch, hhop, hmap⟩ := key (link_deliver hw { c with nesn := pdu.sn }
      (pdu.payload.take 64) pdu.llid result)
    exact ⟨.other rfl hch, hhop, hmap⟩
  | l2cap c o llid payload result =>
    obtain ⟨hch, hhop, hmap⟩ := key (link_deliver hw c payload llid result)
    exact ⟨.other rfl hch, hhop, hmap⟩
  | ctrl c o payload =>
    have hframe := (controlEffect_after hw c payload).frame
    obtain ⟨hlog, _⟩ := Conn.handleLlControl_spec hw c payload
    have hch := congrArg Conn.channel hframe
    have hhop := congrArg Conn.hop hframe
    have hmap := congrArg Conn.channelMap hframe
    refine ⟨.other ?_ hch, hhop, hmap⟩
    rcases hlog with ⟨hlog, _⟩ | ⟨t, hlog, _⟩ <;> rw [hlog] <;> rfl
  | respond c =>
    rcases c.afterRespond_spec hw with ⟨hlog, hc⟩ | ⟨t, kind, hlog, _, _, hc⟩
    all_goals
      have hch := congrArg Conn.channel hc
      have hhop := congrArg Conn.hop hc
      have hmap := congrArg Conn.channelMap hc
      exact ⟨.other (by rw [hlog]; rfl) hch, hhop, hmap⟩
  | terminate c o =>
    obtain ⟨t, r, c', hx, _, hf⟩ := c.sendTerminate_spec
    rw [hx]
    refine ⟨.other rfl ?_, ?_, ?_⟩ <;> (dsimp only [stateAfter]; rw [hf])
  | bondKey c o ltk => exact ⟨.other rfl rfl, rfl, rfl⟩
  | call c o call =>
    have hl := (call.run_effect c).link
    exact ⟨.other rfl (congrArg Link.channel hl), congrArg Link.hop hl,
      congrArg Link.channelMap hl⟩

end Steps

/-- The channels of a run so far are the sequence's, and so is the channel the connection is on. -/
structure HopInv (map : Buf 5) (hop first : Nat) (log : List Act) (c : Conn) : Prop where
  channels : (hops log).map UInt8.toNat =
    (List.range (hops log).length).map (fun n => hopFrom map hop first (n + 1))
  channel : c.channel.toNat = hopFrom map hop first (hops log).length
  hop : c.hop.toNat = hop
  channelMap : c.channelMap = map

theorem HopInv.step {map : Buf 5} {hop first : Nat} (hhop : hop ≤ 31) (hfirst : first ≤ 39)
    {log acts : List Act} {c c' : Conn} (h : HopInv map hop first log c) (hs : HopStep c acts c')
    (hsame : c'.hop = c.hop) (hmap : c'.channelMap = c.channelMap) :
    HopInv map hop first (log ++ acts) c' := by
  obtain ⟨hchs, hch, hh, hm⟩ := h
  rcases hs with ⟨hacts, hchannel⟩ | ⟨hacts, hnext⟩
  · have hlog : hops (log ++ acts) = hops log := by rw [hops_append, hacts, List.append_nil]
    refine ⟨?_, ?_, ?_, ?_⟩
    · rw [hlog]; exact hchs
    · rw [hlog, hchannel]; exact hch
    · rw [hsame]; exact hh
    · rw [hmap]; exact hm
  · have hle : c.channel.toNat ≤ 39 := by rw [hch]; exact hopFrom_le map hop hfirst _
    obtain ⟨ch, hok, hval⟩ := nextChannel_eq c.channelMap hle (show c.hop.toNat ≤ 31 by omega)
    rw [hok] at hnext
    have hc' : c'.channel.toNat = hopFrom map hop first ((hops log).length + 1) := by
      rw [← Except.ok.inj hnext, hval, hch, hh, hm]
      rfl
    have hlen : (hops (log ++ acts)).length = (hops log).length + 1 := by
      rw [hops_append, hacts, List.length_append]
      rfl
    refine ⟨?_, ?_, ?_, ?_⟩
    · rw [hlen, List.range_succ, List.map_append, ← hchs, hops_append, hacts, List.map_append]
      exact congrArg _ (congrArg (fun x => [x]) hc')
    · rw [hlen]; exact hc'
    · rw [hsame]; exact hh
    · rw [hmap]; exact hm

/-- **The channels of a run.**  Whatever happens in between, the events of a run use the channels of
    `hopFrom` one after the other. -/
theorem Conn.hops_from (hw : Hw) (c : Conn) (hhop : c.hop.toNat ≤ 31) (hfirst : c.channel.toNat ≤ 39)
    (ops : List Op) :
    let log := (Conn.runOps hw ops c).log
    (hops log).map UInt8.toNat = (List.range (hops log).length).map
      (fun n => hopFrom c.channelMap c.hop.toNat c.channel.toNat (n + 1)) := by
  obtain ⟨⟨s, hinv⟩, _⟩ := runOps_invariant hw
    (I := fun log s => HopInv c.channelMap c.hop.toNat c.channel.toNat log s.conn) ops c
    ⟨rfl, rfl, rfl, rfl⟩ (by
      intro log s acts s' hinv hstep
      obtain ⟨hs, hsame, hmap⟩ := hstep.hops
      exact hinv.step hhop hfirst hs hsame hmap)
  exact hinv.channels

/-- The channels of a run of a new connection. -/
theorem hops_run (hw : Hw) (params : ConnectReqData) (firstChannel : UInt8) (now : UInt32)
    (role : ConnRole) (hhop : params.hop.toNat ≤ 31) (hfirst : firstChannel.toNat ≤ 39)
    (ops : List Op) :
    let log := (Conn.runOps hw ops (Conn.new params firstChannel now role)).log
    (hops log).map UInt8.toNat = (List.range (hops log).length).map
      (fun n => hopFrom params.channelMap params.hop.toNat firstChannel.toNat (n + 1)) :=
  (Conn.new params firstChannel now role).hops_from hw hhop hfirst ops

/-- Two connections that hop alike from one channel are on the same channel in every event, whatever
    happens to each. -/
theorem Conn.hop_together (hw : Hw) {c d : Conn} (hhop : c.hop.toNat ≤ 31)
    (hfirst : c.channel.toNat ≤ 39)
    (hsame : d.hop = c.hop ∧ d.channel = c.channel ∧ d.channelMap = c.channelMap) (ops ops' : List Op)
    {n : Nat} {ch ch' : UInt8} (h : (hops (c.runOps hw ops).log)[n]? = some ch)
    (h' : (hops (d.runOps hw ops').log)[n]? = some ch') : ch = ch' := by
  obtain ⟨hh, hc, hm⟩ := hsame
  have key : ∀ {e : Conn} {ops : List Op} {ch : UInt8}, e.hop.toNat ≤ 31 → e.channel.toNat ≤ 39 →
      (hops (e.runOps hw ops).log)[n]? = some ch →
      ch.toNat = hopFrom e.channelMap e.hop.toNat e.channel.toNat (n + 1) := by
    intro e ops ch he hf hn
    obtain ⟨hlt, -⟩ := List.getElem?_eq_some_iff.mp hn
    have hget := congrArg (fun l => l[n]?) (e.hops_from hw he hf ops)
    rw [List.getElem?_map, hn, List.getElem?_map, List.getElem?_range hlt] at hget
    exact Option.some.inj hget
  refine UInt8.toNat.inj ?_
  rw [key hhop hfirst h, key (by rw [hh]; exact hhop) (by rw [hc]; exact hfirst) h', hh, hc, hm]

/-- **What `next_channel` gives.**  For every map, no operation of it fails, and it gives the first
    enabled channel from `(current + hop) mod 37` on, once round, or that channel itself if there is
    none.  So every channel that a run uses is a data channel of its map, which the radio accepts. -/
theorem nextChannel_first (map : Buf 5) :
    (∀ current hop : UInt8, current.toNat ≤ 39 → hop.toNat ≤ 31 →
      ∃ ch, nextChannelChecked current hop map = .ok ch ∧ nextChannel current hop map = .ok ch ∧
        ch.toNat = firstEnabled map ((current.toNat + hop.toNat) % 37)) ∧
    ∀ (hw : Hw) (params : ConnectReqData) (firstChannel : UInt8) (now : UInt32) (role : ConnRole)
      (ops : List Op), params.channelMap = map → enabledChannels map ≠ [] →
      params.hop.toNat ≤ 31 → firstChannel.toNat ≤ 39 →
      ∀ ch ∈ hops (Conn.runOps hw ops (Conn.new params firstChannel now role)).log,
        ch.toNat ∈ enabledChannels map ∧ ∃ mhz, channelFrequency ch = .ok mhz := by
  have hmod : ∀ x, x % 37 < 37 := fun x => Nat.mod_lt x (by decide)
  constructor
  · intro current hop hc hh
    obtain ⟨ch, hok, hval⟩ := nextChannel_eq map hc hh
    have hfit : fit 8 (current.toNat + hop.toNat) = .ok (current.toNat + hop.toNat) :=
      if_pos (by omega)
    refine ⟨ch, ?_, hok, ?_⟩
    · rw [← hok]
      unfold nextChannelChecked nextChannel
      rw [hfit, ok_bind, ok_bind, skipUnusedChecked_eq map 37 (hmod _)]
      rfl
    · rw [hval, skipUnused_eq_first map (hmod _)]
  · intro hw params firstChannel now role ops hparams hmap hhop hfirst ch hch
    have hrun := hops_run hw params firstChannel now role hhop hfirst ops
    dsimp only at hrun
    have hmem := List.mem_map_of_mem (f := UInt8.toNat) hch
    rw [hrun, hparams] at hmem
    obtain ⟨n, _, hn⟩ := List.mem_map.mp hmem
    -- every channel but the one the connection was made on comes out of the search
    have hstep : hopFrom map params.hop.toNat firstChannel.toNat (n + 1) = firstEnabled map
        ((hopFrom map params.hop.toNat firstChannel.toNat n + params.hop.toNat) % 37) :=
      skipUnused_eq_first map (hmod _)
    rw [hstep] at hn
    have hin := firstEnabled_mem hmap
      (hmod (hopFrom map params.hop.toNat firstChannel.toNat n + params.hop.toNat))
    rw [hn] at hin
    have hlt := (mem_enabledChannels.mp hin).1
    exact ⟨hin, _, if_pos (by omega)⟩

/-- The first of three events of the connection of the repository's own tests, on a map with two
    channels, and the channel after an advertising channel on an empty map. -/
theorem nextChannel_first_sample :
    (∃ ch, nextChannelChecked 39 31 ⟨[0, 0, 0, 0, 0], rfl⟩ = .ok ch ∧
      nextChannel 39 31 ⟨[0, 0, 0, 0, 0], rfl⟩ = .ok ch ∧
      ch.toNat = firstEnabled ⟨[0, 0, 0, 0, 0], rfl⟩ 33) ∧
    (14 : UInt8).toNat ∈ enabledChannels ⟨[0, 0x40, 0, 0, 0x10], rfl⟩ ∧
      ∃ mhz, channelFrequency 14 = .ok mhz :=
  ⟨(nextChannel_first ⟨[0, 0, 0, 0, 0], rfl⟩).1 39 31 (by decide) (by decide),
    (nextChannel_first ⟨[0, 0x40, 0, 0, 0x10], rfl⟩).2 Hw.standIn
      ⟨0x1234ABCD, 0x654321, 1, 0, 24, 0, 2000, ⟨[0, 0x40, 0, 0, 0x10], rfl⟩, 13, 2⟩ 37 0 .slave
      [.event [], .event [], .event []] rfl (by decide +kernel) (by decide) (by decide) 14
      (by decide +kernel)⟩

/-! ## Runs of any length -/

namespace Conn

/-- A connection with nothing to send, whose events cannot fail. -/
structure Quiet (c : Conn) : Prop where
  channel : c.channel.toNat ≤ 39
  hop : c.hop.toNat ≤ 16
  accum : c.accum.Bounded
  update : c.pendingUpdate = none
  terminate : c.terminatePending = false
  control : c.pendingControl = none
  pending : c.txPending = false
  encrypted : c.encrypted = false

theorem Quiet.new (params : ConnectReqData) {firstChannel : UInt8} (now : UInt32) (role : ConnRole)
    (hhop : params.hop.toNat ≤ 16) (hfirst : firstChannel.toNat ≤ 39) :
    Quiet (Conn.new params firstChannel now role) :=
  ⟨hfirst, hhop, ⟨Nat.le_refl 39, show 2 < 32 by decide, show 0 < 32 by decide⟩, rfl, rfl, rfl, rfl,
    rfl⟩

theorem Quiet.beginEvent {c : Conn} (h : c.Quiet) :
    ∃ c', c.beginEvent = .ok c' ∧ c'.Quiet ∧ c'.channel.toNat < 37 := by
  obtain ⟨ticks, accum, hnext, hacc⟩ := IntervalAccum.next_eq h.accum c.interval
  obtain ⟨ch, hch, hval⟩ := nextChannel_eq c.channelMap h.channel (Nat.le_trans h.hop (by decide))
  have hlt : ch.toNat < 37 := by
    rw [hval]
    exact skipUnused_lt _ _ (Nat.mod_lt _ (by decide))
  unfold Conn.beginEvent applyUpdate
  dsimp only
  rw [h.update]
  dsimp only
  rw [hnext, ok_bind, hch, ok_bind]
  exact ⟨_, rfl, ⟨Nat.le_of_lt (Nat.lt_of_lt_of_le hlt (by decide)), h.hop, hacc, rfl,
    h.terminate, h.control, h.pending, h.encrypted⟩, hlt⟩

/-- The answer of a quiet connection is an empty PDU. -/
theorem Quiet.respond {c : Conn} (h : c.Quiet) (hw : Hw) :
    ∃ t c', c.respond hw = ⟨[.tx t], .ok c'⟩ ∧ c'.Quiet := by
  unfold Conn.respond tx
  rw [h.control]
  dsimp only
  rw [if_neg (by rw [h.pending]; decide), if_neg (by rw [h.encrypted]; decide),
    transmitRaw_of_le _ _ (by omega)]
  exact ⟨_, _, rfl, ⟨h.channel, h.hop, h.accum, h.update, h.terminate, rfl, h.pending,
    h.encrypted⟩⟩

/-- An event in which nothing is heard uses one channel and leaves the connection quiet. -/
theorem Quiet.event {c : Conn} (h : c.Quiet) (hw : Hw) :
    ∃ log r c', c.event hw [] = ⟨log, .ok (r, c')⟩ ∧ (hops log).length = 1 ∧ c'.Quiet := by
  obtain ⟨c₁, hbegin, hq, hlt⟩ := h.beginEvent
  have hfreq : channelFrequency c₁.channel = .ok (2404 + 2 * c₁.channel.toNat) :=
    if_pos (by omega)
  have hhop : (hops [Act.tick c]).length = 1 := by
    rw [show hops [Act.tick c] = [c₁.channel] from
      List.filterMap_cons_some (Act.hop_tick hbegin)]
    rfl
  unfold Conn.event
  rw [hbegin, Logged.lift_ok_bind, Logged.emit_bind, hfreq]
  dsimp only
  cases c₁.role with
  | slave => exact ⟨_, _, _, rfl, hhop, hq⟩
  | master =>
    obtain ⟨t, c₂, hr, hq₂⟩ := hq.respond hw
    unfold eventMaster
    dsimp only
    rw [if_neg (by rw [hq.terminate]; decide), hr]
    refine ⟨_, _, _, rfl, ?_, hq₂⟩
    show (hops ([Act.tick c] ++ [Act.tx t])).length = 1
    rw [hops_append, show hops [Act.tx t] = [] from rfl, List.append_nil]
    exact hhop

/-- Runs in which nothing is heard have as many channels as events. -/
theorem Quiet.run {c : Conn} (h : c.Quiet) (hw : Hw) (n : Nat) :
    (hops (runOps hw (List.replicate n (.event [])) c).log).length = n := by
  induction n generalizing c with
  | zero => rfl
  | succ n ih =>
    obtain ⟨log, r, c', hx, hlen, hq⟩ := h.event hw
    have hop : c.runOp hw (.event []) = ⟨log, .ok c'⟩ := by
      unfold runOp
      dsimp only
      rw [hx]
      show (⟨log ++ [], .ok c'⟩ : Logged Act Conn) = _
      rw [List.append_nil]
    show (hops (c.runOp hw (.event []) >>= runOps hw (List.replicate n (.event []))).log).length =
      n + 1
    rw [hop, Logged.mk_ok_bind]
    show (hops (log ++ (runOps hw (List.replicate n (.event [])) c').log)).length = n + 1
    rw [hops_append, List.length_append, hlen, ih hq, Nat.add_comm]

end Conn

/-- Every event of the run is on the channel of CSA#1: the first on that of event 1. -/
def FollowsCsa1 (map : Buf 5) (hop : UInt8) (log : List Act) : Prop :=
  (hops log).map UInt8.toNat =
    (List.range (hops log).length).map (fun n => csa1 map hop.toNat (n + 1))

/-- **When a connection follows CSA#1.**  A connection made from a CONNECT_REQ with hop 5 to 16 and
    two data channels or more, received on one of the advertising channels, is on the channel of
    CSA#1 in every event of every run iff it was made on channel 37 and its map has all 37
    channels. -/
theorem followsCsa1_iff (hw : Hw) (params : ConnectReqData) (firstChannel : UInt8) (now : UInt32)
    (role : ConnRole) (hhop : 5 ≤ params.hop.toNat ∧ params.hop.toNat ≤ 16)
    (hmap : 2 ≤ (enabledChannels params.channelMap).length)
    (hfirst : 37 ≤ firstChannel.toNat ∧ firstChannel.toNat ≤ 39) :
    (∀ ops, FollowsCsa1 params.channelMap params.hop
      (Conn.runOps hw ops (Conn.new params firstChannel now role)).log) ↔
      firstChannel.toNat = 37 ∧ ∀ ch < 37, enabled params.channelMap ch = true := by
  rw [← hopFrom_eq_csa1_iff hhop hmap hfirst]
  constructor
  · intro h n
    -- a run of `n + 1` events in which nothing is heard
    have hq := Conn.Quiet.new params now role hhop.2 hfirst.2
    have hlen := hq.run hw (n + 1)
    have hcsa := h (List.replicate (n + 1) (.event []))
    have hrun := hops_run hw params firstChannel now role (by omega) hfirst.2
      (List.replicate (n + 1) (.event []))
    unfold FollowsCsa1 at hcsa
    dsimp only at hrun
    rw [hrun, hlen] at hcsa
    exact List.map_inj_left.mp hcsa n (List.mem_range.mpr (Nat.lt_succ_self n))
  · intro h ops
    unfold FollowsCsa1
    rw [hops_run hw params firstChannel now role (by omega) hfirst.2 ops]
    exact List.map_congr_left (fun n _ => h n)

/-- Two events of the connection of the repository's own tests. -/
theorem followsCsa1_sample :
    FollowsCsa1 ⟨[0xFF, 0xFF, 0xFF, 0xFF, 0x1F], rfl⟩ 13
      (Conn.runOps Hw.standIn [.event [⟨.timeout, 0⟩], .event [⟨.timeout, 0⟩]]
        (Conn.sample .slave)).log :=
  (followsCsa1_iff Hw.standIn ⟨0x1234ABCD, 0x654321, 1, 0, 24, 0, 2000,
    ⟨[0xFF, 0xFF, 0xFF, 0xFF, 0x1F], rfl⟩, 13, 2⟩ 37 0 .slave (by decide) (by decide +kernel)
    (by decide)).mpr ⟨rfl, by decide +kernel⟩ _

/-- Heard on channel 38, hop 13: the first event is on channel 14, that of CSA#1 on 13.  Heard on
    channel 37, with channel 13 disabled: the first event is on channel 14 for both, and the second
    on 27 for the code, which goes on from 14, and on 26 for CSA#1, which goes on from 13. -/
theorem hopping_departs_from_csa1 :
    let full : Buf 5 := ⟨[0xFF, 0xFF, 0xFF, 0xFF, 0x1F], rfl⟩
    let map : Buf 5 := ⟨[0xFF, 0xDF, 0xFF, 0xFF, 0x1F], rfl⟩
    let params : ConnectReqData := ⟨0x1234ABCD, 0x654321, 1, 0, 24, 0, 2000, full, 13, 2⟩
    ¬ FollowsCsa1 full 13
      (Conn.runOps Hw.standIn [.event []] (Conn.new params 38 0 .slave)).log ∧
    ¬ FollowsCsa1 map 13 (Conn.runOps Hw.standIn [.event [], .event []]
      (Conn.new { params with channelMap := map } 37 0 .slave)).log := by
  unfold FollowsCsa1
  decide +kernel

end NrfBle
