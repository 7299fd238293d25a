/-
  What the radio is tuned to, over whole runs (`src/hw/radio.rs`: `init`, `set_access_address`,
  `set_crc_init`, `set_channel`; `src/ll/channels.rs`: `access_address_to_base_prefix`).

  Three places write the access address and the initial value of the CRC: the constructor and the end
  of a link, by `init`, and the start of a connection event, with the link's.  Advertising and scanning
  set channels and nothing else.

  1. **The registers** — what each function writes, and the ACCESS that stands in them.

  2. **The link on the air** — which link is open, which one the radio was last set up for, and the
     channel of the event in progress.  An action is ORDERLY where this fits: an event is one of the
     open link, a data PDU is sent in an event.  `AirStep` is one orderly action, and everything the
     stack does is a trace of it (`run_follows_air`).

  3. **The registers follow** (`radio_follows_link`) — the data PDUs of a link go out under its access
     address, on the channel of their event.  A packet of the advertiser or the scanner goes out under
     the advertising address only while no event of a link has run since the last one ended: from the
     first event on the link's own address stands, and nothing puts the other one back.
-/
import Mathlib.Tactic
import NrfBle.Hw.Conn.Hopping
import NrfBle.Hw.Ble.Lifecycle
import NrfBle.Hw.Ble.Queue
import NrfBle.Hw.Ble.Meeting

namespace NrfBle

open Checked

/-! ## The registers -/

namespace Radio

/-- `ADV_ACCESS_ADDRESS`. -/
abbrev advAccessAddress : UInt32 := 0x8E89BED6

/-- `access_address_to_base_prefix`. -/
def accessAddressToBasePrefix (aa : UInt32) : UInt32 × UInt8 :=
  ((aa &&& 0x00FFFFFF) <<< 8, (aa >>> 24).toUInt8)

/-- The registers a packet is sent and received by. -/
structure Regs where
  base0 : UInt32
  ap0 : UInt8
  crcInit : UInt32
  frequency : UInt8
  dataWhiteIv : UInt8

namespace Regs

/-- `Radio::set_access_address`. -/
def setAccessAddress (r : Regs) (aa : UInt32) : Regs :=
  let (base, ap) := accessAddressToBasePrefix aa
  { r with base0 := base, ap0 := ap }

/-- `Radio::set_crc_init`. -/
def setCrcInit (r : Regs) (init : UInt32) : Regs := { r with crcInit := init }

/-- `Radio::set_channel`, which refuses a channel without a frequency. -/
def setChannel (r : Regs) (channel : UInt8) : Regs :=
  match channelFrequency channel with
  | .error _ => r
  | .ok freq =>
    { r with frequency := UInt8.ofNat (freq - 2400), dataWhiteIv := 0x40 ||| (channel &&& 0x3F) }

/-- `Radio::init`. -/
def init (r : Regs) : Regs :=
  ((r.setCrcInit 0x00555555).setAccessAddress advAccessAddress).setChannel 37

end Regs

end Radio

/-- The access address and the initial value of the CRC. -/
structure Access where
  address : UInt32
  crcInit : UInt32
  deriving DecidableEq

/-- What advertising uses. -/
def Access.advertising : Access := ⟨Radio.advAccessAddress, 0x555555⟩

/-- What the connection a `CONNECT_REQ` opens uses. -/
def ConnectReqData.access (params : ConnectReqData) : Access := ⟨params.accessAddr, params.crcInit⟩

def Conn.access (c : Conn) : Access := ⟨c.accessAddr, c.crcInit⟩

namespace Radio.Regs

/-- The access in the registers: the radio sends the three high bytes of BASE0, then AP0. -/
def access (r : Regs) : Access := ⟨(r.base0 >>> 8) ||| (r.ap0.toUInt32 <<< 24), r.crcInit⟩

/-- The radio is on this channel: 2400 MHz and FREQUENCY, and the channel in DATAWHITEIV. -/
def On (r : Regs) (channel : UInt8) : Prop :=
  channelFrequency channel = .ok (2400 + r.frequency.toNat) ∧ r.dataWhiteIv = 0x40 ||| (channel &&& 0x3F)

/-- The radio puts together what was split. -/
theorem base_prefix_address (aa : UInt32) :
    ((aa &&& 0x00FFFFFF) <<< 8) >>> 8 ||| (aa >>> 24).toUInt8.toUInt32 <<< 24 = aa := by
  have hlt : aa.toNat < 2 ^ 32 := aa.toNat_lt
  have hbase : (((aa &&& 0x00FFFFFF) <<< 8) >>> 8).toNat = aa.toNat % 2 ^ 24 := by
    rw [UInt32.toNat_shiftRight, UInt32.toNat_shiftLeft, UInt32.toNat_and,
      show (0x00FFFFFF : UInt32).toNat = 2 ^ 24 - 1 from rfl, Nat.and_two_pow_sub_one_eq_mod,
      show (8 : UInt32).toNat % 32 = 8 from rfl, Nat.shiftLeft_eq, Nat.shiftRight_eq_div_pow]
    omega
  have htop : ((aa >>> 24).toUInt8.toUInt32 <<< 24).toNat = 2 ^ 24 * (aa.toNat / 2 ^ 24) := by
    rw [UInt32.toNat_shiftLeft, UInt8.toNat_toUInt32, UInt32.toNat_toUInt8,
      UInt32.toNat_shiftRight, show (24 : UInt32).toNat % 32 = 24 from rfl, Nat.shiftLeft_eq,
      Nat.shiftRight_eq_div_pow]
    omega
  apply UInt32.toNat.inj
  rw [UInt32.toNat_or, hbase, htop, Nat.or_comm,
    ← Nat.two_pow_add_eq_or_of_lt (Nat.mod_lt _ (by decide)), Nat.div_add_mod]

theorem setAccessAddress_access (r : Regs) (aa : UInt32) :
    (r.setAccessAddress aa).access = ⟨aa, r.crcInit⟩ :=
  congrArg (Access.mk · r.crcInit) (base_prefix_address aa)

/-- A channel says nothing about the access. -/
theorem setChannel_access (r : Regs) (channel : UInt8) : (r.setChannel channel).access = r.access := by
  unfold setChannel
  split
  · rfl
  · dsimp only [access]

theorem init_access (r : Regs) : r.init.access = .advertising := by
  unfold init
  rw [setChannel_access, setAccessAddress_access]
  rfl

theorem setChannel_on (r : Regs) {channel : UInt8} (h : channel.toNat < 37) :
    (r.setChannel channel).On channel := by
  have hfreq : channelFrequency channel = .ok (2404 + 2 * channel.toNat) := if_pos (by omega)
  have hval : 2404 + 2 * channel.toNat =
      2400 + (UInt8.ofNat (2404 + 2 * channel.toNat - 2400)).toNat := by
    rw [UInt8.toNat_ofNat']
    omega
  unfold setChannel On
  rw [hfreq]
  exact ⟨congrArg Except.ok hval, rfl⟩

end Radio.Regs

/-- What an action writes.  The end of a link is an `init` and the event that reports it. -/
def BleAct.writes (r : Radio.Regs) : BleAct → Radio.Regs
  | .setChannel channel => r.setChannel channel
  | .conn (.tick c) =>
    match c.beginEvent with
    | .ok c' => ((r.setAccessAddress c'.accessAddr).setCrcInit c'.crcInit).setChannel c'.channel
    | .error _ => r
  | .push (.disconnected _) => r.init
  | _ => r

/-- The registers after these actions, from whatever stood in them before the constructor. -/
def registers (reset : Radio.Regs) (log : List BleAct) : Radio.Regs := log.foldl BleAct.writes reset.init

/-! ## The link on the air -/

/-- What the actions so far say: the access of the link that is open, by the parameters its `Connected`
    reported; that of the link whose event the radio was last set up for; and the channel of the event
    in progress. -/
structure LinkAir where
  opened : Option Access
  driven : Option Access
  hop : Option UInt8

namespace LinkAir

/-- What an action says of the link. -/
def after (l : LinkAir) : BleAct → LinkAir
  | .push (.connected params) => ⟨some params.access, l.driven, none⟩
  | .push (.disconnected _) => ⟨none, none, none⟩
  | .conn (.tick c) => ⟨l.opened, l.opened, Act.hop (.tick c)⟩
  | .conn _ => l
  | _ => { l with hop := none }

/-- An event is one of the open link, and a data PDU is sent in an event. -/
def Orderly (l : LinkAir) : BleAct → Prop
  | .conn (.tick c) => l.opened = some c.access ∧ ∃ c', c.beginEvent = .ok c'
  | .conn (.tx _) => l.hop.isSome
  | _ => True

end LinkAir

/-- The air before any action. -/
def LinkAir.start : LinkAir := ⟨none, none, none⟩

/-- The link on the air after these actions. -/
def linkAir (log : List BleAct) : LinkAir := log.foldl LinkAir.after .start

/-- One orderly action. -/
def AirStep (l : LinkAir) (acts : List BleAct) (l' : LinkAir) : Prop :=
  ∃ a, acts = [a] ∧ l.Orderly a ∧ l' = l.after a

namespace LinkAir

/-- Actions that are orderly wherever they stand. -/
theorem steps_of_forall {log : List BleAct} (h : ∀ a ∈ log, ∀ l : LinkAir, l.Orderly a) (l : LinkAir) :
    Steps AirStep l log (log.foldl after l) := by
  induction log generalizing l with
  | nil => exact .refl l
  | cons a log ih =>
    obtain ⟨ha, hlog⟩ := List.forall_mem_cons.mp h
    exact (Steps.one ⟨a, rfl, ha l, rfl⟩).trans (ih hlog (l.after a))

/-- What is no action of a connection is always orderly. -/
theorem orderly_of_alone {log : List BleAct} (h : ∀ act, .conn act ∉ log) :
    ∀ a ∈ log, ∀ l : LinkAir, l.Orderly a := by
  intro a ha l
  cases a with
  | conn act => exact absurd ha (h act)
  | setChannel | transmit | push => trivial

/-- Only `Connected` and `Disconnected` change what is open. -/
theorem opened_of_quiet {log : List BleAct} (h : linkEvents log = []) (l : LinkAir) :
    (log.foldl after l).opened = l.opened := by
  induction log generalizing l with
  | nil => rfl
  | cons a log ih =>
    have hone : a.linkEvent = none := List.filterMap_eq_nil_iff.mp h a List.mem_cons_self
    have hrest : linkEvents log = [] := by
      rw [linkEvents, List.filterMap_cons_none hone] at h
      exact h
    refine (ih hrest (l.after a)).trans ?_
    cases a with
    | setChannel | transmit => rfl
    | conn act => cases act <;> rfl
    | push evt => cases evt <;> first | rfl | cases hone

/-- In an event, whatever begins no other. -/
theorem steps_in_event {l : LinkAir} (hhop : l.hop.isSome) {acts : List Act} (h : ∀ d, .tick d ∉ acts) :
    Steps AirStep l (acts.map .conn) l := by
  induction acts with
  | nil => exact .refl l
  | cons act acts ih =>
    have hone : AirStep l [.conn act] l := by
      cases act with
      | tick d => exact absurd List.mem_cons_self (h d)
      | tx t => exact ⟨_, rfl, hhop, rfl⟩
      | accept | ctrl | l2cap | terminate | bondKey => exact ⟨_, rfl, trivial, rfl⟩
    exact (Steps.one hone).trans (ih fun d hd => h d (List.mem_cons_of_mem _ hd))

end LinkAir

/-! ## A connection event -/

/-- **The step relation seen from the air.**  A step begins an event, or begins none; and the access
    stays. -/
theorem Step.air {hw : Hw} {s s' : Sys} {acts : List Act} (h : Step hw s acts s') :
    ((∃ c', s.conn.beginEvent = .ok c' ∧ acts = [.tick s.conn]) ∨ ∀ d, .tick d ∉ acts) ∧
      s'.conn.access = s.conn.access := by
  have key : ∀ {c c' : Conn}, c'.link = c.link → c'.access = c.access := by
    intro c c' hl
    exact congrArg (fun link : Link => Access.mk link.accessAddr link.crcInit) hl
  cases h with
  | tick hb =>
    have haccess := congrArg Conn.access (Conn.beginEvent_frame hb)
    exact ⟨.inl ⟨_, hb, rfl⟩, haccess⟩
  | heard c o rxBuf ccm lastRx => exact ⟨.inr fun d => List.not_mem_nil, rfl⟩
  | accept c o tag pdu =>
    rw [Conn.acknowledge_eq]
    exact ⟨.inr (by simp), rfl⟩
  | deliver c o tag pdu result hne hllid =>
    rw [Conn.acknowledge_eq]
    have haccess := key (link_deliver hw { c with nesn := pdu.sn } (pdu.payload.take 64) pdu.llid result)
    exact ⟨.inr (by simp), haccess⟩
  | l2cap c o llid payload result =>
    have haccess := key (link_deliver hw c payload llid result)
    exact ⟨.inr (by simp), haccess⟩
  | ctrl c o payload =>
    have haccess := congrArg Conn.access (controlEffect_after hw c payload).frame
    obtain ⟨hlog, _⟩ := Conn.handleLlControl_spec hw c payload
    refine ⟨.inr ?_, haccess⟩
    rcases hlog with ⟨hlog, _⟩ | ⟨t, hlog, _⟩ <;> rw [hlog] <;> simp
  | respond c =>
    rcases c.afterRespond_spec hw with ⟨hlog, hc⟩ | ⟨t, kind, hlog, _, _, hc⟩
    all_goals
      have haccess := congrArg Conn.access hc
      exact ⟨.inr (by rw [hlog]; simp), haccess⟩
  | terminate c o =>
    obtain ⟨t, r, c', hx, _, hf⟩ := c.sendTerminate_spec
    have haccess := congrArg Conn.access hf
    rw [hx]
    exact ⟨.inr (by simp), haccess⟩
  | bondKey c o ltk => exact ⟨.inr (by simp), rfl⟩
  | call c o call =>
    have haccess := congrArg (fun link : Link => Access.mk link.accessAddr link.crcInit)
      (call.run_effect c).link
    exact ⟨.inr fun d => List.not_mem_nil, haccess⟩

/-- The open link is this one, and an event of it is in progress. -/
def InEvent (s : Sys) (l : LinkAir) : Prop := l.opened = some s.conn.access ∧ l.hop.isSome

theorem Step.in_event {hw : Hw} {s s' : Sys} {acts : List Act} {l : LinkAir} (h : Step hw s acts s')
    (hl : InEvent s l) : ∃ l', Steps AirStep l (acts.map .conn) l' ∧ InEvent s' l' := by
  obtain ⟨hacts, haccess⟩ := h.air
  obtain ⟨hopened, hhop⟩ := hl
  rcases hacts with ⟨c', hb, rfl⟩ | hnone
  · refine ⟨_, .one ⟨_, rfl, ⟨hopened, c', hb⟩, rfl⟩, ?_, ?_⟩
    · rw [haccess]
      exact hopened
    · show (Act.hop (.tick s.conn)).isSome
      rw [Act.hop_tick hb]
      rfl
  · exact ⟨l, LinkAir.steps_in_event hhop hnone, by rw [haccess]; exact hopened, hhop⟩

/-- What the actions say is open is the connection there is. -/
def Agrees (l : LinkAir) (conn : Option Conn) : Prop := l.opened = conn.map Conn.access

/-- An event is its beginning and the rest, and the rest is a trace. -/
theorem event_rest (hw : Hw) {c c' : Conn} (hb : c.beginEvent = .ok c') (ws : List Window) :
    ∃ rest, c.event hw ws = (Logged.emit (.tick c) >>= fun _ => rest) ∧
      Follows (Step hw) ⟨c', true⟩ rest (fun r s => s.conn = r.2) := by
  cases hrole : c.role with
  | master => exact ⟨c'.eventMaster hw ws, Conn.event_master hrole hb ws, eventMaster_follows c' ws⟩
  | slave => exact ⟨c'.eventSlave hw ws, Conn.event_slave hrole hb ws, eventSlave_follows c' ws⟩

/-- **A connection event on the air.** -/
theorem event_follows_air (hw : Hw) (c : Conn) (ws : List Window) {l : LinkAir} (h : Agrees l (some c)) :
    Follows AirStep l ((c.event hw ws).within .conn) (fun r l' => Agrees l' (some r.2)) := by
  cases hb : c.beginEvent with
  | error p =>
    rw [Conn.event_stuck hb]
    exact ⟨⟨l, .refl l⟩, by rintro _ ⟨⟩⟩
  | ok c' =>
    obtain ⟨rest, hrest, hfollows⟩ := event_rest hw hb ws
    have hevent : (c.event hw ws).within BleAct.conn =
        (Logged.emit (.conn (.tick c)) >>= fun _ => rest.within BleAct.conn) := by
      rw [hrest, Logged.emit_bind, Logged.emit_bind]
      rfl
    have haccess := congrArg Conn.access (Conn.beginEvent_frame hb)
    rw [hevent]
    have htick : Follows AirStep l (Logged.emit (.conn (.tick c))) (fun _ l' => InEvent ⟨c', true⟩ l') := by
      refine .of_step ⟨_, rfl, ⟨h, c', hb⟩, rfl⟩ ?_
      rintro _ _
      refine ⟨h.trans (congrArg some haccess.symm), ?_⟩
      show (Act.hop (.tick c)).isSome
      rw [Act.hop_tick hb]
      rfl
    refine htick.bind ?_
    intro _ l' _ hl'
    refine (hfollows.simulate BleAct.conn (fun hs hr => hs.in_event hr) hl').mono ?_
    rintro r l'' ⟨s', ⟨hopened, _⟩, hconn⟩
    rw [hconn] at hopened
    exact hopened

/-! ## The stack -/

section Stack

variable {α : Type} {l : LinkAir}

/-- A program that says nothing of the link. -/
theorem follows_of_quiet {x : Logged BleAct α} {g : α → Option Conn}
    (horderly : ∀ a ∈ x.log, ∀ l : LinkAir, l.Orderly a) (hquiet : linkEvents x.log = [])
    (h : ∀ a, x.res = .ok a → Agrees l (g a)) : Follows AirStep l x (fun a l' => Agrees l' (g a)) where
  trace := ⟨_, LinkAir.steps_of_forall horderly l⟩
  returned := fun a ha =>
    ⟨_, LinkAir.steps_of_forall horderly l, (LinkAir.opened_of_quiet hquiet l).trans (h a ha)⟩

/-- A program without actions of a connection, which returned. -/
theorem follows_of_alone {x : Logged BleAct α} {a : α} {g : α → Option Conn} (hres : x.res = .ok a)
    (halone : ∀ act, .conn act ∉ x.log) (h : Agrees (x.log.foldl LinkAir.after l) (g a)) :
    Follows AirStep l x (fun a l' => Agrees l' (g a)) where
  trace := ⟨_, LinkAir.steps_of_forall (LinkAir.orderly_of_alone halone) l⟩
  returned := by
    intro a' ha'
    cases hres.symm.trans ha'
    exact ⟨_, LinkAir.steps_of_forall (LinkAir.orderly_of_alone halone) l, h⟩

/-- A part of a tick that leaves the link as it is. -/
theorem follows_of_kept {log : List BleAct} {b b' : Ble} (halone : ∀ act, .conn act ∉ log)
    (hkept : b'.conn = b.conn ∧ linkEvents log = []) (h : Agrees l b.conn) :
    Follows AirStep l ⟨log, .ok b'⟩ (fun b' l' => Agrees l' b'.conn) := by
  refine follows_of_quiet (LinkAir.orderly_of_alone halone) hkept.2 ?_
  rintro _ ⟨⟩
  rw [hkept.1]
  exact h

namespace Ble

/-- Listening that opens a connection reports it, with the parameters of the `CONNECT_REQ`. -/
theorem serveLog_connects {b : Ble} {air : Air} {params : ConnectReqData}
    (h : serveOpens b.advParams air = some params) :
    b.advParams.extended = false ∧ ∃ initAddr, b.serveLog air =
      [.push (.connected params), .push (.connectReqReceived initAddr params)] := by
  unfold serveOpens at h
  split at h
  case isFalse => cases h
  case isTrue hopen =>
    obtain ⟨⟨initAddr, advAddr, params⟩, hreq, rfl⟩ := Option.map_eq_some_iff.mp h
    rw [Bool.and_eq_true, Bool.not_eq_true'] at hopen
    refine ⟨hopen.1, initAddr, ?_⟩
    unfold serveLog
    rw [hreq]
    cases htype : b.advParams.advType with
    | connectableUndirected | connectableDirected => rfl
    | scannableUndirected | nonConnectableUndirected =>
      rw [htype] at hopen
      cases hopen.2

theorem advTick_follows_air {b : Ble} (hb : b.Bounds) (h : Agrees l b.conn) (env : AdvEnv) :
    Follows AirStep l (b.advTick env) (fun b' l' => Agrees l' b'.conn) := by
  have hpushes : Enqueues True 2 b.events (b.advTick env) id := b.advTick_enqueues env
  have halone := hpushes.alone trivial
  obtain ⟨log, b', hrun, _, heff⟩ := advTick_effect hb env
  have hlink := heff.link
  cases hopens : b.advOpens env with
  | none =>
    rw [hopens] at hlink
    rw [hrun] at halone ⊢
    exact follows_of_kept halone hlink h
  | some params =>
    obtain ⟨hstate, hserve⟩ : b.advState = .running ∧ serveOpens b.advParams env.air = some params := by
      unfold advOpens at hopens
      split at hopens
      · exact ⟨‹_›, hopens⟩
      · cases hopens
    obtain ⟨hext, hlog⟩ := serveLog_connects hserve
    obtain ⟨b'', hlegacy, _⟩ := advTick_legacy hb hstate hext env
    rw [hopens] at hlink
    obtain ⟨⟨c, hconn, channel, rfl⟩, _⟩ := hlink
    obtain ⟨initAddr, hserved⟩ := hlog
    rw [hserved] at hlegacy
    have hacts := congrArg Logged.log (hrun.symm.trans hlegacy)
    rw [hrun] at halone ⊢
    refine follows_of_alone rfl halone ?_
    rw [hconn]
    dsimp only at hacts ⊢
    rw [hacts]
    rfl

/-- A listen that sends a `CONNECT_REQ` ends by reporting the connection. -/
theorem scanTick_connects {b : Ble} (hb : b.Bounds) {env : ScanEnv} {target : Buf 6}
    (h : b.scanOpens env = some target) :
    ∃ log, (b.scanTick env).log = log ++ [.push (.connected connectParams)] := by
  unfold scanOpens at h
  split at h
  case isFalse => cases h
  case isTrue hscan =>
    obtain ⟨hrun, hidx⟩ := hscan
    obtain ⟨htarget, hadv⟩ := listenOpens_eq_some.mp h
    obtain ⟨log, b₁, hper, hback⟩ := periodicTick_quietly hb.sync env
    have hframe : b₁ = _ := hback.frame
    obtain ⟨start, channel, b₂, hb₂, hlisten⟩ :=
      scanListen_eq (b := b₁) (by rw [hframe]; exact hidx) env
    obtain ⟨bytes, hrx⟩ : ∃ bytes, env.air.received = some bytes := by
      cases hrx : env.air.received with
      | some bytes => exact ⟨bytes, rfl⟩
      | none =>
        unfold Air.advertiser Air.pdu at hadv
        rw [hrx] at hadv
        cases hadv
    rw [hrx] at hlisten
    dsimp only at hlisten
    generalize hb₃ : ({ b₂ with rxPduLen := env.air.len } : Ble) = b₃ at hlisten
    rw [hb₂, hframe] at hb₃
    have htarget₃ : b₃.connectTarget = some target := by rw [← hb₃]; exact htarget
    obtain ⟨b', hsend, _⟩ := sendConnectReq_link htarget₃ env.connNow
    have hheard := handleScanPdu_target (b := b₃) (by rw [← hb₃]) (by rw [← hb₃]) hadv htarget₃
    have hstep : (b₁.scanStep env).log =
        [.setChannel channel, .transmit (b₃.requestTo target)] ++ [.push (.connected connectParams)] := by
      unfold scanStep
      rw [if_neg (by rw [hframe]; dsimp only; rw [hrun]; decide),
        if_neg (by rw [hframe]; dsimp only; omega), hlisten, hheard, hsend]
      rfl
    refine ⟨log ++ [.setChannel channel, .transmit (b₃.requestTo target)], ?_⟩
    unfold scanTick
    rw [if_neg (by rw [hrun]; decide), hper, Logged.mk_ok_bind]
    exact (congrArg (log ++ ·) hstep).trans (List.append_assoc ..).symm

theorem scanTick_follows_air {b : Ble} (hb : b.Bounds) (h : Agrees l b.conn) (env : ScanEnv) :
    Follows AirStep l (b.scanTick env) (fun b' l' => Agrees l' b'.conn) := by
  have hpushes : Enqueues True 3 b.events (b.scanTick env) id := b.scanTick_enqueues env
  have halone := hpushes.alone trivial
  obtain ⟨log, b', hrun, _, heff⟩ := scanTick_effect hb env
  have hlink := heff.link
  cases hopens : b.scanOpens env with
  | none =>
    rw [hopens] at hlink
    rw [hrun] at halone ⊢
    exact follows_of_kept halone hlink h
  | some target =>
    obtain ⟨first, hlog⟩ := scanTick_connects hb hopens
    rw [hopens] at hlink
    obtain ⟨⟨c, hconn, channel, rfl⟩, _⟩ := hlink
    rw [hrun] at halone hlog ⊢
    refine follows_of_alone rfl halone ?_
    rw [hconn]
    dsimp only at hlog ⊢
    rw [hlog, List.foldl_append]
    rfl

theorem closeLink_follows_air (b : Ble) (reason : DisconnectReason) :
    Follows AirStep l (b.closeLink reason) (fun r l' => Agrees l' r.2.conn) := by
  rw [closeLink_eq]
  refine follows_of_alone (g := fun r : Bool × Ble => r.2.conn) rfl ?_ ?_
  · intro act hmem
    simp at hmem
  · rfl

theorem connReport_follows_air {b : Ble} (h : Agrees l b.conn) (evt : ConnEvent) :
    Follows AirStep l (b.connReport evt) (fun b' l' => Agrees l' b'.conn) := by
  have hpushes : Enqueues True 1 b.events (b.connReport evt) id := b.connReport_enqueues evt
  have halone := hpushes.alone trivial
  obtain ⟨log, events, hrun, hquiet, _⟩ := b.connReport_quietly evt
  rw [hrun] at halone ⊢
  exact follows_of_kept halone ⟨rfl, hquiet.linkEvents⟩ h

theorem connDeliver_follows_air {b : Ble} (h : Agrees l b.conn) :
    Follows AirStep l b.connDeliver (fun r l' => Agrees l' r.2.conn) := by
  cases hconn : b.conn with
  | none =>
    unfold connDeliver
    rw [hconn]
    exact .pure h
  | some c =>
    have hpushes : Enqueues True 1 b.events b.connDeliver Prod.snd := b.connDeliver_enqueues
    have halone := hpushes.alone trivial
    obtain ⟨log, events, hrun, hquiet, _⟩ := connDeliver_quietly hconn
    rw [hrun] at halone ⊢
    refine follows_of_quiet (g := fun r => r.2.conn) (LinkAir.orderly_of_alone halone) hquiet.linkEvents ?_
    rintro _ ⟨⟩
    rw [hconn] at h
    exact h

theorem connTick_follows_air (hw : Hw) {b : Ble} (h : Agrees l b.conn) (env : ConnEnv) :
    Follows AirStep l (b.connTick hw env) (fun r l' => Agrees l' r.2.conn) := by
  unfold connTick
  split
  · exact b.closeLink_follows_air _
  rename_i c hconn
  split
  · exact b.closeLink_follows_air _
  rw [hconn] at h
  refine (event_follows_air hw c env.windows h).bind ?_
  rintro ⟨answer, c'⟩ l' _ hl'
  dsimp only
  split
  · exact closeLink_follows_air _ _
  · exact closeLink_follows_air _ _
  · exact (connReport_follows_air hl' _).bind fun b' l'' _ hl'' => connDeliver_follows_air hl''

end Ble

/-- A call leaves the link and its access as they are: what `gap_encrypt` does, no air carries. -/
theorem ApiCall.run_air (call : ApiCall) (b : Ble) :
    ∃ log answer b', call.run b = ⟨log, .ok (answer, b')⟩ ∧ (∀ a ∈ log, ∀ l : LinkAir, l.Orderly a) ∧
      b'.conn.map Conn.access = b.conn.map Conn.access := by
  have honLink := call.run_onLink b
  generalize call.run b = x at honLink ⊢
  cases honLink with
  | aside hlog hconn => exact ⟨_, _, _, rfl, LinkAir.orderly_of_alone hlog, congrArg _ hconn⟩
  | @call c op answer b' hc hconn =>
    refine ⟨_, _, _, rfl, List.forall_mem_nil _, ?_⟩
    have hlink := (op.run_effect c).link
    rw [hconn, hc]
    exact congrArg some (congrArg (fun l : Link => Access.mk l.accessAddr l.crcInit) hlink)
  | @encrypt c c' acts answer b' hc hrun hconn =>
    obtain ⟨horderly, haccess⟩ : (∀ a ∈ acts.map BleAct.conn, ∀ l : LinkAir, l.Orderly a) ∧
        c'.access = c.access := by
      unfold Conn.gapEncrypt at hrun
      split at hrun
      · cases hrun
        exact ⟨List.forall_mem_nil _, rfl⟩
      · split at hrun
        · cases hrun
          exact ⟨List.forall_mem_nil _, rfl⟩
        · cases hrun
          exact ⟨List.forall_mem_singleton.mpr fun _ => trivial, rfl⟩
    refine ⟨_, _, _, rfl, horderly, ?_⟩
    rw [hconn, hc]
    exact congrArg some haccess

/-- **Everything the stack does is orderly**, and what the actions say of the link is so. -/
theorem run_follows_air (hw : Hw) (op : BleOp) {b : Ble} (hb : b.Bounds) (h : Agrees l b.conn) :
    Follows AirStep l (op.run hw b) (fun b' l' => Agrees l' b'.conn) := by
  cases op with
  | call call =>
    obtain ⟨log, answer, b', hrun, horderly, haccess⟩ := call.run_air b
    have hquiet : linkEvents log = [] := by
      obtain ⟨log', answer', b'', hrun', heff⟩ := call.run_effect b
      cases hrun.symm.trans hrun'
      exact heff.quiet.linkEvents
    show Follows AirStep l (call.run b >>= fun r => pure r.2) _
    rw [hrun, Logged.mk_ok_bind, Logged.pure_eq_mk, Logged.prepend_mk, List.append_nil]
    refine follows_of_quiet horderly hquiet ?_
    rintro _ ⟨⟩
    exact h.trans haccess.symm
  | advTick env => exact Ble.advTick_follows_air hb h env
  | scanTick env => exact Ble.scanTick_follows_air hb h env
  | connTick env => exact (Ble.connTick_follows_air hw h env).bind fun r l' _ hl' => .pure hl'
  | gapRotateRpa now =>
    refine .pure ?_
    unfold Ble.gapRotateRpa
    split <;> exact h
  | gapBondSave peer ltk irk =>
    refine .pure ?_
    unfold Ble.gapBondSave
    split
    · exact h
    · rename_i c hc
      rw [hc] at h
      exact h
  | gattPoll =>
    refine .pure ?_
    unfold Ble.gattPoll
    split
    · exact h
    · rename_i c hc
      rw [hc] at h
      exact h
  | _ => exact .pure h

end Stack

theorem Run.follows_air {hw : Hw} {moves : List Move} {r : Except Panic Ble} (h : Run hw moves r) :
    Follows AirStep .start ⟨actsOf moves, r⟩ (fun b l => Agrees l b.conn) := by
  induction h with
  | start => exact .pure (a := Ble.new) rfl
  | step op h ih =>
    refine Follows.bind (f := fun b => op.run hw b) ih ?_
    rintro b l hres hl
    exact run_follows_air hw op (h.bounds b hres) hl

/-! ## The registers follow -/

/-- The registers stand where the actions say: at the access of the link that was driven last, or the
    advertising one, and in an event at the open link's, on the event's channel. -/
structure Mirrors (r : Radio.Regs) (l : LinkAir) : Prop where
  access : r.access = l.driven.getD .advertising
  event : ∀ channel, l.hop = some channel → l.driven = l.opened ∧ l.opened.isSome ∧ r.On channel
  closed : l.opened = none → l.driven = none

/-- **One orderly action.** -/
theorem Mirrors.act {r : Radio.Regs} {l : LinkAir} {a : BleAct} (h : Mirrors r l) (ha : l.Orderly a) :
    Mirrors (a.writes r) (l.after a) := by
  cases a with
  | setChannel channel =>
    exact ⟨(r.setChannel_access channel).trans h.access, by rintro _ ⟨⟩, h.closed⟩
  | transmit pdu => exact ⟨h.access, by rintro _ ⟨⟩, h.closed⟩
  | push evt =>
    cases evt with
    | connected params => exact ⟨h.access, by rintro _ ⟨⟩, by rintro ⟨⟩⟩
    | disconnected reason => exact ⟨r.init_access, by rintro _ ⟨⟩, fun _ => rfl⟩
    | _ => exact ⟨h.access, by rintro _ ⟨⟩, h.closed⟩
  | conn act =>
    cases act with
    | tick c =>
      obtain ⟨hopened, c', hb⟩ := ha
      have hwrites : (BleAct.conn (.tick c)).writes r =
          ((r.setAccessAddress c'.accessAddr).setCrcInit c'.crcInit).setChannel c'.channel := by
        unfold BleAct.writes
        dsimp only
        rw [hb]
      have haccess := congrArg Conn.access (Conn.beginEvent_frame hb)
      rw [hwrites]
      refine ⟨?_, ?_, id⟩
      · show _ = l.opened.getD .advertising
        rw [Radio.Regs.setChannel_access, hopened, Option.getD_some]
        refine Eq.trans ?_ haccess
        exact congrArg (fun x : Access => Access.mk x.address c'.crcInit)
          (r.setAccessAddress_access c'.accessAddr)
      · intro channel hhop
        rw [show (l.after (.conn (.tick c))).hop = some c'.channel from Act.hop_tick hb] at hhop
        cases hhop
        refine ⟨rfl, ?_, Radio.Regs.setChannel_on _ (Conn.beginEvent_channel_lt hb)⟩
        show l.opened.isSome
        rw [hopened]
        rfl
    | _ => exact h

/-- What stands in the radio when an action is taken, after these. -/
structure WellTuned (reset : Radio.Regs) (before : List BleAct) (a : BleAct) : Prop where
  /-- The access of the link whose event was the last, or the advertising one. -/
  access : (registers reset before).access = (linkAir before).driven.getD .advertising
  /-- An event is one of the open link. -/
  event : ∀ c, a = .conn (.tick c) → (linkAir before).opened = some c.access
  /-- A data PDU is one of the open link, and goes out at its access on the channel of the event. -/
  data : ∀ t, a = .conn (.tx t) → ∃ link channel,
    (linkAir before).opened = some link ∧ (linkAir before).hop = some channel ∧
      (registers reset before).access = link ∧ (registers reset before).On channel

theorem Mirrors.wellTuned {reset : Radio.Regs} {before : List BleAct} {a : BleAct}
    (h : Mirrors (registers reset before) (linkAir before)) (ha : (linkAir before).Orderly a) :
    WellTuned reset before a where
  access := h.access
  event := by
    rintro c rfl
    exact ha.1
  data := by
    rintro t rfl
    obtain ⟨channel, hhop⟩ := Option.isSome_iff_exists.mp ha
    obtain ⟨hdriven, hopen, hon⟩ := h.event channel hhop
    obtain ⟨link, hlink⟩ := Option.isSome_iff_exists.mp hopen
    refine ⟨link, channel, hlink, hhop, ?_, hon⟩
    rw [h.access, hdriven, hlink]
    rfl

/-- **The radio follows the link**, in every run.  Whenever an action is taken, the access in the
    registers is that of the link whose event was the last, and the advertising one before the first event
    and after the end of a link; a data PDU goes out at the access of the open link, on the channel of its
    event.  And what the actions say is open is the connection there is. -/
theorem radio_follows_link (hw : Hw) (reset : Radio.Regs) (ops : List BleOp) :
    let acts := actsOf (history hw ops).1
    (∀ before a after, acts = before ++ a :: after → WellTuned reset before a) ∧
      ∀ b, (history hw ops).2 = .ok b → (linkAir acts).opened = b.conn.map Conn.access ∧
        (b.conn = none → (registers reset acts).access = .advertising) := by
  intro acts
  obtain ⟨⟨l, htrace⟩, hreturned⟩ := (Run.of_history hw ops).follows_air.invariant
    (I := fun log l => l = linkAir log ∧ Mirrors (registers reset log) l ∧
      ∀ before a after, log = before ++ a :: after → WellTuned reset before a)
    ⟨rfl, ⟨reset.init_access, by rintro _ ⟨⟩, fun _ => rfl⟩,
      fun before a after h => by cases before <;> cases h⟩ (by
    rintro log l _ _ ⟨rfl, hmirrors, hbefore⟩ ⟨a, rfl, ha, rfl⟩
    refine ⟨by rw [linkAir, linkAir, List.foldl_append]; rfl, ?_, ?_⟩
    · rw [registers, List.foldl_append]
      exact hmirrors.act ha
    · intro before a' after h
      rcases List.eq_nil_or_concat after with rfl | ⟨rest, last, rfl⟩
      · -- the last action
        obtain ⟨rfl, hone⟩ := List.append_inj' h rfl
        cases hone
        exact hmirrors.wellTuned ha
      · -- an earlier one
        rw [List.concat_eq_append, ← List.cons_append, ← List.append_assoc] at h
        exact hbefore before a' rest (List.append_inj' h rfl).1)
  refine ⟨htrace.2.2, ?_⟩
  intro b hb
  obtain ⟨l', ⟨rfl, hmirrors, _⟩, hagrees⟩ := hreturned b hb
  refine ⟨hagrees, fun hnone => ?_⟩
  have hopened : (linkAir acts).opened = none := by
    rw [show (linkAir acts).opened = b.conn.map Conn.access from hagrees, hnone]
    rfl
  exact hmirrors.access.trans (by rw [hmirrors.closed hopened]; rfl)

/-- An empty data PDU. -/
def emptyPdu : Buf 64 := (Buf.zero 64).splice 0 [0x01, 0x00] (by decide)

/-- A central connects; after one event of the link the peripheral advertises again. -/
def advertiseOnLink : List BleOp :=
  [.advTick ⟨0, 0, .silent, 0, 0⟩, .call (.gapAdvStart {} 0),
    .connTick ⟨0, [⟨.packet 0 emptyPdu, 0⟩], 0⟩] ++ acceptOne

/-- The advertisement goes out at the access of the link. -/
theorem radio_follows_link_advertisement :
    ∃ before a, actsOf (history Hw.standIn advertiseOnLink).1 = before ++ [a] ∧
      transmissions [a] ≠ [] ∧ ∀ reset, (registers reset before).access = Ble.connectParams.access := by
  have hdriven : (linkAir ((actsOf (history Hw.standIn advertiseOnLink).1).take 10)).driven =
      some Ble.connectParams.access := by decide +kernel
  have hone : ((actsOf (history Hw.standIn advertiseOnLink).1).drop 10).length = 1 := by decide +kernel
  have hsent : transmissions ((actsOf (history Hw.standIn advertiseOnLink).1).drop 10) ≠ [] := by
    decide +kernel
  have hrun := fun reset => (radio_follows_link Hw.standIn reset advertiseOnLink).1
  generalize actsOf (history Hw.standIn advertiseOnLink).1 = acts at hdriven hone hsent hrun ⊢
  obtain ⟨a, ha⟩ := List.length_eq_one_iff.mp hone
  have hacts : acts = acts.take 10 ++ [a] := by rw [← ha, List.take_append_drop]
  rw [ha] at hsent
  refine ⟨acts.take 10, a, hacts, hsent, fun reset => ?_⟩
  rw [(hrun reset _ _ _ hacts).access, hdriven]
  rfl

end NrfBle
