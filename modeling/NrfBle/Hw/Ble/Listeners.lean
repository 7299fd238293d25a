/-
  Whose requests an advertiser serves (`src/hw/ble.rs`: `listen_for_scan_req`,
  `listen_for_scan_and_connect`).

  Every device on the channel is heard, so a request is to be served only when it names this device.
  `ServesUs` says that of a window; `NamesUs` is what the packet has to be for it to hold:

  * the scannable listener looks at the type nibble only, and answers a `SCAN_REQ` for anyone, also one
    that does not decode, in its own name;
  * the connectable listener decodes, and then ignores the advertiser address: it answers a `SCAN_REQ`
    for another device IN THE NAME of that device, and opens a connection on any `CONNECT_REQ`, when
    advertising is directed from any initiator.
-/
import Mathlib.Tactic
import NrfBle.Hw.Ble.Adv

namespace NrfBle

open Checked

/-- The two listeners of an advertiser. -/
inductive Listener
  | scanReq
  | scanAndConnect (channel : UInt8)

/-- One window of a listener. -/
def Listener.run (l : Listener) (b : Ble) (air : Air) (now : UInt32) : Logged BleAct Ble :=
  match l with
  | .scanReq => b.listenForScanReq air
  | .scanAndConnect channel => b.listenForScanAndConnect channel air now

namespace Ble

/-- A connection is created: it is announced, or the connection is another one. -/
def Creates (b : Ble) (x : Logged BleAct Ble) : Prop :=
  (∃ params, .push (.connected params) ∈ x.log) ∨ ∃ b', x.res = .ok b' ∧ b'.conn ≠ b.conn

/-- The initiator is the one the advertising is for. -/
def InvitedInit (b : Ble) (initAddr : Buf 6) : Prop :=
  b.advParams.advType = .connectableDirected → b.advParams.peerAddr = some initAddr

/-- **Only requests that name this device are served**: a connection is created for a well-formed
    `CONNECT_REQ` to it, and what is transmitted is its own `SCAN_RSP`, to a well-formed `SCAN_REQ` to
    it. -/
structure ServesUs (b : Ble) (air : Air) (x : Logged BleAct Ble) : Prop where
  connects : b.Creates x →
    ∃ initAddr params, air.connectReq = some (initAddr, b.ownAddr, params) ∧ b.InvitedInit initAddr
  answers : ∀ pdu, .transmit pdu ∈ x.log →
    (∃ scanAddr, air.scanReq = some (scanAddr, b.ownAddr)) ∧
      pdu = (AdvPdu.scanRsp b.ownAddr (b.scanRsp.bytes.take b.scanRspLen)).bytes
        b.ownAddrType.isRandom false

/-- The packet of a window is one the listener would not serve, or it names this device. -/
def NamesUs (b : Ble) (air : Air) : Listener → Prop
  | .scanReq =>
    accepts scanReqMask air = true → 0 < b.scanRspLen → ∃ scanAddr, air.scanReq = some (scanAddr, b.ownAddr)
  | .scanAndConnect _ =>
    (∀ initAddr advAddr params, air.connectReq = some (initAddr, advAddr, params) →
      advAddr = b.ownAddr ∧ b.InvitedInit initAddr) ∧
    ∀ scanAddr advAddr, air.scanReq = some (scanAddr, advAddr) → 0 < b.scanRspLen → advAddr = b.ownAddr

/-! ## The answers -/

theorem push_not_mem_scanRspLog (b : Ble) (addr : Buf 6) (evt : BleEvent) :
    .push evt ∉ b.scanRspLog addr := by
  unfold scanRspLog
  split <;> simp

theorem transmit_mem_scanRspLog (b : Ble) (addr : Buf 6) (pdu : List UInt8) :
    .transmit pdu ∈ b.scanRspLog addr ↔
      0 < b.scanRspLen ∧ pdu = (AdvPdu.scanRsp addr (b.scanRsp.bytes.take b.scanRspLen)).bytes
        b.ownAddrType.isRandom false := by
  unfold scanRspLog
  split
  · rename_i hlen
    simp [hlen]
  · rename_i hlen
    simp only [List.not_mem_nil, false_iff, not_and]
    exact fun h => absurd h hlen

/-- A window that transmits at most a scan response and leaves the connection alone creates none. -/
theorem not_creates {b b' : Ble} {log : List BleAct} (hlog : ∀ evt, .push evt ∉ log)
    (hconn : b'.conn = b.conn) : ¬ b.Creates ⟨log, .ok b'⟩ := by
  rintro (⟨params, h⟩ | ⟨b₁, h, hne⟩)
  · exact hlog _ h
  · cases h
    exact hne hconn

theorem scanReq_serves_iff {b : Ble} (hb : b.scanRspLen ≤ legacyAdDataMaxLen) (air : Air) :
    b.ServesUs air (b.listenForScanReq air) ↔ b.NamesUs air .scanReq := by
  obtain ⟨txBuf, rxPduLen, h⟩ := listenForScanReq_eq hb air
  rw [h]
  constructor
  · intro hserves hacc hlen
    have hmem := (transmit_mem_scanRspLog b b.ownAddr _).mpr ⟨hlen, rfl⟩
    rw [if_pos hacc] at hserves
    exact (hserves.answers _ hmem).1
  · intro hnames
    constructor
    · intro hcreates
      refine absurd hcreates (not_creates ?_ rfl)
      intro evt
      split
      · exact push_not_mem_scanRspLog b _ evt
      · simp
    · intro pdu hpdu
      dsimp only at hpdu
      split at hpdu
      · rename_i hacc
        obtain ⟨hlen, hbytes⟩ := (transmit_mem_scanRspLog b _ pdu).mp hpdu
        exact ⟨hnames hacc hlen, hbytes⟩
      · cases hpdu

theorem scanAndConnect_serves_iff {b : Ble} (hb : b.scanRspLen ≤ legacyAdDataMaxLen) (channel : UInt8)
    (air : Air) (now : UInt32) :
    b.ServesUs air (b.listenForScanAndConnect channel air now) ↔
      b.NamesUs air (.scanAndConnect channel) := by
  obtain ⟨txBuf, rxPduLen, h⟩ := listenForScanAndConnect_eq hb channel air now
  rw [h]
  cases hreq : air.connectReq with
  | some req =>
    obtain ⟨initAddr, advAddr, params⟩ := req
    have hscan : air.scanReq = none := air.scanReq_of_connectReq hreq
    dsimp only
    constructor
    · intro hserves
      obtain ⟨initAddr', params', heq, hinit⟩ := hserves.connects (.inl ⟨params, by simp⟩)
      cases hreq.symm.trans heq
      refine ⟨?_, by rw [hscan]; rintro _ _ ⟨⟩⟩
      rintro _ _ _ hreq'
      cases hreq.symm.trans hreq'
      exact ⟨rfl, hinit⟩
    · intro hnames
      obtain ⟨rfl, hinit⟩ := hnames.1 _ _ _ hreq
      exact ⟨fun _ => ⟨initAddr, params, hreq, hinit⟩, by intro pdu hpdu; simp at hpdu⟩
  | none =>
    dsimp only
    constructor
    · intro hserves
      refine ⟨by rw [hreq]; rintro _ _ _ ⟨⟩, ?_⟩
      intro scanAddr advAddr hscan hlen
      have hmem := (transmit_mem_scanRspLog b advAddr _).mpr ⟨hlen, rfl⟩
      rw [hscan] at hserves
      obtain ⟨scanAddr', hscan'⟩ := (hserves.answers _ hmem).1
      cases hscan.symm.trans hscan'
      rfl
    · intro hnames
      constructor
      · intro hcreates
        refine absurd hcreates (not_creates ?_ rfl)
        intro evt
        split
        · exact push_not_mem_scanRspLog b _ evt
        · simp
      · intro pdu hpdu
        dsimp only at hpdu
        split at hpdu
        · rename_i scanAddr advAddr hscan
          obtain ⟨hlen, hbytes⟩ := (transmit_mem_scanRspLog b _ pdu).mp hpdu
          obtain rfl := hnames.2 _ _ hscan hlen
          exact ⟨⟨scanAddr, hscan⟩, hbytes⟩
        · cases hpdu

end Ble

/-- **Whose requests are served**: in a window of either listener, only requests to this device iff the
    packet received is none that names another. -/
theorem serves_only_us_iff (l : Listener) (b : Ble) (hb : b.scanRspLen ≤ legacyAdDataMaxLen) (air : Air)
    (now : UInt32) : b.ServesUs air (l.run b air now) ↔ b.NamesUs air l := by
  cases l with
  | scanReq => exact Ble.scanReq_serves_iff hb air
  | scanAndConnect channel => exact Ble.scanAndConnect_serves_iff hb channel air now

/-- An advertiser with the all-zero address and three bytes of response data. -/
def zeroAdvertiser : Ble := { Ble.new with scanRspLen := 3 }

/-- A request to the advertiser is served. -/
theorem request_to_us_is_served :
    zeroAdvertiser.ServesUs (.of (.scanReq otherAddr (Buf.zero 6)))
      ((Listener.scanAndConnect 37).run zeroAdvertiser (.of (.scanReq otherAddr (Buf.zero 6))) 0) := by
  refine (serves_only_us_iff (.scanAndConnect 37) zeroAdvertiser (by decide) _ 0).mpr ⟨?_, ?_⟩
  · rw [show (Air.of (.scanReq otherAddr (Buf.zero 6))).connectReq = none by decide +kernel]
    rintro _ _ _ ⟨⟩
  · rw [show (Air.of (.scanReq otherAddr (Buf.zero 6))).scanReq = some (otherAddr, Buf.zero 6) by
      decide +kernel]
    rintro _ _ ⟨⟩ -
    rfl

/-- A `CONNECT_REQ` to another device, a `SCAN_REQ` to another device, and the same to the scannable
    listener. -/
theorem requests_to_another_are_served :
    ¬ zeroAdvertiser.ServesUs (.of (.connectReq (Buf.zero 6) otherAddr (List.replicate 22 0)))
        (zeroAdvertiser.listenForScanAndConnect 37
          (.of (.connectReq (Buf.zero 6) otherAddr (List.replicate 22 0))) 0) ∧
      ¬ zeroAdvertiser.ServesUs (.of (.scanReq (Buf.zero 6) otherAddr))
        (zeroAdvertiser.listenForScanAndConnect 37 (.of (.scanReq (Buf.zero 6) otherAddr)) 0) ∧
      ¬ zeroAdvertiser.ServesUs (.of (.scanReq (Buf.zero 6) otherAddr))
        (zeroAdvertiser.listenForScanReq (.of (.scanReq (Buf.zero 6) otherAddr))) := by
  have hlen : zeroAdvertiser.scanRspLen ≤ legacyAdDataMaxLen := by decide
  have hother : otherAddr ≠ zeroAdvertiser.ownAddr := by decide
  have hscan : (Air.of (.scanReq (Buf.zero 6) otherAddr)).scanReq = some (Buf.zero 6, otherAddr) := by
    decide +kernel
  rw [Ble.scanAndConnect_serves_iff hlen, Ble.scanAndConnect_serves_iff hlen, Ble.scanReq_serves_iff hlen]
  refine ⟨?_, fun hnames => hother (hnames.2 _ _ hscan (by decide)), ?_⟩
  · intro hnames
    have hreq : ((Air.of (.connectReq (Buf.zero 6) otherAddr (List.replicate 22 0))).connectReq.map
        fun r => r.2.1) = some otherAddr := by decide +kernel
    obtain ⟨⟨initAddr, advAddr, params⟩, hreq, rfl⟩ := Option.map_eq_some_iff.mp hreq
    exact hother (hnames.1 _ _ _ hreq).1
  · intro hnames
    obtain ⟨scanAddr, h⟩ := hnames (by decide +kernel) (by decide)
    cases hscan.symm.trans h

end NrfBle
