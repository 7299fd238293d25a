/-
  The encrypted data path: what one connection sends, as the other one decodes it.

  The CCM peripheral is taken at its word (`Aead`): encryption appends a four-byte MIC and adds four
  to the length byte, decryption under the same key, counter and direction checks the MIC, takes it
  off and takes the four off again.  Sender and receiver do agree on key, counter and direction
  (`agree_on_nonce`), and what the receiver finds in `rx_buf` after `rx` IS the plaintext PDU.

  What goes wrong is the slice behind it.  `event` and `event_master` decode `rx_buf[..len]` with
  the `len` the radio measured BEFORE decryption.  The decoder accepts a slice only if it is as long
  as the (by now lowered) length byte says, so everything hangs on `len` (`receiveAt_iff`): the PDU
  comes out iff `len` is the length of the plaintext.  The length on the air is four more.  The
  length the driver really measures is half of that, which is right for two payload lengths.

  On the sending side the MIC has no room in `tx_buf` from 59 bytes of payload on.
-/
import Mathlib.Tactic
import NrfBle.Hw.Conn.Run

namespace NrfBle

open Checked

/-! ## PDUs in buffers -/

/-- The buffer starts with a data channel PDU: header byte, length byte, payload. -/
def FrontPdu (buf : Buf 64) (b0 : UInt8) (payload : List UInt8) : Prop :=
  buf.bytes.take (2 + payload.length) = b0 :: UInt8.ofNat payload.length :: payload

instance (buf : Buf 64) (b0 : UInt8) (payload : List UInt8) : Decidable (FrontPdu buf b0 payload) :=
  inferInstanceAs (Decidable (_ = _))

/-- A buffer that starts with a PDU, taken apart. -/
theorem FrontPdu.split {buf : Buf 64} {b0 : UInt8} {payload : List UInt8}
    (h : FrontPdu buf b0 payload) :
    buf.bytes = b0 :: UInt8.ofNat payload.length ::
      (payload ++ buf.bytes.drop (2 + payload.length)) := by
  have hsplit := List.take_append_drop (2 + payload.length) buf.bytes
  rw [h] at hsplit
  exact hsplit.symm

theorem FrontPdu.of_split {buf : Buf 64} {b0 : UInt8} {payload : List UInt8} (rest : List UInt8)
    (h : buf.bytes = b0 :: UInt8.ofNat payload.length :: (payload ++ rest)) :
    FrontPdu buf b0 payload := by
  unfold FrontPdu
  rw [h, Nat.add_comm, List.take_succ_cons, List.take_succ_cons, List.take_left]

/-- The length byte of a payload that fits a buffer. -/
theorem lengthByte_toNat {n : Nat} (h : n ≤ 62) : (UInt8.ofNat n &&& 0b111111).toNat = n := by
  rw [UInt8.toNat_and, UInt8.toNat_ofNat', show (0b111111 : UInt8).toNat = 2 ^ 6 - 1 from rfl,
    Nat.and_two_pow_sub_one_eq_mod]
  omega

/-- **Decoding a slice of a buffer** that starts with a PDU gives the PDU iff the slice ends where the
    PDU does. -/
theorem FrontPdu.decode_iff {buf : Buf 64} {b0 : UInt8} {payload : List UInt8}
    (h : FrontPdu buf b0 payload) (hn : payload.length ≤ 62) (len : Nat) :
    (do
      let bytes ← buf.upto len
      DataPdu.decode bytes) = .ok (.ok (DataPdu.ofBytes b0 payload)) ↔
        len = 2 + payload.length := by
  constructor
  · intro hd
    obtain ⟨bytes, hup, hdec⟩ := bind_eq_ok.mp hd
    have hlen : len ≤ 64 := (buf.returns_upto).mp ⟨bytes, hup⟩
    rw [buf.upto_of_le hlen] at hup
    cases hup
    -- a slice without a header is no PDU
    rcases Nat.lt_or_ge len 2 with h2 | h2
    · have hshort : (buf.bytes.take len).length < 2 := by rw [List.length_take, buf.size]; omega
      unfold DataPdu.decode at hdec
      rw [if_pos hshort] at hdec
      cases hdec
    · obtain ⟨k, rfl⟩ : ∃ k, len = k + 2 := ⟨len - 2, by omega⟩
      have hsize := buf.size
      rw [h.split, List.length_cons, List.length_cons] at hsize
      rw [h.split, List.take_succ_cons, List.take_succ_cons, DataPdu.decode_cons,
        lengthByte_toNat hn, List.length_take] at hdec
      split at hdec
      · omega
      · cases hdec
  · rintro rfl
    have hlen : 2 + payload.length ≤ 64 := by omega
    rw [buf.upto_of_le hlen, h, ok_bind, DataPdu.decode_cons, lengthByte_toNat hn, if_pos rfl]

/-! ## The cipher -/

/-- What the stack relies on the CCM peripheral for.  `payload.length ≤ 58` leaves room for the MIC in
    the buffer; the first 29 bytes of the configuration are key, packet counter and direction. -/
structure Aead (hw : Hw) : Prop where
  /-- Encryption appends a MIC and adds its length to the length byte. -/
  encrypt : ∀ (cfg : Buf 45) (buf : Buf 64) (b0 : UInt8) (payload : List UInt8),
    payload.length ≤ 58 → FrontPdu buf b0 payload →
    (hw.crypt false cfg buf).2 = false ∧
      ∃ sealed, sealed.length = payload.length + llMicLen ∧
        FrontPdu (hw.crypt false cfg buf).1 b0 sealed
  /-- Decryption of what was encrypted under the same key, counter and direction verifies, and gives
      the plaintext and its length byte back. -/
  decrypt : ∀ (cfg cfg' : Buf 45) (buf buf' : Buf 64) (b0 : UInt8) (payload sealed : List UInt8),
    payload.length ≤ 58 → FrontPdu buf b0 payload →
    sealed.length = payload.length + llMicLen → FrontPdu (hw.crypt false cfg buf).1 b0 sealed →
    cfg'.bytes.take 29 = cfg.bytes.take 29 → FrontPdu buf' b0 sealed →
    (hw.crypt true cfg' buf').2 = false ∧ FrontPdu (hw.crypt true cfg' buf').1 b0 payload

/-- A cipher to execute runs with: the payload stays readable, the MIC is the low end of the packet
    counter. -/
def Hw.sealing : Hw :=
  { Hw.standIn with
    crypt := fun decrypt cfg buf =>
      let n := (buf.bytes.getD 1 0).toNat
      let mic := (cfg.bytes.take 21).drop 17
      if decrypt then
        if 4 ≤ n ∧ (buf.bytes.take (2 + n)).drop (n - 2) = mic then
          (buf.set 1 (UInt8.ofNat (n - 4)), false)
        else (buf, true)
      else if h : n ≤ 58 then
        ((buf.splice (2 + n) mic (by
          rw [List.length_drop, List.length_take, cfg.size]; omega)).set 1 (UInt8.ofNat (n + 4)),
          false)
      else (buf, true) }

/-- The length byte of a buffer that starts with a PDU. -/
theorem FrontPdu.lengthByte {buf : Buf 64} {b0 : UInt8} {payload : List UInt8}
    (h : FrontPdu buf b0 payload) (hn : payload.length ≤ 62) :
    (buf.bytes.getD 1 0).toNat = payload.length := by
  rw [h.split]
  show (UInt8.ofNat payload.length).toNat = payload.length
  rw [UInt8.toNat_ofNat']
  omega

theorem Hw.sealing_encrypt (cfg : Buf 45) {buf : Buf 64} {b0 : UInt8} {payload : List UInt8}
    (hn : payload.length ≤ 58) (h : FrontPdu buf b0 payload) :
    (Hw.sealing.crypt false cfg buf).2 = false ∧
      FrontPdu (Hw.sealing.crypt false cfg buf).1 b0 (payload ++ (cfg.bytes.take 21).drop 17) := by
  have hbyte := h.lengthByte (by omega)
  have hmic : ((cfg.bytes.take 21).drop 17).length = 4 := by
    rw [List.length_drop, List.length_take, cfg.size]; rfl
  unfold Hw.sealing
  simp only [hbyte, Bool.false_eq_true, if_false, dif_pos hn, true_and]
  refine FrontPdu.of_split (buf.bytes.drop (2 + payload.length + 4)) ?_
  unfold Buf.set Buf.splice
  simp only [hmic]
  rw [h, List.length_append, hmic]
  simp only [List.cons_append, List.set_cons_succ, List.set_cons_zero, List.append_assoc]

theorem Hw.sealing_decrypt (cfg : Buf 45) {buf : Buf 64} {b0 : UInt8} {payload : List UInt8}
    (hn : payload.length ≤ 58)
    (h : FrontPdu buf b0 (payload ++ (cfg.bytes.take 21).drop 17)) :
    (Hw.sealing.crypt true cfg buf).2 = false ∧
      FrontPdu (Hw.sealing.crypt true cfg buf).1 b0 payload := by
  have hmic : ((cfg.bytes.take 21).drop 17).length = 4 := by
    rw [List.length_drop, List.length_take, cfg.size]; rfl
  have hlen : (payload ++ (cfg.bytes.take 21).drop 17).length = payload.length + 4 := by
    rw [List.length_append, hmic]
  have hbyte := h.lengthByte (by omega)
  have hcheck : (buf.bytes.take (2 + (payload.length + 4))).drop (payload.length + 4 - 2) =
      (cfg.bytes.take 21).drop 17 := by
    unfold FrontPdu at h
    rw [hlen] at h
    rw [h, show payload.length + 4 - 2 = payload.length + 2 by omega, List.drop_succ_cons,
      List.drop_succ_cons, List.drop_left]
  unfold Hw.sealing
  simp only [hbyte, hlen, if_true, hcheck, and_true, Nat.le_add_left, Nat.add_sub_cancel, true_and]
  have hsplit := h.split
  rw [hlen] at hsplit
  generalize buf.bytes.drop (2 + (payload.length + 4)) = rest at hsplit
  refine FrontPdu.of_split ((cfg.bytes.take 21).drop 17 ++ rest) ?_
  unfold Buf.set
  dsimp only
  rw [hsplit, List.set_cons_succ, List.set_cons_zero, List.append_assoc]

/-- The stand-in is a cipher as the stack expects it. -/
theorem Hw.sealing_aead : Aead Hw.sealing where
  encrypt := by
    intro cfg buf b0 payload hn h
    obtain ⟨hok, hseal⟩ := Hw.sealing_encrypt cfg hn h
    refine ⟨hok, _, ?_, hseal⟩
    rw [List.length_append, List.length_drop, List.length_take, cfg.size]; rfl
  decrypt := by
    intro cfg cfg' buf buf' b0 payload sealed hn h hlen hseal hcfg hbuf'
    -- what was sealed is the payload and the MIC of the sender's counter, which is the receiver's
    have hmic : (cfg'.bytes.take 21).drop 17 = (cfg.bytes.take 21).drop 17 := by
      have hcut := congrArg (fun l => (l.take 21).drop 17) hcfg
      simpa [List.take_take] using hcut
    have hsealed : sealed = payload ++ (cfg'.bytes.take 21).drop 17 := by
      have hown := (Hw.sealing_encrypt cfg hn h).2
      have hl : (payload ++ (cfg.bytes.take 21).drop 17).length = sealed.length := by
        rw [hlen, List.length_append, List.length_drop, List.length_take, cfg.size]; rfl
      unfold FrontPdu at hown hseal
      rw [hl, hseal] at hown
      rw [hmic]
      exact (List.cons.inj (List.cons.inj hown).2).2
    rw [hsealed] at hbuf'
    exact Hw.sealing_decrypt cfg' hn hbuf'

namespace Conn

/-- Two ends of an encrypted link: opposite roles, one key, one packet counter. -/
structure EncryptedPeers (c d : Conn) : Prop where
  sends : c.encrypted = true
  receives : d.encrypted = true
  role : d.role ≠ c.role
  stk : d.smp.stk = c.smp.stk
  counter : d.packetCounter = c.packetCounter

/-- What one end sends under, the other receives under. -/
theorem EncryptedPeers.agree_on_nonce {c d : Conn} (h : EncryptedPeers c d) :
    Ccm.setup d.smp.stk d.packetCounter d.rxDirection =
      Ccm.setup c.smp.stk c.packetCounter c.txDirection := by
  have hdir : d.rxDirection = c.txDirection := by
    have hrole := h.role
    unfold rxDirection txDirection
    cases hd : d.role <;> cases hc : c.role
    · exact absurd (hd.trans hc.symm) hrole
    · rfl
    · rfl
    · exact absurd (hd.trans hc.symm) hrole
  rw [h.stk, h.counter, hdir]

/-- What `process` leaves of the configuration block: key, counter and direction. -/
theorem process_cfg (hw : Hw) (ccm : Ccm) (decrypt : Bool) (pdu : Buf 64) :
    ∃ cfg : Buf 45, cfg.bytes.take 29 = ccm.cfg.bytes.take 29 ∧
      ccm.process hw decrypt pdu =
        (!(hw.crypt decrypt cfg pdu).2, ⟨cfg⟩, (hw.crypt decrypt cfg pdu).1) := by
  refine ⟨⟨ccm.cfg.bytes.take 29 ++ [pdu.bytes.getD 0 0, pdu.bytes.getD 1 0] ++
    List.replicate 14 0, by simp [ccm.cfg.size]⟩, ?_, rfl⟩
  have hlen : (ccm.cfg.bytes.take 29).length = 29 := by rw [List.length_take, ccm.cfg.size]; rfl
  dsimp only
  rw [List.append_assoc, List.take_append_of_le_length (by omega), List.take_of_length_le (by omega)]

/-! ## Receiving -/

/-- What `event` and `event_master` do with a packet of which the radio says that it is `len` bytes
    long: decrypt in place, and decode that slice. -/
def receiveAt (hw : Hw) (c : Conn) (buf : Buf 64) (len : Nat) :
    Except Panic (Option (Except Error DataPdu) × Conn) := do
  let (ok, c) := rx hw { c with rxBuf := buf }
  if ok then
    let bytes ← c.rxBuf.upto len
    let pdu ← DataPdu.decode bytes
    return (some pdu, c)
  else return (none, c)

/-- A listening window is that, with the length the driver measures. -/
theorem listen_packet (hw : Hw) (c : Conn) (tag : Nat) (buf : Buf 64) :
    c.listen hw (.packet tag buf) = (do
      let len ← Radio.pduLen buf.bytes
      c.receiveAt hw buf len) := rfl

theorem rx_encrypted (hw : Hw) {d : Conn} (h : d.encrypted = true) (buf : Buf 64) :
    rx hw { d with rxBuf := buf } =
      (((Ccm.setup d.smp.stk d.packetCounter d.rxDirection).process hw true buf).1,
        { d with
          ccm := ((Ccm.setup d.smp.stk d.packetCounter d.rxDirection).process hw true buf).2.1
          rxBuf := ((Ccm.setup d.smp.stk d.packetCounter d.rxDirection).process hw true buf).2.2 }) :=
  if_pos h

/-- The received packet decodes to the PDU. -/
def Decodes (hw : Hw) (d : Conn) (buf : Buf 64) (len : Nat) (pdu : DataPdu) : Prop :=
  ∃ d', d.receiveAt hw buf len = .ok (some (.ok pdu), d')

/-- When the cipher leaves a PDU in the buffer, the slice decides. -/
theorem decodes_of_rx {hw : Hw} {d : Conn} {buf : Buf 64} {b0 : UInt8} {payload : List UInt8}
    (hok : (rx hw { d with rxBuf := buf }).1 = true)
    (hfront : FrontPdu (rx hw { d with rxBuf := buf }).2.rxBuf b0 payload)
    (hn : payload.length ≤ 62) (len : Nat) :
    d.Decodes hw buf len (DataPdu.ofBytes b0 payload) ↔ len = 2 + payload.length := by
  rw [← hfront.decode_iff hn len]
  unfold Decodes receiveAt
  dsimp only
  rw [if_pos hok]
  constructor
  · rintro ⟨d', h⟩
    obtain ⟨bytes, hup, h⟩ := bind_eq_ok.mp h
    obtain ⟨pdu, hdec, h⟩ := bind_eq_ok.mp h
    cases h
    rw [hup, ok_bind, hdec]
  · intro h
    obtain ⟨bytes, hup, hdec⟩ := bind_eq_ok.mp h
    rw [hup, ok_bind, hdec]
    exact ⟨_, rfl⟩

/-! ## Sending -/

/-- **What `respond` hands to `tx`** is a well-formed PDU: a parked control PDU, the next fragment or
    an empty PDU, under the link state `respond` was called in. -/
theorem respond_tx {hw : Hw} {c : Conn} {t : TxRec} (h : Act.tx t ∈ (c.respond hw).log) :
    ∃ (c₁ : Conn) (kind : TxKind) (llid : UInt8) (payload : List UInt8),
      payload.length ≤ 62 ∧ FrontPdu c₁.txBuf (c.txHeader llid) payload ∧
      Act.tx t ∈ (c₁.tx hw kind (2 + payload.length)).log ∧
      c₁.encrypted = c.encrypted ∧ c₁.role = c.role ∧ c₁.smp = c.smp ∧
      c₁.packetCounter = c.packetCounter := by
  unfold respond at h
  split at h
  · rename_i ctrl _
    have hlen : (ctrl.bytes.take 18).length = 18 := by rw [List.length_take, ctrl.size]; rfl
    obtain ⟨b, hb, _⟩ := ((c.txBuf.set 0 (c.txHeader llidControl)).set 1 18).write_of_le
      (show 2 + (ctrl.bytes.take 18).length ≤ 64 by omega)
    dsimp only at h
    rw [hb, Logged.lift_ok_bind] at h
    have hfront : FrontPdu b (c.txHeader llidControl) (ctrl.bytes.take 18) := by
      have htake := Buf.take_of_write hb
      rw [Buf.take_two_set _ _ _ (by omega)] at htake
      unfold FrontPdu
      rw [htake, hlen]
      rfl
    exact ⟨{ c with pendingControl := none, txBuf := b }, .pendingControl, _, ctrl.bytes.take 18,
      by omega, hfront, by rw [hlen]; exact h, rfl, rfl, rfl, rfl⟩
  · split at h
    · cases hf : c.txFragment with
      | error p =>
        rw [hf] at h
        cases h
      | ok r =>
        obtain ⟨total, c₁⟩ := r
        have hfits := fragFits_of_ok hf
        obtain ⟨b, hok, htake⟩ := txFragment_ok hfits
        rw [hf] at hok
        cases hok
        rw [hf, Logged.lift_ok_bind] at h
        have hpay : c.fragPayload.length ≤ 62 := by
          rw [hfits.payload_length]
          exact hfits.payload
        exact ⟨{ c.afterFragment b with sn := !(c.afterFragment b).sn }, .fragment, _, c.fragPayload,
          hpay, htake, h, rfl, rfl, rfl, rfl⟩
    · have hfront : FrontPdu ((c.txBuf.set 0 (c.txHeader llidDataComplete)).set 1 0)
          (c.txHeader llidDataComplete) [] := Buf.take_two_set _ _ _ (by omega)
      exact ⟨{ c with txBuf := (c.txBuf.set 0 (c.txHeader llidDataComplete)).set 1 0 }, .empty, _, [],
        Nat.zero_le _, hfront, h, rfl, rfl, rfl, rfl⟩

/-- A PDU that leaves room for the MIC goes out sealed, and whoever receives it under the same key,
    counter and direction finds the PDU in `rx_buf`. -/
theorem tx_sealed {hw : Hw} (haead : Aead hw) {c d : Conn} (hpeers : EncryptedPeers c d)
    (kind : TxKind) {b0 : UInt8} {payload : List UInt8} (hn : payload.length ≤ 58)
    (hfront : FrontPdu c.txBuf b0 payload) :
    ∃ sealed t, sealed.length = payload.length + llMicLen ∧
      (c.tx hw kind (2 + payload.length)).log = [.tx t] ∧
      t.plain = b0 :: UInt8.ofNat payload.length :: payload ∧
      t.air = some (b0 :: UInt8.ofNat sealed.length :: sealed) ∧
      ∀ buf : Buf 64, FrontPdu buf b0 sealed →
        (rx hw { d with rxBuf := buf }).1 = true ∧
          FrontPdu (rx hw { d with rxBuf := buf }).2.rxBuf b0 payload := by
  obtain ⟨cfg, hcfg, hproc⟩ :=
    process_cfg hw (Ccm.setup c.smp.stk c.packetCounter c.txDirection) false c.txBuf
  obtain ⟨hok, sealed, hlen, hseal⟩ := haead.encrypt cfg c.txBuf b0 payload hn hfront
  have hair : (hw.crypt false cfg c.txBuf).1.upto (2 + payload.length + llMicLen) =
      .ok (b0 :: UInt8.ofNat sealed.length :: sealed) := by
    rw [Buf.upto_of_le _ (by simp only [llMicLen]; omega), Nat.add_assoc, ← hlen, hseal]
  refine ⟨sealed, ⟨kind, true, c.txBuf.bytes.take (2 + payload.length),
    some (c.packetCounter, c.txDirection), some (b0 :: UInt8.ofNat sealed.length :: sealed)⟩,
    hlen, ?_, hfront, rfl, ?_⟩
  · unfold tx
    rw [if_pos hpeers.sends, hproc, hok]
    dsimp only
    rw [hair]
    rfl
  · intro buf hbuf
    obtain ⟨cfg', hcfg', hproc'⟩ :=
      process_cfg hw (Ccm.setup d.smp.stk d.packetCounter d.rxDirection) true buf
    obtain ⟨hok', hopen⟩ := haead.decrypt cfg cfg' c.txBuf buf b0 payload sealed hn hfront hlen hseal
      (by rw [hcfg', hpeers.agree_on_nonce, hcfg]) hbuf
    rw [rx_encrypted hw hpeers.receives buf, hproc', hok']
    exact ⟨rfl, hopen⟩

/-- A PDU that does not leave room for the MIC does not go out. -/
theorem tx_without_room (hw : Hw) {c : Conn} (henc : c.encrypted = true) (kind : TxKind) {len : Nat}
    (h : 60 < len) :
    ∃ t, (c.tx hw kind len).log = [.tx t] ∧ t.plain = c.txBuf.bytes.take len ∧ t.air = none := by
  unfold tx
  rw [if_pos henc]
  dsimp only
  split
  · exact ⟨_, rfl, rfl, rfl⟩
  · have hup : ∀ b : Buf 64, b.upto (len + llMicLen) = .error .range := by
      intro b
      unfold Buf.upto slice
      rw [if_neg (by rw [b.size]; simp only [llMicLen]; omega)]
    rw [hup]
    exact ⟨_, rfl, rfl, rfl⟩

/-! ## The whole path -/

/-- **Transparency.**  The PDU of the record is on the air, and when the receiver's buffer has it and
    the radio reports `len` of it, the receiver decodes the PDU that was sent. -/
def Transparent (hw : Hw) (t : TxRec) (d : Conn) (len : List UInt8 → Nat) : Prop :=
  ∃ air b0 l payload, t.air = some air ∧ t.plain = b0 :: l :: payload ∧
    ∀ buf : Buf 64, buf.bytes.take air.length = air →
      d.Decodes hw buf (len air) (DataPdu.ofBytes b0 payload)

/-- The length the radio driver measures. -/
def driverLength (air : List UInt8) : Nat := 2 + ((air.getD 1 0 >>> 1) &&& 0x3F).toNat

/-- The driver's rule on the length byte of a sealed PDU: half, rounded down. -/
theorem half_lengthByte {n : Nat} (h : n ≤ 62) :
    ((UInt8.ofNat n >>> 1) &&& 0x3F).toNat = n / 2 := by
  have hall : ∀ k : Fin 63, ((UInt8.ofNat k.1 >>> 1) &&& 0x3F).toNat = k.1 / 2 := by
    decide +kernel
  exact hall ⟨n, by omega⟩

/-- **What a record of an encrypted link is.**  Without room for the MIC nothing is on the air.
    Otherwise the packet is four bytes longer than the PDU, its length byte says so, and the record
    is transparent exactly for a radio that reports the length of the PLAINTEXT. -/
theorem record_cases {hw : Hw} (haead : Aead hw) {c d : Conn} (hpeers : EncryptedPeers c d)
    {t : TxRec} (ht : Act.tx t ∈ (c.respond hw).log) :
    (60 < t.plain.length ∧ t.air = none) ∨
    ∃ air, t.air = some air ∧ air.length = t.plain.length + llMicLen ∧
      2 ≤ t.plain.length ∧ t.plain.length ≤ 60 ∧ air.getD 1 0 = UInt8.ofNat (air.length - 2) ∧
      ∀ len : List UInt8 → Nat, Transparent hw t d len ↔ len air = t.plain.length := by
  obtain ⟨c₁, kind, llid, payload, h62, hfront, hmem, henc, hrole, hsmp, hctr⟩ := respond_tx ht
  generalize c.txHeader llid = b0 at hfront
  have hpeers₁ : EncryptedPeers c₁ d :=
    ⟨henc.trans hpeers.sends, hpeers.receives, by rw [hrole]; exact hpeers.role,
      by rw [hsmp]; exact hpeers.stk, by rw [hctr]; exact hpeers.counter⟩
  have hcons : ∀ (l : UInt8) (bytes : List UInt8), (b0 :: l :: bytes).length = 2 + bytes.length := by
    intro l bytes
    rw [List.length_cons, List.length_cons]; omega
  rcases Nat.lt_or_ge 58 payload.length with hbig | hsmall
  · left
    obtain ⟨t', hlog, hplain, hair⟩ := tx_without_room hw hpeers₁.sends kind
      (show 60 < 2 + payload.length by omega)
    rw [hlog] at hmem
    cases List.mem_singleton.mp hmem
    refine ⟨?_, hair⟩
    rw [hplain, hfront, hcons]
    omega
  · right
    obtain ⟨sealed, t', hlen, hlog, hplain, hair, hrx⟩ :=
      tx_sealed haead hpeers₁ kind hsmall hfront
    rw [hlog] at hmem
    cases List.mem_singleton.mp hmem
    simp only [llMicLen] at hlen ⊢
    refine ⟨_, hair, ?_, ?_, ?_, ?_, ?_⟩
    · rw [hplain, hcons, hcons]; omega
    · rw [hplain, hcons]; omega
    · rw [hplain, hcons]; omega
    · rw [hcons, Nat.add_sub_cancel_left]; rfl
    intro len
    have hdec : ∀ buf : Buf 64, FrontPdu buf b0 sealed → ∀ n,
        d.Decodes hw buf n (DataPdu.ofBytes b0 payload) ↔ n = t.plain.length := by
      intro buf hbuf n
      obtain ⟨hok, hopen⟩ := hrx buf hbuf
      rw [hplain, hcons]
      exact decodes_of_rx hok hopen h62 n
    constructor
    · rintro ⟨air, b0', l, payload', hair', hplain', hrecv⟩
      rw [hair] at hair'
      cases hair'
      rw [hplain] at hplain'
      cases hplain'
      -- some buffer does receive the packet
      obtain ⟨buf, hbuf⟩ : ∃ buf : Buf 64, FrontPdu buf b0 sealed := by
        refine ⟨⟨b0 :: UInt8.ofNat sealed.length :: (sealed ++ List.replicate (62 - sealed.length) 0),
          ?_⟩, .of_split _ rfl⟩
        rw [hcons, List.length_append, List.length_replicate]
        omega
      exact (hdec buf hbuf _).mp (hrecv buf (by rw [hcons]; exact hbuf))
    · intro hn
      refine ⟨_, b0, _, payload, hair, hplain, ?_⟩
      intro buf hbuf
      rw [hcons] at hbuf
      exact (hdec buf hbuf _).mpr hn

/-- **The encrypted path is never transparent.**  For every PDU `respond` hands to `tx` on an
    encrypted link, with a correct cipher and a peer that agrees on key and counter: measured with
    its length on the air it does not decode to what was sent.  (With the length the driver really
    reports it does for payloads of three and of four bytes, and it is on the air at all iff the
    payload leaves room for the MIC.) -/
theorem encrypted_path_not_transparent (hw : Hw) (haead : Aead hw) (c d : Conn)
    (hpeers : EncryptedPeers c d) (t : TxRec) (ht : Act.tx t ∈ (c.respond hw).log) :
    ¬ Transparent hw t d List.length ∧
      (Transparent hw t d driverLength ↔ t.plain.length = 2 + 3 ∨ t.plain.length = 2 + 4) ∧
      (t.air.isSome = true ↔ t.plain.length ≤ 2 + 58) := by
  rcases record_cases haead hpeers ht with
    ⟨hbig, hair⟩ | ⟨air, hair, hlen, htwo, hsmall, hbyte, hiff⟩
  · have hnot : ∀ len, ¬ Transparent hw t d len := by
      rintro len ⟨air, _, _, _, h, _⟩
      rw [hair] at h
      cases h
    rw [hair]
    refine ⟨hnot _, iff_of_false (hnot _) (by omega), iff_of_false ?_ (by omega)⟩
    exact Bool.false_ne_true
  · simp only [llMicLen] at hlen
    refine ⟨?_, ?_, ?_⟩
    · rw [hiff]; omega
    · rw [hiff]
      unfold driverLength
      rw [hbyte, half_lengthByte (by omega)]
      omega
    · rw [hair]
      exact iff_of_true rfl (by omega)

/-- An end of an encrypted link, with a notification of one byte in its slot. -/
def encryptedSample (role : ConnRole) : Conn :=
  queueNotify { Conn.sample role with encrypted := true, packetCounter := 1 } [0xAA]

theorem encryptedSample_peers : EncryptedPeers (encryptedSample .slave) (encryptedSample .master) :=
  ⟨rfl, rfl, by decide, rfl, rfl⟩

/-- The record of the notification. -/
def notifyRecord : TxRec :=
  ⟨.fragment, true, [7, 8, 4, 0, 4, 0, 0x1B, 5, 0, 0xAA], some (1, 0),
    some [7, 12, 4, 0, 4, 0, 0x1B, 5, 0, 0xAA, 1, 0, 0, 0]⟩

/-- The theorem at work on a notification a slave sends. -/
theorem notification_not_transparent :
    Act.tx notifyRecord ∈ ((encryptedSample .slave).respond Hw.sealing).log ∧
      ¬ Transparent Hw.sealing notifyRecord (encryptedSample .master) List.length := by
  have hmem : Act.tx notifyRecord ∈ ((encryptedSample .slave).respond Hw.sealing).log := by
    apply mem_of_sent
    decide +kernel
  exact ⟨hmem, (encrypted_path_not_transparent Hw.sealing Hw.sealing_aead _ _
    encryptedSample_peers notifyRecord hmem).1⟩

/-- A slave sends a notification; the master has the whole packet, its MIC is right and `rx` returns
    true, and the decoder rejects the slice. -/
theorem notification_rejected_after_decryption :
    ((encryptedSample .slave).respond Hw.sealing).log.filterMap Act.sent = [notifyRecord] ∧
      (rx Hw.sealing { encryptedSample .master with
        rxBuf := (Buf.zero 64).splice 0 [7, 12, 4, 0, 4, 0, 0x1B, 5, 0, 0xAA, 1, 0, 0, 0]
          (by decide) }).1 = true ∧
      ((encryptedSample .master).receiveAt Hw.sealing
        ((Buf.zero 64).splice 0 [7, 12, 4, 0, 4, 0, 0x1B, 5, 0, 0xAA, 1, 0, 0, 0] (by decide))
        14).map Prod.fst = .ok (some (.error .invalidLength)) := by
  refine ⟨by decide +kernel, by decide +kernel, rfl⟩

end Conn

end NrfBle
