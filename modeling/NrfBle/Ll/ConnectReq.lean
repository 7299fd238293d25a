/-
  The parameters of a CONNECT_REQ (`src/ll/pdu.rs`, `ConnectReqData`): two codecs nested in each other.

  The 22 bytes hold ten fields, six of them little-endian numbers of two to four bytes and the last
  byte two numbers of five and three bits.  `decode` reads every field at an offset of its own, and so
  does `encode` write it; `encodeAt` is the latter with its offsets, statement by statement, and
  `encodeAt_eq` says that the fields fill the 22 bytes one behind the other.  A field comes back in both
  directions because its bytes and its number determine each other (`leNat_leBytes`, `leBytes_leNat`).
-/
import Mathlib.Tactic
import NrfBle.Ll.Advertising

namespace NrfBle

open Checked

namespace ConnectReqData

/-! ## The encoder with its offsets -/

/-- `ConnectReqData::encode`, field by field. -/
def encodeAt (d : ConnectReqData) (out : List UInt8) :
    Except Panic (Except Error Nat × List UInt8) := do
  if out.length < connectLlDataLen then return (.error .bufferTooSmall, out)
  let out ← copyInto out 0 4 (leBytes 4 d.accessAddr.toNat)
  let out ← copyInto out 4 5 [d.crcInit.toUInt8]
  let out ← copyInto out 5 6 [(d.crcInit >>> 8).toUInt8]
  let out ← copyInto out 6 7 [(d.crcInit >>> 16).toUInt8]
  let out ← copyInto out 7 8 [d.winSize]
  let out ← copyInto out 8 10 (le16 d.winOffset)
  let out ← copyInto out 10 12 (le16 d.interval)
  let out ← copyInto out 12 14 (le16 d.latency)
  let out ← copyInto out 14 16 (le16 d.timeout)
  let out ← copyInto out 16 21 d.channelMap.bytes
  let out ← copyInto out 21 22 [(d.hop &&& 0x1F) ||| (d.sca &&& 0x07) <<< (5 : UInt8)]
  return (.ok connectLlDataLen, out)

theorem leBytes_crcInit (x : UInt32) :
    leBytes 3 x.toNat = [x.toUInt8] ++ [(x >>> 8).toUInt8] ++ [(x >>> 16).toUInt8] := by
  have hbyte : ∀ n : Nat, UInt8.ofNat (n % 256) = UInt8.ofNat n := by
    intro n
    apply UInt8.toNat.inj
    simp
  have hshift : ∀ k : UInt32, k.toNat < 32 →
      (x >>> k).toUInt8 = UInt8.ofNat (x.toNat / 2 ^ k.toNat) := by
    intro k hk
    apply UInt8.toNat.inj
    rw [UInt32.toNat_toUInt8, UInt32.toNat_shiftRight, Nat.mod_eq_of_lt hk, Nat.shiftRight_eq_div_pow,
      UInt8.toNat_ofNat']
  rw [hshift 8 (by decide), hshift 16 (by decide)]
  simp only [leBytes, hbyte, Nat.div_div_eq_div_mul]
  rfl

theorem length_bytes (d : ConnectReqData) : d.bytes.length = 22 := by
  simp [bytes, d.channelMap.size]

/-- **The fields fill the 22 bytes** one behind the other. -/
theorem encodeAt_eq (d : ConnectReqData) (out : List UInt8) : d.encodeAt out = d.encode out := by
  have hmap := d.channelMap.size
  unfold encodeAt encode
  by_cases hlen : out.length < connectLlDataLen
  · rw [if_pos hlen, if_pos hlen]
  · have h22 : 22 ≤ out.length := Nat.not_lt.mp hlen
    rw [if_neg hlen, if_neg hlen]
    rw [copyInto_front (leBytes_length 4 _).symm (by omega), ok_bind]
    simp (disch := simp [hmap] <;> omega) only [copyInto_append, ok_bind]
    rw [copyInto_front d.length_bytes.symm h22, ok_bind]
    unfold bytes
    rw [leBytes_crcInit]
    simp [hmap]

/-! ## The fields and their bytes -/

/-- The two halves of a number. -/
theorem toNat_halves (lo : UInt16) {hi : UInt32} (h : hi.toNat < 65536) :
    (lo.toUInt32 ||| hi <<< 16).toNat = lo.toNat + 65536 * hi.toNat := by
  have hlo : lo.toNat < 2 ^ 16 := lo.toNat_lt
  have hshift : (hi <<< 16).toNat = hi.toNat <<< 16 := by
    rw [UInt32.toNat_shiftLeft, show (16 : UInt32).toNat % 32 = 16 from rfl, Nat.shiftLeft_eq]
    omega
  rw [UInt32.toNat_or, hshift, UInt16.toNat_toUInt32, Nat.or_comm,
    ← Nat.shiftLeft_add_eq_or_of_lt hlo, Nat.shiftLeft_eq]
  omega

/-- **What the decoder reads**, of the bytes in their order. -/
theorem decode_bytes_eq (a0 a1 a2 a3 c0 c1 c2 w o0 o1 i0 i1 l0 l1 t0 t1 m0 m1 m2 m3 m4 last : UInt8) :
    decode [a0, a1, a2, a3, c0, c1, c2, w, o0, o1, i0, i1, l0, l1, t0, t1, m0, m1, m2, m3, m4, last] =
      .ok (.ok
        { accessAddr := UInt32.ofNat (leNat [a0, a1, a2, a3])
          crcInit := UInt32.ofNat (leNat [c0, c1, c2])
          winSize := w
          winOffset := ofLe16 o0 o1
          interval := ofLe16 i0 i1
          latency := ofLe16 l0 l1
          timeout := ofLe16 t0 t1
          channelMap := ⟨[m0, m1, m2, m3, m4], rfl⟩
          hop := last &&& 0x1F
          sca := (last >>> 5) &&& 0x07 }) := by
  have haddr : (ofLe16 a0 a1).toUInt32 ||| (ofLe16 a2 a3).toUInt32 <<< 16 =
      UInt32.ofNat (leNat [a0, a1, a2, a3]) := by
    apply UInt32.toNat.inj
    have hlt : leNat [a0, a1, a2, a3] < 2 ^ 32 :=
      Nat.lt_of_lt_of_eq (leNat_lt [a0, a1, a2, a3]) (by norm_num)
    have hhi : (ofLe16 a2 a3).toUInt32.toNat < 65536 := (ofLe16 a2 a3).toNat_lt
    rw [toNat_halves _ hhi, UInt32.toNat_ofNat', Nat.mod_eq_of_lt hlt,
      UInt16.toNat_toUInt32, toNat_ofLe16, toNat_ofLe16]
    simp only [leNat]
    omega
  have hcrc : (ofLe16 c0 c1).toUInt32 ||| c2.toUInt32 <<< 16 = UInt32.ofNat (leNat [c0, c1, c2]) := by
    apply UInt32.toNat.inj
    have hc2 : c2.toUInt32.toNat < 65536 := Nat.lt_trans c2.toNat_lt (by decide)
    have hlt : leNat [c0, c1, c2] < 2 ^ 32 := Nat.lt_trans (leNat_lt [c0, c1, c2]) (by norm_num)
    rw [toNat_halves _ hc2, UInt32.toNat_ofNat', Nat.mod_eq_of_lt hlt, toNat_ofLe16]
    simp only [leNat]
    exact Nat.add_assoc _ _ _ |>.trans (by rw [UInt8.toNat_toUInt32]; omega)
  rw [← haddr, ← hcrc]
  rfl

/-- The fields fit the bits they are given. -/
structure InRange (d : ConnectReqData) : Prop where
  crcInit : d.crcInit.toNat < 2 ^ 24
  hop : d.hop.toNat < 32
  sca : d.sca.toNat < 8

/-- The last byte, both ways. -/
theorem pack_unpack (last : UInt8) :
    ((last &&& 0x1F) &&& 0x1F) ||| (((last >>> (5 : UInt8)) &&& 0x07) &&& 0x07) <<< (5 : UInt8) = last := by
  obtain ⟨last⟩ := last
  revert last
  decide +kernel

theorem unpack_pack {hop sca : UInt8} (hhop : hop.toNat < 32) (hsca : sca.toNat < 8) :
    let last := (hop &&& 0x1F) ||| (sca &&& 0x07) <<< (5 : UInt8)
    last &&& 0x1F = hop ∧ (last >>> 5) &&& 0x07 = sca := by
  have hall : ∀ (x : Fin 32) (y : Fin 8),
      let last := (UInt8.ofNat x.1 &&& 0x1F) ||| (UInt8.ofNat y.1 &&& 0x07) <<< (5 : UInt8)
      last &&& 0x1F = UInt8.ofNat x.1 ∧ (last >>> 5) &&& 0x07 = UInt8.ofNat y.1 := by
    decide +kernel
  have h := hall ⟨hop.toNat, hhop⟩ ⟨sca.toNat, hsca⟩
  rw [UInt8.ofNat_toNat, UInt8.ofNat_toNat] at h
  exact h

/-- A list of known length, element by element. -/
theorem exists_ofFn {α : Type} {n : Nat} {xs : List α} (h : xs.length = n) :
    ∃ f : Fin n → α, xs = List.ofFn f := by
  subst h
  exact ⟨xs.get, (List.ofFn_get xs).symm⟩

/-- **A parameter set comes back** from its bytes. -/
theorem decode_bytes {d : ConnectReqData} (h : d.InRange) : decode d.bytes = .ok (.ok d) := by
  obtain ⟨hcrc, hhop, hsca⟩ := h
  obtain ⟨addr, crc, w, off, iv, lat, tmo, ⟨map, hmap⟩, hop, sca⟩ := d
  obtain ⟨m, rfl⟩ := exists_ofFn hmap
  have hnumber : ∀ (k : Nat) (x : UInt32), x.toNat < 256 ^ k →
      UInt32.ofNat (leNat (leBytes k x.toNat)) = x := by
    intro k x hx
    rw [leNat_leBytes, Nat.mod_eq_of_lt hx, UInt32.ofNat_toNat]
  have haddr := hnumber 4 addr (Nat.lt_of_lt_of_eq addr.toNat_lt (by norm_num))
  have hcrc' := hnumber 3 crc (Nat.lt_of_lt_of_eq hcrc (by norm_num))
  obtain ⟨hhop', hsca'⟩ := unpack_pack hhop hsca
  refine (decode_bytes_eq ..).trans ?_
  simp only [leBytes] at haddr hcrc'
  simp only [haddr, hcrc', ofLe16_le16, hhop', hsca']
  rfl

/-- **Any 22 bytes** decode, to a set with fields in range whose bytes they are. -/
theorem decode_of_22 {llData : List UInt8} (h : llData.length = 22) :
    ∃ d, decode llData = .ok (.ok d) ∧ d.InRange ∧ d.bytes = llData := by
  obtain ⟨b, rfl⟩ := exists_ofFn h
  have hread : ∀ bs : List UInt8, bs.length ≤ 4 → (UInt32.ofNat (leNat bs)).toNat = leNat bs := by
    intro bs hbs
    have hlt : leNat bs < 2 ^ 32 := Nat.lt_of_lt_of_le (leNat_lt bs)
      ((Nat.pow_le_pow_right (by decide) hbs).trans_eq (by norm_num))
    rw [UInt32.toNat_ofNat', Nat.mod_eq_of_lt hlt]
  have haddr : ∀ x y z w, leBytes 4 (UInt32.ofNat (leNat [x, y, z, w])).toNat = [x, y, z, w] := by
    intro x y z w
    rw [hread _ (by simp)]
    exact leBytes_leNat [x, y, z, w]
  have hcrc : ∀ x y z, leBytes 3 (UInt32.ofNat (leNat [x, y, z])).toNat = [x, y, z] := by
    intro x y z
    rw [hread _ (by simp)]
    exact leBytes_leNat [x, y, z]
  refine ⟨_, decode_bytes_eq .., ⟨?_, ?_, ?_⟩, ?_⟩
  · exact (hread _ (by simp)).trans_lt (Nat.lt_of_lt_of_eq (leNat_lt _) (by norm_num))
  · exact Nat.and_lt_two_pow _ (show (0x1F : UInt8).toNat < 2 ^ 5 by decide)
  · exact Nat.and_lt_two_pow _ (show (0x07 : UInt8).toNat < 2 ^ 3 by decide)
  · unfold bytes
    rw [haddr, hcrc, le16_ofLe16, le16_ofLe16, le16_ofLe16, le16_ofLe16, pack_unpack]
    rfl

/-! ## The two codecs together -/

/-- Into a buffer with room the encoder writes the 22 bytes, and nothing behind them. -/
theorem encodeAt_of_le (d : ConnectReqData) {out : List UInt8} (h : 22 ≤ out.length) :
    d.encodeAt out = .ok (.ok 22, d.bytes ++ out.drop 22) := by
  rw [encodeAt_eq, encode, if_neg (Nat.not_lt.mpr h)]
  show (copyInto out 0 22 d.bytes >>= fun out => pure (Except.ok 22, out)) = _
  rw [copyInto_front d.length_bytes.symm h, ok_bind, d.length_bytes]
  rfl

theorem take_bytes (d : ConnectReqData) (rest : List UInt8) : (d.bytes ++ rest).take 22 = d.bytes := by
  rw [← d.length_bytes, List.take_left]

/-- **CONNECT_REQ parameters are a bijection.**  A set with fields in range comes back from the 22
    bytes `encode` writes of it; any 22 bytes are written again by `encode` of what they decode to;
    and a set in a CONNECT_REQ comes back from what `encode_typed` writes, with both addresses. -/
theorem connectReqData_bijective :
    (∀ (d : ConnectReqData) (out : List UInt8), d.InRange → 22 ≤ out.length →
      ∃ out', d.encodeAt out = .ok (.ok 22, out') ∧ decode (out'.take 22) = .ok (.ok d)) ∧
    (∀ llData out : List UInt8, llData.length = 22 → 22 ≤ out.length →
      ∃ d out', decode llData = .ok (.ok d) ∧ d.InRange ∧ d.encodeAt out = .ok (.ok 22, out') ∧
        out'.take 22 = llData) ∧
    ∀ (d : ConnectReqData) (initAddr advAddr : Buf 6) (txAdd rxAdd : Bool) (llBuf : Buf 22)
      (out : List UInt8), d.InRange → 36 ≤ out.length →
      ∃ llData out' back, d.encodeAt llBuf.bytes = .ok (.ok 22, llData) ∧
        (AdvPdu.connectReq initAddr advAddr llData).encodeTyped out txAdd rxAdd =
          .ok (.ok 36, out') ∧
        AdvPdu.decode (out'.take 36) = .ok (.ok (.connectReq initAddr advAddr back)) ∧
        decode back = .ok (.ok d) := by
  refine ⟨?_, ?_, ?_⟩
  · intro d out hd hlen
    refine ⟨_, d.encodeAt_of_le hlen, ?_⟩
    rw [d.take_bytes, decode_bytes hd]
  · intro llData out hll hlen
    obtain ⟨d, hdec, hd, hbytes⟩ := decode_of_22 hll
    exact ⟨d, _, hdec, hd, d.encodeAt_of_le hlen, (d.take_bytes _).trans hbytes⟩
  · intro d initAddr advAddr txAdd rxAdd llBuf out hd hlen
    have hll : d.encodeAt llBuf.bytes = .ok (.ok 22, d.bytes) := by
      rw [d.encodeAt_of_le (Nat.le_of_eq llBuf.size.symm),
        List.drop_eq_nil_of_le (Nat.le_of_eq llBuf.size), List.append_nil]
    have hlegacy : (AdvPdu.connectReq initAddr advAddr d.bytes).Legacy := d.length_bytes
    have hpayload : (AdvPdu.connectReq initAddr advAddr d.bytes).payload.length = 34 := by
      simp [AdvPdu.payload, initAddr.size, advAddr.size, d.length_bytes]
    obtain ⟨out', henc⟩ : ∃ out', (AdvPdu.connectReq initAddr advAddr d.bytes).encodeTyped out txAdd
        rxAdd = .ok (.ok 36, out') := by
      rw [AdvPdu.encodeTyped_eq hlegacy.sized]
      exact ⟨_, congrArg _ (AdvPdu.written_eq_ok.mpr ⟨by omega, by omega, by omega, rfl⟩)⟩
    have hdec := (AdvPdu.legacy_roundtrip _ hlegacy out txAdd rxAdd).2 _ _ henc
    exact ⟨_, out', _, hll, henc, hdec, decode_bytes hd⟩

theorem sampleMap_length : ([0xFF, 0xFF, 0xFF, 0xFF, 0x1F] : List UInt8).length = 5 := rfl

/-- The parameters of the repository's round-trip test. -/
def sample : ConnectReqData where
  accessAddr := 0x1234ABCD
  crcInit := 0x654321
  winSize := 2
  winOffset := 1
  interval := 24
  latency := 4
  timeout := 2000
  channelMap := ⟨[0xFF, 0xFF, 0xFF, 0xFF, 0x1F], sampleMap_length⟩
  hop := 13
  sca := 2

/-- They come back from 22 bytes and from a CONNECT_REQ, and 22 other bytes come back too. -/
theorem connectReqData_bijective_sample :
    (∃ out', sample.encodeAt (List.replicate 22 0) = .ok (.ok 22, out') ∧
      decode (out'.take 22) = .ok (.ok sample)) ∧
    (∃ d out', decode (List.replicate 22 0xA5) = .ok (.ok d) ∧ d.InRange ∧
      d.encodeAt (List.replicate 22 0) = .ok (.ok 22, out') ∧
      out'.take 22 = List.replicate 22 0xA5) ∧
    ∃ llData out' back, sample.encodeAt (Buf.zero 22).bytes = .ok (.ok 22, llData) ∧
      (AdvPdu.connectReq (Buf.zero 6) (Buf.zero 6) llData).encodeTyped (List.replicate 64 0) true
        false = .ok (.ok 36, out') ∧
      AdvPdu.decode (out'.take 36) = .ok (.ok (.connectReq (Buf.zero 6) (Buf.zero 6) back)) ∧
      decode back = .ok (.ok sample) :=
  ⟨connectReqData_bijective.1 _ _ ⟨by decide, by decide, by decide⟩ (by decide),
    connectReqData_bijective.2.1 _ _ (by decide) (by decide),
    connectReqData_bijective.2.2 _ _ _ _ _ _ _ ⟨by decide, by decide, by decide⟩ (by decide)⟩

end ConnectReqData

end NrfBle
