import TelemetryForge.Format.Container

/-!
# Damage to the header

The header's checksum covers its first eight bytes and is stored, low byte first, right after them.
Fed with all twelve bytes the register of the checksum therefore ends in one fixed state
(`feeds_header`), and a burst no longer than the register never ends there.

Principal result: `header_burst_rejected` — a change of the header whose altered bits lie within 32
consecutive positions is always rejected.
-/

set_option autoImplicit false

namespace Dtl

open PrefixCode ShiftRegister

/-- Bit `8 * byte + bit` of a byte string, bit 0 the least significant. -/
def bitAt (data : Bytes) (i : Nat) : Bool := (data.getD (i / 8) 0).toBitVec.getLsbD (i % 8)

theorem bytesBits_getD : ∀ (data : Bytes) (i : Nat), (bytesBits data).getD i false = bitAt data i
  | [], i => by simp [bytesBits, bitAt]
  | b :: data, i => by
    have hcons : bytesBits (b :: data) = byteBits b ++ bytesBits data := List.flatMap_cons
    rw [hcons]
    by_cases hi : i < 8
    · have hlen : i < (byteBits b).length := by simpa using hi
      rw [List.getD_append _ _ _ _ hlen, List.getD_eq_getElem _ _ hlen]
      have hdiv : i / 8 = 0 := by omega
      have hmod : i % 8 = i := by omega
      simp [byteBits, bitAt, hdiv, hmod]
    · rw [List.getD_append_right _ _ _ _ (by simp; omega), byteBits_length, bytesBits_getD data]
      have hdiv : i / 8 = (i - 8) / 8 + 1 := by omega
      have hmod : i % 8 = (i - 8) % 8 := by omega
      simp [bitAt, hdiv, hmod]

theorem octet_getLsbD (v : UInt32) {j : Nat} (hj : j < 8) :
    (v &&& 0xff).toUInt8.toBitVec.getLsbD j = v.toBitVec.getLsbD j := by
  rw [UInt32.toBitVec_toUInt8, BitVec.getLsbD_setWidth, UInt32.toBitVec_and]
  show (decide (j < 8) && (v.toBitVec &&& 0xFF#32).getLsbD j) = _
  rw [low_octet]
  simp [hj]

/-- The stored checksum enters the register in the order of its bits. -/
theorem streamWord_write (v : UInt32) :
    (streamWord (bytesBits (endianWriteU32le v)) : BitVec 32) = v.toBitVec := by
  apply BitVec.eq_of_getLsbD_eq
  intro i hi
  rw [streamWord_getLsbD _ i hi, bytesBits_getD, bitAt]
  have hj : i % 8 < 8 := Nat.mod_lt _ (by decide)
  have hsplit : 8 * (i / 8) + i % 8 = i := Nat.div_add_mod i 8
  have hk : i / 8 = 0 ∨ i / 8 = 1 ∨ i / 8 = 2 ∨ i / 8 = 3 := by omega
  rcases hk with hk | hk | hk | hk <;> rw [hk] at hsplit ⊢
  · show (v &&& 0xff).toUInt8.toBitVec.getLsbD (i % 8) = _
    rw [octet_getLsbD v hj, show i % 8 = i by omega]
  · show ((v >>> 8) &&& 0xff).toUInt8.toBitVec.getLsbD (i % 8) = _
    rw [octet_getLsbD _ hj]
    show (v.toBitVec >>> 8).getLsbD (i % 8) = _
    rw [BitVec.getLsbD_ushiftRight, show 8 + i % 8 = i by omega]
  · show ((v >>> 16) &&& 0xff).toUInt8.toBitVec.getLsbD (i % 8) = _
    rw [octet_getLsbD _ hj]
    show (v.toBitVec >>> 16).getLsbD (i % 8) = _
    rw [BitVec.getLsbD_ushiftRight, show 16 + i % 8 = i by omega]
  · show ((v >>> 24) &&& 0xff).toUInt8.toBitVec.getLsbD (i % 8) = _
    rw [octet_getLsbD _ hj]
    show (v.toBitVec >>> 24).getLsbD (i % 8) = _
    rw [BitVec.getLsbD_ushiftRight, show 24 + i % 8 = i by omega]

/-- An accepted input starts with the eight bytes of the span and their checksum. -/
theorem containerParseSz_header {szMax : Nat} {data : Bytes} {c : Container}
    (h : containerParseSz szMax data = .ok c) :
    ∃ span rest, span.length = HEADER_CRC_SPAN ∧
      data = span ++ (endianWriteU32le (crc32 span) ++ rest) := by
  simp only [containerParseSz, Except.bind_eq_ok, failIf_eq_ok] at h
  obtain ⟨⟨magic, b₁⟩, h1, _, _, ⟨version, b₂⟩, h2, _, _, ⟨flags, b₃⟩, h3, _, _, ⟨count, b₄⟩, h4,
    ⟨stored, b₅⟩, h5, _, hcrc, _⟩ := h
  dsimp only at *
  have hdata : data = (endianWriteU32le magic ++ ([version] ++ ([flags] ++ endianWriteU16le count)))
      ++ (endianWriteU32le stored ++ b₅) := by
    rw [bufReadU32_exact _ _ _ h1, bufReadU8_exact _ _ _ h2, bufReadU8_exact _ _ _ h3,
      bufReadU16_exact _ _ _ h4, bufReadU32_exact _ _ _ h5]
    simp
  refine ⟨endianWriteU32le magic ++ ([version] ++ ([flags] ++ endianWriteU16le count)), b₅, rfl, ?_⟩
  rw [not_not, hdata] at hcrc
  have hstored : crc32 (endianWriteU32le magic ++ ([version] ++ ([flags] ++ endianWriteU16le count)))
      = stored := hcrc
  rw [hstored, ← hdata]

/-- The register after the twelve bytes of a sound header is always the same. -/
theorem feeds_header {span : Bytes} :
    feeds crcFeedback (BitVec.allOnes 32) (bytesBits (span ++ endianWriteU32le (crc32 span))) =
      shifts crcFeedback 32 (BitVec.allOnes 32) := by
  have hbits : bytesBits (span ++ endianWriteU32le (crc32 span)) =
      bytesBits span ++ bytesBits (endianWriteU32le (crc32 span)) := List.flatMap_append
  rw [hbits, feeds_append, feeds_eq_shifts crcFeedback _ _ (by rw [bytesBits_length]; rfl),
    streamWord_write, bytesBits_length, crc32_toBitVec, ← BitVec.xor_assoc, BitVec.xor_self,
    BitVec.zero_xor]
  rfl

theorem byteBits_injective {a b : UInt8} (h : byteBits a = byteBits b) : a = b := by
  rw [← UInt8.toBitVec_inj]
  apply BitVec.eq_of_getLsbD_eq
  intro i hi
  have hbit := congrArg (fun l => l.getD i false) h
  simpa [byteBits, hi] using hbit

theorem bytesBits_injective : ∀ {a b : Bytes}, bytesBits a = bytesBits b → a = b
  | [], [], _ => rfl
  | x :: a, y :: b, h => by
    have hcons : byteBits x ++ bytesBits a = byteBits y ++ bytesBits b := h
    obtain ⟨hx, ha⟩ := List.append_inj hcons (by simp)
    rw [byteBits_injective hx, bytesBits_injective ha]
  | [], y :: b, h => by simpa [bytesBits_length] using congrArg List.length h
  | x :: a, [], h => by simpa [bytesBits_length] using congrArg List.length h

theorem bitAt_append {a : Bytes} (b : Bytes) {i : Nat} (h : i < 8 * a.length) :
    bitAt (a ++ b) i = bitAt a i := by
  rw [bitAt, bitAt, List.getD_append _ _ _ _ (by omega)]

/-- **Damage to the header within 32 consecutive bits is always rejected.** -/
theorem header_burst_rejected {szMax : Nat} {data data' : Bytes} {c : Container}
    (h : containerParseSz szMax data = .ok c)
    (hrest : data'.drop 12 = data.drop 12) (hne : data' ≠ data) (s : Nat)
    (hwin : ∀ i, bitAt data' i ≠ bitAt data i → s ≤ i ∧ i < s + 32) :
    ∃ e, containerParseSz szMax data' = .error e := by
  cases hparse : containerParseSz szMax data' with
  | error e => exact ⟨e, rfl⟩
  | ok c' =>
    exfalso
    obtain ⟨span, rest, hspan, hdata⟩ := containerParseSz_header h
    obtain ⟨span', rest', hspan', hdata'⟩ := containerParseSz_header hparse
    rw [← List.append_assoc] at hdata hdata'
    have hhead : (span ++ endianWriteU32le (crc32 span)).length = 12 := by
      simp [hspan, HEADER_CRC_SPAN]
    have hhead' : (span' ++ endianWriteU32le (crc32 span')).length = 12 := by
      simp [hspan', HEADER_CRC_SPAN]
    have hsame : rest' = rest := by
      rw [hdata, hdata', List.drop_left' hhead', List.drop_left' hhead] at hrest
      exact hrest
    have hdiff : span' ++ endianWriteU32le (crc32 span') ≠ span ++ endianWriteU32le (crc32 span) := by
      intro heq
      exact hne (by rw [hdata, hdata', heq, hsame])
    -- both headers leave the register in the state of every sound header
    apply feeds_ne_of_burst crcFeedback (by decide) (BitVec.allOnes 32) _
      (fun heq => hdiff (bytesBits_injective heq)) s _ (feeds_header.trans feeds_header.symm)
    · rw [bytesBits_length, bytesBits_length, hhead, hhead']
    · intro i hi
      rw [bytesBits_getD, bytesBits_getD] at hi
      apply hwin i
      by_cases hin : i < 96
      · have hleft := bitAt_append rest (a := span ++ endianWriteU32le (crc32 span)) (i := i)
          (by omega)
        have hleft' := bitAt_append rest' (a := span' ++ endianWriteU32le (crc32 span')) (i := i)
          (by omega)
        rw [hdata, hdata', hleft, hleft']
        exact hi
      · exfalso
        apply hi
        rw [bitAt, bitAt, List.getD_eq_default _ _ (by omega), List.getD_eq_default _ _ (by omega)]

theorem header_burst_rejected_empty : ∃ e, containerParseSz SIZE_MAX
    ([0x44, 0x54, 0x4C, 0x01, 0x01, 0x01] ++ (encodeHeader 0 0).drop 6) = .error e := by
  obtain ⟨c, hc⟩ := Except.exists_ok (x := containerParseSz SIZE_MAX (encodeHeader 0 0))
    (by decide +kernel)
  refine header_burst_rejected hc (by decide +kernel) (by decide +kernel) 40 ?_
  intro i hi
  by_contra hout
  apply hi
  by_cases hlt : i < 96
  · have hall : ∀ i < 96, ¬ (40 ≤ i ∧ i < 72) → bitAt ([0x44, 0x54, 0x4C, 0x01, 0x01, 0x01] ++
        (encodeHeader 0 0).drop 6) i = bitAt (encodeHeader 0 0) i := by decide +kernel
    exact hall i hlt hout
  · have hlen : ∀ l : Bytes, l.length = 12 → bitAt l i = false := by
      intro l hl
      rw [bitAt, List.getD_eq_default _ _ (by omega)]
      simp
    rw [hlen _ (by decide +kernel), hlen _ rfl]

end Dtl
