import TelemetryForge.Writer.Writer
import TelemetryForge.Codec.DictTable
import TelemetryForge.Codec.LebGroups
import TelemetryForge.Codec.Base32Text

/-!
# Closing a section

`dtl_writer_end_section` guesses a capacity of one and a half times the raw length and doubles it
while the encoder answers `DTL_ERR_RANGE`.  Every registered encoder needs less than the second
capacity, so the only failures are those the input itself forces.

Principal results: `codecTable_encode` — size and verdict of every registered encoder;
`writerCompress_eq`, `writerCompress_calls` — what the loop returns and how often it tries;
`writerEndSection_verdict` — why closing a section fails.
-/

set_option autoImplicit false

namespace Dtl

open Sink

/-! ## What the encoders need -/

/-- The first capacity that `dtl_writer_end_section` tries for `n` raw bytes. -/
def closeCap (n : Nat) : Nat := n + n / 2 + 64

/-- The error that a codec cannot avoid on a raw stream. -/
def closeVerdict (codecId : UInt8) (raw : Bytes) : Option Err :=
  if (codecId = CODEC_VARINT ∨ codecId = CODEC_DELTA) ∧ raw.length % 4 ≠ 0 then some .truncated
  else if codecId = CODEC_DICT ∧ DICT_MAX_ENTRIES < (dictBlocks raw).toFinset.card then some .range
  else none

/-- An encoder of a codec on a raw stream: the plan it replays ends as the verdict says and fits the
second capacity. -/
structure EncodesWithin (c : Codec) (raw : Bytes) (plan : CodecPlan) : Prop where
  replays : ∀ env cap, env.scratchOk = true → c.encode env raw cap = plan.run .range cap
  stop : plan.stop = closeVerdict c.id raw
  size : plan.output.length ≤ closeCap raw.length * 2 + 64

theorem closeVerdict_plain {codecId : UInt8} (raw : Bytes) (h1 : codecId ≠ CODEC_VARINT)
    (h2 : codecId ≠ CODEC_DELTA) (h3 : codecId ≠ CODEC_DICT) : closeVerdict codecId raw = none := by
  rw [closeVerdict, if_neg (by simp [h1, h2]), if_neg (by simp [h3])]

theorem closeVerdict_leb {codecId : UInt8} (raw : Bytes)
    (h : codecId = CODEC_VARINT ∨ codecId = CODEC_DELTA) (hd : codecId ≠ CODEC_DICT) :
    closeVerdict codecId raw = if raw.length % 4 = 0 then none else some .truncated := by
  by_cases h4 : raw.length % 4 = 0
  · rw [closeVerdict, if_neg (by simp [h4]), if_neg (by simp [hd]), if_pos h4]
  · rw [closeVerdict, if_pos ⟨h, h4⟩, if_neg h4]

theorem dictEncodePlan_verdict (raw : Bytes) :
    (dictEncodePlan true raw).stop = closeVerdict CODEC_DICT raw ∧
      (dictEncodePlan true raw).output.length ≤ 2 + 7 * ((raw.length + 3) / 4) := by
  have hleb : ¬ ((CODEC_DICT = CODEC_VARINT ∨ CODEC_DICT = CODEC_DELTA) ∧ raw.length % 4 ≠ 0) := by
    rintro ⟨h | h, -⟩
    · exact absurd h (by decide)
    · exact absurd h (by decide)
  rw [closeVerdict, if_neg hleb, ← Intern.eraseDups_card]
  rcases Nat.lt_or_ge DICT_MAX_ENTRIES (dictBlocks raw).eraseDups.length with h | h
  · rw [if_pos ⟨rfl, h⟩, dictEncodePlan_overflow h]
    exact ⟨rfl, Nat.zero_le _⟩
  · obtain ⟨hstop, hout⟩ := dictEncodePlan_fits h
    rw [if_neg (fun hlt => absurd hlt.2 (Nat.not_lt.mpr h)), hout]
    exact ⟨hstop, dictWire_length raw⟩

/-- **Every registered encoder fits the second capacity** and fails only as the verdict says. -/
theorem codecTable_encode (raw : Bytes) :
    ∀ c ∈ codecTable, ∃ plan, EncodesWithin c raw plan := by
  have hcap : closeCap raw.length = raw.length + raw.length / 2 + 64 := rfl
  intro c hc
  simp only [codecTable, List.mem_cons, List.not_mem_nil, or_false] at hc
  rcases hc with rfl | rfl | rfl | rfl | rfl | rfl | rfl
  · refine ⟨storePlan raw, fun _ cap _ => storeCopy_eq raw cap, ?_, ?_⟩
    · exact (closeVerdict_plain raw (by decide) (by decide) (by decide)).symm
    · simp only [storePlan, Plan.output_cons, Plan.output_done, List.append_nil]
      omega
  · refine ⟨rleEncodePlan raw, fun _ cap _ => rleEncode_eq raw cap, ?_, ?_⟩
    · rw [rleEncodePlan_stop, closeVerdict_plain raw (by decide) (by decide) (by decide)]
    · have hsize := rleEncodePlan_length_le raw
      omega
  · refine ⟨varintEncodePlan raw, fun _ cap _ => varintEncode_eq raw cap, ?_, ?_⟩
    · rw [varintEncodePlan_stop, closeVerdict_leb raw (Or.inl rfl) (by decide)]
    · have hsize := varintEncodePlan_length raw
      omega
  · refine ⟨lz77EncodePlan raw, fun _ cap _ => lz77Encode_eq raw cap, ?_, ?_⟩
    · rw [lz77EncodePlan_stop, closeVerdict_plain raw (by decide) (by decide) (by decide)]
    · have hsize := lz77EncodePlan_length raw
      omega
  · obtain ⟨hstop, hsize⟩ := dictEncodePlan_verdict raw
    refine ⟨dictEncodePlan true raw, fun env cap hs => ?_, hstop, by omega⟩
    show dictEncode env.scratchOk raw cap = _
    rw [hs, dictEncode_eq]
  · refine ⟨deltaEncodePlan raw, fun _ cap _ => deltaEncode_eq raw cap, ?_, ?_⟩
    · rw [deltaEncodePlan_stop, closeVerdict_leb raw (Or.inr rfl) (by decide)]
    · have hsize := deltaEncodePlan_length raw
      omega
  · refine ⟨base32EncodePlan raw, fun _ cap _ => base32Encode_eq raw cap, ?_, ?_⟩
    · rw [base32EncodePlan_stop, closeVerdict_plain raw (by decide) (by decide) (by decide)]
    · have hsize := base32EncodePlan_size raw
      omega

/-! ## The retry loop -/

/-- The largest capacity the loop can come to. -/
def CLOSE_MAX_CAP : Nat := SECTION_MAX_RAW * 2 * 2 + 64

section Attempt

variable {codec : Codec} {env : Nat → CodecEnv} {raw : Bytes} {arena : Arena} {cap : Nat}
  (hr : arena.Roomy) (h0 : 0 < cap) (hmax : cap ≤ CLOSE_MAX_CAP)

include hr h0 hmax

theorem closeCap_alloc : (arenaAlloc arena cap).1 = true := by
  refine hr.alloc_ok h0 (hmax.trans ?_)
  simp only [CLOSE_MAX_CAP, SECTION_MAX_RAW]
  omega

theorem writerCompress_done {out : Bytes} (h : codec.encode (env cap) raw cap = .ok out) :
    writerCompress codec env raw arena cap = (.ok out, (arenaAlloc arena cap).2) := by
  rw [writerCompress]
  dsimp only
  rw [if_pos (closeCap_alloc hr h0 hmax), h]

theorem writerCompress_gives_up {rc : Err} (h : codec.encode (env cap) raw cap = .error rc)
    (hstop : ¬ (rc = .range ∧ cap ≤ SECTION_MAX_RAW * 2)) :
    writerCompress codec env raw arena cap = (.error rc, (arenaAlloc arena cap).2) := by
  rw [writerCompress]
  dsimp only
  rw [if_pos (closeCap_alloc hr h0 hmax), h]
  exact if_neg hstop

theorem writerCompress_retries (h : codec.encode (env cap) raw cap = .error .range)
    (hcap : cap ≤ SECTION_MAX_RAW * 2) : writerCompress codec env raw arena cap =
      writerCompress codec env raw (arenaAlloc arena cap).2 (cap * 2 + 64) := by
  conv => lhs; rw [writerCompress]
  dsimp only
  rw [if_pos (closeCap_alloc hr h0 hmax), h]
  exact if_pos ⟨rfl, hcap⟩

end Attempt

theorem arenaAlloc_calls_le (a : Arena) (n : Nat) : (arenaAlloc a n).2.calls ≤ a.calls + 1 := by
  unfold arenaAlloc
  split
  · exact Nat.le_succ _
  · split
    · exact Nat.le_succ _
    · exact Nat.le_refl _

/-- **The loop ends**: after `k` doublings past the bound there is no further attempt. -/
theorem writerCompress_calls (codec : Codec) (env : Nat → CodecEnv) (raw : Bytes) :
    ∀ (k : Nat) (arena : Arena) (cap : Nat), SECTION_MAX_RAW * 2 < cap * 2 ^ k →
      (writerCompress codec env raw arena cap).2.calls ≤ arena.calls + (k + 1)
  | k, arena, cap, hk => by
    have hcalls := arenaAlloc_calls_le arena cap
    rw [writerCompress]
    dsimp only
    split
    · split
      · dsimp only
        omega
      · split
        · rename_i hagain
          cases k with
          | zero =>
            rw [Nat.pow_zero, Nat.mul_one] at hk
            exact absurd hagain.2 (Nat.not_le.mpr hk)
          | succ k =>
            have hgrow : SECTION_MAX_RAW * 2 < (cap * 2 + 64) * 2 ^ k := by
              rw [Nat.pow_succ] at hk
              calc SECTION_MAX_RAW * 2 < cap * (2 ^ k * 2) := hk
                _ = cap * 2 * 2 ^ k := by rw [Nat.mul_comm (2 ^ k) 2, Nat.mul_assoc]
                _ ≤ (cap * 2 + 64) * 2 ^ k := Nat.mul_le_mul_right _ (Nat.le_add_right _ _)
            have ih := writerCompress_calls codec env raw k (arenaAlloc arena cap).2 (cap * 2 + 64)
              hgrow
            omega
        · dsimp only
          omega
    · dsimp only
      omega

/-- Once the output fits, the loop returns what the plan ends with. -/
theorem writerCompress_fits {codec : Codec} {env : Nat → CodecEnv} {raw : Bytes} {plan : CodecPlan}
    (hp : EncodesWithin codec raw plan) (hs : ∀ c, (env c).scratchOk = true) {arena : Arena}
    {cap : Nat} (hr : arena.Roomy) (h0 : 0 < cap) (hmax : cap ≤ CLOSE_MAX_CAP)
    (hfit : plan.output.length ≤ cap) :
    (writerCompress codec env raw arena cap).1 = plan.stop.elim (.ok plan.output) .error := by
  induction hn : SECTION_MAX_RAW * 2 + 1 - cap using Nat.strongRecOn generalizing cap arena with
  | ind n ih =>
    have henc : codec.encode (env cap) raw cap = plan.stop.elim (.ok plan.output) .error := by
      rw [hp.replays _ _ (hs cap), Plan.run_fits hfit]
    cases hstop : plan.stop with
    | none =>
      rw [hstop] at henc
      rw [writerCompress_done hr h0 hmax henc]
      rfl
    | some rc =>
      rw [hstop] at henc
      by_cases hagain : rc = .range ∧ cap ≤ SECTION_MAX_RAW * 2
      · obtain ⟨rfl, hcap⟩ := hagain
        have hnext : cap * 2 + 64 ≤ CLOSE_MAX_CAP := by
          rw [CLOSE_MAX_CAP]
          omega
        rw [writerCompress_retries hr h0 hmax henc hcap, ih _ (by omega) (hr.alloc cap) (by omega) hnext
          (by omega) rfl, hstop]
      · rw [writerCompress_gives_up hr h0 hmax henc hagain]
        rfl

/-- **What the loop returns**, started at the first capacity. -/
theorem writerCompress_eq {codec : Codec} {env : Nat → CodecEnv} {raw : Bytes} {plan : CodecPlan}
    (hp : EncodesWithin codec raw plan) (hs : ∀ c, (env c).scratchOk = true) {arena : Arena}
    (hr : arena.Roomy) (hraw : raw.length ≤ SECTION_MAX_RAW) :
    (writerCompress codec env raw arena (closeCap raw.length)).1 =
      plan.stop.elim (.ok plan.output) .error := by
  have hcap : closeCap raw.length ≤ SECTION_MAX_RAW * 2 := by
    simp only [closeCap, SECTION_MAX_RAW] at hraw ⊢
    omega
  have h0 : 0 < closeCap raw.length := Nat.succ_pos _
  have hmax : closeCap raw.length ≤ CLOSE_MAX_CAP := by
    rw [CLOSE_MAX_CAP]
    omega
  by_cases hfit : plan.output.length ≤ closeCap raw.length
  · exact writerCompress_fits hp hs hr h0 hmax hfit
  · have henc : codec.encode (env (closeCap raw.length)) raw (closeCap raw.length) =
        .error .range := by
      rw [hp.replays _ _ (hs _), Plan.run_eq, if_neg hfit]
    rw [writerCompress_retries hr h0 hmax henc hcap]
    refine writerCompress_fits hp hs (hr.alloc _) (Nat.succ_pos _) ?_ hp.size
    rw [CLOSE_MAX_CAP]
    omega

/-- **Why closing a section fails**: an open section of a registered codec with between one byte and
64 MiB closes unless the codec works on words and the length is not a multiple of four
(`DTL_ERR_TRUNCATED`), or the codec is the dictionary and the stream has too many distinct blocks
(`DTL_ERR_RANGE`).  The loop ends within 22 attempts in any case. -/
theorem writerEndSection_verdict (env : Nat → CodecEnv) (w : Writer) (herr : w.err = none)
    (hsec : w.inSection = true) (hcodec : (codecGet w.curCodec).isSome = true)
    (hpos : 1 ≤ w.tlv.length) (hmax : w.tlv.length ≤ 64 * 1024 * 1024) (hroomy : w.arena.Roomy)
    (hscratch : ∀ c, (env c).scratchOk = true) :
    (writerEndSection env w).1 =
        (if (w.curCodec = CODEC_VARINT ∨ w.curCodec = CODEC_DELTA) ∧ w.tlv.length % 4 ≠ 0 then
          some .truncated
        else if w.curCodec = CODEC_DICT ∧ 65535 < (dictBlocks w.tlv).toFinset.card then some .range
        else none) ∧
      (writerEndSection env w).2.arena.calls ≤ w.arena.calls + 22 := by
  obtain ⟨codec, hget⟩ := Option.isSome_iff_exists.mp hcodec
  obtain ⟨plan, hplan⟩ := codecTable_encode w.tlv codec (List.mem_of_find?_eq_some hget)
  have hstop := hplan.stop
  rw [codecGet_id hget, closeVerdict] at hstop
  have hloop := writerCompress_eq hplan hscratch hroomy hmax
  have hcalls := writerCompress_calls codec env w.tlv 21 w.arena (closeCap w.tlv.length) (by
    simp only [closeCap, SECTION_MAX_RAW]
    omega)
  rw [closeCap] at hloop hcalls
  have hlen : ¬ (w.tlv.length = 0 ∨ w.tlv.length > SECTION_MAX_RAW) := by
    rw [SECTION_MAX_RAW]
    omega
  unfold writerEndSection
  rw [if_neg (not_not.mpr herr), if_neg (by simp [hsec]), if_neg hlen, hget]
  dsimp only
  cases hs : plan.stop with
  | some rc =>
    rw [hs] at hloop hstop
    rw [hloop]
    exact ⟨hstop, hcalls⟩
  | none =>
    rw [hs] at hloop hstop
    have hsize := hplan.size
    have hsmall : ¬ plan.output.length > 0xFFFFFFFF := by
      rw [closeCap] at hsize
      omega
    rw [hloop]
    dsimp only [Option.elim_none]
    rw [if_neg hsmall]
    exact ⟨hstop, hcalls⟩

/-- Three raw bytes cannot be closed as a varint section. -/
theorem writerEndSection_verdict_odd :
    (writerEndSection (fun _ => ⟨true, 0⟩)
      { writerInit ⟨fun _ => false, 0⟩ with
        inSection := true
        curCodec := CODEC_VARINT
        tlv := [1, 2, 3] }).1 = some .truncated :=
  (writerEndSection_verdict _ _ rfl rfl (by decide) (by decide) (by decide) (fun _ => rfl)
    fun _ => rfl).1.trans (by decide +kernel)

end Dtl
