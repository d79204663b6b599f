import TelemetryForge.Writer.Close
import TelemetryForge.Writer.Emit

/-!
# The code an emission ends with

Callers that emit group after group give up at the first code that is not `DTL_OK`.  With enough
memory the writer itself refuses for two reasons only: a section cannot be closed with its codec, or
there is no room for another one.  `emitVerdict` is the first of these, in the order of the groups.

Principal results: `emitGroups_fails`, `emitGroups_closes` — the loop over the groups ends as the
verdict says.
-/

set_option autoImplicit false

namespace Dtl

/-- What closing a section needs at most for a raw stream that the tools' walk decodes. -/
def BLOB_MAX : Nat := closeCap WALK_DEFAULT_MAX_DECODE * 2 + 64

/-- The size of the blob region. -/
def Writer.blobTotal (w : Writer) : Nat := (w.sections.map (·.compLen.toNat)).sum

/-- A writer between two sections: no error, none open, an arena that refuses nothing. -/
structure Writer.Idle (w : Writer) : Prop where
  err : w.err = none
  outside : w.inSection = false
  roomy : w.arena.Roomy

/-- The encoders get the memory they ask for. -/
def EmitEnv.Encodes (e : EmitEnv) : Prop := ∀ i cap, (e.codec i cap).scratchOk = true

/-- A group that the writer takes in: its codec is registered, and its records are parseable, have a
length in 16 bits and fit into a section. -/
structure Group.Sound (slack : Slack) (g : Group) : Prop where
  codec : (codecGet g.codecId).isSome = true
  nonempty : g.records ≠ []
  records : ∀ rec ∈ g.records, rec.Parseable ∧ (rec.payload slack).length ≤ 0xFFFF
  fits : (g.log slack).raw.length ≤ WALK_DEFAULT_MAX_DECODE

theorem Group.Sound.raw_pos {slack : Slack} {g : Group} (h : g.Sound slack) :
    0 < (g.log slack).raw.length := by
  obtain ⟨rec, recs, hrecs⟩ := List.exists_cons_of_ne_nil h.nonempty
  rw [Group.log, hrecs, SectionLog.raw, List.map_cons, List.flatMap_cons, List.length_append,
    encodeTlv_length]
  omega

/-! ## Closing a section -/

theorem writerCompress_roomy (codec : Codec) (env : Nat → CodecEnv) (raw : Bytes) (arena : Arena)
    (cap : Nat) (h : arena.Roomy) : (writerCompress codec env raw arena cap).2.Roomy := by
  have hroomy := h.alloc cap
  rw [writerCompress]
  dsimp only
  split
  · split
    · exact hroomy
    · split
      · exact writerCompress_roomy codec env raw _ (cap * 2 + 64) hroomy
      · exact hroomy
  · exact hroomy
termination_by SECTION_MAX_RAW * 2 + 1 - cap
decreasing_by omega

section Close

variable {e : EmitEnv} {w : Writer} (he : e.Encodes) (hw : w.Ready)
  (hcodec : (codecGet w.curCodec).isSome = true) (hpos : 0 < w.tlv.length)
  (hmax : w.tlv.length ≤ WALK_DEFAULT_MAX_DECODE)

include he hw hcodec hpos hmax

/-- A section ends as the plan of its encoder does. -/
theorem checkedEnd_eq : ∃ plan : CodecPlan, ∃ arena : Arena, arena.Roomy ∧
    plan.stop = closeVerdict w.curCodec w.tlv ∧ plan.output.length ≤ closeCap w.tlv.length * 2 + 64 ∧
    checkedEnd e w = plan.stop.elim (.ok { w with
      arena := arena
      sections := w.sections ++ [⟨w.curType, w.curCodec, UInt32.ofNat w.tlv.length,
        UInt32.ofNat plan.output.length, plan.output⟩]
      inSection := false }) .error := by
  obtain ⟨codec, hget⟩ := Option.isSome_iff_exists.mp hcodec
  obtain ⟨plan, hplan⟩ := codecTable_encode w.tlv codec (List.mem_of_find?_eq_some hget)
  have hmaxval : WALK_DEFAULT_MAX_DECODE = 16777216 := rfl
  have hrawval : SECTION_MAX_RAW = 67108864 := rfl
  have hloop := writerCompress_eq hplan (he w.sections.length) hw.roomy (by omega)
  have hroomy := writerCompress_roomy codec (e.codec w.sections.length) w.tlv w.arena
    (closeCap w.tlv.length) hw.roomy
  have hstop := hplan.stop
  have hsize := hplan.size
  rw [codecGet_id hget] at hstop
  refine ⟨plan, _, hroomy, hstop, hsize, ?_⟩
  rw [closeCap] at hloop hsize ⊢
  unfold checkedEnd writerEndSection
  rw [if_neg (by simp [hw.err]), if_neg (by simp [hw.inSection]), if_neg (by omega), hget]
  dsimp only
  rw [hloop]
  cases plan.stop with
  | some rc => rfl
  | none =>
    dsimp only [Option.elim_none]
    rw [if_neg (by omega)]
    rfl

theorem checkedEnd_fails {rc : Err} (h : closeVerdict w.curCodec w.tlv = some rc) :
    checkedEnd e w = .error rc := by
  obtain ⟨plan, arena, -, hstop, -, heq⟩ := checkedEnd_eq he hw hcodec hpos hmax
  rw [heq, hstop, h]
  rfl

theorem checkedEnd_closes (h : closeVerdict w.curCodec w.tlv = none) :
    ∃ w', checkedEnd e w = .ok w' ∧ w'.Idle ∧ w'.sections.length = w.sections.length + 1 ∧
      w'.blobTotal ≤ w.blobTotal + BLOB_MAX := by
  obtain ⟨plan, arena, hroomy, hstop, hsize, heq⟩ := checkedEnd_eq he hw hcodec hpos hmax
  rw [hstop, h] at heq
  refine ⟨_, heq, ⟨hw.err, rfl, hroomy⟩, by simp, ?_⟩
  have hmod := Nat.mod_le plan.output.length (2 ^ 32)
  simp only [Writer.blobTotal, List.map_append, List.sum_append, List.map_cons, List.map_nil,
    List.sum_cons, List.sum_nil, UInt32.toNat_ofNat', BLOB_MAX, closeCap] at hsize ⊢
  omega

end Close

/-! ## The groups -/

/-- The error with which closing the group's section ends. -/
def Group.verdict (g : Group) : Option Err := closeVerdict g.codecId (g.log zeroSlack).raw

/-- The code with which emitting the groups ends after `n` sections were closed. -/
def emitVerdict : Nat → List Group → Option Err
  | _, [] => none
  | n, g :: gs =>
    if n ≥ WRITER_MAX_SECTIONS then some .oom else g.verdict.or (emitVerdict (n + 1) gs)

theorem emitVerdict_count : ∀ {gs : List Group} {n : Nat}, n ≤ WRITER_MAX_SECTIONS →
    emitVerdict n gs = none → n + gs.length ≤ WRITER_MAX_SECTIONS
  | [], _, hn, _ => hn
  | g :: gs, n, _, h => by
    rw [emitVerdict] at h
    split at h
    · cases h
    · rename_i hlt
      rw [Option.or_eq_none_iff] at h
      have := emitVerdict_count (by omega) h.2
      rw [List.length_cons]
      omega

/-- No error is left to find where every section closes and there is room for all. -/
theorem emitVerdict_none : ∀ {gs : List Group} {n : Nat}, (∀ g ∈ gs, g.verdict = none) →
    n + gs.length ≤ WRITER_MAX_SECTIONS → emitVerdict n gs = none
  | [], _, _, _ => rfl
  | g :: gs, n, h, hn => by
    rw [List.forall_mem_cons] at h
    rw [List.length_cons] at hn
    rw [emitVerdict, if_neg (by omega), h.1, Option.none_or]
    exact emitVerdict_none h.2 (by omega)

section Emission

variable {e : EmitEnv}

/-- What the writer is after a group's records were added. -/
theorem emitGroup_open {w : Writer} {g : Group} (hw : w.Idle) (hg : g.Sound e.slack)
    (hroom : w.sections.length < WRITER_MAX_SECTIONS) :
    ∃ w', emitGroup e w g = checkedEnd e w' ∧ w'.Ready ∧ w'.sections = w.sections ∧
      w'.curCodec = g.codecId ∧ w'.tlv = (g.log zeroSlack).raw := by
  have hbegin : checkedBegin w g.type g.codecId = .ok { w with
      inSection := true, curType := g.type, curCodec := g.codecId, tlv := [] } := by
    unfold checkedBegin writerBeginSection
    rw [if_neg (by simp [hw.err]), if_neg (by simp [hw.outside]), if_neg (by omega)]
  have hfits := hg.fits
  have hmaxval : WALK_DEFAULT_MAX_DECODE = 16777216 := rfl
  obtain ⟨w', hemit, hroomy, happ⟩ := emitRecords_succeeds (e := e) g.records
    (w := { w with inSection := true, curType := g.type, curCodec := g.codecId, tlv := [] })
    ⟨hw.err, rfl, hw.roomy⟩ hg.records (by
      rw [List.length_nil, Nat.zero_add]
      exact hfits.trans (by omega))
  refine ⟨w', ?_, ⟨happ.err, happ.inSection, hroomy⟩, happ.sections, happ.curCodec, ?_⟩
  · rw [emitGroup, hbegin, Except.bind_ok_eq, hemit, Except.bind_ok_eq]
  · rw [happ.tlv, items_slack (fun rec hrec => (hg.records rec hrec).1) e.slack zeroSlack]
    rfl

theorem Group.Sound.raw_eq {slack : Slack} {g : Group} (h : g.Sound slack) (slack' : Slack) :
    (g.log slack').raw = (g.log slack).raw := by
  simp only [Group.log, SectionLog.raw]
  rw [items_slack (fun rec hrec => (h.records rec hrec).1) slack' slack]

theorem emitGroup_fails {w : Writer} {g : Group} {rc : Err} (he : e.Encodes) (hw : w.Idle)
    (hg : g.Sound e.slack) (hroom : w.sections.length < WRITER_MAX_SECTIONS)
    (h : g.verdict = some rc) : emitGroup e w g = .error rc := by
  obtain ⟨w', heq, hready, -, hcur, htlv⟩ := emitGroup_open hw hg hroom
  have hraw := hg.raw_eq zeroSlack
  rw [heq]
  refine checkedEnd_fails he hready (hcur ▸ hg.codec) ?_ ?_ (by rwa [hcur, htlv])
  · rw [htlv, hraw]
    exact hg.raw_pos
  · rw [htlv, hraw]
    exact hg.fits

theorem emitGroup_closes {w : Writer} {g : Group} (he : e.Encodes) (hw : w.Idle)
    (hg : g.Sound e.slack) (hroom : w.sections.length < WRITER_MAX_SECTIONS)
    (h : g.verdict = none) :
    ∃ w', emitGroup e w g = .ok w' ∧ w'.Idle ∧ w'.sections.length = w.sections.length + 1 ∧
      w'.blobTotal ≤ w.blobTotal + BLOB_MAX := by
  obtain ⟨w', heq, hready, hsecs, hcur, htlv⟩ := emitGroup_open hw hg hroom
  have hraw := hg.raw_eq zeroSlack
  rw [heq, ← hsecs, show w.blobTotal = w'.blobTotal by rw [Writer.blobTotal, Writer.blobTotal, hsecs]]
  refine checkedEnd_closes he hready (hcur ▸ hg.codec) ?_ ?_ (by rwa [hcur, htlv])
  · rw [htlv, hraw]
    exact hg.raw_pos
  · rw [htlv, hraw]
    exact hg.fits

/-- **The loop gives up where the verdict says.** -/
theorem emitGroups_fails (he : e.Encodes) {rc : Err} : ∀ {gs : List Group} {w : Writer}, w.Idle →
    (∀ g ∈ gs, g.Sound e.slack) → emitVerdict w.sections.length gs = some rc →
      gs.foldlM (emitGroup e) w = .error rc
  | [], _, _, _, h => by cases h
  | g :: gs, w, hw, hgs, h => by
    rw [List.forall_mem_cons] at hgs
    rw [emitVerdict] at h
    rw [List.foldlM_cons]
    split at h
    · rename_i hfull
      -- the refusal of a section too many is answered with another code
      rw [emitGroup, checkedBegin, writerBeginSection, if_neg (by simp [hw.err]),
        if_neg (by simp [hw.outside]), if_pos hfull]
      rw [Option.some.injEq] at h
      rw [← h]
      rfl
    · rename_i hroom
      have hroom := Nat.lt_of_not_le hroom
      cases hv : g.verdict with
      | some rc' =>
        rw [hv, Option.some_or, Option.some.injEq] at h
        rw [emitGroup_fails he hw hgs.1 hroom hv, h]
        rfl
      | none =>
        rw [hv, Option.none_or] at h
        obtain ⟨w', hok, hidle, hlen, -⟩ := emitGroup_closes he hw hgs.1 hroom hv
        rw [hok, Except.bind_ok_eq]
        exact emitGroups_fails he hidle hgs.2 (hlen ▸ h)

/-- **The loop closes all groups where the verdict finds nothing.** -/
theorem emitGroups_closes (he : e.Encodes) : ∀ {gs : List Group} {w : Writer}, w.Idle →
    (∀ g ∈ gs, g.Sound e.slack) → emitVerdict w.sections.length gs = none →
      ∃ w', gs.foldlM (emitGroup e) w = .ok w' ∧ w'.Idle ∧
        w'.sections.length = w.sections.length + gs.length ∧
        w'.blobTotal ≤ w.blobTotal + gs.length * BLOB_MAX
  | [], w, hw, _, _ => ⟨w, rfl, hw, rfl, by simp⟩
  | g :: gs, w, hw, hgs, h => by
    rw [List.forall_mem_cons] at hgs
    rw [emitVerdict] at h
    split at h
    · cases h
    · rename_i hroom
      rw [Option.or_eq_none_iff] at h
      obtain ⟨w', hok, hidle, hlen, hsum⟩ :=
        emitGroup_closes he hw hgs.1 (Nat.lt_of_not_le hroom) h.1
      obtain ⟨w'', hok', hidle', hlen', hsum'⟩ := emitGroups_closes he hidle hgs.2 (hlen ▸ h.2)
      refine ⟨w'', ?_, hidle', ?_, ?_⟩
      · rw [List.foldlM_cons, hok]
        exact hok'
      · rw [hlen', hlen, List.length_cons]
        omega
      · rw [List.length_cons, Nat.succ_mul]
        omega

end Emission

end Dtl
