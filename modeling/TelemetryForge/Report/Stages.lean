import TelemetryForge.Report.Provenance

/-!
# Merging in stages

A merge sorts the records of its inputs by tag.  As long as no array has to grow between two adjacent
records of its tag, what it writes is determined by the records of each tag in their order, so it makes
no difference how these are spread over files and how often they were merged before.

Principal results: `mergeFiles_determined` — two merges that walk the same records tag by tag write the
same bytes; `merge_stages` — merging files in stages and merging them at once; `split_merges` — merging
the files of a split, in any order.
-/

set_option autoImplicit false

namespace Dtl

/-! ## The order of the emitting loop -/

/-- The records by tag, those of a tag in the order they were walked. -/
def tagSorted (recs : List Record) : List Record := mergeTags.flatMap fun t => withTag t recs

theorem withTag_flatMap {α : Type} (t : UInt8) (f : α → List Record) (xs : List α) :
    withTag t (xs.flatMap f) = xs.flatMap fun x => withTag t (f x) := by
  simp [withTag, List.filter_flatMap]

theorem withTag_withTag (t t' : UInt8) (recs : List Record) :
    withTag t (withTag t' recs) = if t' = t then withTag t recs else [] := by
  unfold withTag
  rw [List.filter_filter]
  split
  · rename_i h
    subst h
    simp
  · rename_i h
    rw [List.filter_eq_nil_iff]
    intro rec _
    simp only [Bool.and_eq_true, decide_eq_true_eq, not_and]
    intro ht ht'
    exact h (ht'.symm.trans ht)

/-- Of different tags only one contributes records of a tag. -/
theorem withTag_tags (t : UInt8) (recs : List Record) : ∀ {tags : List UInt8}, tags.Nodup →
    withTag t (tags.flatMap fun t' => withTag t' recs) = if t ∈ tags then withTag t recs else []
  | [], _ => rfl
  | t' :: tags, h => by
    obtain ⟨hnot, hnodup⟩ := List.nodup_cons.mp h
    have ih := withTag_tags t recs hnodup
    have happend : ∀ xs ys, withTag t (xs ++ ys) = withTag t xs ++ withTag t ys :=
      fun xs ys => List.filter_append xs ys
    rw [List.flatMap_cons, happend, withTag_withTag, ih]
    by_cases ht : t' = t
    · subst ht
      simp [hnot]
    · simp [ht, Ne.symm ht]

/-- Sorting by tag moves no record past another of its tag. -/
@[simp] theorem withTag_tagSorted (t : UInt8) (recs : List Record) :
    withTag t (tagSorted recs) = withTag t recs := by
  rw [tagSorted, withTag_tags t recs mergeTags_nodup, if_pos (mem_mergeTags t)]

theorem tagGroups_records (recs : List Record) :
    (tagGroups recs).flatMap (·.records) = tagSorted recs := by
  simp only [tagGroups, List.flatMap_map, tagSorted]
  generalize mergeTags = tags
  induction tags with
  | nil => rfl
  | cons t tags ih =>
    simp only [ne_eq, decide_not] at ih ⊢
    by_cases ht : withTag t recs = [] <;> simp [ht, ih]

/-- The groups depend on the records of each tag only. -/
theorem tagGroups_congr {recs recs' : List Record} (h : ∀ t, withTag t recs = withTag t recs') :
    tagGroups recs = tagGroups recs' := by
  simp only [tagGroups, h]

theorem tagGroups_parseable {recs : List Record} (h : ∀ rec ∈ recs, rec.Parseable) :
    ∀ g ∈ tagGroups recs, ∀ rec ∈ g.records, rec.Parseable := by
  intro g hg rec hrec
  obtain ⟨t, -, rfl⟩ := List.mem_map.mp hg
  exact h rec (List.mem_filter.mp hrec).1

theorem tagGroups_nonempty (recs : List Record) : ∀ g ∈ tagGroups recs, g.records ≠ [] := by
  intro g hg
  obtain ⟨t, ht, rfl⟩ := List.mem_map.mp hg
  simpa using (List.mem_filter.mp ht).2

/-! ## What a merge writes -/

/-- A call of `dtl_merge_files`: the memory it gets, what its new blocks read as, and its inputs. -/
structure MergeCall where
  walk : Nat → CodecEnv
  emit : EmitEnv
  arena : Arena
  junk : UInt8 → Nat → Record
  maxFile : Nat
  files : List Bytes

def MergeCall.run (call : MergeCall) : Res Bytes :=
  mergeFiles call.walk call.emit call.arena call.junk call.maxFile call.files

/-- Plenty of memory. -/
def plainMerge (files : List Bytes) : MergeCall :=
  ⟨plainEnv, plainEmit, plainArena, fun _ _ => .heartbeat ⟨0, 0⟩, 4096, files⟩

/-- The records a call walks. -/
def MergeCall.records (call : MergeCall) : List Record := walkedRecords call.walk call.files

theorem emitRecords_hmacKey {e : EmitEnv} : ∀ (recs : List Record) {w w' : Writer},
    emitRecords e recs w = .ok w' → w'.hmacKey = w.hmacKey
  | [], w, w', h => by
    cases h
    rfl
  | rec :: recs, w, w', h => by
    rw [emitRecords, Except.bind_eq_ok] at h
    obtain ⟨w₁, hadd, hrest⟩ := h
    rw [emitRecords_hmacKey recs hrest, checkedAdd_hmacKey hadd]

theorem emitGroups_hmacKey {e : EmitEnv} : ∀ (gs : List Group) {w w' : Writer},
    gs.foldlM (emitGroup e) w = .ok w' → w'.hmacKey = w.hmacKey
  | [], w, w', h => by
    cases h
    rfl
  | g :: gs, w, w', h => by
    simp only [List.foldlM_cons, emitGroup, Except.bind_eq_ok] at h
    obtain ⟨w₃, ⟨w₁, hbegin, w₂, hadd, hend⟩, hrest⟩ := h
    rw [emitGroups_hmacKey gs hrest, checkedEnd_hmacKey hend, emitRecords_hmacKey _ hadd,
      checkedBegin_hmacKey hbegin]

/-- The writer behind a merge that loses no cell. -/
theorem mergeRun_emits {call : MergeCall} {out : Bytes} (h : call.run = .ok out)
    (hstable : Stable call.records) : ∃ w l, Refines w l ∧ w.hmacKey = none ∧
      l.closed = (tagGroups call.records).map (Group.log call.emit.slack) ∧
        (writerFinish w).1 = .ok out := by
  unfold MergeCall.run mergeFiles at h
  split at h
  · cases h
  simp only [Except.bind_eq_ok] at h
  obtain ⟨c, hc, w, hw, hfin⟩ := h
  cases mergeAbsorbs_ok _ hc
  have hgroups := mergedGroups_stable call.junk hstable
  rw [MergeCall.records] at hgroups
  rw [mergeEmits_eq, mergeGroups_eq, hgroups] at hw
  exact ⟨w, _, emitGroups_refines _ (writerInit_refines call.arena) rfl hw, emitGroups_hmacKey _ hw, rfl,
    hfin⟩

/-- **A merge is determined by the records of each tag.** -/
theorem mergeFiles_determined {call call' : MergeCall} {out out' : Bytes}
    (h : call.run = .ok out) (h' : call'.run = .ok out') (hstable : Stable call.records)
    (hstable' : Stable call'.records)
    (hsame : ∀ t, withTag t call.records = withTag t call'.records) : out = out' := by
  obtain ⟨w, l, hr, hkey, hclosed, hfin⟩ := mergeRun_emits h hstable
  obtain ⟨w', l', hr', hkey', hclosed', hfin'⟩ := mergeRun_emits h' hstable'
  refine writerFinish_determined hr hr' ?_ (hkey.trans hkey'.symm) hfin hfin'
  rw [hclosed, hclosed', tagGroups_congr hsame]
  exact group_logs_slack (tagGroups_parseable (walkedRecords_parseable _ _)) _ _

/-! ## What a merge leaves to the next -/

/-- A walk with the default cap decodes every section of the file. -/
def withinCap (file : Bytes) : Bool :=
  match containerParse file with
  | .ok cont => cont.sections.all fun sec => sec.rawLen.toNat ≤ WALK_DEFAULT_MAX_DECODE
  | .error _ => true

theorem withinCap_sections {file : Bytes} {cont : Container} (h : withinCap file)
    (hparse : containerParse file = .ok cont) :
    ∀ sec ∈ cont.sections, sec.rawLen.toNat ≤ WALK_DEFAULT_MAX_DECODE := by
  simpa [withinCap, hparse] using h

/-- The groups of a file within the cap have streams within it. -/
theorem groups_fit {slack : Slack} {gs : List Group} {file : Bytes} {cont : Container}
    (hparse : containerParse file = .ok cont)
    (hholds : List.Forall₂ SectionHolds cont.sections (gs.map (Group.log slack)))
    (hcap : withinCap file) : ∀ g ∈ gs, (g.log slack).raw.length ≤ WALK_DEFAULT_MAX_DECODE := by
  intro g hg
  have hflip : List.Forall₂ (fun l sec => SectionHolds sec l) (gs.map (Group.log slack)) cont.sections :=
    hholds.flip
  obtain ⟨sec, hsec, hh⟩ := forall₂_mem_left hflip (g.log slack) (List.mem_map_of_mem hg)
  rw [← hh.rawLen]
  exact withinCap_sections hcap hparse sec hsec

/-- A container of groups delivers their records. -/
theorem groups_delivered {slack : Slack} {gs : List Group} {file : Bytes} {cont : Container}
    {env : Nat → CodecEnv} (hparse : containerParse file = .ok cont)
    (hholds : List.Forall₂ SectionHolds cont.sections (gs.map (Group.log slack)))
    (henv : ∀ i, (env i).scratchOk = true) (hcap : withinCap file)
    (hne : ∀ g ∈ gs, g.records ≠ []) (hrecs : ∀ g ∈ gs, ∀ rec ∈ g.records, rec.Parseable) :
    (delivered env file).map (·.record) = gs.flatMap (·.records) := by
  have hfits := groups_fit hparse hholds hcap
  have hgroups := keptGroups_holds none henv 0 hholds (fun g hg => ⟨hfits g hg, hrecs g hg⟩) hne
  have hid : Group.retarget none = id := rfl
  rw [hid, List.map_id] at hgroups
  rw [delivered_eq env hparse, ← sectionContents_records]
  exact congrArg (List.flatMap (·.records)) hgroups

/-- **A merge leaves the records sorted by tag.** -/
theorem mergeRun_delivers {call : MergeCall} {out : Bytes} (h : call.run = .ok out)
    (hstable : Stable call.records) (hcap : withinCap out) {env : Nat → CodecEnv}
    (henv : ∀ i, (env i).scratchOk = true) :
    (delivered env out).map (·.record) = tagSorted call.records := by
  obtain ⟨w, l, hr, -, hclosed, hfin⟩ := mergeRun_emits h hstable
  obtain ⟨hparse, hholds⟩ := writerFinish_holds hr hfin
  rw [hclosed] at hholds
  rw [groups_delivered hparse hholds henv hcap (tagGroups_nonempty _)
    (tagGroups_parseable (walkedRecords_parseable _ _)), tagGroups_records]

/-- What the outputs of several merges deliver. -/
theorem stages_records {env : Nat → CodecEnv} (henv : ∀ i, (env i).scratchOk = true)
    {calls : List MergeCall} {outs : List Bytes}
    (h : List.Forall₂ (fun call out => call.run = .ok out) calls outs)
    (hstable : ∀ call ∈ calls, Stable call.records) (hcap : ∀ out ∈ outs, withinCap out) :
    walkedRecords env outs = calls.flatMap fun call => tagSorted call.records := by
  induction h with
  | nil => rfl
  | cons hrun _ ih =>
    rw [List.forall_mem_cons] at hstable hcap
    have hrest := ih hstable.2 hcap.2
    rw [walkedRecords] at hrest ⊢
    rw [List.flatMap_cons, List.flatMap_cons, hrest, mergeRun_delivers hrun hstable.1 hcap.1 henv]

section Split

variable {env : Nat → CodecEnv} {e : UInt8 → EmitEnv} {opens : Bytes → Bool}
  {junk : UInt8 → Nat → Record} {outDir pfx : CStr} {a : Arena} {maxFile : Nat} {files : FileStore}
  {file : Bytes} {st : SplitState}

/-- A file of one tag delivers its records. -/
theorem holdsTag_delivers {t : UInt8} {recs : List Record} {bytes : Bytes} (h : HoldsTag t recs bytes)
    (hne : recs ≠ []) (hrecs : ∀ rec ∈ recs, rec.Parseable) (hcap : withinCap bytes)
    (henv : ∀ i, (env i).scratchOk = true) : (delivered env bytes).map (·.record) = recs := by
  obtain ⟨cont, sec, hparse, hsecs, hholds⟩ := h
  have hsec : List.Forall₂ SectionHolds cont.sections
      ([⟨t.toUInt16, CODEC_STORE, recs⟩].map (Group.log zeroSlack)) := by
    rw [hsecs]
    exact .cons (hholds zeroSlack) .nil
  rw [groups_delivered hparse hsec henv hcap (by simpa using hne) (by simpa using hrecs)]
  simp

/-- The files that a split leaves at its paths, when these are told apart. -/
theorem splitFile_reads (h : splitFile env e opens junk outDir pfx a maxFile files file = .ok st)
    (hroom : outDir.val.length + pfx.val.length ≤ 1020) :
    ∀ f ∈ st.written, st.files f.path = some f.bytes := by
  obtain ⟨hparse, hfiles, htags, hnew⟩ := splitFile_ok h
  have hnodup : (st.written.map (·.tag)).Nodup := by
    rw [htags]
    exact mergeTags_nodup.filter _
  have hknown : ∀ f ∈ st.written, f.tag ∈ recTags := by
    intro f hf
    obtain ⟨rec, hrec, hrt⟩ := (splitFile_tags h f.tag).mp ⟨f, hf, rfl⟩
    exact hrt ▸ (hparse rec hrec).1.tag_known
  rw [hfiles]
  refine writeAll_self ((List.pairwise_map.mp hnodup).imp_of_mem fun {f f'} hf hf' hne => ?_)
  rw [(hnew f hf).1, (hnew f' hf').1]
  exact (splitPath_inj_iff (hknown f hf) (hknown f' hf') hne).mpr hroom

end Split

end Dtl
