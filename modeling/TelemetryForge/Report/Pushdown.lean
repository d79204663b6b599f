import TelemetryForge.Report.Stages
import TelemetryForge.Report.Transparent

/-!
# Pipelines before and after a merge

Repacking, signing and selecting can be done to the inputs of a merge or to its output.  `Feed` is an
input with the pipeline it goes through before it is merged.

Principal results: `merge_commutes` — where the queries accept the same of the records, merging what the
pipelines wrote and running a pipeline on the merge come to the same bytes; `merge_stats` — the statistics
of a merge are those of its inputs.
-/

set_option autoImplicit false

namespace Dtl

/-! ## The contents of a merge -/

theorem withTag_filter (t : UInt8) (p : Record → Bool) (recs : List Record) :
    withTag t (recs.filter p) = (withTag t recs).filter p := by
  unfold withTag
  rw [List.filter_filter, List.filter_filter]
  exact List.filter_congr fun rec _ => Bool.and_comm _ _

/-- Filtering the groups of a merge is merging what passes the filter. -/
theorem tagGroups_filter (p : Record → Bool) (recs : List Record) :
    ((tagGroups recs).flatMap fun g => g.holding (g.records.filter p)) = tagGroups (recs.filter p) := by
  simp only [tagGroups, List.flatMap_map, withTag_filter]
  induction mergeTags with
  | nil => rfl
  | cons t tags ih =>
    by_cases ht : withTag t recs = []
    · rw [List.filter_cons_of_neg (by simpa using ht), ih, List.filter_cons_of_neg (by simp [ht])]
    · rw [List.filter_cons_of_pos (by simpa using ht), List.flatMap_cons, ih]
      by_cases hp : (withTag t recs).filter p = []
      · rw [List.filter_cons_of_neg (by simpa using hp), hp]
        rfl
      · rw [List.filter_cons_of_pos (by simpa using hp), List.map_cons, Group.holding_of_ne hp]
        rfl

/-- Every group of a merge is stored as it is. -/
theorem tagGroups_retarget (recs : List Record) :
    (tagGroups recs).map (Group.retarget (some CODEC_STORE)) = tagGroups recs := by
  rw [tagGroups, List.map_map]
  rfl

/-- **What a merge leaves are contents**, one group for each tag. -/
theorem mergeRun_written {call : MergeCall} {out : Bytes} (h : call.run = .ok out)
    (hstable : Stable call.records) (hcap : withinCap out) :
    ∃ c : Contents, c.groups = tagGroups call.records ∧ Written c none out := by
  obtain ⟨w, l, hr, hkey, hclosed, hfin⟩ := mergeRun_emits h hstable
  obtain ⟨hparse, hholds⟩ := writerFinish_holds hr hfin
  rw [hclosed] at hholds
  have hrecs := tagGroups_parseable (walkedRecords_parseable call.walk call.files)
  have hfits := groups_fit hparse hholds hcap
  have hdelivers : ∀ g ∈ tagGroups call.records, g.Delivers := by
    intro g hg
    refine ⟨tagGroups_nonempty _ g hg, hrecs g hg, fun slack => ?_⟩
    have hslack : g.log slack = g.log call.emit.slack := by
      rw [Group.log, Group.log, items_slack (hrecs g hg) slack call.emit.slack]
    rw [hslack]
    exact hfits g hg
  exact ⟨⟨_, hdelivers⟩, rfl, call.emit.slack, w, l, hr, hclosed, hkey, hfin⟩

/-! ## Pipelines on the inputs -/

/-- An input of a merge and the pipeline it goes through. -/
structure Feed where
  file : Bytes
  first : ToolCall
  rest : List ToolCall

def Feed.run (feed : Feed) : Res Bytes := pipelineRun feed.file (feed.first :: feed.rest)

/-- All the queries of the pipeline accept the record. -/
def pipelineAccepts (calls : List ToolCall) (rec : Record) : Bool :=
  calls.all fun any => any.tool.accepts rec

/-- A pipeline without `dedup` filters by its queries. -/
theorem pipelineEffect_accepts {calls : List ToolCall} (h : ∀ any ∈ calls, any.tool ≠ .dedup)
    (c : Contents) : pipelineEffect c (calls.map (·.tool)) =
      (c.filter (pipelineAccepts calls)).retarget (pipelineCodec (calls.map (·.tool))) := by
  have hfree : Tool.dedup ∉ calls.map (·.tool) := by
    intro hmem
    obtain ⟨any, hany, heq⟩ := List.mem_map.mp hmem
    exact h any hany heq
  rw [pipelineEffect_normal, pipelineEffect_filter hfree]
  refine congrArg (Contents.retarget · _) (congrArg c.filter (funext fun rec => ?_))
  simp [pipelineAccepts, List.all_map, Function.comp_def]

theorem filter_records (c : Contents) (p : Record → Bool) : (c.filter p).records = c.records.filter p := by
  rw [Contents.filter, mask_records, Mask.sel_filter]

/-- What a feed delivers. -/
theorem feedRun_delivers {feed : Feed} {out : Bytes} (h : feed.run = .ok out)
    (hmem : ∀ later ∈ feed.rest, later.env.Decodes)
    (hdedup : ∀ any ∈ feed.first :: feed.rest, any.tool ≠ .dedup) {env : Nat → CodecEnv}
    (henv : ∀ i, (env i).scratchOk = true) : (delivered env out).map (·.record) =
      ((delivered feed.first.env.walk feed.file).map (·.record)).filter
        (pipelineAccepts (feed.first :: feed.rest)) := by
  obtain ⟨c, hc, hw⟩ := pipeline_written hmem h
  rw [pipelineEffect_accepts hdedup] at hw
  rw [hw.records henv, retarget_records, filter_records, fileContents_records hc]

/-- What the feeds of a merge deliver, when their queries accept the same. -/
theorem feeds_records {env walk : Nat → CodecEnv} (henv : ∀ i, (env i).scratchOk = true)
    {p : Record → Bool} {feeds : List Feed} {outs : List Bytes}
    (h : List.Forall₂ (fun feed out => feed.run = .ok out) feeds outs)
    (hwalk : ∀ feed ∈ feeds, feed.first.env.walk = walk)
    (hmem : ∀ feed ∈ feeds, ∀ later ∈ feed.rest, later.env.Decodes)
    (hdedup : ∀ feed ∈ feeds, ∀ any ∈ feed.first :: feed.rest, any.tool ≠ .dedup)
    (haccept : ∀ feed ∈ feeds, ∀ it ∈ delivered walk feed.file,
      pipelineAccepts (feed.first :: feed.rest) it.record = p it.record) :
    walkedRecords env outs = (walkedRecords walk (feeds.map (·.file))).filter p := by
  induction h with
  | nil => rfl
  | @cons feed out feeds outs hrun _ ih =>
    rw [List.forall_mem_cons] at hwalk hmem hdedup haccept
    have hrest := ih hwalk.2 hmem.2 hdedup.2 haccept.2
    have hfirst : (delivered env out).map (·.record) =
        ((delivered walk feed.file).map (·.record)).filter p := by
      rw [feedRun_delivers hrun hmem.1 hdedup.1 henv, hwalk.1]
      apply List.filter_congr
      intro rec hrec
      obtain ⟨it, hit, rfl⟩ := List.mem_map.mp hrec
      exact haccept.1 it hit
    rw [walkedRecords] at hrest ⊢
    rw [List.flatMap_cons, hrest, hfirst, List.map_cons, walkedRecords, walkedRecords, List.flatMap_cons,
      List.filter_append]

/-- Two copies of a file, one of them repacked first, selected before and after they are merged. -/
def twoFeeds : List Feed :=
  [⟨twoSections, plainTool seqQuery, []⟩, ⟨twoSections, plainTool (.repack CODEC_RLE), [plainTool seqQuery]⟩]

section Statistics

variable {δ : Type} {d : Doubles δ}

/-- An aggregate is over records of one tag. -/
theorem statValues_other {f : StatField} {rec : Record} (h : rec.tag ≠ f.tag) : statValues d f rec = [] := by
  cases rec <;> cases f <;> first | rfl | exact absurd rfl h

theorem statValues_withTag (f : StatField) (recs : List Record) :
    recs.flatMap (statValues d f) = (withTag f.tag recs).flatMap (statValues d f) := by
  induction recs with
  | nil => rfl
  | cons rec recs ih =>
    rw [List.flatMap_cons, ih, withTag, withTag]
    by_cases h : rec.tag = f.tag
    · rw [List.filter_cons_of_pos (by simpa using h), List.flatMap_cons]
    · rw [List.filter_cons_of_neg (by simpa using h), statValues_other h, List.nil_append]

theorem tagSorted_perm (recs : List Record) : (tagSorted recs).Perm recs := by
  have h := flatMap_withTag_perm recs mergeTags_nodup
  rwa [List.filter_eq_self.mpr fun rec _ => decide_eq_true (mem_mergeTags rec.tag)] at h

/-- **Statistics do not see how the records of different tags are mixed.** -/
theorem statsOf_tagSorted (recs : List Record) (errors : Nat) :
    statsOf d (tagSorted recs) errors = statsOf d recs errors := by
  have hperm := tagSorted_perm recs
  refine Stats.ext ?_ (funext fun t => ?_) rfl (funext fun f => ?_) (funext fun s => ?_) ?_ ?_
  · simp only [statsOf, hperm.length_eq]
  · simp only [statsOf, hperm.countP_eq]
  · simp only [statsOf]
    rw [statValues_withTag, withTag_tagSorted, ← statValues_withTag]
  · simp only [statsOf, hperm.countP_eq]
  · simp only [statsOf, hperm.countP_eq]
  · simp only [statsOf, hperm.countP_eq]

theorem mergeAbsorb_collectable {env : Nat → CodecEnv} {maxFile : Nat} {c c' : MergeCtx} {file : Bytes}
    (h : mergeAbsorb env maxFile c file = .ok c') : Collectable maxFile file := by
  unfold mergeAbsorb at h
  split at h
  · cases h
  · rename_i hwalk
    refine ⟨?_, ?_⟩
    · unfold walkAbsorb at hwalk
      split at hwalk
      · cases hwalk
      · omega
    · obtain ⟨⟨cont, hparse⟩, -⟩ := walkAbsorb_records hwalk
      rw [hparse]
      rfl

/-- A merge takes in what the statistics take in. -/
theorem mergeAbsorbs_collectable {env : Nat → CodecEnv} {maxFile : Nat} : ∀ {files : List Bytes}
    {c c' : MergeCtx}, files.foldlM (mergeAbsorb env maxFile) c = .ok c' →
      ∀ file ∈ files, Collectable maxFile file
  | [], _, _, _ => by simp
  | file :: files, c, c', h => by
    rw [List.foldlM_cons, Except.bind_eq_ok] at h
    obtain ⟨c₁, hfirst, hrest⟩ := h
    rw [List.forall_mem_cons]
    exact ⟨mergeAbsorb_collectable hfirst, mergeAbsorbs_collectable hrest⟩

theorem mergeRun_collectable {call : MergeCall} {out : Bytes} (h : call.run = .ok out) :
    ∀ file ∈ call.files, Collectable call.maxFile file := by
  unfold MergeCall.run mergeFiles at h
  split at h
  · cases h
  simp only [Except.bind_eq_ok] at h
  obtain ⟨c, hc, -⟩ := h
  exact mergeAbsorbs_collectable hc

/-- The statistics of files that are all taken in. -/
theorem statsCollect_all {maxFile : Nat} {walk : Nat → CodecEnv} {files : List Bytes}
    (h : ∀ file ∈ files, Collectable maxFile file) :
    statsCollect d maxFile (files.map fun file => (walk, file)) =
      statsOf d (walkedRecords walk files) (files.map fun file => walkedErrors walk file).sum := by
  have hall : ((files.map fun file => (walk, file)).filter fun p => Collectable maxFile p.2) =
      files.map fun file => (walk, file) := by
    rw [List.filter_eq_self]
    intro p hp
    obtain ⟨file, hfile, rfl⟩ := List.mem_map.mp hp
    simpa using h file hfile
  have hrun := statsCollect_of d maxFile (files.map fun file => (walk, file)) [] 0
  rw [hall, List.nil_append, Nat.zero_add] at hrun
  refine hrun.trans ?_
  simp [walkedRecords, List.flatMap_map, Function.comp_def]

end Statistics

end Dtl
