import TelemetryForge.Report.Merge

/-!
# Splitting a container by tag

Model of `report/split`.  Each tag has a growing vector: a block of `cap` cells of which the first
`count` are in use.  A cell that was never written reads as `junk`, and a store past the block
reaches no cell; `malloc` succeeds for the vectors, while the writers share the arena `a`.

Files are a map from paths to contents, and writing one replaces what the path held.  `opens` says
which paths `fopen` and `fwrite` accept.  The lines printed to `out` are left out.

Principal results: `splitOnRecord_holds` and `splitRecords_holds` — the vectors hold the records of
their tags across every growth; `splitPath_inj_iff` — `snprintf` cuts the path at 1023 characters, so
the paths of different tags coincide once nothing of the tag's name is left; `splitFile_exact_iff` —
a split is exact if and only if the records have one tag or the paths keep them apart.
-/

set_option autoImplicit false

namespace Dtl

open Function (update)

/-! ## The vectors -/

/-- `by_tag[tag]`, `count[tag]` and `cap[tag]`. -/
structure SplitVec where
  cells : Nat → Option Record
  count : Nat
  cap : Nat

/-- `dtl_split_ctx`. -/
abbrev SplitCtx := UInt8 → SplitVec

/-- The context before the first record. -/
def splitInit : SplitCtx := fun _ => ⟨fun _ => none, 0, 0⟩

/-- The growth branch of `dtl_split_on_record`: a new block with the cells in use copied. -/
def splitGrow (v : SplitVec) : SplitVec :=
  { v with
    cells := fun i => if i < v.count then v.cells i else none
    cap := if v.cap ≠ 0 then v.cap * 2 else 16 }

/-- The store at `count`, which it increments. -/
def splitStore (v : SplitVec) (rec : Record) : SplitVec :=
  { v with
    cells := if v.count < v.cap then update v.cells v.count (some rec) else v.cells
    count := v.count + 1 }

/-- `dtl_split_on_record`. -/
def splitOnRecord (c : SplitCtx) (rec : Record) : SplitCtx :=
  let v := c rec.tag
  update c rec.tag (splitStore (if v.count = v.cap then splitGrow v else v) rec)

/-- The vectors hold the records of their tags. -/
structure SplitHolds (c : SplitCtx) (recs : List Record) : Prop where
  count : ∀ t, (c t).count = (withTag t recs).length
  room : ∀ t, (c t).count ≤ (c t).cap
  cells : ∀ t, ∀ i < (c t).count, (c t).cells i = (withTag t recs)[i]?

theorem splitInit_holds : SplitHolds splitInit [] :=
  ⟨fun _ => rfl, fun _ => Nat.le_refl _, fun _ _ h => by cases h⟩

/-- What growing leaves: the same cells in use, and room for one more. -/
theorem splitGrow_spec {v : SplitVec} (h : v.count ≤ v.cap) :
    let v' := if v.count = v.cap then splitGrow v else v
    v'.count = v.count ∧ v.count < v'.cap ∧ ∀ i < v.count, v'.cells i = v.cells i := by
  by_cases hfull : v.count = v.cap
  · rw [if_pos hfull]
    refine ⟨rfl, ?_, fun i hi => if_pos hi⟩
    show v.count < if v.cap ≠ 0 then v.cap * 2 else 16
    split <;> omega
  · rw [if_neg hfull]
    exact ⟨rfl, by omega, fun _ _ => rfl⟩

/-- **A record is stored behind those of its tag, whether or not its vector has to grow.** -/
theorem splitOnRecord_holds {c : SplitCtx} {recs : List Record} (rec : Record)
    (h : SplitHolds c recs) : SplitHolds (splitOnRecord c rec) (recs ++ [rec]) := by
  obtain ⟨hcount, hroom, hcells⟩ := splitGrow_spec (h.room rec.tag)
  have hother : ∀ t, t ≠ rec.tag → splitOnRecord c rec t = c t ∧
      withTag t (recs ++ [rec]) = withTag t recs := by
    intro t ht
    refine ⟨Function.update_of_ne ht _ _, ?_⟩
    rw [withTag_append, if_neg (fun he => ht he.symm), List.append_nil]
  have hself : splitOnRecord c rec rec.tag = splitStore
      (if (c rec.tag).count = (c rec.tag).cap then splitGrow (c rec.tag) else c rec.tag) rec :=
    Function.update_self ..
  have hrecs : withTag rec.tag (recs ++ [rec]) = withTag rec.tag recs ++ [rec] := by
    rw [withTag_append, if_pos rfl]
  refine ⟨fun t => ?_, fun t => ?_, fun t => ?_⟩
  · by_cases ht : t = rec.tag
    · subst ht
      rw [hself, hrecs, List.length_append, ← h.count]
      show _ + 1 = _
      rw [hcount]
      rfl
    · rw [(hother t ht).1, (hother t ht).2, h.count]
  · by_cases ht : t = rec.tag
    · subst ht
      rw [hself]
      show _ + 1 ≤ (ite _ _ _ : SplitVec).cap
      rw [hcount]
      exact hroom
    · rw [(hother t ht).1]
      exact h.room t
  · by_cases ht : t = rec.tag
    · subst ht
      rw [hself, hrecs]
      intro i hi
      change i < _ + 1 at hi
      rw [hcount] at hi
      show (if _ < _ then _ else _ : Nat → Option Record) i = _
      rw [hcount, if_pos hroom]
      by_cases hlast : i = (c rec.tag).count
      · subst hlast
        rw [Function.update_self, h.count, List.getElem?_concat_length]
      · rw [Function.update_of_ne hlast, hcells i (by omega), h.cells _ i (by omega),
          List.getElem?_append_left (by rw [← h.count]; omega)]
    · rw [(hother t ht).1, (hother t ht).2]
      exact h.cells t

/-- **So is every sequence of records.** -/
theorem splitRecords_holds : ∀ (recs : List Record) {c : SplitCtx} {before : List Record},
    SplitHolds c before → SplitHolds (recs.foldl splitOnRecord c) (before ++ recs)
  | [], _, before, h => by rwa [List.append_nil]
  | rec :: recs, c, before, h => by
    have ih := splitRecords_holds recs (splitOnRecord_holds rec h)
    rwa [List.append_assoc] at ih

/-- The records read back from a vector. -/
def splitRecords (junk : Nat → Record) (v : SplitVec) : List Record :=
  (List.range v.count).map fun r => (v.cells r).getD (junk r)

theorem splitRecords_eq {c : SplitCtx} {recs : List Record} (h : SplitHolds c recs) (t : UInt8)
    (junk : Nat → Record) : splitRecords junk (c t) = withTag t recs := by
  apply List.ext_getElem?
  intro i
  rw [splitRecords, List.getElem?_map]
  by_cases hi : i < (c t).count
  · have hlt : i < (withTag t recs).length := by rw [← h.count]; exact hi
    rw [List.getElem?_range hi, Option.map_some, h.cells t i hi, List.getElem?_eq_getElem hlt]
    rfl
  · rw [List.getElem?_eq_none (by rw [List.length_range]; omega), Option.map_none,
      List.getElem?_eq_none (by rw [← h.count]; omega)]

/-! ## The paths -/

/-- The size of `path`. -/
def SPLIT_PATH_SIZE : Nat := 1024

/-- What `snprintf` leaves in `path`, its terminator left out. -/
def splitPath (outDir pfx : CStr) (tag : UInt8) : Bytes :=
  (outDir.val ++ ascii "/" ++ pfx.val ++ ascii "_" ++ (ascii (walkTagName tag) ++ ascii ".dtl")).take
    (SPLIT_PATH_SIZE - 1)

theorem Record.WellFormed.tag_known {rec : Record} (h : rec.WellFormed) : rec.tag ∈ recTags := by
  cases rec with
  | other t ht => exact h.elim
  | _ => simp [Record.tag, recTags]

/-- The names of the tags start with different letters. -/
theorem tagName_head_inj : ∀ t ∈ recTags, ∀ t' ∈ recTags,
    (ascii (walkTagName t) ++ ascii ".dtl")[0]? = (ascii (walkTagName t') ++ ascii ".dtl")[0]? →
      t = t' := by
  decide +kernel

/-- **The path tells the tags apart exactly when a letter of the name is left.** -/
theorem splitPath_inj_iff {outDir pfx : CStr} {t t' : UInt8} (ht : t ∈ recTags)
    (ht' : t' ∈ recTags) (hne : t ≠ t') :
    splitPath outDir pfx t ≠ splitPath outDir pfx t' ↔
      outDir.val.length + pfx.val.length ≤ 1020 := by
  have hlen : (outDir.val ++ ascii "/" ++ pfx.val ++ ascii "_").length =
      outDir.val.length + pfx.val.length + 2 := by
    have h1 : (ascii "/").length = 1 := rfl
    have h2 : (ascii "_").length = 1 := rfl
    rw [List.length_append, List.length_append, List.length_append, h1, h2]
    omega
  constructor
  · intro h
    by_contra hlong
    have hcut : ∀ name : Bytes,
        (outDir.val ++ ascii "/" ++ pfx.val ++ ascii "_" ++ name).take (SPLIT_PATH_SIZE - 1) =
          (outDir.val ++ ascii "/" ++ pfx.val ++ ascii "_").take (SPLIT_PATH_SIZE - 1) := by
      intro name
      apply List.take_append_of_le_length
      rw [hlen, SPLIT_PATH_SIZE]
      omega
    apply h
    rw [splitPath, splitPath, hcut, hcut]
  · intro hshort heq
    apply hne
    apply tagName_head_inj t ht t' ht'
    have hat := congrArg (·[outDir.val.length + pfx.val.length + 2]?) heq
    simp only [splitPath] at hat
    rw [List.getElem?_take_of_lt (by rw [SPLIT_PATH_SIZE]; omega),
      List.getElem?_take_of_lt (by rw [SPLIT_PATH_SIZE]; omega), ← hlen,
      List.getElem?_append_right (Nat.le_refl _), List.getElem?_append_right (Nat.le_refl _),
      Nat.sub_self] at hat
    exact hat

/-! ## The tool -/

/-- The contents of the files, by path. -/
abbrev FileStore := Bytes → Option Bytes

/-- A file written for a tag. -/
structure SplitWrite where
  tag : UInt8
  path : Bytes
  bytes : Bytes

/-- The arena that the writers share, the files, and what was written so far. -/
structure SplitState where
  arena : Arena
  files : FileStore
  written : List SplitWrite

section Tool

variable (env : Nat → CodecEnv) (e : UInt8 → EmitEnv) (opens : Bytes → Bool)
  (junk : UInt8 → Nat → Record) (outDir pfx : CStr)

/-- `dtl_split_write_tag`. -/
def splitWriteTag (tag : UInt8) (recs : List Record) (st : SplitState) : Res SplitState := do
  let path := splitPath outDir pfx tag
  let w ← emitGroup (e tag) (writerInit st.arena) ⟨tag.toUInt16, CODEC_STORE, recs⟩
  let bytes ← (writerFinish w).1
  failIf (opens path = false) .io
  return ⟨(writerFinish w).2.arena, update st.files path (some bytes),
    st.written ++ [⟨tag, path, bytes⟩]⟩

/-- The body of the loop over the tags. -/
def splitTag (c : SplitCtx) (st : SplitState) (tag : UInt8) : Res SplitState :=
  if (c tag).count = 0 then .ok st
  else splitWriteTag e opens outDir pfx tag (splitRecords (junk tag) (c tag)) st

/-- `dtl_split_file`. -/
def splitFile (a : Arena) (maxFile : Nat) (files : FileStore) (file : Bytes) : Res SplitState :=
  match walkAbsorb env (recordWalk splitOnRecord) maxFile file splitInit with
  | (some rc, _) => .error rc
  | (none, c) => mergeTags.foldlM (splitTag e opens junk outDir pfx c) ⟨a, files, []⟩

end Tool

/-- The bytes are a container with a single `STORE` section of type `t` that decodes to the items of
the records. -/
def HoldsTag (t : UInt8) (recs : List Record) (bytes : Bytes) : Prop :=
  ∃ cont sec, containerParse bytes = .ok cont ∧ cont.sections = [sec] ∧
    ∀ slack, SectionHolds sec ⟨t.toUInt16, CODEC_STORE, recs.map (Record.item slack)⟩

/-- What a split is for. -/
structure SplitExactly (recs : List Record) (before : FileStore) (st : SplitState) : Prop where
  /-- a file is written for a tag if and only if it occurs -/
  tags : ∀ t, (∃ f ∈ st.written, f.tag = t) ↔ ∃ rec ∈ recs, rec.tag = t
  /-- there is one file for a tag -/
  apart : st.written.Pairwise fun f f' => f.tag ≠ f'.tag ∧ f.path ≠ f'.path
  /-- in the end each file holds the records of its tag, in their order -/
  contents : ∀ f ∈ st.written, ∃ bytes, st.files f.path = some bytes ∧
    HoldsTag f.tag (withTag f.tag recs) bytes
  /-- together the files hold every record once -/
  partition : (st.written.flatMap fun f => withTag f.tag recs).Perm recs
  /-- no other file changes -/
  others : ∀ p, (∀ f ∈ st.written, f.path ≠ p) → st.files p = before p

/-! ## What the loop writes -/

section Loop

variable {e : UInt8 → EmitEnv} {opens : Bytes → Bool} {outDir pfx : CStr}

/-- A file written for a tag goes to its path and holds the records. -/
theorem splitWriteTag_ok {tag : UInt8} {recs : List Record} {st st' : SplitState}
    (hrecs : ∀ rec ∈ recs, rec.Parseable)
    (h : splitWriteTag e opens outDir pfx tag recs st = .ok st') :
    ∃ bytes, HoldsTag tag recs bytes ∧
      st'.files = update st.files (splitPath outDir pfx tag) (some bytes) ∧
      st'.written = st.written ++ [⟨tag, splitPath outDir pfx tag, bytes⟩] := by
  simp only [splitWriteTag, Except.bind_eq_ok, Except.pure_eq_ok, Except.ok.injEq] at h
  obtain ⟨w, hgroup, bytes, hfin, -, -, rfl⟩ := h
  refine ⟨bytes, ?_, rfl, rfl⟩
  obtain ⟨hparse, hholds⟩ := writerFinish_holds
    (emitGroup_refines (writerInit_refines st.arena) hgroup) hfin
  generalize placeSections 0 w.sections = secs at hparse hholds
  rw [List.nil_append] at hholds
  cases hholds with
  | @cons sec _ _ _ hsec hnil =>
    cases hnil
    refine ⟨_, sec, hparse, rfl, fun slack => ?_⟩
    rw [items_slack hrecs slack (e tag).slack]
    exact hsec

/-- The files after the given ones were written, in order. -/
def writeAll (files : FileStore) (written : List SplitWrite) : FileStore :=
  written.foldl (fun files f => update files f.path (some f.bytes)) files

/-- The loop writes one file for each tag that occurs, in ascending order. -/
theorem splitTags_ok {junk : UInt8 → Nat → Record} {c : SplitCtx} {recs : List Record}
    (hc : SplitHolds c recs) (hrecs : ∀ rec ∈ recs, rec.Parseable) :
    ∀ (tags : List UInt8) {st st' : SplitState},
      tags.foldlM (splitTag e opens junk outDir pfx c) st = .ok st' →
        ∃ new, st'.written = st.written ++ new ∧ st'.files = writeAll st.files new ∧
          new.map (·.tag) = tags.filter (fun t => withTag t recs ≠ []) ∧
          ∀ f ∈ new, f.path = splitPath outDir pfx f.tag ∧
            HoldsTag f.tag (withTag f.tag recs) f.bytes
  | [], _, _, h => by
    cases h
    exact ⟨[], by simp, rfl, rfl, by simp⟩
  | t :: tags, st, st', h => by
    rw [List.foldlM_cons, Except.bind_eq_ok] at h
    obtain ⟨st₁, hstep, hrest⟩ := h
    obtain ⟨new, hwritten, hfiles, htags, hnew⟩ := splitTags_ok hc hrecs tags hrest
    have hzero : (c t).count = 0 ↔ withTag t recs = [] := by
      rw [hc.count, List.length_eq_zero_iff]
    unfold splitTag at hstep
    by_cases h0 : (c t).count = 0
    · rw [if_pos h0] at hstep
      cases hstep
      refine ⟨new, hwritten, hfiles, ?_, hnew⟩
      rw [List.filter_cons_of_neg (by simpa using hzero.mp h0), htags]
    · rw [if_neg h0, splitRecords_eq hc] at hstep
      obtain ⟨bytes, hbytes, hfiles₁, hwritten₁⟩ := splitWriteTag_ok
        (fun rec hrec => hrecs rec (List.mem_filter.mp hrec).1) hstep
      refine ⟨⟨t, splitPath outDir pfx t, bytes⟩ :: new, ?_, ?_, ?_, ?_⟩
      · rw [hwritten, hwritten₁, List.append_assoc]
        rfl
      · rw [hfiles, hfiles₁]
        rfl
      · rw [List.filter_cons_of_pos (by simpa using fun hnil => h0 (hzero.mpr hnil)), List.map_cons,
          htags]
      · rw [List.forall_mem_cons]
        exact ⟨⟨rfl, hbytes⟩, hnew⟩

end Loop

/-! ## What the files hold in the end -/

theorem writeAll_other {p : Bytes} : ∀ {written : List SplitWrite} {files : FileStore},
    (∀ f ∈ written, f.path ≠ p) → writeAll files written p = files p
  | [], _, _ => rfl
  | f :: written, files, h => by
    rw [List.forall_mem_cons] at h
    have ih := @writeAll_other p written (update files f.path (some f.bytes)) h.2
    rw [Function.update_of_ne h.1.symm] at ih
    exact ih

/-- A file that no later one replaces keeps its contents. -/
theorem writeAll_self : ∀ {written : List SplitWrite} {files : FileStore},
    written.Pairwise (fun f f' => f.path ≠ f'.path) →
      ∀ f ∈ written, writeAll files written f.path = some f.bytes
  | [], _, _, f, hf => by cases hf
  | g :: written, files, h, f, hf => by
    obtain ⟨hg, hrest⟩ := List.pairwise_cons.mp h
    rcases List.mem_cons.mp hf with rfl | hf
    · have hkeep := @writeAll_other f.path written (update files f.path (some f.bytes))
        fun f' hf' => (hg f' hf').symm
      rw [Function.update_self] at hkeep
      exact hkeep
    · exact writeAll_self hrest f hf

/-- The records of different tags together are the records of all of them. -/
theorem flatMap_withTag_perm (recs : List Record) : ∀ {tags : List UInt8}, tags.Nodup →
    (tags.flatMap fun t => withTag t recs).Perm (recs.filter fun rec => rec.tag ∈ tags)
  | [], _ => by simp
  | t :: tags, h => by
    obtain ⟨ht, hnodup⟩ := List.nodup_cons.mp h
    have ih := flatMap_withTag_perm recs hnodup
    have hsplit := List.filter_append_perm (fun rec : Record => rec.tag = t)
      (recs.filter fun rec => rec.tag ∈ t :: tags)
    rw [List.filter_filter, List.filter_filter] at hsplit
    rw [List.flatMap_cons]
    refine (List.Perm.append_left _ ih).trans (List.Perm.trans (List.Perm.of_eq ?_) hsplit)
    congr 1
    · apply List.filter_congr
      intro rec _
      by_cases hrec : rec.tag = t <;> simp [hrec]
    · apply List.filter_congr
      intro rec _
      by_cases hrec : rec.tag = t
      · simp [hrec, ht]
      · simp [hrec]

theorem mergeTags_nodup : mergeTags.Nodup := by
  refine List.Nodup.map_on ?_ List.nodup_range
  intro i hi j hj h
  rw [List.mem_range] at hi hj
  have hnat := congrArg UInt8.toNat h
  rw [UInt8.toNat_ofNat', UInt8.toNat_ofNat'] at hnat
  omega

theorem withTag_ne_nil {t : UInt8} {recs : List Record} :
    withTag t recs ≠ [] ↔ ∃ rec ∈ recs, rec.tag = t := by
  rw [withTag, ne_eq, List.filter_eq_nil_iff]
  simp

section Exact

variable {env : Nat → CodecEnv} {e : UInt8 → EmitEnv} {opens : Bytes → Bool}
  {junk : UInt8 → Nat → Record} {outDir pfx : CStr} {a : Arena} {maxFile : Nat} {files : FileStore}
  {file : Bytes} {st : SplitState}

/-- The files a successful split writes, and where. -/
theorem splitFile_ok (h : splitFile env e opens junk outDir pfx a maxFile files file = .ok st) :
    (∀ rec ∈ walkedRecords env [file], rec.Parseable) ∧ st.files = writeAll files st.written ∧
      st.written.map (·.tag) = mergeTags.filter (fun t => withTag t (walkedRecords env [file]) ≠ []) ∧
      ∀ f ∈ st.written, f.path = splitPath outDir pfx f.tag ∧
        HoldsTag f.tag (withTag f.tag (walkedRecords env [file])) f.bytes := by
  unfold splitFile at h
  split at h
  · cases h
  · rename_i c hwalk
    obtain ⟨⟨cont, hparse⟩, rfl⟩ := walkAbsorb_records hwalk
    have hrecs : walkedRecords env [file] = (delivered env file).map (·.record) := by
      rw [walkedRecords, List.flatMap_singleton]
    have hparseable : ∀ rec ∈ (delivered env file).map (·.record), rec.Parseable := by
      intro rec hrec
      obtain ⟨it, hit, rfl⟩ := List.mem_map.mp hrec
      exact delivered_parseable hparse it hit
    have hc := splitRecords_holds ((delivered env file).map (·.record)) splitInit_holds
    rw [List.nil_append] at hc
    obtain ⟨new, hwritten, hfiles, htags, hnew⟩ := splitTags_ok hc hparseable mergeTags h
    rw [List.nil_append] at hwritten
    subst hwritten
    rw [hrecs]
    exact ⟨hparseable, hfiles, htags, hnew⟩

/-- A tag has a file if and only if it occurs. -/
theorem splitFile_tags (h : splitFile env e opens junk outDir pfx a maxFile files file = .ok st)
    (t : UInt8) :
    (∃ f ∈ st.written, f.tag = t) ↔ ∃ rec ∈ walkedRecords env [file], rec.tag = t := by
  obtain ⟨-, -, htags, -⟩ := splitFile_ok h
  rw [← List.mem_map, htags, List.mem_filter, ← withTag_ne_nil]
  simp [mem_mergeTags]

/-- The files of two tags that occur have different paths in an exact split. -/
theorem SplitExactly.path_ne {recs : List Record} {before : FileStore} {st : SplitState}
    (h : SplitExactly recs before st) {outDir pfx : CStr}
    (hpath : ∀ f ∈ st.written, f.path = splitPath outDir pfx f.tag) {rec rec' : Record}
    (hrec : rec ∈ recs) (hrec' : rec' ∈ recs) (hne : rec.tag ≠ rec'.tag) :
    splitPath outDir pfx rec.tag ≠ splitPath outDir pfx rec'.tag := by
  obtain ⟨f, hf, hft⟩ := (h.tags rec.tag).mpr ⟨rec, hrec, rfl⟩
  obtain ⟨f', hf', hft'⟩ := (h.tags rec'.tag).mpr ⟨rec', hrec', rfl⟩
  have hff : f ≠ f' := by
    rintro rfl
    exact hne (hft.symm.trans hft')
  have hdiff : f.path ≠ f'.path := by
    obtain ⟨i, hi, rfl⟩ := List.getElem_of_mem hf
    obtain ⟨j, hj, rfl⟩ := List.getElem_of_mem hf'
    have hpair := List.pairwise_iff_getElem.mp h.apart
    rcases Nat.lt_trichotomy i j with hlt | rfl | hgt
    · exact (hpair i j hi hj hlt).2
    · exact absurd rfl hff
    · exact (hpair j i hj hi hgt).2.symm
  rwa [hpath f hf, hpath f' hf', hft, hft'] at hdiff

/-- Distinct paths keep the files of a split apart, and then it is exact. -/
theorem splitFile_exact_of_apart
    (h : splitFile env e opens junk outDir pfx a maxFile files file = .ok st)
    (hapart : st.written.Pairwise fun f f' => f.tag ≠ f'.tag ∧ f.path ≠ f'.path) :
    SplitExactly (walkedRecords env [file]) files st := by
  obtain ⟨-, hfiles, htags, hnew⟩ := splitFile_ok h
  refine ⟨splitFile_tags h, hapart, ?_, ?_, ?_⟩
  · intro f hf
    refine ⟨f.bytes, ?_, (hnew f hf).2⟩
    rw [hfiles]
    exact writeAll_self (hapart.imp fun hff => hff.2) f hf
  · have hflat : (st.written.flatMap fun f => withTag f.tag (walkedRecords env [file])) =
        (st.written.map (·.tag)).flatMap fun t => withTag t (walkedRecords env [file]) := by
      rw [List.flatMap_map]
    rw [hflat, htags]
    refine (flatMap_withTag_perm _ (mergeTags_nodup.filter _)).trans (List.Perm.of_eq ?_)
    rw [List.filter_eq_self]
    intro rec hrec
    simp only [List.mem_filter, mem_mergeTags, true_and, decide_eq_true_eq]
    exact withTag_ne_nil.mpr ⟨rec, hrec, rfl⟩
  · intro p hp
    rw [hfiles]
    exact writeAll_other hp

/-- **When a split is exact.** Whatever the input, when `dtl_split_file` returns `DTL_OK`: each tag's
file holds exactly the records of its tag, and the files together every record once, if and only if
the records have at most one tag or the directory and the prefix leave room for a letter of the tag's
name in `path`. -/
theorem splitFile_exact_iff
    (h : splitFile env e opens junk outDir pfx a maxFile files file = .ok st) :
    SplitExactly (walkedRecords env [file]) files st ↔
      (∀ rec ∈ walkedRecords env [file], ∀ rec' ∈ walkedRecords env [file], rec.tag = rec'.tag) ∨
        outDir.val.length + pfx.val.length ≤ 1020 := by
  obtain ⟨hparse, -, htags, hnew⟩ := splitFile_ok h
  have hpath : ∀ rec ∈ walkedRecords env [file], ∀ rec' ∈ walkedRecords env [file],
      rec.tag ≠ rec'.tag → (splitPath outDir pfx rec.tag ≠ splitPath outDir pfx rec'.tag ↔
        outDir.val.length + pfx.val.length ≤ 1020) := fun rec hrec rec' hrec' hne =>
    splitPath_inj_iff (hparse rec hrec).1.tag_known (hparse rec' hrec').1.tag_known hne
  constructor
  · intro hexact
    by_contra hcond
    rw [not_or, not_forall] at hcond
    obtain ⟨⟨rec, hcond⟩, hlong⟩ := hcond
    simp only [not_forall] at hcond
    obtain ⟨hrec, rec', hrec', hne⟩ := hcond
    have hdiff := hexact.path_ne (fun f hf => (hnew f hf).1) hrec hrec' hne
    exact hlong ((hpath rec hrec rec' hrec' hne).mp hdiff)
  · intro hcond
    apply splitFile_exact_of_apart h
    have hnodup : (st.written.map (·.tag)).Nodup := by
      rw [htags]
      exact mergeTags_nodup.filter _
    refine (List.pairwise_map.mp hnodup).imp_of_mem fun {f f'} hf hf' hne => ⟨hne, ?_⟩
    obtain ⟨rec, hrec, hrt⟩ := (splitFile_tags h f.tag).mp ⟨f, hf, rfl⟩
    obtain ⟨rec', hrec', hrt'⟩ := (splitFile_tags h f'.tag).mp ⟨f', hf', rfl⟩
    have hne' : rec.tag ≠ rec'.tag := by rwa [hrt, hrt']
    rcases hcond with hone | hshort
    · exact absurd (hone rec hrec rec' hrec') hne'
    · rw [(hnew f hf).1, (hnew f' hf').1, ← hrt, ← hrt']
      exact (hpath rec hrec rec' hrec' hne').mpr hshort

end Exact

/-- A split of `twoSections`, which holds two `HEARTBEAT`s and a `KEYREF`. -/
def splitTwo (outDir pfx : CStr) : Res SplitState :=
  splitFile (fun _ => ⟨true, 0⟩) (fun _ => ⟨zeroSlack, fun _ _ => ⟨true, 0⟩⟩) (fun _ => true)
    (fun _ _ => .heartbeat ⟨0, 0⟩) outDir pfx ⟨fun _ => false, 0⟩ 4096 (fun _ => none) twoSections

theorem splitTwo_records : walkedRecords (fun _ => ⟨true, 0⟩) [twoSections] =
    [.heartbeat ⟨1, 2⟩, .heartbeat ⟨1, 2⟩, .keyref ⟨1, 1, [97], 0⟩] := by decide +kernel

theorem splitFile_exact_two : ∃ st, splitTwo (cstr (ascii "out")) (cstr (ascii "split")) = .ok st ∧
    SplitExactly (walkedRecords (fun _ => ⟨true, 0⟩) [twoSections]) (fun _ => none) st := by
  obtain ⟨st, hst⟩ := Except.exists_ok (show (splitTwo (cstr (ascii "out"))
    (cstr (ascii "split"))).toOption.isSome = true by decide +kernel)
  exact ⟨st, hst, (splitFile_exact_iff hst).mpr (.inr (by decide))⟩

/-- The current directory spelt with a thousand characters. -/
def longDir : CStr := cstr (List.replicate 500 [46, 47]).flatten

/-- A prefix of thirty letters. -/
def longPfx : CStr := cstr (List.replicate 30 97)

/-- Both files of the split go to one path, and the second replaces the first. -/
theorem splitFile_overwrites : ∃ st, splitTwo longDir longPfx = .ok st ∧
    ¬ SplitExactly (walkedRecords (fun _ => ⟨true, 0⟩) [twoSections]) (fun _ => none) st := by
  obtain ⟨st, hst⟩ := Except.exists_ok (show (splitTwo longDir longPfx).toOption.isSome = true by
    decide +kernel)
  refine ⟨st, hst, fun hexact => ?_⟩
  obtain ⟨-, -, -, hnew⟩ := splitFile_ok hst
  have hfirst : Record.heartbeat ⟨1, 2⟩ ∈ walkedRecords (fun _ => ⟨true, 0⟩) [twoSections] := by
    rw [splitTwo_records]
    simp
  have hlast : Record.keyref ⟨1, 1, [97], 0⟩ ∈ walkedRecords (fun _ => ⟨true, 0⟩) [twoSections] := by
    rw [splitTwo_records]
    simp
  exact hexact.path_ne (fun f hf => (hnew f hf).1) hfirst hlast (by decide) (by decide +kernel)

end Dtl
