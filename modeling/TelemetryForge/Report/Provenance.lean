import TelemetryForge.Report.Import
import TelemetryForge.Report.Pipeline
import TelemetryForge.Report.Sample
import TelemetryForge.Report.Split
import TelemetryForge.Writer.Capacity
import TelemetryForge.Writer.Emitted

/-!
# Where records come from

`RecordsIn O file` says that every record a walk of a file can deliver is one of `O`, whatever memory
its decoders are given.

Principal results: `toolRun_records`, `sampleFile_records`, `mergeFiles_records`, `importRows_records`
and `holdsTag_records` — no tool makes up a record: what its output delivers is what its inputs deliver
or, in an import, what was handed to the writer.
-/

set_option autoImplicit false

namespace Dtl

/-- All records of a file are of a kind. -/
def RecordsIn (O : Record → Prop) (file : Bytes) : Prop :=
  ∀ env, ∀ it ∈ delivered env file, O it.record

variable {O : Record → Prop}

/-- A file that is no container delivers nothing. -/
theorem recordsIn_of_reject {file : Bytes} (h : ∀ cont, containerParse file ≠ .ok cont) :
    RecordsIn O file := by
  intro env it hit
  cases hparse : containerParse file with
  | ok cont => exact absurd hparse (h cont)
  | error rc => simp [delivered, walkMemory, hparse] at hit

theorem RecordsIn.walked {file : Bytes} (h : RecordsIn O file) (env : Nat → CodecEnv) :
    ∀ rec ∈ (delivered env file).map (·.record), O rec := by
  intro rec hrec
  obtain ⟨it, hit, rfl⟩ := List.mem_map.mp hrec
  exact h env it hit

/-! ## Sections that hold groups -/

/-- A section delivers the records of its group or nothing. -/
theorem sectionRecords_subset {slack : Slack} {env : CodecEnv} {cap : Nat} {sec : Section} {g : Group}
    (h : SectionHolds sec (g.log slack)) (hrecs : ∀ rec ∈ g.records, rec.Parseable) :
    ∀ rec ∈ sectionRecords env cap sec, rec ∈ g.records := by
  intro rec hrec
  obtain ⟨codec, hc, hdec⟩ := h.decodes
  rw [sectionRecords, sectionStream, hc] at hrec
  dsimp only at hrec
  split at hrec
  · cases hrec
  · rename_i raw hraw
    split at hraw
    · cases hraw
    · have hgot := codecGet_decode_scratch hc hraw
      rw [hdec _ rfl, Except.ok.injEq] at hgot
      have hitems : (tlvItems (g.log slack).raw).1 = g.records.map (Record.item slack) := by
        rw [h.items]
        rfl
      rwa [← hgot, hitems, parsedRecords_items _ hrecs] at hrec

theorem forall₂_mem_left {α β : Type} {R : α → β → Prop} {as : List α} {bs : List β}
    (h : List.Forall₂ R as bs) : ∀ a ∈ as, ∃ b ∈ bs, R a b := by
  induction h with
  | nil => simp
  | cons hr _ ih =>
    intro a ha
    rcases List.mem_cons.mp ha with rfl | ha
    · exact ⟨_, List.mem_cons_self, hr⟩
    · obtain ⟨b, hb, hr'⟩ := ih a ha
      exact ⟨b, List.mem_cons_of_mem _ hb, hr'⟩

/-- **A container of groups delivers nothing but their records.** -/
theorem groups_records {slack : Slack} {gs : List Group} {out : Bytes} {cont : Container}
    (hparse : containerParse out = .ok cont)
    (hholds : List.Forall₂ SectionHolds cont.sections (gs.map (Group.log slack)))
    (hrecs : ∀ g ∈ gs, ∀ rec ∈ g.records, rec.Parseable ∧ O rec) : RecordsIn O out := by
  intro env it hit
  rw [delivered_eq env hparse] at hit
  simp only [walkItems, List.mem_flatMap, List.mem_map] at hit
  obtain ⟨⟨sec, i⟩, hsec, rec, hrec, rfl⟩ := hit
  obtain ⟨g, hg, hh⟩ := forall₂_mem_left (List.forall₂_map_right_iff.mp hholds) sec
    (List.fst_mem_of_mem_zipIdx hsec)
  exact (hrecs g hg rec (sectionRecords_subset hh (fun r hr => (hrecs g hg r hr).1) rec hrec)).2

/-! ## The tools -/

theorem Written.emitted {c : Contents} {key : Option Bytes} {out : Bytes} (h : Written c key out) :
    Emitted out := by
  obtain ⟨-, w, l, hr, -, -, hfin⟩ := h
  exact ⟨w, l, hr, hfin⟩

theorem Written.recordsIn {c : Contents} {key : Option Bytes} {out : Bytes} (h : Written c key out)
    (hO : ∀ rec ∈ c.records, O rec) : RecordsIn O out := by
  obtain ⟨slack, w, l, hr, hclosed, -, hfin⟩ := h
  obtain ⟨hparse, hholds⟩ := writerFinish_holds hr hfin
  rw [hclosed] at hholds
  refine groups_records hparse hholds fun g hg rec hrec => ⟨(c.delivers g hg).parseable rec hrec, ?_⟩
  exact hO rec (List.mem_flatMap.mpr ⟨g, hg, hrec⟩)

theorem RecordsIn.contents {env : Nat → CodecEnv} {file : Bytes} {c : Contents} (h : RecordsIn O file)
    (hc : fileContents env file = .ok c) : ∀ rec ∈ c.records, O rec := by
  rw [← fileContents_records hc]
  exact h.walked env

/-- What is written of a selection of a file's contents comes from the file. -/
theorem masked_records {env : Nat → CodecEnv} {file out : Bytes} {c : Contents} {m : List Bool}
    {target : Option UInt8} {key : Option Bytes} (hc : fileContents env file = .ok c)
    (hout : Written ((c.mask m).retarget target) key out) (h : RecordsIn O file) : RecordsIn O out := by
  refine hout.recordsIn fun rec hrec => ?_
  rw [retarget_records, mask_records] at hrec
  exact h.contents hc rec ((Mask.sel_sublist m c.records).subset hrec)

/-- **`dtl_repack_file`, `dtl_sign_file`, `dtl_select_file` and `dtl_dedup_file` make up no record.** -/
theorem toolRun_records {env : Nat → CodecEnv} {e : EmitEnv} {a : Arena} {maxFile : Nat}
    {file out : Bytes} {tool : Tool} (hout : toolRun env e a maxFile file tool = .ok out)
    (h : RecordsIn O file) : RecordsIn O out := by
  obtain ⟨c, hc, hw⟩ := @toolRun_written ⟨⟨env, e, a, maxFile⟩, tool⟩ file out hout
  exact masked_records hc hw h

theorem sampleTaken_mask (copyAll : Bool) (selected : List Bool) (items : List EmitItem) :
    sampleTaken copyAll selected items = Mask.sel (selected.map fun b => copyAll || b) items := by
  rw [← Mask.sel_zip, List.zip_map_right, List.filter_map, List.map_map]
  rfl

/-- What a sample writes. -/
theorem sampleFile_mask {env : Nat → CodecEnv} {e : EmitEnv} {a : Arena} {mem : SampleMemory}
    {n : Nat} {seed : UInt32} {maxFile : Nat} {file out : Bytes} {taken : Nat}
    (h : sampleFile env e a mem n seed maxFile file = .ok (out, taken)) :
    ∃ c m, fileContents env file = .ok c ∧ Written ((c.mask m).retarget none) none out := by
  simp only [sampleFile, Except.bind_eq_ok, Except.pure_eq_ok, Except.ok.injEq, Prod.mk.injEq] at h
  obtain ⟨items, hitems, selected, -, out', hout, rfl, -⟩ := h
  obtain ⟨cont, hparse, rfl⟩ := retain_ok hitems
  rw [List.filter_true, sampleTaken_mask] at hout
  exact ⟨_, _, fileContents_eq hparse, reemit_written hout⟩

/-- **`dtl_sample_file` makes up no record**, wherever its reservoir is written to. -/
theorem sampleFile_records {env : Nat → CodecEnv} {e : EmitEnv} {a : Arena} {mem : SampleMemory}
    {n : Nat} {seed : UInt32} {maxFile : Nat} {file out : Bytes} {taken : Nat}
    (hout : sampleFile env e a mem n seed maxFile file = .ok (out, taken)) (h : RecordsIn O file) :
    RecordsIn O out := by
  obtain ⟨c, m, hc, hw⟩ := sampleFile_mask hout
  exact masked_records hc hw h

theorem mergeFiles_emitted {env : Nat → CodecEnv} {e : EmitEnv} {a : Arena}
    {junk : UInt8 → Nat → Record} {maxFile : Nat} {files : List Bytes} {out : Bytes}
    (h : mergeFiles env e a junk maxFile files = .ok out) : Emitted out := by
  unfold mergeFiles at h
  split at h
  · cases h
  simp only [Except.bind_eq_ok] at h
  obtain ⟨c, -, w, hw, hfin⟩ := h
  rw [mergeEmits_eq] at hw
  exact ⟨w, _, emitGroups_refines _ (writerInit_refines a) rfl hw, hfin⟩

theorem walkedRecords_in {env : Nat → CodecEnv} {files : List Bytes} (h : ∀ file ∈ files, RecordsIn O file) :
    ∀ rec ∈ walkedRecords env files, O rec := by
  intro rec hrec
  obtain ⟨file, hfile, hrec⟩ := List.mem_flatMap.mp hrec
  exact (h file hfile).walked env rec hrec

theorem walkedRecords_parseable (env : Nat → CodecEnv) (files : List Bytes) :
    ∀ rec ∈ walkedRecords env files, rec.Parseable := by
  refine walkedRecords_in fun file _ env it hit => ?_
  cases hparse : containerParse file with
  | ok cont => exact delivered_parseable hparse it hit
  | error rc => simp [delivered, walkMemory, hparse] at hit

/-- **`dtl_merge_files` makes up no record when no cell is lost.** -/
theorem mergeFiles_records {env : Nat → CodecEnv} {e : EmitEnv} {a : Arena}
    {junk : UInt8 → Nat → Record} {maxFile : Nat} {files : List Bytes} {out : Bytes}
    (hout : mergeFiles env e a junk maxFile files = .ok out) (hstable : Stable (walkedRecords env files))
    (h : ∀ file ∈ files, RecordsIn O file) : RecordsIn O out := by
  obtain ⟨cont, hparse, hholds⟩ := mergeFiles_holds hout
  rw [mergedGroups_stable junk hstable] at hholds
  refine groups_records hparse hholds fun g hg rec hrec => ?_
  obtain ⟨t, -, rfl⟩ := List.mem_map.mp hg
  have hmem := (List.mem_filter.mp hrec).1
  exact ⟨walkedRecords_parseable env files rec hmem, walkedRecords_in h rec hmem⟩

theorem importRows_emitted {e : EmitEnv} {a : Arena} {rows : List (Res (Option Record))}
    {out : Bytes} {n : Nat} (h : importRows e a rows = .ok (out, n)) : Emitted out := by
  obtain ⟨-, w, l, -, -, hr, -, hfin⟩ := importRows_refines h
  exact ⟨w, l, hr, hfin⟩

/-- **What an import writes delivers the records handed to the writer**, when they parse. -/
theorem importRows_records {e : EmitEnv} {a : Arena} {rows : List (Res (Option Record))}
    {out : Bytes} {n : Nat} (hout : importRows e a rows = .ok (out, n))
    (h : ∀ recs, handed rows = .ok recs → ∀ rec ∈ recs, rec.Parseable ∧ O rec) : RecordsIn O out := by
  obtain ⟨recs, w, l, hrecs, -, hr, hclosed, hfin⟩ := importRows_refines hout
  obtain ⟨hparse, hholds⟩ := writerFinish_holds hr hfin
  rw [hclosed] at hholds
  refine groups_records hparse hholds fun g hg rec hrec => ?_
  unfold importGroups at hg
  split at hg
  · cases hg
  · rw [List.mem_singleton] at hg
    subst hg
    exact h recs hrecs rec hrec

/-- **A file of a split delivers records of its tag.** -/
theorem holdsTag_records {t : UInt8} {recs : List Record} {out : Bytes} (hout : HoldsTag t recs out)
    (h : ∀ rec ∈ recs, rec.Parseable ∧ O rec) : RecordsIn O out := by
  obtain ⟨cont, sec, hparse, hsecs, hsec⟩ := hout
  have hholds : List.Forall₂ SectionHolds cont.sections
      ([⟨t.toUInt16, CODEC_STORE, recs⟩].map (Group.log zeroSlack)) := by
    rw [hsecs]
    exact .cons (hsec zeroSlack) .nil
  refine groups_records hparse hholds fun g hg rec hrec => ?_
  rw [List.mem_singleton] at hg
  subst hg
  exact h rec hrec

end Dtl
