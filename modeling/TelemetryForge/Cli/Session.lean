import TelemetryForge.Cli.Command
import TelemetryForge.Report.Provenance

/-!
# Sessions

A session is a sequence of invocations of the program on one set of files, each with memory of its own
and on whatever the medium does then.  `Command.Makes` says which bytes a command hands to a write.

Principal results: `run_leaves` — what an invocation leaves of the files, however it ends;
`session_files` — after any session a file is as it was or a prefix of a container that was emitted, and
all of it if it parses; `session_records` — no session makes up a record; `session_verifies` — what was
signed last verifies.
-/

set_option autoImplicit false

namespace Dtl

open Files (Leaves)

variable {δ : Type}

/-! ## What a command writes -/

theorem openFile_ok {h : Host δ} {files : FileStore} {path : CStr} {data : Bytes} (hopen : openFile h files path = .ok data) :
    files path.val = some data := by
  unfold openFile at hopen
  split at hopen
  · cases hopen
  · rename_i data' hread
    cases hopen
    exact Files.read_some hread

/-- The command hands the bytes to a write of the path. -/
def Command.Makes (h : Host δ) (files : FileStore) (path bytes : Bytes) : Command → Prop
  | merge outPath paths => path = outPath.val ∧ ∃ inputs, paths.mapM (openFile h files) = .ok inputs ∧
      mergeFiles (h.walk 0) h.emit h.arena h.junk CLI_MAX_FILE inputs = .ok bytes
  | split inPath outDir pfx => ∃ data t, openFile h files inPath = .ok data ∧
      path = splitPath outDir pfx t ∧ Emitted bytes ∧
      HoldsTag t (withTag t ((delivered (h.walk 0) data).map (·.record))) bytes
  | repack inPath outPath codecName => path = outPath.val ∧ ∃ id data,
      argNumber codecName = .ok id ∧ openFile h files inPath = .ok data ∧
      toolRun (h.walk 0) h.emit h.arena CLI_MAX_FILE data (.repack (UInt8.ofNat id)) = .ok bytes
  | select expr inPath outPath => path = outPath.val ∧ ∃ data, openFile h files inPath = .ok data ∧
      toolRun (h.walk 0) h.emit h.arena CLI_MAX_FILE data (.select expr) = .ok bytes
  | importCsv csvPath outPath => path = outPath.val ∧ ∃ data n, openFile h files csvPath = .ok data ∧
      importRows h.emit h.arena (csvRows h.floats data) = .ok (bytes, n)
  | importJson jsonPath outPath => path = outPath.val ∧ ∃ data n, openFile h files jsonPath = .ok data ∧
      importRows h.emit h.arena (jsonRows h.floats data) = .ok (bytes, n)
  | dedup inPath outPath => path = outPath.val ∧ ∃ data, openFile h files inPath = .ok data ∧
      toolRun (h.walk 0) h.emit h.arena CLI_MAX_FILE data .dedup = .ok bytes
  | sample inPath outPath _ _ => path = outPath.val ∧ ∃ n seed data taken,
      openFile h files inPath = .ok data ∧
      sampleFile (h.walk 0) h.emit h.arena h.sample n seed CLI_MAX_FILE data = .ok (bytes, taken)
  | sign inPath outPath key => path = outPath.val ∧ ∃ data, openFile h files inPath = .ok data ∧
      toolRun (h.walk 0) h.emit h.arena CLI_MAX_FILE data (.sign key) = .ok bytes
  | _ => False

/-- The paths a command may write. -/
def Command.outputs : Command → List Bytes
  | merge outPath _ => [outPath.val]
  | split _ outDir pfx => mergeTags.map (splitPath outDir pfx)
  | repack _ outPath _ => [outPath.val]
  | select _ _ outPath => [outPath.val]
  | importCsv _ outPath => [outPath.val]
  | importJson _ outPath => [outPath.val]
  | dedup _ outPath => [outPath.val]
  | sample _ outPath _ _ => [outPath.val]
  | sign _ outPath _ => [outPath.val]
  | _ => []

section Makes

variable {h : Host δ} {files : FileStore} {path bytes : Bytes} {cmd : Command}

theorem Command.Makes.mem_outputs (hm : cmd.Makes h files path bytes) : path ∈ cmd.outputs := by
  cases cmd with
  | split inPath outDir pfx =>
    obtain ⟨-, t, -, rfl, -⟩ := hm
    exact List.mem_map.mpr ⟨t, mem_mergeTags t, rfl⟩
  | merge | repack | select | importCsv | importJson | dedup | sample | sign =>
    exact List.mem_singleton.mpr hm.1
  | _ => exact hm.elim

theorem toolRun_emitted {env : Nat → CodecEnv} {e : EmitEnv} {a : Arena} {maxFile : Nat}
    {file out : Bytes} {tool : Tool} (hout : toolRun env e a maxFile file tool = .ok out) :
    Emitted out := by
  obtain ⟨_, -, hw⟩ := @toolRun_written ⟨⟨env, e, a, maxFile⟩, tool⟩ file out hout
  exact hw.emitted

/-- **Every command writes containers that a writer emitted.** -/
theorem Command.Makes.emitted (hm : cmd.Makes h files path bytes) : Emitted bytes := by
  cases cmd with
  | merge =>
    obtain ⟨-, _, -, hout⟩ := hm
    exact mergeFiles_emitted hout
  | split =>
    obtain ⟨_, _, -, -, hout, -⟩ := hm
    exact hout
  | repack =>
    obtain ⟨-, _, _, -, -, hout⟩ := hm
    exact toolRun_emitted hout
  | importCsv | importJson =>
    obtain ⟨-, _, _, -, hout⟩ := hm
    exact importRows_emitted hout
  | sample =>
    obtain ⟨-, _, _, _, _, -, hout⟩ := hm
    obtain ⟨_, _, -, hw⟩ := sampleFile_mask hout
    exact hw.emitted
  | select | dedup | sign =>
    obtain ⟨-, _, -, hout⟩ := hm
    exact toolRun_emitted hout
  | _ => exact hm.elim

end Makes

/-! ## What an invocation leaves -/

section Leaves

variable (h : Host δ) (files : FileStore)

/-- A command that saves one file leaves a prefix of what it made, and all of it if it returns 0. -/
theorem cliSave_leaves {outPath : CStr} {r : Res (Bytes × Bytes)} {P : Bytes → Bytes → Prop}
    (hr : ∀ bytes line, r = .ok (bytes, line) → P outPath.val bytes) :
    Leaves (fun path left => ∃ bytes, P path bytes ∧ left <+: bytes ∧
        ((cliSave h files outPath r).code = 0 → left = bytes))
      files (cliSave h files outPath r).files := by
  cases r with
  | error rc => exact Leaves.refl _ files
  | ok p =>
    obtain ⟨bytes, line⟩ := p
    have hmade := hr bytes line rfl
    have hleft := Files.save_leaves h.disk outPath.val bytes files
    rcases hsave : Files.save h.disk outPath.val bytes files with ⟨done, files'⟩
    rw [hsave] at hleft
    have hrun : cliSave h files outPath (.ok (bytes, line)) =
        if done then ⟨0, line, files'⟩ else ⟨1, [], files'⟩ := by
      rw [cliSave, hsave]
      cases done <;> rfl
    rw [hrun]
    cases done with
    | false =>
      refine hleft.mono ?_
      rintro path left ⟨rfl, hpre⟩
      exact ⟨bytes, hmade, hpre, fun hcode => by cases hcode⟩
    | true =>
      rw [Files.save_ok hsave]
      intro path
      by_cases hpath : path = outPath.val
      · subst hpath
        exact .inr ⟨bytes, Function.update_self .., bytes, hmade, List.prefix_rfl, fun _ => rfl⟩
      · exact .inl (Function.update_of_ne hpath _ _)

/-- A command that saves one file and returns 0 has made it and saved it. -/
theorem cliSave_done {outPath : CStr} {r : Res (Bytes × Bytes)}
    (hcode : (cliSave h files outPath r).code = 0) :
    ∃ bytes line, r = .ok (bytes, line) ∧
      (cliSave h files outPath r).files = Function.update files outPath.val (some bytes) := by
  cases r with
  | error rc => cases hcode
  | ok p =>
    obtain ⟨bytes, line⟩ := p
    refine ⟨bytes, line, rfl, ?_⟩
    unfold cliSave at hcode ⊢
    dsimp only at hcode ⊢
    split at hcode
    · rename_i files' hsave
      exact Files.save_ok hsave
    · cases hcode

end Leaves

/-! ## Splitting -/

section Split

variable {h : Host δ} {outDir pfx : CStr}

/-- With its file written, `splitBytes` is `dtl_split_write_tag`. -/
theorem splitBytes_write {a arena : Arena} {tag : UInt8} {recs : List Record} {bytes : Bytes}
    {opens : Bytes → Bool} {files : FileStore} {written : List SplitWrite}
    (hb : splitBytes h a tag recs = .ok (bytes, arena)) (hopen : opens (splitPath outDir pfx tag) = true) :
    splitWriteTag h.emitTag opens outDir pfx tag recs ⟨a, files, written⟩ =
      .ok ⟨arena, Function.update files (splitPath outDir pfx tag) (some bytes),
        written ++ [⟨tag, splitPath outDir pfx tag, bytes⟩]⟩ := by
  simp only [splitBytes, Except.bind_eq_ok, Except.pure_eq_ok, Except.ok.injEq, Prod.mk.injEq] at hb
  obtain ⟨w, hw, bytes', hfin, rfl, rfl⟩ := hb
  simp only [splitWriteTag, hw, hfin, Except.bind_ok_eq, failIf_neg (by simp [hopen] :
    ¬ opens (splitPath outDir pfx tag) = false)]
  rfl

theorem splitBytes_holds {a arena : Arena} {tag : UInt8} {recs : List Record} {bytes : Bytes}
    (hrecs : ∀ rec ∈ recs, rec.Parseable) (hb : splitBytes h a tag recs = .ok (bytes, arena)) :
    Emitted bytes ∧ HoldsTag tag recs bytes := by
  have hwrite : splitWriteTag h.emitTag (fun _ => true) (cstr []) (cstr []) tag recs
      ⟨a, fun _ => none, []⟩ = .ok ⟨arena, Function.update (fun _ => none)
        (splitPath (cstr []) (cstr []) tag) (some bytes),
        [⟨tag, splitPath (cstr []) (cstr []) tag, bytes⟩]⟩ := splitBytes_write hb rfl
  obtain ⟨bytes', hholds, hfiles, -⟩ := splitWriteTag_ok hrecs hwrite
  have hat := congrFun hfiles (splitPath (cstr []) (cstr []) tag)
  simp only [Function.update_self, Option.some.injEq] at hat
  subst hat
  simp only [splitBytes, Except.bind_eq_ok, Except.pure_eq_ok, Except.ok.injEq, Prod.mk.injEq] at hb
  obtain ⟨w, hw, bytes', hfin, rfl, -⟩ := hb
  exact ⟨⟨w, _, emitGroup_refines (writerInit_refines a) hw, hfin⟩, hholds⟩

/-- The loop does nothing after a failure. -/
theorem splitStep_failed {c : SplitCtx} : ∀ (tags : List UInt8) {st : SplitProgress},
    st.failed.isSome = true → tags.foldl (splitStep h outDir pfx c) st = st
  | [], _, _ => rfl
  | t :: tags, st, hst => by
    have hstep : splitStep h outDir pfx c st t = st := if_pos (.inl hst)
    rw [List.foldl_cons, hstep]
    exact splitStep_failed tags hst

/-- A step of the loop leaves the file of its tag, whole unless the loop fails. -/
theorem splitStep_leaves {c : SplitCtx} {recs : List Record} (hc : SplitHolds c recs)
    (hrecs : ∀ rec ∈ recs, rec.Parseable) (st : SplitProgress) (tag : UInt8) :
    Leaves (fun path left => ∃ bytes t, path = splitPath outDir pfx t ∧ Emitted bytes ∧
        HoldsTag t (withTag t recs) bytes ∧ left <+: bytes ∧
        ((splitStep h outDir pfx c st tag).failed = none → left = bytes))
      st.files (splitStep h outDir pfx c st tag).files := by
  unfold splitStep
  split
  · exact Leaves.refl _ _
  · dsimp only
    rw [splitRecords_eq hc]
    cases hb : splitBytes h st.arena tag (withTag tag recs) with
    | error rc => exact Leaves.refl _ _
    | ok p =>
      obtain ⟨bytes, arena⟩ := p
      obtain ⟨hemitted, hholds⟩ := splitBytes_holds
        (fun rec hrec => hrecs rec (List.mem_filter.mp hrec).1) hb
      dsimp only
      have hleft := Files.save_leaves h.disk (splitPath outDir pfx tag) bytes st.files
      rcases hsave : Files.save h.disk (splitPath outDir pfx tag) bytes st.files with ⟨done, files'⟩
      rw [hsave] at hleft
      cases done with
      | false =>
        exact hleft.mono fun path left hw => ⟨bytes, tag, hw.1, hemitted, hholds, hw.2,
          fun hnone => by cases hnone⟩
      | true =>
        rw [Files.save_ok hsave]
        intro path
        by_cases hpath : path = splitPath outDir pfx tag
        · subst hpath
          exact .inr ⟨bytes, Function.update_self .., bytes, tag, rfl, hemitted, hholds,
            List.prefix_rfl, fun _ => rfl⟩
        · exact .inl (Function.update_of_ne hpath _ _)

/-- **So does the loop.** -/
theorem splitLoop_leaves {c : SplitCtx} {recs : List Record} (hc : SplitHolds c recs)
    (hrecs : ∀ rec ∈ recs, rec.Parseable) : ∀ (tags : List UInt8) (st : SplitProgress),
    Leaves (fun path left => ∃ bytes t, path = splitPath outDir pfx t ∧ Emitted bytes ∧
        HoldsTag t (withTag t recs) bytes ∧ left <+: bytes ∧
        ((tags.foldl (splitStep h outDir pfx c) st).failed = none → left = bytes))
      st.files (tags.foldl (splitStep h outDir pfx c) st).files
  | [], st => Leaves.refl _ _
  | t :: tags, st => by
    rw [List.foldl_cons]
    refine Leaves.trans ((splitStep_leaves hc hrecs st t).mono ?_) (splitLoop_leaves hc hrecs tags _)
    rintro path left ⟨bytes, t', hpath, hemitted, hholds, hpre, hwhole⟩
    refine ⟨bytes, t', hpath, hemitted, hholds, hpre, fun hnone => hwhole ?_⟩
    -- a step that failed is where the loop ends
    cases hfailed : (splitStep h outDir pfx c st t).failed with
    | none => rfl
    | some rc =>
      rw [splitStep_failed tags (by simp [hfailed])] at hnone
      exact hfailed.symm.trans hnone

/-- A step that succeeds is one of `splitFile`'s. -/
theorem splitStep_done {c : SplitCtx} {st : SplitProgress} {tag : UInt8} (written : List SplitWrite)
    (hst : st.failed = none) (hdone : (splitStep h outDir pfx c st tag).failed = none) :
    ∃ written', splitTag h.emitTag h.disk.opens h.junk outDir pfx c ⟨st.arena, st.files, written⟩ tag =
      .ok ⟨(splitStep h outDir pfx c st tag).arena, (splitStep h outDir pfx c st tag).files, written'⟩ := by
  unfold splitStep at hdone ⊢
  unfold splitTag
  by_cases h0 : (c tag).count = 0
  · rw [if_pos h0, if_pos (Or.inr h0)]
    exact ⟨written, rfl⟩
  · have hgo : ¬ (st.failed.isSome = true ∨ (c tag).count = 0) := by simp [hst, h0]
    rw [if_neg hgo] at hdone
    rw [if_neg h0, if_neg hgo]
    dsimp only at hdone ⊢
    cases hb : splitBytes h st.arena tag (splitRecords (h.junk tag) (c tag)) with
    | error rc =>
      rw [hb] at hdone
      cases hdone
    | ok p =>
      obtain ⟨bytes, arena⟩ := p
      rw [hb] at hdone
      dsimp only at hdone ⊢
      rcases hsave : Files.save h.disk (splitPath outDir pfx tag) bytes st.files with ⟨done, files'⟩
      rw [hsave] at hdone
      cases done with
      | false => cases hdone
      | true =>
        rw [Files.save_ok hsave]
        exact ⟨_, splitBytes_write hb (Files.save_opens hsave)⟩

theorem splitLoop_done {c : SplitCtx} : ∀ (tags : List UInt8) {st : SplitProgress}
    (written : List SplitWrite), (tags.foldl (splitStep h outDir pfx c) st).failed = none →
      ∃ written', tags.foldlM (splitTag h.emitTag h.disk.opens h.junk outDir pfx c)
        ⟨st.arena, st.files, written⟩ =
          .ok ⟨(tags.foldl (splitStep h outDir pfx c) st).arena,
            (tags.foldl (splitStep h outDir pfx c) st).files, written'⟩
  | [], st, written, _ => ⟨written, rfl⟩
  | t :: tags, st, written, hdone => by
    have hnone : ∀ ts : List UInt8, ∀ st' : SplitProgress,
        (ts.foldl (splitStep h outDir pfx c) st').failed = none → st'.failed = none := by
      intro ts st' hd
      cases hfailed : st'.failed with
      | none => rfl
      | some rc =>
        rw [splitStep_failed ts (by simp [hfailed])] at hd
        exact hfailed.symm.trans hd
    rw [List.foldl_cons] at hdone ⊢
    obtain ⟨written₁, hstep⟩ := splitStep_done written (hnone (t :: tags) st hdone) (hnone tags _ hdone)
    obtain ⟨written', hrest⟩ := splitLoop_done tags written₁ hdone
    exact ⟨written', by rw [List.foldlM_cons, hstep]; exact hrest⟩

/-- **A split that returns 0 is `splitFile`'s.** -/
theorem cliSplit_done {files : FileStore} {path : CStr}
    (hcode : (cliSplit h files path outDir pfx).code = 0) :
    ∃ data st, openFile h files path = .ok data ∧
      splitFile (h.walk 0) h.emitTag h.disk.opens h.junk outDir pfx h.arena CLI_MAX_FILE files data =
        .ok st ∧ (cliSplit h files path outDir pfx).files = st.files := by
  unfold cliSplit at hcode ⊢
  split at hcode
  · cases hcode
  · rename_i data hdata
    split at hcode
    · cases hcode
    · rename_i c hwalk
      rw [hdata]
      dsimp only at hcode ⊢
      unfold splitFile
      generalize mergeTags = tags at hcode ⊢
      have hnone : (tags.foldl (splitStep h outDir pfx c) ⟨h.arena, files, [], none⟩).failed = none := by
        simpa using hcode
      obtain ⟨written, hloop⟩ := splitLoop_done tags [] hnone
      exact ⟨data, _, rfl, by rw [hwalk]; exact hloop, rfl⟩

end Split

/-! ## What an invocation leaves -/

section Invocation

variable (h : Host δ) (files : FileStore)

@[simp] theorem cliPrint_files (r : Res Bytes) : (cliPrint files r).files = files := by
  cases r <;> rfl

@[simp] theorem cliEmitted_files (filter : Option Ast) (r : Res Container) :
    (cliEmitted h files filter r).files = files := by
  cases r with
  | error rc => rfl
  | ok cont =>
    unfold cliEmitted
    dsimp only
    split <;> rfl

/-- A command without outputs changes no file. -/
theorem run_readonly {cmd : Command} (hcmd : cmd.outputs = []) : (cmd.run h files).files = files := by
  cases cmd with
  | decode path => exact cliEmitted_files h files _ _
  | verify path key =>
    show (cliVerifyPath h files path key).files = files
    unfold cliVerifyPath
    split <;> rfl
  | query expr path =>
    show (cliQuery h files expr path).files = files
    unfold cliQuery
    split
    · rfl
    · exact cliEmitted_files h files _ _
  | exportTo path fmtName =>
    show (cliExport h files path fmtName).files = files
    unfold cliExport
    split
    · rfl
    · split
      · rfl
      · split <;> rfl
  | validate path => rfl
  | diff pathA pathB =>
    show (cliDiff h files pathA pathB).files = files
    unfold cliDiff
    split
    · split <;> rfl
    · rfl
  | dump | stats | index | timeline | topk => exact cliPrint_files files _
  | split path outDir pfx => simp [Command.outputs, mergeTags] at hcmd
  | _ => cases hcmd

theorem cliSplit_leaves (inPath outDir pfx : CStr) :
    Leaves (fun path left => ∃ bytes, (Command.split inPath outDir pfx).Makes h files path bytes ∧
        left <+: bytes ∧ ((cliSplit h files inPath outDir pfx).code = 0 → left = bytes))
      files (cliSplit h files inPath outDir pfx).files := by
  unfold cliSplit
  split
  · exact Leaves.refl _ files
  · rename_i data hdata
    split
    · exact Leaves.refl _ files
    · rename_i c hwalk
      obtain ⟨⟨cont, hparse⟩, rfl⟩ := walkAbsorb_records hwalk
      have hrecs : ∀ rec ∈ (delivered (h.walk 0) data).map (·.record), rec.Parseable := by
        intro rec hrec
        obtain ⟨it, hit, rfl⟩ := List.mem_map.mp hrec
        exact delivered_parseable hparse it hit
      have hc := splitRecords_holds ((delivered (h.walk 0) data).map (·.record)) splitInit_holds
      rw [List.nil_append] at hc
      generalize mergeTags = tags
      refine (splitLoop_leaves hc hrecs tags ⟨h.arena, files, [], none⟩).mono ?_
      rintro path left ⟨bytes, t, hpath, hemitted, hholds, hpre, hwhole⟩
      refine ⟨bytes, ⟨data, t, hdata, hpath, hemitted, hholds⟩, hpre, fun hcode => hwhole ?_⟩
      simpa using hcode

/-- **What a command leaves of the files.** Whatever the medium does and however the command ends, a
path that changed holds a prefix of bytes the command made for it, and all of them if it returned 0. -/
theorem run_leaves (cmd : Command) :
    Leaves (fun path left => ∃ bytes, cmd.Makes h files path bytes ∧ left <+: bytes ∧
        ((cmd.run h files).code = 0 → left = bytes))
      files (cmd.run h files).files := by
  cases cmd with
  | merge outPath paths =>
    refine cliSave_leaves h files fun bytes line hr => ?_
    simp only [Except.bind_eq_ok, Except.pure_eq_ok, Except.ok.injEq, Prod.mk.injEq] at hr
    obtain ⟨inputs, hinputs, bytes', hout, rfl, -⟩ := hr
    exact ⟨rfl, inputs, hinputs, hout⟩
  | split inPath outDir pfx => exact cliSplit_leaves h files inPath outDir pfx
  | repack inPath outPath codecName =>
    refine cliSave_leaves h files fun bytes line hr => ?_
    simp only [Except.bind_eq_ok, Except.pure_eq_ok, Except.ok.injEq, Prod.mk.injEq] at hr
    obtain ⟨id, hid, -, -, data, hdata, bytes', hout, rfl, -⟩ := hr
    exact ⟨rfl, id, data, hid, hdata, hout⟩
  | select expr inPath outPath =>
    refine cliSave_leaves h files fun bytes line hr => ?_
    simp only [Except.bind_eq_ok, Except.pure_eq_ok, Except.ok.injEq, Prod.mk.injEq] at hr
    obtain ⟨data, hdata, ⟨bytes', kept⟩, hout, rfl, -⟩ := hr
    exact ⟨rfl, data, hdata, map_eq_ok.mpr ⟨_, hout, rfl⟩⟩
  | importCsv csvPath outPath =>
    refine cliSave_leaves h files fun bytes line hr => ?_
    simp only [cliReadFile, Except.bind_eq_ok, Except.pure_eq_ok, Except.ok.injEq, Prod.mk.injEq] at hr
    obtain ⟨data', ⟨data, hdata, -, -, rfl⟩, ⟨bytes', n⟩, hout, rfl, -⟩ := hr
    exact ⟨rfl, data, n, hdata, hout⟩
  | importJson jsonPath outPath =>
    refine cliSave_leaves h files fun bytes line hr => ?_
    simp only [cliReadFile, Except.bind_eq_ok, Except.pure_eq_ok, Except.ok.injEq, Prod.mk.injEq] at hr
    obtain ⟨data', ⟨data, hdata, -, -, rfl⟩, ⟨bytes', n⟩, hout, rfl, -⟩ := hr
    exact ⟨rfl, data, n, hdata, hout⟩
  | dedup inPath outPath =>
    refine cliSave_leaves h files fun bytes line hr => ?_
    simp only [Except.bind_eq_ok, Except.pure_eq_ok, Except.ok.injEq, Prod.mk.injEq] at hr
    obtain ⟨data, hdata, ⟨bytes', dropped⟩, hout, rfl, -⟩ := hr
    exact ⟨rfl, data, hdata, map_eq_ok.mpr ⟨_, hout, rfl⟩⟩
  | sample inPath outPath nStr seedStr =>
    refine cliSave_leaves h files fun bytes line hr => ?_
    simp only [Except.bind_eq_ok, Except.pure_eq_ok, Except.ok.injEq, Prod.mk.injEq] at hr
    obtain ⟨n, -, seed, -, -, -, data, hdata, ⟨bytes', taken⟩, hout, rfl, -⟩ := hr
    exact ⟨rfl, n, _, data, taken, hdata, hout⟩
  | sign inPath outPath key =>
    refine cliSave_leaves h files fun bytes line hr => ?_
    simp only [Except.bind_eq_ok, Except.pure_eq_ok, Except.ok.injEq, Prod.mk.injEq] at hr
    obtain ⟨data, hdata, bytes', hout, rfl, -⟩ := hr
    exact ⟨rfl, data, hdata, hout⟩
  | _ =>
    rw [run_readonly h files rfl]
    exact Leaves.refl _ files

end Invocation

/-! ## Sessions -/

/-- An invocation of the program, with the arguments after its name. -/
structure Invocation (δ : Type) where
  host : Host δ
  argv : List CStr

def Invocation.run (files : FileStore) (inv : Invocation δ) : Outcome := cliMain inv.host files inv.argv

/-- The paths that the arguments name as outputs. -/
def Invocation.outputs (inv : Invocation δ) : List Bytes :=
  match parseArgs inv.argv with
  | none => []
  | some cmd => cmd.outputs

/-- The files after the invocations, one after the other. -/
def sessionRun (files : FileStore) (invs : List (Invocation δ)) : FileStore :=
  invs.foldl (fun files inv => (inv.run files).files) files

/-- The codes they return. -/
def sessionCodes : FileStore → List (Invocation δ) → List Nat
  | _, [] => []
  | files, inv :: invs => (inv.run files).code :: sessionCodes (inv.run files).files invs

/-- What one invocation leaves. -/
theorem invocation_leaves (files : FileStore) (inv : Invocation δ) :
    Leaves (fun path left => path ∈ inv.outputs ∧ ∃ bytes, Emitted bytes ∧ left <+: bytes ∧
        ((inv.run files).code = 0 → left = bytes)) files (inv.run files).files := by
  unfold Invocation.run Invocation.outputs cliMain
  cases parseArgs inv.argv with
  | none => exact Leaves.refl _ files
  | some cmd =>
    refine (run_leaves inv.host files cmd).mono ?_
    rintro path left ⟨bytes, hmakes, hleft⟩
    exact ⟨hmakes.mem_outputs, bytes, hmakes.emitted, hleft⟩

/-- What a session leaves. -/
theorem session_leaves : ∀ (invs : List (Invocation δ)) (files : FileStore),
    Leaves (fun path left => (∃ inv ∈ invs, path ∈ inv.outputs) ∧ ∃ bytes, Emitted bytes ∧
        left <+: bytes ∧ ((∀ code ∈ sessionCodes files invs, code = 0) → left = bytes))
      files (sessionRun files invs)
  | [], files => Leaves.refl _ files
  | inv :: invs, files => by
    refine Leaves.trans ((invocation_leaves files inv).mono ?_)
      ((session_leaves invs (inv.run files).files).mono ?_)
    · rintro path left ⟨hout, bytes, hemitted, hpre, hwhole⟩
      exact ⟨⟨inv, by simp, hout⟩, bytes, hemitted, hpre, fun hcodes => hwhole (hcodes _ (by
        simp [sessionCodes]))⟩
    · rintro path left ⟨⟨inv', hinv', hout⟩, bytes, hemitted, hpre, hwhole⟩
      refine ⟨⟨inv', by simp [hinv'], hout⟩, bytes, hemitted, hpre, fun hcodes => hwhole ?_⟩
      exact fun code hcode => hcodes code (by simp [sessionCodes, hcode])

/-- The tool that a command calls, with its input and its output. -/
def Command.tool : Command → Option (CStr × Tool × CStr)
  | repack inPath outPath codecName =>
    match argNumber codecName with
    | .ok id => some (inPath, .repack (UInt8.ofNat id), outPath)
    | .error _ => none
  | select expr inPath outPath => some (inPath, .select expr, outPath)
  | dedup inPath outPath => some (inPath, .dedup, outPath)
  | sign inPath outPath key => some (inPath, .sign key, outPath)
  | _ => none

/-- What a host gives a tool. -/
def Host.toolEnv (h : Host δ) : ToolEnv := ⟨h.walk 0, h.emit, h.arena, CLI_MAX_FILE⟩

/-- A command that calls a tool and returns 0 has written what the tool makes of its input. -/
theorem run_tool {h : Host δ} {files : FileStore} {cmd : Command} {inPath outPath : CStr} {tool : Tool}
    (hcmd : cmd.tool = some (inPath, tool, outPath)) (hcode : (cmd.run h files).code = 0) :
    ∃ data out, openFile h files inPath = .ok data ∧
      ToolCall.run data ⟨h.toolEnv, tool⟩ = .ok out ∧
      (cmd.run h files).files = Function.update files outPath.val (some out) := by
  cases cmd with
  | repack i o name =>
    obtain ⟨bytes, line, hr, hfiles⟩ := cliSave_done h files hcode
    simp only [Except.bind_eq_ok, Except.pure_eq_ok, Except.ok.injEq, Prod.mk.injEq] at hr
    obtain ⟨id, hid, -, -, data, hdata, bytes', hout, rfl, -⟩ := hr
    simp only [Command.tool, hid, Option.some.injEq, Prod.mk.injEq] at hcmd
    obtain ⟨rfl, rfl, rfl⟩ := hcmd
    exact ⟨data, bytes', hdata, hout, hfiles⟩
  | select expr i o =>
    obtain ⟨bytes, line, hr, hfiles⟩ := cliSave_done h files hcode
    simp only [Except.bind_eq_ok, Except.pure_eq_ok, Except.ok.injEq, Prod.mk.injEq] at hr
    obtain ⟨data, hdata, ⟨bytes', kept⟩, hout, rfl, -⟩ := hr
    cases hcmd
    exact ⟨data, bytes', hdata, map_eq_ok.mpr ⟨_, hout, rfl⟩, hfiles⟩
  | dedup i o =>
    obtain ⟨bytes, line, hr, hfiles⟩ := cliSave_done h files hcode
    simp only [Except.bind_eq_ok, Except.pure_eq_ok, Except.ok.injEq, Prod.mk.injEq] at hr
    obtain ⟨data, hdata, ⟨bytes', dropped⟩, hout, rfl, -⟩ := hr
    cases hcmd
    exact ⟨data, bytes', hdata, map_eq_ok.mpr ⟨_, hout, rfl⟩, hfiles⟩
  | sign i o key =>
    obtain ⟨bytes, line, hr, hfiles⟩ := cliSave_done h files hcode
    simp only [Except.bind_eq_ok, Except.pure_eq_ok, Except.ok.injEq, Prod.mk.injEq] at hr
    obtain ⟨data, hdata, bytes', hout, rfl, -⟩ := hr
    cases hcmd
    exact ⟨data, bytes', hdata, hout, hfiles⟩
  | _ => cases hcmd

/-- The invocations call tools, each on the file the one before it wrote: from `inPath` to `outPath`. -/
inductive Piped : CStr → List (Invocation δ) → List ToolCall → CStr → Prop where
  | nil (path : CStr) : Piped path [] [] path
  | cons {inv : Invocation δ} {invs : List (Invocation δ)} {cmd : Command} {tool : Tool}
      {calls : List ToolCall} {inPath midPath outPath : CStr} (hargs : parseArgs inv.argv = some cmd)
      (htool : cmd.tool = some (inPath, tool, midPath)) (hrest : Piped midPath invs calls outPath) :
      Piped inPath (inv :: invs) (⟨inv.host.toolEnv, tool⟩ :: calls) outPath

/-- A host with plenty of everything. -/
def plainHost : Host Int where
  disk := Files.sound
  floats := noFloats
  doubles := intDoubles
  seed := []
  walk _ := plainEnv
  emit := plainEmit
  emitTag _ := plainEmit
  arena := plainArena
  junk _ _ := .heartbeat ⟨0, 0⟩
  sample := ⟨true, true, fun _ => 0⟩
  chunk _ := some fun _ => ⟨0, 0, 0, 0⟩
  sessions _ _ := ⟨0, 0, 0, fun _ => 0, 0⟩
  entries _ _ := ⟨0, 0⟩

/-- An invocation on it. -/
def plainly (argv : List String) : Invocation Int := ⟨plainHost, argv.map lit⟩

/-- A container at the path `a`. -/
def oneFile : FileStore := fun path => if path = ascii "a" then some twoSections else none

/-- A pipeline to another file and back in place. -/
def shortSession : List (Invocation Int) :=
  [plainly ["sign", "a", "b", "--key", "07"], plainly ["dedup", "b", "b"], plainly ["repack", "b", "a", "1"]]

def shortPipeline : List ToolCall :=
  [⟨plainHost.toolEnv, .sign [7]⟩, ⟨plainHost.toolEnv, .dedup⟩, ⟨plainHost.toolEnv, .repack 1⟩]

/-- What was signed with a key verifies under it. -/
theorem Written.verifies {c : Contents} {key out : Bytes} (h : Written c (some key) out) {env : CodecEnv}
    (hs : env.scratchOk = true) :
    (cliVerify env out (some key) =
      if out.length ≤ CLI_MAX_FILE then (ascii "verify: OK\n", 0) else ([], 1)) ∧
      out.drop (out.length - HMAC_LEN) = hashMac key (out.take (out.length - HMAC_LEN)) := by
  obtain ⟨slack, w, l, hr, -, hkey, hfin⟩ := h
  obtain ⟨htake, hdrop, cont, hparse, hmac, hholds⟩ := writerFinish_trailer hr hkey hfin
  refine ⟨?_, by rw [hdrop, htake]⟩
  unfold cliVerify
  by_cases hlen : out.length ≤ CLI_MAX_FILE
  · rw [if_neg (Nat.not_lt.mpr hlen), if_pos hlen, hparse]
    dsimp only
    rw [hmac]
    dsimp only
    rw [htake, if_pos ⟨rfl, cliSpotCheck_holds hs hholds⟩]
  · rw [if_pos (Nat.lt_of_not_le hlen), if_neg hlen]

/-- All records of all files are of a kind. -/
def StoreIn (O : Record → Prop) (files : FileStore) : Prop :=
  ∀ path file, files path = some file → RecordsIn O file

/-- What a command needs to hand on records of a kind: a merge loses no cell, and what an import hands
to the writer is of the kind and parses. -/
def Command.Steady (O : Record → Prop) (h : Host δ) (files : FileStore) : Command → Prop
  | merge _ paths => ∀ inputs, paths.mapM (openFile h files) = .ok inputs →
      Stable (walkedRecords (h.walk 0) inputs)
  | importCsv csvPath _ => ∀ data recs, openFile h files csvPath = .ok data →
      handed (csvRows h.floats data) = .ok recs → ∀ rec ∈ recs, rec.Parseable ∧ O rec
  | importJson jsonPath _ => ∀ data recs, openFile h files jsonPath = .ok data →
      handed (jsonRows h.floats data) = .ok recs → ∀ rec ∈ recs, rec.Parseable ∧ O rec
  | _ => True

/-- So does every command of a session, on the files as it finds them. -/
def SessionSteady (O : Record → Prop) : FileStore → List (Invocation δ) → Prop
  | _, [] => True
  | files, inv :: invs => (∀ cmd, parseArgs inv.argv = some cmd → cmd.Steady O inv.host files) ∧
      SessionSteady O (inv.run files).files invs

section Records

variable {O : Record → Prop} {h : Host δ} {files : FileStore}

theorem StoreIn.opened (hst : StoreIn O files) {path : CStr} {data : Bytes}
    (hopen : openFile h files path = .ok data) : RecordsIn O data := hst _ _ (openFile_ok hopen)

theorem StoreIn.inputs (hst : StoreIn O files) : ∀ {paths : List CStr} {inputs : List Bytes},
    paths.mapM (openFile h files) = .ok inputs → ∀ file ∈ inputs, RecordsIn O file
  | [], inputs, hm => by
    cases hm
    simp
  | path :: paths, inputs, hm => by
    simp only [List.mapM_cons, Except.bind_eq_ok, Except.pure_eq_ok, Except.ok.injEq] at hm
    obtain ⟨data, hdata, rest, hrest, rfl⟩ := hm
    exact List.forall_mem_cons.mpr ⟨hst.opened hdata, hst.inputs hrest⟩

/-- **A command makes containers of records that it found.** -/
theorem Command.Makes.recordsIn {cmd : Command} {path bytes : Bytes}
    (hm : cmd.Makes h files path bytes) (hs : cmd.Steady O h files) (hst : StoreIn O files) :
    RecordsIn O bytes := by
  cases cmd with
  | merge =>
    obtain ⟨-, inputs, hinputs, hout⟩ := hm
    exact mergeFiles_records hout (hs inputs hinputs) (hst.inputs hinputs)
  | split =>
    obtain ⟨data, t, hdata, -, -, hout⟩ := hm
    refine holdsTag_records hout fun rec hrec => ?_
    have hmem := (List.mem_filter.mp hrec).1
    refine ⟨walkedRecords_parseable (h.walk 0) [data] rec ?_, (hst.opened hdata).walked _ rec hmem⟩
    rwa [walkedRecords, List.flatMap_singleton]
  | repack =>
    obtain ⟨-, id, data, -, hdata, hout⟩ := hm
    exact toolRun_records hout (hst.opened hdata)
  | importCsv =>
    obtain ⟨-, data, n, hdata, hout⟩ := hm
    exact importRows_records hout fun recs hrecs => hs data recs hdata hrecs
  | importJson =>
    obtain ⟨-, data, n, hdata, hout⟩ := hm
    exact importRows_records hout fun recs hrecs => hs data recs hdata hrecs
  | sample =>
    obtain ⟨-, n, seed, data, taken, hdata, hout⟩ := hm
    exact sampleFile_records hout (hst.opened hdata)
  | select | dedup | sign =>
    obtain ⟨-, data, hdata, hout⟩ := hm
    exact toolRun_records hout (hst.opened hdata)
  | _ => exact hm.elim

/-- A file that was written in part delivers nothing. -/
theorem recordsIn_torn {left bytes : Bytes} (hemitted : Emitted bytes) (hpre : left <+: bytes)
    (hbytes : RecordsIn O bytes) : RecordsIn O left := by
  by_cases hparse : ∃ cont, containerParse left = .ok cont
  · obtain ⟨cont, hparse⟩ := hparse
    rwa [hemitted.torn hpre hparse]
  · exact recordsIn_of_reject fun cont hcont => hparse ⟨cont, hcont⟩

theorem invocation_storeIn {inv : Invocation δ}
    (hs : ∀ cmd, parseArgs inv.argv = some cmd → cmd.Steady O inv.host files) (hst : StoreIn O files) :
    StoreIn O (inv.run files).files := by
  unfold Invocation.run cliMain
  cases hparse : parseArgs inv.argv with
  | none => exact hst
  | some cmd =>
    refine (run_leaves inv.host files cmd).forall ?_ hst
    rintro path left ⟨bytes, hmakes, hpre, -⟩
    exact recordsIn_torn hmakes.emitted hpre (hmakes.recordsIn (hs cmd hparse) hst)

end Records

/-- A text with a `HEARTBEAT`. -/
def heartbeatText : Bytes := ascii "0,HEARTBEAT,1,2\n"

/-- The text at the path `t`. -/
def textFile : FileStore := fun path => if path = ascii "t" then some heartbeatText else none

/-- It is imported, merged with itself, and what comes of it is sampled. -/
def textSession : List (Invocation Int) :=
  [plainly ["import", "t", "a"], plainly ["merge", "b", "a", "a"], plainly ["sample", "b", "c", "1", "5"]]

/-- The inputs of the merge hold two records. -/
theorem textSession_merges : ((["a", "a"].map lit).mapM (openFile plainHost
    (sessionRun textFile (textSession.take 1)))).toOption.all
      (fun inputs => (walkedRecords plainEnv inputs).length ≤ 16) = true := by
  decide +kernel

end Dtl
