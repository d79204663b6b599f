import TelemetryForge.Cli.Session
import TelemetryForge.Lib.Footprint

/-!
# Sessions side by side

Several sessions share the files, and their invocations take turns in any order.  `run_alike` gives every
command its footprint: what it prints and returns depends on the files it names as inputs, and what it
leaves at a path depends on these and on what was there.

Principal results: `sessions_isolated` — a session whose inputs no other session writes goes as it goes
alone; `sessions_interleave` — sessions that keep off each other's files come to the same in any order.
-/

set_option autoImplicit false

namespace Dtl

open Footprint (Work)

variable {δ : Type}

/-! ## What a command reads -/

/-- The paths a command may read. -/
def Command.inputs : Command → List Bytes
  | decode path => [path.val]
  | verify path _ => [path.val]
  | query _ path => [path.val]
  | dump path => [path.val]
  | stats path => [path.val]
  | index path => [path.val]
  | exportTo path _ => [path.val]
  | validate path => [path.val]
  | diff pathA pathB => [pathA.val, pathB.val]
  | merge _ paths => paths.map (·.val)
  | split path _ _ => [path.val]
  | repack inPath _ _ => [inPath.val]
  | select _ inPath _ => [inPath.val]
  | importCsv csvPath _ => [csvPath.val]
  | importJson jsonPath _ => [jsonPath.val]
  | timeline path => [path.val]
  | topk path _ _ => [path.val]
  | dedup inPath _ => [inPath.val]
  | sample inPath _ _ _ => [inPath.val]
  | sign inPath _ _ => [inPath.val]

/-- Two ends of a command that was run on different files. -/
structure Alike (files files' : FileStore) (o o' : Outcome) : Prop where
  code : o.code = o'.code
  out : o.out = o'.out
  leaves : ∀ p, files p = files' p → o.files p = o'.files p

section Alike

variable (h : Host δ) {files files' : FileStore}

theorem alike_print (code : Nat) (out : Bytes) : Alike files files' ⟨code, out, files⟩ ⟨code, out, files'⟩ :=
  ⟨rfl, rfl, fun _ hp => hp⟩

theorem cliPrint_alike (r : Res Bytes) : Alike files files' (cliPrint files r) (cliPrint files' r) := by
  cases r <;> exact alike_print _ _

theorem cliEmitted_alike (filter : Option Ast) (r : Res Container) :
    Alike files files' (cliEmitted h files filter r) (cliEmitted h files' filter r) := by
  cases r with
  | error rc => exact alike_print _ _
  | ok cont =>
    unfold cliEmitted
    dsimp only
    split <;> exact alike_print _ _

theorem openFile_congr {path : CStr} (hpath : files path.val = files' path.val) :
    openFile h files path = openFile h files' path := by
  unfold openFile Files.read
  rw [hpath]

theorem cliReadFile_congr {path : CStr} (hpath : files path.val = files' path.val) :
    cliReadFile h files path = cliReadFile h files' path := by
  unfold cliReadFile
  rw [openFile_congr h hpath]

theorem openFiles_congr : ∀ {paths : List CStr}, (∀ path ∈ paths, files path.val = files' path.val) →
    paths.mapM (openFile h files) = paths.mapM (openFile h files')
  | [], _ => rfl
  | path :: paths, hpaths => by
    rw [List.forall_mem_cons] at hpaths
    rw [List.mapM_cons, List.mapM_cons, openFile_congr h hpaths.1, openFiles_congr hpaths.2]

/-! ## Writes -/

/-- A write goes as far on other files, and a path keeps what it had or gets the same. -/
theorem save_alike (p : Bytes) (bytes : Bytes) :
    (Files.save h.disk p bytes files).1 = (Files.save h.disk p bytes files').1 ∧
      ∀ q, files q = files' q →
        (Files.save h.disk p bytes files).2 q = (Files.save h.disk p bytes files').2 q := by
  unfold Files.save
  split
  · refine ⟨rfl, fun q hq => ?_⟩
    by_cases hqp : q = p
    · simp [hqp]
    · simp [hqp, hq]
  · exact ⟨rfl, fun q hq => hq⟩

theorem cliSave_alike (outPath : CStr) (r : Res (Bytes × Bytes)) :
    Alike files files' (cliSave h files outPath r) (cliSave h files' outPath r) := by
  cases r with
  | error rc => exact alike_print _ _
  | ok made =>
    obtain ⟨bytes, line⟩ := made
    obtain ⟨hdone, hleft⟩ := @save_alike δ h files files' outPath.val bytes
    unfold cliSave
    dsimp only
    generalize Files.save h.disk outPath.val bytes files = left at hdone hleft ⊢
    generalize Files.save h.disk outPath.val bytes files' = left' at hdone hleft ⊢
    obtain ⟨done, st⟩ := left
    obtain ⟨done', st'⟩ := left'
    cases hdone
    cases done <;> exact ⟨rfl, rfl, hleft⟩

/-- The loop of a split on different files. -/
structure AlikeSplits (files files' : FileStore) (st st' : SplitProgress) : Prop where
  arena : st.arena = st'.arena
  out : st.out = st'.out
  failed : st.failed = st'.failed
  leaves : ∀ p, files p = files' p → st.files p = st'.files p

theorem splitStep_alike {outDir pfx : CStr} {c : SplitCtx} {st st' : SplitProgress} (tag : UInt8)
    (hst : AlikeSplits files files' st st') : AlikeSplits files files' (splitStep h outDir pfx c st tag)
      (splitStep h outDir pfx c st' tag) := by
  unfold splitStep
  rw [← hst.failed, ← hst.arena]
  split
  · exact hst
  dsimp only
  split
  · exact ⟨rfl, hst.out, rfl, hst.leaves⟩
  rename_i bytes arena _
  obtain ⟨hdone, hleft⟩ := @save_alike δ h st.files st'.files (splitPath outDir pfx tag) bytes
  generalize Files.save h.disk (splitPath outDir pfx tag) bytes st.files = left at hdone hleft ⊢
  generalize Files.save h.disk (splitPath outDir pfx tag) bytes st'.files = left' at hdone hleft ⊢
  obtain ⟨done, left⟩ := left
  obtain ⟨done', left'⟩ := left'
  cases hdone
  have hleaves : ∀ p, files p = files' p → left p = left' p := fun p hp => hleft p (hst.leaves p hp)
  cases done with
  | true => exact ⟨rfl, by rw [hst.out], rfl, hleaves⟩
  | false => exact ⟨rfl, hst.out, rfl, hleaves⟩

theorem splitLoop_alike {outDir pfx : CStr} {c : SplitCtx} : ∀ (tags : List UInt8)
    {st st' : SplitProgress}, AlikeSplits files files' st st' →
      AlikeSplits files files' (tags.foldl (splitStep h outDir pfx c) st)
        (tags.foldl (splitStep h outDir pfx c) st')
  | [], _, _, hst => hst
  | tag :: tags, _, _, hst => splitLoop_alike tags (splitStep_alike h tag hst)

theorem cliSplit_alike {path : CStr} (outDir pfx : CStr) (hpath : files path.val = files' path.val) :
    Alike files files' (cliSplit h files path outDir pfx) (cliSplit h files' path outDir pfx) := by
  unfold cliSplit
  rw [openFile_congr h hpath]
  split
  · exact alike_print _ _
  split
  · exact alike_print _ _
  rename_i c _
  generalize mergeTags = tags
  have hloop := @splitLoop_alike δ h files files' outDir pfx c tags ⟨h.arena, files, [], none⟩
    ⟨h.arena, files', [], none⟩ ⟨rfl, rfl, rfl, fun _ hp => hp⟩
  refine ⟨?_, hloop.out, hloop.leaves⟩
  dsimp only
  rw [hloop.failed]

/-! ## The footprint of a command -/

/-- **What a command comes to depends on the files it names.** -/
theorem run_alike (cmd : Command) (hin : ∀ p ∈ cmd.inputs, files p = files' p) :
    Alike files files' (cmd.run h files) (cmd.run h files') := by
  cases cmd with
  | decode path =>
    simp only [Command.run, cliDecode, cliReadFile_congr h (hin _ (List.mem_singleton_self _))]
    exact cliEmitted_alike h _ _
  | verify path key =>
    simp only [Command.run, cliVerifyPath, openFile_congr h (hin _ (List.mem_singleton_self _))]
    split <;> exact alike_print _ _
  | query expr path =>
    simp only [Command.run, cliQuery, cliReadFile_congr h (hin _ (List.mem_singleton_self _))]
    split
    · exact alike_print _ _
    · exact cliEmitted_alike h _ _
  | dump path =>
    simp only [Command.run, cliDump, cliReadFile_congr h (hin _ (List.mem_singleton_self _))]
    exact cliPrint_alike _
  | stats path =>
    simp only [Command.run, cliStats, openFile_congr h (hin _ (List.mem_singleton_self _))]
    exact cliPrint_alike _
  | index path =>
    simp only [Command.run, cliIndex, openFile_congr h (hin _ (List.mem_singleton_self _))]
    exact cliPrint_alike _
  | exportTo path fmtName =>
    simp only [Command.run, cliExport, openFile_congr h (hin _ (List.mem_singleton_self _))]
    split
    · exact alike_print _ _
    · split
      · exact alike_print _ _
      · split <;> exact alike_print _ _
  | validate path =>
    simp only [Command.run, cliValidate, validateFile, openFile_congr h (hin _ (List.mem_singleton_self _))]
    exact alike_print _ _
  | diff pathA pathB =>
    simp only [Command.run, cliDiff, openFile_congr h (hin pathA.val (by simp [Command.inputs])),
      openFile_congr h (hin pathB.val (by simp [Command.inputs]))]
    split
    · split <;> exact alike_print _ _
    · exact alike_print _ _
  | merge outPath paths =>
    have hpaths : ∀ path ∈ paths, files path.val = files' path.val :=
      fun path hmem => hin path.val (List.mem_map_of_mem hmem)
    simp only [Command.run, cliMerge, openFiles_congr h hpaths]
    exact cliSave_alike h _ _
  | split path outDir pfx => exact cliSplit_alike h outDir pfx (hin _ (List.mem_singleton_self _))
  | repack inPath outPath codecName =>
    simp only [Command.run, cliRepack, openFile_congr h (hin _ (List.mem_singleton_self _))]
    exact cliSave_alike h _ _
  | select expr inPath outPath =>
    simp only [Command.run, cliSelect, openFile_congr h (hin _ (List.mem_singleton_self _))]
    exact cliSave_alike h _ _
  | importCsv csvPath outPath =>
    simp only [Command.run, cliImport, importFile, cliReadFile_congr h (hin _ (List.mem_singleton_self _))]
    exact cliSave_alike h _ _
  | importJson jsonPath outPath =>
    simp only [Command.run, cliImportJson, importFile, cliReadFile_congr h (hin _ (List.mem_singleton_self _))]
    exact cliSave_alike h _ _
  | timeline path =>
    simp only [Command.run, cliTimeline, openFile_congr h (hin _ (List.mem_singleton_self _))]
    exact cliPrint_alike _
  | topk path field nStr =>
    simp only [Command.run, cliTopk, openFile_congr h (hin _ (List.mem_singleton_self _))]
    exact cliPrint_alike _
  | dedup inPath outPath =>
    simp only [Command.run, cliDedup, openFile_congr h (hin _ (List.mem_singleton_self _))]
    exact cliSave_alike h _ _
  | sample inPath outPath nStr seedStr =>
    simp only [Command.run, cliSample, openFile_congr h (hin _ (List.mem_singleton_self _))]
    exact cliSave_alike h _ _
  | sign inPath outPath key =>
    simp only [Command.run, cliSign, openFile_congr h (hin _ (List.mem_singleton_self _))]
    exact cliSave_alike h _ _

end Alike

/-! ## Shuffled sessions -/

/-- The paths that the arguments name as inputs. -/
def Invocation.inputs (inv : Invocation δ) : List Bytes :=
  match parseArgs inv.argv with
  | none => []
  | some cmd => cmd.inputs

theorem invocation_alike (inv : Invocation δ) {files files' : FileStore}
    (hin : ∀ p ∈ inv.inputs, files p = files' p) : Alike files files' (inv.run files) (inv.run files') := by
  unfold Invocation.run cliMain
  unfold Invocation.inputs at hin
  cases hargs : parseArgs inv.argv with
  | none => exact alike_print 2 []
  | some cmd =>
    rw [hargs] at hin
    exact run_alike inv.host cmd hin

/-- An invocation changes no path but its outputs. -/
theorem invocation_frame (inv : Invocation δ) (files : FileStore) {p : Bytes} (hp : p ∉ inv.outputs) :
    (inv.run files).files p = files p :=
  (invocation_leaves files inv).same fun _ hleft => hp hleft.1

/-- An invocation as work on the files, which yields its code and what it prints. -/
def Invocation.work (inv : Invocation δ) : Work Bytes (Option Bytes) (Nat × Bytes) where
  step files := (((inv.run files).code, (inv.run files).out), (inv.run files).files)
  reads p := p ∈ inv.inputs
  writes p := p ∈ inv.outputs
  frame files _ hp := invocation_frame inv files hp
  yields _ _ hin := Prod.ext (invocation_alike inv hin).code (invocation_alike inv hin).out
  leaves _ _ hin p hp := (invocation_alike inv hin).leaves p hp

/-- What invocations return and print, one after the other. -/
def sessionResults : FileStore → List (Invocation δ) → List (Nat × Bytes)
  | _, [] => []
  | files, inv :: invs => ((inv.run files).code, (inv.run files).out) :: sessionResults (inv.run files).files invs

section Shuffle

variable {ι : Type}

/-- The shuffle as work on the files. -/
def works (zs : List (ι × Invocation δ)) : List (ι × Work Bytes (Option Bytes) (Nat × Bytes)) :=
  zs.map fun z => (z.1, z.2.work)

theorem works_snd (zs : List (ι × Invocation δ)) :
    (works zs).map Prod.snd = (zs.map Prod.snd).map Invocation.work := by
  simp [works, Function.comp_def]

/-- A property of the work is one of the invocations. -/
theorem forall_works {P : ι × Work Bytes (Option Bytes) (Nat × Bytes) → Prop}
    {zs : List (ι × Invocation δ)} (h : ∀ z ∈ zs, P (z.1, z.2.work)) : ∀ z ∈ works zs, P z := by
  intro z hz
  obtain ⟨z, hmem, rfl⟩ := List.mem_map.mp hz
  exact h z hmem

variable [DecidableEq ι]

/-- The invocations of one session in a shuffle. -/
def sessionOf (i : ι) (zs : List (ι × Invocation δ)) : List (Invocation δ) :=
  (zs.filter fun z => z.1 = i).map Prod.snd

/-- What the invocations of one session return and print among the others. -/
def resultsOf (i : ι) : FileStore → List (ι × Invocation δ) → List (Nat × Bytes)
  | _, [] => []
  | files, z :: zs =>
    let rest := resultsOf i (z.2.run files).files zs
    if z.1 = i then ((z.2.run files).code, (z.2.run files).out) :: rest else rest

theorem finish_work : ∀ (invs : List (Invocation δ)) (files : FileStore),
    Footprint.finish files (invs.map Invocation.work) = sessionRun files invs
  | [], _ => rfl
  | inv :: invs, files => finish_work invs (inv.run files).files

theorem outcomes_work : ∀ (invs : List (Invocation δ)) (files : FileStore),
    Footprint.outcomes files (invs.map Invocation.work) = sessionResults files invs
  | [], _ => rfl
  | inv :: invs, files => congrArg _ (outcomes_work invs (inv.run files).files)

theorem outcomesOf_work (i : ι) : ∀ (zs : List (ι × Invocation δ)) (files : FileStore),
    Footprint.outcomesOf i files (works zs) = resultsOf i files zs
  | [], _ => rfl
  | z :: zs, files => by
    have ih := outcomesOf_work i zs (z.2.run files).files
    rw [resultsOf, ← ih]
    rfl

theorem session_work (i : ι) (zs : List (ι × Invocation δ)) :
    Footprint.session i (works zs) = (sessionOf i zs).map Invocation.work := by
  simp [Footprint.session, works, sessionOf, List.filter_map, Function.comp_def]

/-- **A session among others.** Any number of sessions take turns in any order, on whatever media and with
whatever memory.  When no invocation of another session may write an input of one, all its invocations
return and print what they do when the session runs alone, and wherever no other session may write the
files end as it leaves them alone. -/
theorem sessions_isolated {i : ι} {zs : List (ι × Invocation δ)}
    (h : ∀ z ∈ zs, z.1 = i → ∀ z' ∈ zs, z'.1 ≠ i → ∀ p ∈ z.2.inputs, p ∉ z'.2.outputs)
    (files : FileStore) :
    resultsOf i files zs = sessionResults files (sessionOf i zs) ∧
      ∀ p, (∀ z ∈ zs, z.1 ≠ i → p ∉ z.2.outputs) →
        sessionRun files (zs.map Prod.snd) p = sessionRun files (sessionOf i zs) p := by
  have hiso : Footprint.Isolated i (works zs) := forall_works fun z hz hi p hp =>
    forall_works fun z' hz' hne => h z hz hi z' hz' hne p hp
  obtain ⟨hout, hfin⟩ := Footprint.isolated hiso files
  rw [outcomesOf_work, session_work, outcomes_work] at hout
  refine ⟨hout, fun p hp => ?_⟩
  have hat := hfin p (forall_works hp)
  rwa [works_snd, session_work, finish_work, finish_work] at hat

/-- **Sessions in any order.** When no invocation may write a file that one of another session may read or
write, the order in which the sessions take turns makes no difference: every invocation returns and prints
the same, and the files end the same. -/
theorem sessions_interleave {zs zs' : List (ι × Invocation δ)}
    (hsame : ∀ i, sessionOf i zs = sessionOf i zs')
    (h : ∀ z ∈ zs, ∀ z' ∈ zs, z.1 ≠ z'.1 → ∀ p ∈ z.2.outputs, p ∉ z'.2.inputs ∧ p ∉ z'.2.outputs)
    (files : FileStore) :
    (∀ i, resultsOf i files zs = resultsOf i files zs') ∧
      sessionRun files (zs.map Prod.snd) = sessionRun files (zs'.map Prod.snd) := by
  have hwork : ∀ i, Footprint.session i (works zs) = Footprint.session i (works zs') := by
    intro i
    rw [session_work, session_work, hsame i]
  have hiso : ∀ i, Footprint.Isolated i (works zs) := by
    intro i
    refine forall_works fun z hz hi p hp => forall_works fun z' hz' hne hout => ?_
    exact (h z' hz' z hz (fun heq => hne (heq.trans hi)) p hout).1 hp
  have hapart : Footprint.Apart (works zs) := forall_works fun z hz =>
    forall_works fun z' hz' hne p hp => (h z hz z' hz' hne p hp).2
  obtain ⟨hout, hfin⟩ := Footprint.shuffles_agree hwork hiso hapart files
  simp only [outcomesOf_work, works_snd, finish_work] at hout hfin
  exact ⟨hout, hfin⟩

end Shuffle

/-- A session that signs and verifies, and one that drops duplicates and counts; both read `a`. -/
def shuffledOne : List (Nat × Invocation Int) :=
  [(0, plainly ["sign", "a", "b", "--key", "07"]), (1, plainly ["dedup", "a", "c"]),
    (0, plainly ["verify", "b", "--key", "07"]), (1, plainly ["stats", "c"])]

/-- The same sessions in another order. -/
def shuffledTwo : List (Nat × Invocation Int) :=
  [(1, plainly ["dedup", "a", "c"]), (1, plainly ["stats", "c"]),
    (0, plainly ["sign", "a", "b", "--key", "07"]), (0, plainly ["verify", "b", "--key", "07"])]

theorem sessions_isolated_two :
    resultsOf 0 oneFile shuffledOne = sessionResults oneFile (sessionOf 0 shuffledOne) ∧
      ∀ p, (∀ z ∈ shuffledOne, z.1 ≠ 0 → p ∉ z.2.outputs) →
        sessionRun oneFile (shuffledOne.map Prod.snd) p = sessionRun oneFile (sessionOf 0 shuffledOne) p :=
  sessions_isolated (by decide +kernel) oneFile

theorem sessions_interleave_two : (∀ i, resultsOf i oneFile shuffledOne = resultsOf i oneFile shuffledTwo) ∧
    sessionRun oneFile (shuffledOne.map Prod.snd) = sessionRun oneFile (shuffledTwo.map Prod.snd) := by
  refine sessions_interleave (fun i => ?_) (by decide +kernel) oneFile
  by_cases h0 : i = 0
  · subst h0
    rfl
  · by_cases h1 : i = 1
    · subst h1
      rfl
    · simp [sessionOf, shuffledOne, shuffledTwo, Ne.symm h0, Ne.symm h1]

end Dtl
