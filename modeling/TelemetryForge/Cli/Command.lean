import TelemetryForge.Cli.Verify
import TelemetryForge.Lib.Files
import TelemetryForge.Report.Diff
import TelemetryForge.Report.ImportJson
import TelemetryForge.Report.Index
import TelemetryForge.Report.Sample
import TelemetryForge.Report.Split
import TelemetryForge.Report.Stats
import TelemetryForge.Report.Timeline
import TelemetryForge.Report.Topk
import TelemetryForge.Report.Validate

/-!
# The commands

Model of `cli/main.c` and of the subcommands in `cli/cli.c`: an invocation takes the arguments after the
program's name and the files, and yields the exit code, what is written to `stdout` and the files
afterwards.  What goes to `stderr` is left out, and with it which of several errors comes first.

`Host` gathers what an invocation depends on besides: the medium the files are on, the memory its
decoders, writers and tables are given, and the conversions of the C library.
-/

set_option autoImplicit false

namespace Dtl

open CText Checked

/-- What an invocation depends on besides its arguments and the files. -/
structure Host (δ : Type) where
  disk : Files.Medium Bytes
  floats : FloatText
  doubles : Doubles δ
  /-- the build key -/
  seed : Bytes
  /-- the memory of the decoders, by input file and section -/
  walk : Nat → Nat → CodecEnv
  emit : EmitEnv
  /-- the writer of each tag's file in a split -/
  emitTag : UInt8 → EmitEnv
  arena : Arena
  /-- what unwritten memory reads as: in a merge, a sample, an index, a timeline and a ranking -/
  junk : UInt8 → Nat → Record
  sample : SampleMemory
  chunk : Nat → Option ChunkMemory
  sessions : Nat → Nat → TimelineSession
  entries : Nat → Nat → TopkEntry

/-- What an invocation comes to. -/
structure Outcome where
  code : Nat
  out : Bytes
  files : FileStore

/-! ## Arguments -/

/-- `dtl_cli_parse_hex`. -/
def cliParseHex (s : CStr) (outCap : Nat) : Option Bytes :=
  if s.val.length % 2 ≠ 0 then none
  else if s.val.length / 2 > outCap then none
  else unhex s.val

/-- An invocation with its arguments. -/
inductive Command where
  | decode (path : CStr)
  | verify (path : CStr) (key : Option Bytes)
  | query (expr path : CStr)
  | dump (path : CStr)
  | stats (path : CStr)
  | index (path : CStr)
  | exportTo (path fmtName : CStr)
  | validate (path : CStr)
  | diff (pathA pathB : CStr)
  | merge (outPath : CStr) (paths : List CStr)
  | split (path outDir pfx : CStr)
  | repack (inPath outPath codecName : CStr)
  | select (expr inPath outPath : CStr)
  | importCsv (csvPath outPath : CStr)
  | importJson (jsonPath outPath : CStr)
  | timeline (path : CStr)
  | topk (path field nStr : CStr)
  | dedup (inPath outPath : CStr)
  | sample (inPath outPath nStr seedStr : CStr)
  | sign (inPath outPath : CStr) (key : Bytes)
  deriving DecidableEq

/-- A C string literal. -/
def lit (s : String) : CStr := cstr (ascii s)

/-- `sizeof key` in `main`. -/
def KEY_SIZE : Nat := 256

/-- `argc != 3`. -/
def args1 (mk : CStr → Command) : List CStr → Option Command
  | [a] => some (mk a)
  | _ => none

/-- `argc != 4`. -/
def args2 (mk : CStr → CStr → Command) : List CStr → Option Command
  | [a, b] => some (mk a b)
  | _ => none

/-- `argc != 5`. -/
def args3 (mk : CStr → CStr → CStr → Command) : List CStr → Option Command
  | [a, b, c] => some (mk a b c)
  | _ => none

def argsVerify : List CStr → Option Command
  | [path] => some (.verify path none)
  | [path, opt, hex] =>
    if opt = lit "--key" then (cliParseHex hex KEY_SIZE).map fun key => .verify path (some key) else none
  | _ => none

def argsMerge : List CStr → Option Command
  | outPath :: path :: paths => some (.merge outPath (path :: paths))
  | _ => none

def argsSplit : List CStr → Option Command
  | [path, outDir] => some (.split path outDir (lit "split"))
  | [path, outDir, pfx] => some (.split path outDir pfx)
  | _ => none

def argsSample : List CStr → Option Command
  | [inPath, outPath, nStr, seedStr] => some (.sample inPath outPath nStr seedStr)
  | _ => none

def argsSign : List CStr → Option Command
  | [inPath, outPath, opt, hex] =>
    if opt = lit "--key" then (cliParseHex hex KEY_SIZE).map fun key => .sign inPath outPath key else none
  | _ => none

/-- The comparisons of `main`, in their order. -/
def subcommands : List (CStr × (List CStr → Option Command)) :=
  [(lit "decode", args1 .decode), (lit "dump", args1 .dump), (lit "query", args2 .query),
    (lit "verify", argsVerify), (lit "stats", args1 .stats), (lit "index", args1 .index),
    (lit "export", args2 .exportTo), (lit "validate", args1 .validate), (lit "diff", args2 .diff),
    (lit "merge", argsMerge), (lit "split", argsSplit), (lit "repack", args3 .repack),
    (lit "select", args3 .select), (lit "import", args2 .importCsv),
    (lit "import-json", args2 .importJson), (lit "timeline", args1 .timeline),
    (lit "topk", args3 .topk), (lit "dedup", args2 .dedup), (lit "sample", argsSample),
    (lit "sign", argsSign)]

/-- The command that the arguments spell; `none` for `usage` and for a key that is no hex, after both of
which `main` returns 2. -/
def parseArgs : List CStr → Option Command
  | [] => none
  | cmd :: args => (subcommands.lookup cmd).bind fun parse => parse args

section Run

variable {δ : Type} (h : Host δ) (files : FileStore)

/-! ## Reading -/

/-- `fopen` and `fread`. -/
def openFile (path : CStr) : Res Bytes :=
  match Files.read h.disk files path.val with
  | none => .error .io
  | some data => .ok data

/-- `dtl_cli_read_file`. -/
def cliReadFile (path : CStr) : Res Bytes := do
  let data ← openFile h files path
  failIf (data.length > CLI_MAX_FILE) .range
  return data

/-- A command that prints or fails. -/
def cliPrint : Res Bytes → Outcome
  | .error _ => ⟨1, [], files⟩
  | .ok out => ⟨0, out, files⟩

/-- The end of a command that runs `dtl_cli_emit`. -/
def cliEmitted (filter : Option Ast) : Res Container → Outcome
  | .error _ => ⟨1, [], files⟩
  | .ok cont =>
    match cliEmit h.floats h.seed (h.walk 0) cont filter with
    | (some _, out) => ⟨1, out, files⟩
    | (none, out) => ⟨0, out, files⟩

/-- `dtl_cli_decode`. -/
def cliDecode (path : CStr) : Outcome :=
  cliEmitted h files none do
    let data ← cliReadFile h files path
    containerParse data

/-- `dtl_cli_query`. -/
def cliQuery (expr path : CStr) : Outcome :=
  match queryParse expr.val with
  | .error _ => ⟨1, [], files⟩
  | .ok q =>
    cliEmitted h files (some q) do
      let data ← cliReadFile h files path
      containerParse data

/-- `dtl_cli_verify` on a path. -/
def cliVerifyPath (path : CStr) (key : Option Bytes) : Outcome :=
  match openFile h files path with
  | .error _ => ⟨1, [], files⟩
  | .ok data =>
    let (out, code) := cliVerify (h.walk 0 0) data key
    ⟨code, out, files⟩

/-- The line of a section in `dtl_cli_dump`. -/
def dumpSection (sec : Section) (i : Nat) : Bytes :=
  ascii "section " ++ decimal i ++ ascii ": type=" ++ decimal sec.type.toNat ++ ascii " codec=" ++
    decimal sec.codecId.toNat ++ ascii " raw_len=" ++ decimal sec.rawLen.toNat ++ ascii " comp_len=" ++
    decimal sec.compLen.toNat ++ ascii " offset=" ++ decimal sec.offset.toNat ++ ascii "\n"

def dumpText (cont : Container) : Bytes :=
  ascii "version=" ++ decimal cont.version.toNat ++ ascii " flags=0x" ++ hexPad 2 cont.flags.toNat ++
    ascii " sections=" ++ decimal cont.sectionCount.toNat ++ ascii " hmac=" ++
    ascii (if cont.hmac.isSome then "yes" else "no") ++ ascii "\n" ++
    cont.sections.zipIdx.flatMap fun (sec, i) => dumpSection sec i

/-- `dtl_cli_dump`. -/
def cliDump (path : CStr) : Outcome :=
  cliPrint files do
    let data ← cliReadFile h files path
    let cont ← containerParse data
    return dumpText cont

/-- `dtl_cli_stats`. -/
def cliStats (path : CStr) : Outcome :=
  cliPrint files do
    let data ← openFile h files path
    match statsCollectFile h.doubles (h.walk 0) CLI_MAX_FILE data (statsInit h.doubles) with
    | (some rc, _) => .error rc
    | (none, st) => .ok (statsPrint h.doubles st)

/-- `dtl_index_on_record`; a fault ends the walk, and shows in the state. -/
def indexWalk : Walk (Run Err Index) where
  onRecord ev st :=
    match st >>= indexAppend ev (h.chunk ev.recordIndex) with
    | .ok idx => (none, .ok idx)
    | .error (.err rc) => (some rc, st)
    | .error fault => (some .inval, .error fault)
  onError _ st := st
  maxDecode := 0

/-- `dtl_index_print`. -/
def indexPrint (idx : Index) : Bytes :=
  ascii "indexed-records: " ++ decimal idx.total ++ ascii "\npostings:\n" ++
    (List.range 256).flatMap fun tag =>
      let n := idx.perTag.getD tag 0
      if n ≠ 0 then ascii "  " ++ padRight 10 (ascii (walkTagName (UInt8.ofNat tag))) ++ ascii " " ++
        decimal n ++ ascii "\n"
      else []

/-- `dtl_cli_index`, with `dtl_index_build`. -/
def cliIndex (path : CStr) : Outcome :=
  cliPrint files do
    let data ← openFile h files path
    match walkAbsorb (h.walk 0) (indexWalk h) CLI_MAX_FILE data (.ok Index.empty) with
    | (none, .ok idx) => .ok (indexPrint idx)
    | (some rc, _) => .error rc
    | (none, .error _) => .error .inval

/-- `dtl_export_parse_format`. -/
def exportParseFormat (name : CStr) : Option ExportFormat :=
  if name = lit "csv" then some .csv
  else if name = lit "json" then some .json
  else none

/-- `dtl_cli_export`; what was written before a failure stays written. -/
def cliExport (path fmtName : CStr) : Outcome :=
  match exportParseFormat fmtName with
  | none => ⟨1, [], files⟩
  | some fmt =>
    match openFile h files path with
    | .error _ => ⟨1, exportOpening fmt ++ exportClosing fmt, files⟩
    | .ok data =>
      match exportFile (h.walk 0) h.floats fmt CLI_MAX_FILE data with
      | (some _, out) => ⟨1, out, files⟩
      | (none, out) => ⟨0, out, files⟩

/-- `dtl_validate_sev_name`. -/
def validateSevName : Severity → String
  | .info => "info"
  | .warning => "warning"
  | .error => "error"

/-- `dtl_validate_print`. -/
def validatePrint (rep : ValidateReport) : Bytes :=
  rep.issues.flatMap (fun is =>
    padRight 7 (ascii (validateSevName is.severity)) ++ ascii " section=" ++ decimal is.sectionIndex ++
      ascii " record=" ++ decimal is.recordInSec ++ ascii " " ++ is.message ++ ascii "\n") ++
    (ascii "validate: records=" ++ decimal rep.recordsChecked ++ ascii " errors=" ++
      decimal rep.errorCount ++ ascii " warnings=" ++ decimal rep.warningCount ++ ascii " -> " ++
      rep.verdict ++ ascii "\n")

/-- `dtl_validate_file`. -/
def validateFile (path : CStr) : ValidateReport :=
  match openFile h files path with
  | .error rc => validateFinish (some rc, ⟨[], 0, 0, 0⟩)
  | .ok data => validateFinish (walkAbsorb (h.walk 0) validateWalk CLI_MAX_FILE data ⟨[], 0, 0, 0⟩)

/-- `dtl_cli_validate`. -/
def cliValidate (path : CStr) : Outcome :=
  let rep := validateFile h files path
  ⟨if rep.errorCount ≠ 0 then 1 else 0, validatePrint rep, files⟩

/-- `dtl_cli_diff`. -/
def cliDiff (pathA pathB : CStr) : Outcome :=
  match openFile h files pathA, openFile h files pathB with
  | .ok dataA, .ok dataB =>
    match diffFiles h.floats (h.walk 0) (h.walk 1) none pathA.val pathB.val CLI_MAX_FILE dataA dataB with
    | (some _, _, out) => ⟨1, out, files⟩
    | (none, diffs, out) => ⟨if diffs ≠ 0 then 1 else 0, out ++ (ascii "diff: " ++ decimal diffs ++
        ascii " record(s) differ\n"), files⟩
  | _, _ => ⟨1, [], files⟩

/-- `dtl_cli_timeline`. -/
def cliTimeline (path : CStr) : Outcome :=
  cliPrint files do
    let data ← openFile h files path
    match timelineBuild (h.walk 0) h.sessions h.arena none CLI_MAX_FILE data with
    | (some rc, _) => .error rc
    | (none, c) => .ok (timelinePrint none c).flatten

/-- A number that `strtoul` reads to the end of its text. -/
def argNumber (s : CStr) : Res Nat :=
  match strtoul s.val with
  | some (n, []) => .ok n
  | _ => .error .inval

/-- `dtl_cli_topk`. -/
def cliTopk (path field nStr : CStr) : Outcome :=
  cliPrint files do
    let n ← argNumber nStr
    let data ← openFile h files path
    let lines ← topkFile (h.walk 0) h.entries h.arena CLI_MAX_FILE data field n
    return lines.flatten

/-! ## Writing -/

/-- The end of a command that writes the file at `outPath` and prints a line. -/
def cliSave (outPath : CStr) : Res (Bytes × Bytes) → Outcome
  | .error _ => ⟨1, [], files⟩
  | .ok (bytes, line) =>
    match Files.save h.disk outPath.val bytes files with
    | (true, files) => ⟨0, line, files⟩
    | (false, files) => ⟨1, [], files⟩

/-- A line of a subcommand with a number in it. -/
def countLine (before : String) (n : Nat) (behind : String) : Bytes :=
  ascii before ++ decimal n ++ ascii behind

/-- `dtl_cli_merge`. -/
def cliMerge (outPath : CStr) (paths : List CStr) : Outcome :=
  cliSave h files outPath do
    let inputs ← paths.mapM (openFile h files)
    let out ← mergeFiles (h.walk 0) h.emit h.arena h.junk CLI_MAX_FILE inputs
    return (out, [])

/-- `dtl_cli_repack`. -/
def cliRepack (inPath outPath codecName : CStr) : Outcome :=
  cliSave h files outPath do
    let id ← argNumber codecName
    failIf (id > 255) .inval
    let data ← openFile h files inPath
    let out ← repackFile (h.walk 0) h.emit h.arena (UInt8.ofNat id) CLI_MAX_FILE data
    return (out, [])

/-- `dtl_cli_select`. -/
def cliSelect (expr inPath outPath : CStr) : Outcome :=
  cliSave h files outPath do
    let data ← openFile h files inPath
    let (out, kept) ← selectFile (h.walk 0) h.emit h.arena expr CLI_MAX_FILE data
    return (out, countLine "select: kept " kept " record(s)\n")

/-- `dtl_import_csv_file` and `dtl_import_json_file`, by what they import with. -/
def importFile (memory : Bytes → Res (Bytes × Nat)) (inPath outPath : CStr) : Outcome :=
  cliSave h files outPath do
    let data ← cliReadFile h files inPath
    let (out, imported) ← memory data
    return (out, countLine "import: " imported " record(s)\n")

/-- `dtl_cli_import`. -/
def cliImport (csvPath outPath : CStr) : Outcome :=
  importFile h files (importCsvMemory h.emit h.arena h.floats) csvPath outPath

/-- `dtl_cli_import_json`. -/
def cliImportJson (jsonPath outPath : CStr) : Outcome :=
  importFile h files (importJsonMemory h.emit h.arena h.floats) jsonPath outPath

/-- `dtl_cli_dedup`. -/
def cliDedup (inPath outPath : CStr) : Outcome :=
  cliSave h files outPath do
    let data ← openFile h files inPath
    let (out, dropped) ← dedupFile (h.walk 0) h.emit h.arena CLI_MAX_FILE data
    return (out, countLine "dedup: dropped " dropped " duplicate record(s)\n")

/-- `dtl_cli_sample`. -/
def cliSample (inPath outPath nStr seedStr : CStr) : Outcome :=
  cliSave h files outPath do
    let n ← argNumber nStr
    let seed ← argNumber seedStr
    failIf (seed > 0xFFFFFFFF) .inval
    let data ← openFile h files inPath
    let (out, taken) ← sampleFile (h.walk 0) h.emit h.arena h.sample n (UInt32.ofNat seed) CLI_MAX_FILE data
    return (out, countLine "sample: took " taken " record(s)\n")

/-- `dtl_cli_sign`. -/
def cliSign (inPath outPath : CStr) (key : Bytes) : Outcome :=
  cliSave h files outPath do
    let data ← openFile h files inPath
    let out ← signFile (h.walk 0) h.emit h.arena key CLI_MAX_FILE data
    return (out, [])

/-! ## Splitting -/

/-- What the loop of `dtl_split_file` has done: the arena of its writers, the files, the text printed and
the code it returned. -/
structure SplitProgress where
  arena : Arena
  files : FileStore
  out : Bytes
  failed : Option Err

/-- The bytes of a tag's file and the arena after its writer. -/
def splitBytes (a : Arena) (tag : UInt8) (recs : List Record) : Res (Bytes × Arena) := do
  let w ← emitGroup (h.emitTag tag) (writerInit a) ⟨tag.toUInt16, CODEC_STORE, recs⟩
  let bytes ← (writerFinish w).1
  return (bytes, (writerFinish w).2.arena)

/-- `dtl_split_write_tag`, for what was collected with a tag. -/
def splitStep (outDir pfx : CStr) (c : SplitCtx) (st : SplitProgress) (tag : UInt8) : SplitProgress :=
  if st.failed.isSome ∨ (c tag).count = 0 then st
  else
    let path := splitPath outDir pfx tag
    match splitBytes h st.arena tag (splitRecords (h.junk tag) (c tag)) with
    | .error rc => { st with failed := some rc }
    | .ok (bytes, arena) =>
      match Files.save h.disk path bytes st.files with
      | (true, files) => ⟨arena, files, st.out ++ (ascii "wrote " ++ path ++
          countLine " (" (c tag).count " records)\n"), none⟩
      | (false, files) => { st with files := files, failed := some .io }

/-- `dtl_cli_split`. -/
def cliSplit (path outDir pfx : CStr) : Outcome :=
  match openFile h files path with
  | .error _ => ⟨1, [], files⟩
  | .ok data =>
    match walkAbsorb (h.walk 0) (recordWalk splitOnRecord) CLI_MAX_FILE data splitInit with
    | (some _, _) => ⟨1, [], files⟩
    | (none, c) =>
      let st := mergeTags.foldl (splitStep h outDir pfx c) ⟨h.arena, files, [], none⟩
      ⟨if st.failed.isSome then 1 else 0, st.out, st.files⟩

/-! ## The program -/

def Command.run : Command → Outcome
  | decode path => cliDecode h files path
  | verify path key => cliVerifyPath h files path key
  | query expr path => cliQuery h files expr path
  | dump path => cliDump h files path
  | stats path => cliStats h files path
  | index path => cliIndex h files path
  | exportTo path fmtName => cliExport h files path fmtName
  | validate path => cliValidate h files path
  | diff pathA pathB => cliDiff h files pathA pathB
  | merge outPath paths => cliMerge h files outPath paths
  | split path outDir pfx => cliSplit h files path outDir pfx
  | repack inPath outPath codecName => cliRepack h files inPath outPath codecName
  | select expr inPath outPath => cliSelect h files expr inPath outPath
  | importCsv csvPath outPath => cliImport h files csvPath outPath
  | importJson jsonPath outPath => cliImportJson h files jsonPath outPath
  | timeline path => cliTimeline h files path
  | topk path field nStr => cliTopk h files path field nStr
  | dedup inPath outPath => cliDedup h files inPath outPath
  | sample inPath outPath nStr seedStr => cliSample h files inPath outPath nStr seedStr
  | sign inPath outPath key => cliSign h files inPath outPath key

/-- `main`, on the arguments after the program's name. -/
def cliMain (argv : List CStr) : Outcome :=
  match parseArgs argv with
  | none => ⟨2, [], files⟩
  | some cmd => cmd.run h files

end Run

end Dtl
