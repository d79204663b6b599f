import TelemetryForge.Query.Eval
import TelemetryForge.Report.Reemit

/-!
# The re-emitting tools

Model of `report/repack`, `report/sign`, `report/select` and `report/dedup`, with the comparator of
`report/diff` that the last one uses.  Each function takes the input file's bytes and returns those of
the output file; paths that are `NULL` and files that cannot be opened are left out.  The texts that
the comparator writes about a difference are not modelled: its callers here ignore them.

Principal result: `toolRun_walk` — whatever a tool returns successfully, walking it delivers exactly
the kept records of the input, section by section.
-/

set_option autoImplicit false

namespace Dtl

/-! ## The comparator -/

/-- `==` on two `float`s given by their bit patterns: a NaN differs from everything, and the two zeros
are equal. -/
def floatEq (a b : UInt32) : Bool :=
  let nan (x : UInt32) : Bool := (x &&& 0x7fffffff) > 0x7f800000
  !nan a && !nan b && (a == b || ((a &&& 0x7fffffff) == 0 && (b &&& 0x7fffffff) == 0))

/-- `dtl_bytes_equal`. -/
def bytesEqual (a : Bytes) (an : Nat) (b : Bytes) (bn : Nat) : Bool :=
  an == bn && a.take an == b.take bn

/-- `dtl_str_equal` on two C strings. -/
def strEqual (a b : Bytes) : Bool := (cstr a).val == (cstr b).val

/-- `dtl_diff_records_equal`. -/
def diffRecordsEqual (ra rb : Record) (ignoreRedaction : Bool) : Bool :=
  match ra, rb with
  | .heartbeat a, .heartbeat b => a.uptimeS == b.uptimeS && a.seq == b.seq
  | .sensor a, .sensor b => a.sensorId == b.sensorId && a.count == b.count &&
      ((a.samples.take a.count.toNat).zip (b.samples.take a.count.toNat)).all fun p => floatEq p.1 p.2
  | .event a, .event b => a.code == b.code &&
      bytesEqual a.payload a.payloadLen.toNat b.payload b.payloadLen.toNat
  | .diag a, .diag b => a.subsystem == b.subsystem &&
      (ignoreRedaction || a.redacted == b.redacted) &&
      bytesEqual a.blob a.blobLen.toNat b.blob b.blobLen.toNat
  | .geo a, .geo b => a.latE7 == b.latE7 && a.lonE7 == b.lonE7 && a.altMm == b.altMm
  | .battery a, .battery b => a.pct == b.pct && a.tempCE1 == b.tempCE1 && a.cycles == b.cycles
  | .net a, .net b => a.ifaceId == b.ifaceId && a.rxBytes == b.rxBytes && a.txBytes == b.txBytes &&
      a.rxPkts == b.rxPkts && a.txPkts == b.txPkts
  | .log a, .log b => a.severity == b.severity && strEqual a.msg b.msg
  | .config a, .config b => a.pairCount == b.pairCount &&
      ((a.pairs.take a.pairCount.toNat).zip (b.pairs.take a.pairCount.toNat)).all fun p =>
        p.1.key == p.2.key && p.1.value == p.2.value
  | .keyref a, .keyref b => a.slotId == b.slotId &&
      (ignoreRedaction || (a.redacted == b.redacted && strEqual a.label b.label))
  | .firmware a, .firmware b => a.major == b.major && a.minor == b.minor && a.patch == b.patch &&
      a.hash.val == b.hash.val
  | .other a _, .other b _ => a == b
  | _, _ => false

/-! ## Duplicates -/

/-- `dtl_dedup_item`. -/
structure DedupItem extends EmitItem where
  keep : Bool

/-- The outer loop of `dtl_dedup_mark`: the items before `i`, already marked, and those from `i` on;
the items afterwards and the number dropped. -/
def dedupMarkLoop (done : List DedupItem) (dropped : Nat) : List DedupItem → List DedupItem × Nat
  | [] => (done, dropped)
  | it :: rest =>
    if it.keep = false then dedupMarkLoop (done ++ [it]) dropped rest
    else if done.any fun it' => it'.keep && it'.record.tag == it.record.tag &&
        diffRecordsEqual it'.record it.record true then
      dedupMarkLoop (done ++ [{ it with keep := false }]) (dropped + 1) rest
    else dedupMarkLoop (done ++ [it]) dropped rest

/-- `dtl_dedup_mark`. -/
def dedupMark (items : List DedupItem) : List DedupItem × Nat := dedupMarkLoop [] 0 items

/-- The items left marked keep. -/
def dedupKept (items : List EmitItem) : List EmitItem :=
  ((dedupMark (items.map fun it => ⟨it, true⟩)).1.filter (·.keep)).map (·.toEmitItem)

/-! ## The tools -/

section Tools

variable (env : Nat → CodecEnv) (e : EmitEnv) (a : Arena)

/-- `dtl_repack_file`. -/
def repackFile (codecId : UInt8) (maxFile : Nat) (file : Bytes) : Res Bytes :=
  match codecGet codecId with
  | none => .error .inval
  | some _ => do
    let items ← retain env (fun _ => true) maxFile file
    reemit e a (some codecId) none items

/-- `dtl_sign_file`. -/
def signFile (key : Bytes) (maxFile : Nat) (file : Bytes) : Res Bytes :=
  if key.length = 0 then .error .inval
  else do
    let items ← retain env (fun _ => true) maxFile file
    reemit e a none (some key) items

/-- `dtl_select_file`: the output and the number of records kept. -/
def selectFile (expr : CStr) (maxFile : Nat) (file : Bytes) : Res (Bytes × Nat) := do
  let q ← queryParse expr.val
  let items ← retain env (queryMatch q) maxFile file
  let out ← reemit e a none none items
  return (out, items.length)

/-- `dtl_dedup_file`: the output and the number of records dropped. -/
def dedupFile (maxFile : Nat) (file : Bytes) : Res (Bytes × Nat) := do
  let items ← retain env (fun _ => true) maxFile file
  let out ← reemit e a none none (dedupKept items)
  return (out, (dedupMark (items.map fun it => ⟨it, true⟩)).2)

/-- The tools, with their parameters. -/
inductive Tool where
  | repack (codecId : UInt8)
  | sign (key : Bytes)
  | select (expr : CStr)
  | dedup

/-- The bytes a tool writes. -/
def toolRun (maxFile : Nat) (file : Bytes) : Tool → Res Bytes
  | .repack codecId => repackFile env e a codecId maxFile file
  | .sign key => signFile env e a key maxFile file
  | .select expr => Prod.fst <$> selectFile env e a expr maxFile file
  | .dedup => Prod.fst <$> dedupFile env e a maxFile file

/-! ## What a tool is for -/

/-- What walking the input delivers, in order. -/
def delivered (file : Bytes) : List EmitItem :=
  (walkMemory env (retainWalk fun _ => true) file []).2

end Tools

/-- The records a tool keeps of those delivered. -/
def Tool.kept (items : List EmitItem) : Tool → List EmitItem
  | repack _ => items
  | sign _ => items
  | select expr =>
    match queryParse expr.val with
    | .error _ => []
    | .ok q => items.filter fun it => queryMatch q it.record
  | dedup => dedupKept items

/-- The codec that replaces that of every section. -/
def Tool.target : Tool → Option UInt8
  | repack codecId => some codecId
  | _ => none

/-- `out` carries the kept records of `file`: they are a subsequence of what the input walk delivers,
the groups one for each contributing section hold them in order, and any walk of `out` with the tools'
decode cap or a larger one delivers exactly these groups. -/
def Carries (env : Nat → CodecEnv) (file : Bytes) (target : Option UInt8) (kept : List EmitItem)
    (out : Bytes) : Prop :=
  ∃ cont, containerParse file = .ok cont ∧ kept.Sublist (delivered env file) ∧
    (keptGroups target 0 cont.sections kept).flatMap (·.records) = kept.map (·.record) ∧
    ∀ (σ : Type) (env' : Nat → CodecEnv) (w : Walk σ) (s : σ), (∀ i, (env' i).scratchOk = true) →
      WALK_DEFAULT_MAX_DECODE ≤ w.cap →
        walkMemory env' w out s = deliver w (groupSignals (keptGroups target 0 cont.sections kept)) s

/-- What is left unmarked of the rest follows what was left before. -/
theorem dedupMarkLoop_sublist : ∀ (rest done : List DedupItem) (dropped : Nat),
    (((dedupMarkLoop done dropped rest).1.filter (·.keep)).map (·.toEmitItem)).Sublist
      ((done.filter (·.keep)).map (·.toEmitItem) ++ rest.map (·.toEmitItem))
  | [], done, dropped => by simp [dedupMarkLoop]
  | it :: rest, done, dropped => by
    have hdrop : ∀ it' : DedupItem, it'.keep = false → ∀ n,
        (((dedupMarkLoop (done ++ [it']) n rest).1.filter (·.keep)).map (·.toEmitItem)).Sublist
          ((done.filter (·.keep)).map (·.toEmitItem) ++ (it :: rest).map (·.toEmitItem)) := by
      intro it' hkeep n
      have ih := dedupMarkLoop_sublist rest (done ++ [it']) n
      rw [List.filter_append, List.filter_cons_of_neg (by simp [hkeep]), List.filter_nil,
        List.append_nil] at ih
      exact ih.trans (List.Sublist.append_left (List.sublist_cons_self _ _) _)
    unfold dedupMarkLoop
    by_cases hkeep : it.keep = false
    · rw [if_pos hkeep]
      exact hdrop it hkeep dropped
    rw [if_neg hkeep]
    split
    · exact hdrop _ rfl _
    · have ih := dedupMarkLoop_sublist rest (done ++ [it]) dropped
      rw [List.filter_append, List.filter_cons_of_pos (by simpa using hkeep), List.filter_nil,
        List.map_append, List.append_assoc] at ih
      exact ih

theorem dedupKept_sublist (items : List EmitItem) : (dedupKept items).Sublist items := by
  have h := dedupMarkLoop_sublist (items.map fun it => ⟨it, true⟩) [] 0
  rw [List.map_map] at h
  simpa [dedupKept, dedupMark, Function.comp_def] using h

theorem delivered_eq (env : Nat → CodecEnv) {file : Bytes} {cont : Container}
    (h : containerParse file = .ok cont) :
    delivered env file = walkItems env WALK_DEFAULT_MAX_DECODE 0 cont.sections := by
  rw [delivered, walkMemory_retain h, List.filter_true]

theorem delivered_parseable {env : Nat → CodecEnv} {file : Bytes} {cont : Container}
    (h : containerParse file = .ok cont) : ∀ it ∈ delivered env file, it.record.Parseable := by
  intro it hit
  rw [delivered_eq env h] at hit
  simp only [walkItems, List.mem_flatMap, List.mem_map] at hit
  obtain ⟨⟨sec, i⟩, -, rec, hrec, rfl⟩ := hit
  exact sectionRecords_parseable hrec

/-- Callbacks that fold a function over the records and ignore errors. -/
def recordWalk {σ : Type} (f : σ → Record → σ) : Walk σ where
  onRecord ev s := (none, f s ev.record)
  onError _ s := s
  maxDecode := 0

/-- Such a walk folds the function over the records delivered. -/
theorem walkAbsorb_records {σ : Type} {f : σ → Record → σ} {env : Nat → CodecEnv} {maxFile : Nat}
    {file : Bytes} {s s' : σ} (h : walkAbsorb env (recordWalk f) maxFile file s = (none, s')) :
    (∃ cont, containerParse file = .ok cont) ∧
      s' = ((delivered env file).map (·.record)).foldl f s := by
  have hfold : ∀ (xs : List Signal) (s : σ), xs.foldl (recordWalk f).signal s =
      (((eventsOf xs).map EmitItem.ofEvent).map (·.record)).foldl f s := by
    intro xs
    induction xs with
    | nil => exact fun _ => rfl
    | cons x xs ih =>
      intro s
      cases x with
      | error we => exact ih s
      | record ev => exact ih (f s ev.record)
  unfold walkAbsorb at h
  by_cases hbig : file.length > maxFile
  · rw [if_pos hbig] at h
    cases h
  rw [if_neg hbig, walkMemory_fold env (fun _ _ => rfl)] at h
  cases hparse : containerParse file with
  | error rc =>
    rw [hparse] at h
    cases h
  | ok cont =>
    rw [hparse] at h
    cases h
    refine ⟨⟨cont, rfl⟩, ?_⟩
    rw [hfold, walkSignals_items, delivered_eq env hparse]
    rfl

/-- **Retain, replay, walk.** -/
theorem carries_reemit {env : Nat → CodecEnv} {e : EmitEnv} {a : Arena} {target : Option UInt8}
    {key : Option Bytes} {cont : Container} {file out : Bytes} {kept : List EmitItem}
    (hparse : containerParse file = .ok cont)
    (hkept : kept.Sublist (walkItems env WALK_DEFAULT_MAX_DECODE 0 cont.sections))
    (hok : reemit e a target key kept = .ok out) : Carries env file target kept out := by
  have hdel : delivered env file = walkItems env WALK_DEFAULT_MAX_DECODE 0 cont.sections :=
    delivered_eq env hparse
  refine ⟨cont, hparse, hdel ▸ hkept, ?_, ?_⟩
  · exact keptGroups_records target cont.sections ((walkItems_ordered _ 0).sublist hkept)
      fun it hit => walkItems_from (hkept.subset hit)
  · intro σ env' w s henv hcap
    exact reemit_walk hkept hok henv hcap s

/-- A tool that retains everything and replays what `k` leaves. -/
theorem carries_retained {env : Nat → CodecEnv} {e : EmitEnv} {a : Arena} {target : Option UInt8}
    {key : Option Bytes} {maxFile : Nat} {file out : Bytes} {items : List EmitItem}
    {k : List EmitItem → List EmitItem} (hk : ∀ l, (k l).Sublist l)
    (hitems : retain env (fun _ => true) maxFile file = .ok items)
    (hok : reemit e a target key (k items) = .ok out) :
    Carries env file target (k (delivered env file)) out := by
  obtain ⟨cont, hparse, rfl⟩ := retain_ok hitems
  rw [List.filter_true] at hok
  rw [delivered_eq env hparse]
  exact carries_reemit hparse (hk _) hok

/-- **The tools keep what they promise to keep.** Whatever the input and the parameters: when a tool
succeeds, walking its output makes no error call and delivers exactly the kept records of the input
walk, in order, grouped one-to-one with the input sections that contributed one, each with its
section's type and its codec (the target codec when repacking). -/
theorem toolRun_walk (env : Nat → CodecEnv) (e : EmitEnv) (a : Arena) (maxFile : Nat) (file : Bytes)
    (tool : Tool) (out : Bytes) (h : toolRun env e a maxFile file tool = .ok out) :
    Carries env file tool.target (tool.kept (delivered env file)) out := by
  cases tool with
  | repack codecId =>
    rw [toolRun, repackFile] at h
    split at h
    · cases h
    rw [Except.bind_eq_ok] at h
    obtain ⟨items, hitems, hok⟩ := h
    exact carries_retained (k := id) (fun l => List.Sublist.refl l) hitems hok
  | sign key =>
    rw [toolRun, signFile] at h
    split at h
    · cases h
    rw [Except.bind_eq_ok] at h
    obtain ⟨items, hitems, hok⟩ := h
    exact carries_retained (k := id) (fun l => List.Sublist.refl l) hitems hok
  | select expr =>
    rw [toolRun, map_eq_ok] at h
    obtain ⟨⟨out', n⟩, h, rfl⟩ := h
    simp only [selectFile, Except.bind_eq_ok, Except.pure_eq_ok, Except.ok.injEq,
      Prod.mk.injEq] at h
    obtain ⟨q, hq, items, hitems, out', hok, rfl, -⟩ := h
    obtain ⟨cont, hparse, rfl⟩ := retain_ok hitems
    rw [Tool.kept, delivered_eq env hparse, hq]
    exact carries_reemit hparse List.filter_sublist hok
  | dedup =>
    rw [toolRun, map_eq_ok] at h
    obtain ⟨⟨out', n⟩, h, rfl⟩ := h
    simp only [dedupFile, Except.bind_eq_ok, Except.pure_eq_ok, Except.ok.injEq,
      Prod.mk.injEq] at h
    obtain ⟨items, hitems, out', hok, rfl, -⟩ := h
    exact carries_retained dedupKept_sublist hitems hok

/-- Two `STORE` sections of one type: a `HEARTBEAT`, and the same again with a `KEYREF` after it. -/
def twoSections : Bytes :=
  [68, 84, 76, 1, 1, 0, 2, 0, 154, 56, 31, 208, 1, 0, 0, 0, 11, 0, 0, 0, 11, 0, 0, 0, 0, 0, 0, 0,
    1, 0, 0, 0, 17, 0, 0, 0, 17, 0, 0, 0, 11, 0, 0, 0,
    16, 8, 0, 1, 0, 0, 0, 2, 0, 0, 0, 16, 8, 0, 1, 0, 0, 0, 2, 0, 0, 0, 25, 3, 0, 1, 1, 97]

/-- All four tools succeed on it. -/
theorem toolRun_walk_sections : List.Forall (fun tool =>
    ∃ out, toolRun (fun _ => ⟨true, 0⟩) ⟨zeroSlack, fun _ _ => ⟨true, 0⟩⟩ ⟨fun _ => false, 0⟩ 4096
        twoSections tool = .ok out ∧
      Carries (fun _ => ⟨true, 0⟩) twoSections tool.target
        (tool.kept (delivered (fun _ => ⟨true, 0⟩) twoSections)) out)
    [Tool.repack CODEC_RLE, .sign [7], .select (cstr (ascii "seq > 1")), .dedup] := by
  have hok : ∀ tool ∈ [Tool.repack CODEC_RLE, .sign [7], .select (cstr (ascii "seq > 1")), .dedup],
      (toolRun (fun _ => ⟨true, 0⟩) ⟨zeroSlack, fun _ _ => ⟨true, 0⟩⟩ ⟨fun _ => false, 0⟩ 4096
        twoSections tool).toOption.isSome = true := by decide +kernel
  rw [List.forall_iff_forall_mem]
  intro tool htool
  obtain ⟨out, hout⟩ := Except.exists_ok (hok tool htool)
  exact ⟨out, hout, toolRun_walk _ _ _ _ _ _ _ hout⟩

end Dtl
