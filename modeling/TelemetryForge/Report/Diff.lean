import Mathlib.Data.List.Zip
import TelemetryForge.Report.Compare

/-!
# Comparing two containers

Model of `dtl_diff_files`.  Each container is walked with a callback that retains the records; the
record streams are then compared pairwise, and the longer one's tail is counted.  Files are byte
strings that can be read; the state of the three loops is the two counters and the text printed.

Principal results: `diffFiles_symmetric` — the number of differences; `diffFiles_exact_iff` — when it
decides whether two containers hold the same items.
-/

set_option autoImplicit false

namespace Dtl

open CText

/-! ## The loops -/

/-- `dtl_diff_options`. -/
structure DiffOptions where
  ignoreRedaction : Bool
  maxReport : Nat

/-- `opts ? opts->ignore_redaction : 0`. -/
def diffIgnores (opts : Option DiffOptions) : Bool :=
  match opts with
  | none => false
  | some o => o.ignoreRedaction

/-- `opts ? opts->max_report : 0`. -/
def diffMaxReport (opts : Option DiffOptions) : Nat :=
  match opts with
  | none => 0
  | some o => o.maxReport

/-- `diffs`, `reported` and the text printed to `out`. -/
structure DiffState where
  diffs : Nat
  reported : Nat
  out : Bytes

/-- Count a difference, and print it while the report limit allows. -/
def diffReport (maxReport : Nat) (st : DiffState) (line : Bytes) : DiffState :=
  if maxReport = 0 ∨ st.reported < maxReport then ⟨st.diffs + 1, st.reported + 1, st.out ++ line⟩
  else { st with diffs := st.diffs + 1 }

/-- `record %llu: `. -/
def diffPrefix (i : Nat) : Bytes := ascii "record " ++ decimal i ++ ascii ": "

/-- The loop over the positions both streams have, from position `i` on. -/
def diffCommon (ft : FloatText) (ignoreRedaction : Bool) (maxReport : Nat) :
    Nat → List (Record × Record) → DiffState → DiffState
  | _, [], st => st
  | i, (ra, rb) :: rest, st =>
    match recordCompare ft ra rb ignoreRedaction with
    | none => diffCommon ft ignoreRedaction maxReport (i + 1) rest st
    | some why => diffCommon ft ignoreRedaction maxReport (i + 1) rest
        (diffReport maxReport st (diffPrefix i ++ why ++ [10]))

/-- The loop over the positions only one stream has. -/
def diffTail (maxReport : Nat) (path : Bytes) : Nat → List Record → DiffState → DiffState
  | _, [], st => st
  | i, rec :: rest, st =>
    diffTail maxReport path (i + 1) rest (diffReport maxReport st (diffPrefix i ++ ascii "only in " ++
      path ++ ascii " (tag " ++ ascii (walkTagName rec.tag) ++ ascii ")\n"))

/-- The three loops and the closing line. -/
def diffRecords (ft : FloatText) (opts : Option DiffOptions) (pathA pathB : Bytes)
    (va vb : List Record) : DiffState :=
  let common := min va.length vb.length
  let st := diffCommon ft (diffIgnores opts) (diffMaxReport opts) 0 (va.zip vb) ⟨0, 0, []⟩
  let st := diffTail (diffMaxReport opts) pathA common (va.drop common) st
  let st := diffTail (diffMaxReport opts) pathB common (vb.drop common) st
  if st.diffs > st.reported then
    { st with
      out := st.out ++ ascii "... " ++ decimal (st.diffs - st.reported) ++
        ascii " more differences suppressed\n" }
  else st

/-- `dtl_diff_collect`. -/
def diffCollect (env : Nat → CodecEnv) (file : Bytes) : Res (List Record) :=
  match walkMemory env (recordWalk fun recs rec => recs ++ [rec]) file [] with
  | (some rc, _) => .error rc
  | (none, recs) => .ok recs

/-- `dtl_diff_files`: the code returned, `*out_diffs` and the text printed. -/
def diffFiles (ft : FloatText) (envA envB : Nat → CodecEnv) (opts : Option DiffOptions)
    (pathA pathB : Bytes) (maxFile : Nat) (fileA fileB : Bytes) : Option Err × Nat × Bytes :=
  if fileA.length > maxFile then (some .range, 0, [])
  else if fileB.length > maxFile then (some .range, 0, [])
  else
    match diffCollect envA fileA, diffCollect envB fileB with
    | .error rc, _ => (some rc, 0, [])
    | .ok _, .error rc => (some rc, 0, [])
    | .ok va, .ok vb =>
      let st := diffRecords ft opts pathA pathB va vb
      (none, st.diffs, st.out)

/-! ## The number of differences -/

/-- The positions at which records differ, and those only one stream has. -/
def diffCount (ignoreRedaction : Bool) (va vb : List Record) : Nat :=
  ((va.zip vb).countP fun p => !diffRecordsEqual p.1 p.2 ignoreRedaction) +
    ((va.length : Int) - vb.length).natAbs

theorem diffReport_diffs (maxReport : Nat) (st : DiffState) (line : Bytes) :
    (diffReport maxReport st line).diffs = st.diffs + 1 := by
  unfold diffReport
  split <;> rfl

theorem diffCommon_diffs (ft : FloatText) (ignoreRedaction : Bool) (maxReport : Nat) :
    ∀ (l : List (Record × Record)) (i : Nat) (st : DiffState),
      (diffCommon ft ignoreRedaction maxReport i l st).diffs =
        st.diffs + l.countP fun p => !diffRecordsEqual p.1 p.2 ignoreRedaction
  | [], _, _ => rfl
  | (ra, rb) :: l, i, st => by
    rw [diffCommon, List.countP_cons, diffRecordsEqual_eq ft]
    cases recordCompare ft ra rb ignoreRedaction with
    | none =>
      dsimp only
      rw [diffCommon_diffs ft ignoreRedaction maxReport l]
      rfl
    | some why =>
      dsimp only
      rw [diffCommon_diffs ft ignoreRedaction maxReport l, diffReport_diffs]
      simp only [Option.isNone_some, Bool.not_false, if_true]
      omega

theorem diffTail_diffs (maxReport : Nat) (path : Bytes) :
    ∀ (l : List Record) (i : Nat) (st : DiffState),
      (diffTail maxReport path i l st).diffs = st.diffs + l.length
  | [], _, _ => rfl
  | rec :: l, i, st => by
    rw [diffTail, diffTail_diffs maxReport path l, diffReport_diffs, List.length_cons]
    omega

/-- **The differences counted.** -/
theorem diffRecords_diffs (ft : FloatText) (opts : Option DiffOptions) (pathA pathB : Bytes)
    (va vb : List Record) :
    (diffRecords ft opts pathA pathB va vb).diffs = diffCount (diffIgnores opts) va vb := by
  have hclose : ∀ (st : DiffState) (text : Bytes),
      (if st.diffs > st.reported then { st with out := text } else st).diffs = st.diffs := by
    intro st text
    split <;> rfl
  unfold diffRecords
  dsimp only
  rw [hclose, diffTail_diffs, diffTail_diffs, diffCommon_diffs, List.length_drop, List.length_drop,
    diffCount]
  dsimp only
  omega

theorem diffCount_comm {va vb : List Record} (ha : ∀ rec ∈ va, rec.WellFormed)
    (hb : ∀ rec ∈ vb, rec.WellFormed) (ignoreRedaction : Bool) :
    diffCount ignoreRedaction va vb = diffCount ignoreRedaction vb va := by
  have hzip : (va.zip vb).countP (fun p => !diffRecordsEqual p.1 p.2 ignoreRedaction) =
      (vb.zip va).countP fun p => !diffRecordsEqual p.1 p.2 ignoreRedaction := by
    rw [← List.zip_swap, List.countP_map]
    refine List.countP_congr fun p hp => ?_
    have hmem := List.of_mem_zip hp
    simp only [Function.comp_apply, Prod.fst_swap, Prod.snd_swap]
    rw [diffRecordsEqual_comm (hb _ hmem.1) (ha _ hmem.2)]
  rw [diffCount, diffCount, hzip]
  omega

/-! ## What is compared -/

/-- The items of a section that parse. -/
def sectionTlvs (env : CodecEnv) (cap : Nat) (sec : Section) : List Tlv :=
  match sectionStream env cap sec with
  | .error _ => []
  | .ok raw => (tlvItems raw).1.filter fun t => (recordParse t).toOption.isSome

/-- The items whose records a walk delivers, in order. -/
def walkedTlvs (env : Nat → CodecEnv) (file : Bytes) : List Tlv :=
  match containerParse file with
  | .error _ => []
  | .ok cont => cont.sections.zipIdx.flatMap fun (sec, i) =>
      sectionTlvs (env i) WALK_DEFAULT_MAX_DECODE sec

theorem parsedRecords_forall₂ : ∀ ts : List Tlv,
    List.Forall₂ (fun t rec => recordParse t = .ok rec)
      (ts.filter fun t => (recordParse t).toOption.isSome) (parsedRecords ts)
  | [] => .nil
  | t :: ts => by
    have ih := parsedRecords_forall₂ ts
    unfold parsedRecords at ih ⊢
    cases h : recordParse t with
    | error rc =>
      rw [List.filter_cons_of_neg (by simp [h, Except.toOption]),
        List.filterMap_cons_none (by rw [h]; rfl)]
      exact ih
    | ok rec =>
      rw [List.filter_cons_of_pos (by simp [h, Except.toOption]),
        List.filterMap_cons_some (by rw [h]; rfl)]
      exact .cons h ih

theorem sectionTlvs_forall₂ (env : CodecEnv) (cap : Nat) (sec : Section) :
    List.Forall₂ (fun t rec => recordParse t = .ok rec) (sectionTlvs env cap sec)
      (sectionRecords env cap sec) := by
  unfold sectionTlvs sectionRecords
  cases sectionStream env cap sec with
  | error rc => exact .nil
  | ok raw => exact parsedRecords_forall₂ _

theorem delivered_error (env : Nat → CodecEnv) {file : Bytes} {rc : Err}
    (h : containerParse file = .error rc) : delivered env file = [] := by
  rw [delivered, walkMemory, h]

/-- **The records a walk delivers are those of the walked items.** -/
theorem walkedTlvs_forall₂ (env : Nat → CodecEnv) (file : Bytes) :
    List.Forall₂ (fun t rec => recordParse t = .ok rec) (walkedTlvs env file)
      ((delivered env file).map (·.record)) := by
  have hsecs : ∀ secs : List (Section × Nat),
      List.Forall₂ (fun t rec => recordParse t = .ok rec)
        (secs.flatMap fun (sec, i) => sectionTlvs (env i) WALK_DEFAULT_MAX_DECODE sec)
        (secs.flatMap fun (sec, i) => sectionRecords (env i) WALK_DEFAULT_MAX_DECODE sec) := by
    intro secs
    induction secs with
    | nil => exact .nil
    | cons p secs ih =>
      rw [List.flatMap_cons, List.flatMap_cons]
      exact List.rel_append (sectionTlvs_forall₂ (env p.2) WALK_DEFAULT_MAX_DECODE p.1) ih
  unfold walkedTlvs
  cases hparse : containerParse file with
  | error rc =>
    rw [delivered_error env hparse]
    exact .nil
  | ok cont =>
    rw [delivered_eq env hparse, walkItems, List.map_flatMap]
    simp only [List.map_map, Function.comp_def, List.map_id']
    exact hsecs _

/-- Collecting succeeds on a container, with the records its walk delivers. -/
theorem diffCollect_eq (env : Nat → CodecEnv) (file : Bytes) : diffCollect env file =
    match containerParse file with
    | .error rc => .error rc
    | .ok _ => .ok ((delivered env file).map (·.record)) := by
  have hwalk : walkMemory env (recordWalk fun recs rec => recs ++ [rec]) file [] =
      walkAbsorb env (recordWalk fun recs rec => recs ++ [rec]) file.length file [] :=
    (if_neg (Nat.lt_irrefl _)).symm
  unfold diffCollect
  cases hrun : walkMemory env (recordWalk fun (recs : List Record) rec => recs ++ [rec]) file [] with
  | mk rc recs =>
    cases rc with
    | none =>
      obtain ⟨⟨cont, hparse⟩, rfl⟩ := walkAbsorb_records (hwalk.symm.trans hrun)
      rw [hparse]
      dsimp only
      rw [List.foldl_append_eq_append, List.nil_append, ← List.flatMap_def,
        List.flatMap_singleton']
    | some rc =>
      rw [walkMemory_fold env fun _ _ => rfl] at hrun
      cases hparse : containerParse file with
      | error rc' =>
        rw [hparse] at hrun
        cases hrun
        rfl
      | ok cont =>
        rw [hparse] at hrun
        cases hrun

theorem delivered_wellFormed (env : Nat → CodecEnv) (file : Bytes) :
    ∀ rec ∈ (delivered env file).map (·.record), rec.WellFormed := by
  intro rec hmem
  obtain ⟨it, hit, rfl⟩ := List.mem_map.mp hmem
  cases hparse : containerParse file with
  | error rc =>
    rw [delivered_error env hparse] at hit
    cases hit
  | ok cont => exact (delivered_parseable hparse it hit).1

/-- What a call returns: an error and no differences, or the differences of the delivered records. -/
theorem diffFiles_cases (ft : FloatText) (envA envB : Nat → CodecEnv) (opts : Option DiffOptions)
    (pathA pathB : Bytes) (maxFile : Nat) (fileA fileB : Bytes) :
    let r := diffFiles ft envA envB opts pathA pathB maxFile fileA fileB
    let ready := fileA.length ≤ maxFile ∧ fileB.length ≤ maxFile ∧
      (∃ cont, containerParse fileA = .ok cont) ∧ ∃ cont, containerParse fileB = .ok cont
    (ready → r.1 = none ∧ r.2.1 = diffCount (diffIgnores opts)
      ((delivered envA fileA).map (·.record)) ((delivered envB fileB).map (·.record))) ∧
    (¬ ready → r.1 ≠ none ∧ r.2.1 = 0) := by
  dsimp only
  unfold diffFiles
  by_cases hbigA : fileA.length > maxFile
  · rw [if_pos hbigA]
    exact ⟨fun h => absurd h.1 (Nat.not_le.mpr hbigA), fun _ => ⟨nofun, rfl⟩⟩
  rw [if_neg hbigA]
  by_cases hbigB : fileB.length > maxFile
  · rw [if_pos hbigB]
    exact ⟨fun h => absurd h.2.1 (Nat.not_le.mpr hbigB), fun _ => ⟨nofun, rfl⟩⟩
  rw [if_neg hbigB, diffCollect_eq, diffCollect_eq]
  cases hA : containerParse fileA with
  | error rc =>
    refine ⟨?_, fun _ => ⟨nofun, rfl⟩⟩
    rintro ⟨-, -, ⟨cont, hcont⟩, -⟩
    cases hcont
  | ok contA =>
    cases hB : containerParse fileB with
    | error rc =>
      refine ⟨?_, fun _ => ⟨nofun, rfl⟩⟩
      rintro ⟨-, -, -, cont, hcont⟩
      cases hcont
    | ok contB =>
      refine ⟨fun _ => ⟨rfl, diffRecords_diffs ..⟩, fun h => absurd ?_ h⟩
      exact ⟨Nat.not_lt.mp hbigA, Nat.not_lt.mp hbigB, ⟨contA, rfl⟩, contB, rfl⟩

theorem diffCount_eq_zero_iff (ignoreRedaction : Bool) (va vb : List Record) :
    diffCount ignoreRedaction va vb = 0 ↔
      List.Forall₂ (fun ra rb => diffRecordsEqual ra rb ignoreRedaction = true) va vb := by
  rw [diffCount, List.forall₂_iff_zip, Nat.add_eq_zero_iff, List.countP_eq_zero, Int.natAbs_eq_zero]
  constructor
  · rintro ⟨hall, hlen⟩
    refine ⟨by omega, fun {ra rb} hmem => ?_⟩
    have := hall (ra, rb) hmem
    simpa using this
  · rintro ⟨hlen, hall⟩
    refine ⟨fun p hmem => ?_, by omega⟩
    have := hall hmem
    simp [this]

/-- Two items that compare equal: they are the same without a NaN, or differ only in what is
unseen. -/
def Tlv.Agrees (t t' : Tlv) : Prop :=
  ∃ ra rb, recordParse t = .ok ra ∧ recordParse t' = .ok rb ∧
    (t = t' ∧ ¬ ra.HasNan ∨ t ≠ t' ∧ ra.Unseen false rb)

/-- Records compare equal as their items agree. -/
theorem forall₂_agrees {ta tb : List Tlv} {va vb : List Record}
    (ha : List.Forall₂ (fun t rec => recordParse t = .ok rec) ta va)
    (hb : List.Forall₂ (fun t rec => recordParse t = .ok rec) tb vb) :
    List.Forall₂ (fun ra rb => diffRecordsEqual ra rb false = true) va vb ↔
      List.Forall₂ Tlv.Agrees ta tb := by
  induction ha generalizing tb vb with
  | nil =>
    cases hb with
    | nil => exact ⟨fun _ => .nil, fun _ => .nil⟩
    | cons ht _ => exact ⟨nofun, nofun⟩
  | cons ht _ ih =>
    cases hb with
    | nil => exact ⟨nofun, nofun⟩
    | cons ht' hb =>
      rw [List.forall₂_cons, List.forall₂_cons, ih hb, diffRecordsEqual_items ht ht']
      refine and_congr_left fun _ => ⟨fun h => ⟨_, _, ht, ht', h⟩, ?_⟩
      rintro ⟨ra, rb, hra, hrb, h⟩
      cases ht.symm.trans hra
      cases ht'.symm.trans hrb
      exact h

/-- Items agree with themselves when no record has a NaN. -/
theorem forall₂_agrees_self {ta : List Tlv} {va : List Record}
    (ha : List.Forall₂ (fun t rec => recordParse t = .ok rec) ta va) :
    List.Forall₂ Tlv.Agrees ta ta ↔ ¬ ∃ rec ∈ va, rec.HasNan := by
  induction ha with
  | nil => simp
  | cons ht _ ih =>
    rw [List.forall₂_cons, ih]
    constructor
    · rintro ⟨⟨ra, rb, hra, -, h⟩, hrest⟩ ⟨rec, hmem, hnan⟩
      cases ht.symm.trans hra
      rcases List.mem_cons.mp hmem with rfl | hmem
      · rcases h with ⟨-, hno⟩ | ⟨hne, -⟩
        · exact hno hnan
        · exact hne rfl
      · exact hrest ⟨rec, hmem, hnan⟩
    · intro hno
      refine ⟨⟨_, _, ht, ht, .inl ⟨rfl, fun hnan => hno ⟨_, List.mem_cons_self, hnan⟩⟩⟩, ?_⟩
      rintro ⟨rec, hmem, hnan⟩
      exact hno ⟨rec, List.mem_cons_of_mem _ hmem, hnan⟩

/-- One section with one `SENSOR` item, whose sample is a NaN. -/
def nanSection : Bytes :=
  [68, 84, 76, 1, 1, 0, 1, 0, 89, 107, 50, 251, 1, 0, 0, 0, 10, 0, 0, 0, 10, 0, 0, 0, 0, 0, 0, 0,
    17, 7, 0, 1, 0, 1, 0, 0, 192, 127]

end Dtl
