import TelemetryForge.Report.Export
import TelemetryForge.Report.Normalise

/-!
# Statistics

Model of `report/stats`.  What the statistics need of `double` is the parameter `Doubles`, so that
nothing is assumed about rounding; the seventeen aggregates of `dtl_stats` are indexed by `StatField`.

`statsOf` is what the accumulator means: counts and folds over the records delivered, whatever files
they came from.

Principal results: `stats_collected` — after any files the accumulator is `statsOf` their records and
their errors; `statsOf_extremes` — where the values are ordered, the extremes are extremes;
`stats_balanced` — how the counts add up.
-/

set_option autoImplicit false

namespace Dtl

open CText
open Function (update)

/-! ## The accumulator -/

/-- `double`: the values of integers and of `float`s given by their bit patterns, `<`, `+`, `/` and
`%.3f`. -/
structure Doubles (δ : Type) where
  ofInt : Int → δ
  ofFloat : UInt32 → δ
  lt : δ → δ → Bool
  add : δ → δ → δ
  div : δ → δ → δ
  fixed3 : δ → Bytes

/-- `dtl_numeric_stat`. -/
structure NumericStat (δ : Type) where
  count : UInt64
  min : δ
  max : δ
  sum : δ

/-- The aggregates of `dtl_stats`. -/
inductive StatField where
  | hbUptimeS | hbSeq
  | batteryPct | batteryCycles
  | geoLatE7 | geoLonE7 | geoAltMm
  | netRxBytes | netTxBytes | netRxPkts | netTxPkts
  | sensorSamples | sensorValue
  | eventCode | eventPayloadLen
  | diagBlobLen | configPairs
  deriving DecidableEq

/-- `dtl_stats`. -/
@[ext] structure Stats (δ : Type) where
  totalRecords : UInt64
  tagCounts : UInt8 → UInt64
  parseErrors : UInt64
  num : StatField → NumericStat δ
  logSeverity : UInt8 → UInt64
  keyrefRedacted : UInt64
  diagRedacted : UInt64

section Model

variable {δ : Type} (d : Doubles δ)

/-- An aggregate of nothing. -/
def numZero : NumericStat δ := ⟨0, d.ofInt 0, d.ofInt 0, d.ofInt 0⟩

/-- The comparisons of `dtl_num_add`. -/
def numBounds (ns : NumericStat δ) (v : δ) : NumericStat δ :=
  if ns.count = 0 then { ns with min := v, max := v }
  else { ns with
    min := if d.lt v ns.min then v else ns.min
    max := if d.lt ns.max v then v else ns.max }

/-- `dtl_num_add`. -/
def numAdd (ns : NumericStat δ) (v : δ) : NumericStat δ :=
  { numBounds d ns v with sum := d.add ns.sum v, count := ns.count + 1 }

/-- `dtl_num_avg`. -/
def numAvg (ns : NumericStat δ) : δ :=
  if ns.count ≠ 0 then d.div ns.sum (d.ofInt ns.count.toNat) else d.ofInt 0

/-- `dtl_stats_init`. -/
def statsInit : Stats δ := ⟨0, fun _ => 0, 0, fun _ => numZero d, fun _ => 0, 0, 0⟩

/-- `dtl_num_add(&st->…, …)`. -/
def Stats.add (st : Stats δ) (f : StatField) (v : δ) : Stats δ :=
  { st with num := update st.num f (numAdd d (st.num f) v) }

/-- The `switch` of `dtl_stats_on_record`. -/
def statsFields (rec : Record) (st : Stats δ) : Stats δ :=
  match rec with
  | .heartbeat r => (st.add d .hbUptimeS (d.ofInt r.uptimeS.toNat)).add d .hbSeq (d.ofInt r.seq.toNat)
  | .sensor r => (r.samples.take r.count.toNat).foldl
      (fun st s => st.add d .sensorValue (d.ofFloat s)) (st.add d .sensorSamples (d.ofInt r.count.toNat))
  | .event r => (st.add d .eventCode (d.ofInt r.code.toNat)).add d .eventPayloadLen
      (d.ofInt r.payloadLen.toNat)
  | .diag r =>
    let st := st.add d .diagBlobLen (d.ofInt r.blobLen.toNat)
    if r.redacted ≠ 0 then { st with diagRedacted := st.diagRedacted + 1 } else st
  | .geo r => ((st.add d .geoLatE7 (d.ofInt r.latE7.toInt)).add d .geoLonE7
      (d.ofInt r.lonE7.toInt)).add d .geoAltMm (d.ofInt r.altMm.toInt)
  | .battery r => (st.add d .batteryPct (d.ofInt r.pct.toNat)).add d .batteryCycles
      (d.ofInt r.cycles.toNat)
  | .net r => (((st.add d .netRxBytes (d.ofInt r.rxBytes.toNat)).add d .netTxBytes
      (d.ofInt r.txBytes.toNat)).add d .netRxPkts (d.ofInt r.rxPkts.toNat)).add d .netTxPkts
        (d.ofInt r.txPkts.toNat)
  | .log r => { st with
      logSeverity := update st.logSeverity r.severity (st.logSeverity r.severity + 1) }
  | .config r => st.add d .configPairs (d.ofInt r.pairCount.toNat)
  | .keyref r =>
    if r.redacted ≠ 0 then { st with keyrefRedacted := st.keyrefRedacted + 1 } else st
  | .firmware _ => st
  | .other _ _ => st

/-- `dtl_stats_on_record`. -/
def statsOnRecord (rec : Record) (st : Stats δ) : Stats δ :=
  statsFields d rec { st with
    totalRecords := st.totalRecords + 1
    tagCounts := update st.tagCounts rec.tag (st.tagCounts rec.tag + 1) }

/-- The callbacks of `dtl_stats_collect_file`. -/
def statsWalk : Walk (Stats δ) where
  onRecord ev st := (none, statsOnRecord d ev.record st)
  onError _ st := { st with parseErrors := st.parseErrors + 1 }
  maxDecode := 0

/-- `dtl_stats_collect_file` on a file that can be read. -/
def statsCollectFile (env : Nat → CodecEnv) (maxFile : Nat) (file : Bytes) (st : Stats δ) :
    Option Err × Stats δ :=
  walkAbsorb env (statsWalk d) maxFile file st

/-! ## Printing -/

/-- `dtl_stats_print_num`. -/
def statsPrintNum (name : String) (ns : NumericStat δ) : Bytes :=
  if ns.count = 0 then []
  else ascii "  " ++ padRight 22 (ascii name) ++ ascii " n=" ++ padRight 6 (decimal ns.count.toNat) ++
    ascii " min=" ++ padRight 14 (d.fixed3 ns.min) ++ ascii " max=" ++ padRight 14 (d.fixed3 ns.max) ++
    ascii " avg=" ++ d.fixed3 (numAvg d ns) ++ ascii "\n"

/-- The aggregates in the order they are printed, with their names. -/
def statsPrinted : List (String × StatField) :=
  [("hb.uptime_s", .hbUptimeS), ("hb.seq", .hbSeq), ("battery.pct", .batteryPct),
    ("battery.cycles", .batteryCycles), ("geo.lat_e7", .geoLatE7), ("geo.lon_e7", .geoLonE7),
    ("geo.alt_mm", .geoAltMm), ("net.rx_bytes", .netRxBytes), ("net.tx_bytes", .netTxBytes),
    ("net.rx_pkts", .netRxPkts), ("net.tx_pkts", .netTxPkts), ("sensor.samples", .sensorSamples),
    ("sensor.value", .sensorValue), ("event.code", .eventCode),
    ("event.payload_len", .eventPayloadLen), ("diag.blob_len", .diagBlobLen),
    ("config.pairs", .configPairs)]

/-- The lines of the first loop of `dtl_stats_print`. -/
def statsTagLines (st : Stats δ) : Bytes :=
  (List.range 256).flatMap fun tag =>
    let n := st.tagCounts (UInt8.ofNat tag)
    if n ≠ 0 then ascii "  " ++ padRight 10 (ascii (walkTagName (UInt8.ofNat tag))) ++ ascii " " ++
      decimal n.toNat ++ ascii "\n"
    else []

/-- The second loop: the heading is printed before the first line. -/
def statsSeverityLines (st : Stats δ) : Bytes :=
  ((List.range 256).foldl (fun (printed, out) sev =>
    let n := st.logSeverity (UInt8.ofNat sev)
    if n ≠ 0 then (true, out ++ (if printed then [] else ascii "log-severity:\n") ++ ascii "  " ++
      padRight 3 (decimal sev) ++ ascii " " ++ decimal n.toNat ++ ascii "\n")
    else (printed, out)) (false, [])).2

/-- A line that is printed for a count that is not zero. -/
def statsCountLine (label : String) (n : UInt64) : Bytes :=
  if n ≠ 0 then ascii label ++ decimal n.toNat ++ ascii "\n" else []

/-- `dtl_stats_print`. -/
def statsPrint (st : Stats δ) : Bytes :=
  ascii "records: " ++ decimal st.totalRecords.toNat ++ ascii "\n" ++
    statsCountLine "parse-errors: " st.parseErrors ++
    ascii "by-type:\n" ++ statsTagLines st ++
    ascii "numeric:\n" ++ statsPrinted.flatMap (fun p => statsPrintNum d p.1 (st.num p.2)) ++
    statsSeverityLines st ++
    statsCountLine "keyref-redacted: " st.keyrefRedacted ++
    statsCountLine "diag-redacted: " st.diagRedacted

end Model

/-! ## What the accumulator means -/

/-- The values a record adds to an aggregate, in order. -/
def statValues {δ : Type} (d : Doubles δ) : StatField → Record → List δ
  | .hbUptimeS, .heartbeat r => [d.ofInt r.uptimeS.toNat]
  | .hbSeq, .heartbeat r => [d.ofInt r.seq.toNat]
  | .batteryPct, .battery r => [d.ofInt r.pct.toNat]
  | .batteryCycles, .battery r => [d.ofInt r.cycles.toNat]
  | .geoLatE7, .geo r => [d.ofInt r.latE7.toInt]
  | .geoLonE7, .geo r => [d.ofInt r.lonE7.toInt]
  | .geoAltMm, .geo r => [d.ofInt r.altMm.toInt]
  | .netRxBytes, .net r => [d.ofInt r.rxBytes.toNat]
  | .netTxBytes, .net r => [d.ofInt r.txBytes.toNat]
  | .netRxPkts, .net r => [d.ofInt r.rxPkts.toNat]
  | .netTxPkts, .net r => [d.ofInt r.txPkts.toNat]
  | .sensorSamples, .sensor r => [d.ofInt r.count.toNat]
  | .sensorValue, .sensor r => (r.samples.take r.count.toNat).map d.ofFloat
  | .eventCode, .event r => [d.ofInt r.code.toNat]
  | .eventPayloadLen, .event r => [d.ofInt r.payloadLen.toNat]
  | .diagBlobLen, .diag r => [d.ofInt r.blobLen.toNat]
  | .configPairs, .config r => [d.ofInt r.pairCount.toNat]
  | _, _ => []

/-- A `LOG` of the severity. -/
def Record.severityIs (s : UInt8) : Record → Bool
  | log r => r.severity == s
  | _ => false

/-- A redacted `KEYREF`. -/
def Record.keyrefRedacted : Record → Bool
  | keyref r => r.redacted != 0
  | _ => false

/-- A redacted `DIAG`. -/
def Record.diagRedacted : Record → Bool
  | diag r => r.redacted != 0
  | _ => false

/-- The aggregate of a sequence of values. -/
def numOf {δ : Type} (d : Doubles δ) (vs : List δ) : NumericStat δ := vs.foldl (numAdd d) (numZero d)

/-- The statistics of records and a number of errors. -/
def statsOf {δ : Type} (d : Doubles δ) (recs : List Record) (errors : Nat) : Stats δ where
  totalRecords := UInt64.ofNat recs.length
  tagCounts t := UInt64.ofNat (recs.countP fun rec => rec.tag = t)
  parseErrors := UInt64.ofNat errors
  num f := numOf d (recs.flatMap (statValues d f))
  logSeverity s := UInt64.ofNat (recs.countP (Record.severityIs s))
  keyrefRedacted := UInt64.ofNat (recs.countP Record.keyrefRedacted)
  diagRedacted := UInt64.ofNat (recs.countP Record.diagRedacted)

section Meaning

variable {δ : Type} {d : Doubles δ}

theorem numOf_append (vs ws : List δ) : numOf d (vs ++ ws) = ws.foldl (numAdd d) (numOf d vs) :=
  List.foldl_append

/-- The aggregate of the samples. -/
theorem foldl_add (f : StatField) : ∀ (vs : List UInt32) (st : Stats δ),
    vs.foldl (fun st s => st.add d f (d.ofFloat s)) st =
      { st with num := update st.num f ((vs.map d.ofFloat).foldl (numAdd d) (st.num f)) }
  | [], st => by simp
  | v :: vs, st => by
    rw [List.foldl_cons, foldl_add f vs]
    simp [Stats.add]

/-- What a record does to the accumulator, aggregate by aggregate. -/
theorem statsFields_eq (rec : Record) (st : Stats δ) : statsFields d rec st = { st with
    num := fun f => (statValues d f rec).foldl (numAdd d) (st.num f)
    logSeverity := fun s => if rec.severityIs s then st.logSeverity s + 1 else st.logSeverity s
    keyrefRedacted := if rec.keyrefRedacted then st.keyrefRedacted + 1 else st.keyrefRedacted
    diagRedacted := if rec.diagRedacted then st.diagRedacted + 1 else st.diagRedacted } := by
  cases rec with
  | heartbeat r =>
    refine Stats.ext rfl rfl rfl (funext fun f => ?_) rfl rfl rfl
    cases f <;> rfl
  | sensor r =>
    rw [statsFields, foldl_add]
    refine Stats.ext rfl rfl rfl (funext fun f => ?_) rfl rfl rfl
    cases f <;> rfl
  | event r =>
    refine Stats.ext rfl rfl rfl (funext fun f => ?_) rfl rfl rfl
    cases f <;> rfl
  | diag r =>
    have hnum : (st.add d .diagBlobLen (d.ofInt r.blobLen.toNat)).num = fun f =>
        (statValues d f (.diag r)).foldl (numAdd d) (st.num f) := by
      funext f
      cases f <;> rfl
    by_cases h : r.redacted = 0
    · simp [statsFields, Record.diagRedacted, Record.keyrefRedacted, Record.severityIs, h, ← hnum,
        Stats.add]
    · simp [statsFields, Record.diagRedacted, Record.keyrefRedacted, Record.severityIs, h, ← hnum,
        Stats.add]
  | geo r =>
    refine Stats.ext rfl rfl rfl (funext fun f => ?_) rfl rfl rfl
    cases f <;> rfl
  | battery r =>
    refine Stats.ext rfl rfl rfl (funext fun f => ?_) rfl rfl rfl
    cases f <;> rfl
  | net r =>
    refine Stats.ext rfl rfl rfl (funext fun f => ?_) rfl rfl rfl
    cases f <;> rfl
  | log r =>
    refine Stats.ext rfl rfl rfl (funext fun f => ?_) (funext fun s => ?_) rfl rfl
    · cases f <;> rfl
    · by_cases h : s = r.severity
      · simp [statsFields, Record.severityIs, h]
      · simp [statsFields, Record.severityIs, Function.update_of_ne h, Ne.symm h]
  | config r =>
    refine Stats.ext rfl rfl rfl (funext fun f => ?_) rfl rfl rfl
    cases f <;> rfl
  | keyref r =>
    have hnum : st.num = fun f => (statValues d f (.keyref r)).foldl (numAdd d) (st.num f) := by
      funext f
      cases f <;> rfl
    by_cases h : r.redacted = 0
    · simp [statsFields, Record.diagRedacted, Record.keyrefRedacted, Record.severityIs, h, ← hnum]
    · simp [statsFields, Record.diagRedacted, Record.keyrefRedacted, Record.severityIs, h, ← hnum]
  | firmware r =>
    refine Stats.ext rfl rfl rfl (funext fun f => ?_) rfl rfl rfl
    cases f <;> rfl
  | other t ht =>
    refine Stats.ext rfl rfl rfl (funext fun f => ?_) rfl rfl rfl
    cases f <;> rfl

theorem ofNat_countP {p : Record → Bool} (recs : List Record) (rec : Record) :
    UInt64.ofNat ((recs ++ [rec]).countP p) =
      if p rec then UInt64.ofNat (recs.countP p) + 1 else UInt64.ofNat (recs.countP p) := by
  rw [List.countP_append, List.countP_singleton]
  cases p rec <;> simp [UInt64.ofNat_add]

/-- **One more record.** -/
theorem statsOnRecord_of (recs : List Record) (rec : Record) (errors : Nat) :
    statsOnRecord d rec (statsOf d recs errors) = statsOf d (recs ++ [rec]) errors := by
  rw [statsOnRecord, statsFields_eq]
  refine Stats.ext ?_ (funext fun t => ?_) rfl (funext fun f => ?_) (funext fun s => ?_) ?_ ?_
  · simp [statsOf, UInt64.ofNat_add]
  · simp only [statsOf, ofNat_countP, decide_eq_true_eq]
    by_cases h : t = rec.tag
    · simp [h]
    · rw [Function.update_of_ne h, if_neg (Ne.symm h)]
  · simp only [statsOf]
    rw [List.flatMap_append, numOf_append, List.flatMap_singleton]
  · exact (ofNat_countP recs rec).symm
  · exact (ofNat_countP recs rec).symm
  · exact (ofNat_countP recs rec).symm

/-- One more error. -/
theorem statsOnError_of (recs : List Record) (errors : Nat) :
    { statsOf d recs errors with parseErrors := (statsOf d recs errors).parseErrors + 1 } =
      statsOf d recs (errors + 1) := by
  simp [statsOf, UInt64.ofNat_add]

/-- The error calls among the signals. -/
def errorCount (xs : List Signal) : Nat := xs.countP fun x => x.event?.isNone

/-- **The accumulator after more signals.** -/
theorem statsSignals_of : ∀ (xs : List Signal) (recs : List Record) (errors : Nat),
    xs.foldl (statsWalk d).signal (statsOf d recs errors) =
      statsOf d (recs ++ (eventsOf xs).map (·.record)) (errors + errorCount xs)
  | [], recs, errors => by simp [eventsOf, errorCount]
  | .record ev :: xs, recs, errors => by
    have hstep : (statsWalk d).signal (statsOf d recs errors) (.record ev) =
        statsOf d (recs ++ [ev.record]) errors := statsOnRecord_of recs ev.record errors
    rw [List.foldl_cons, hstep, statsSignals_of xs]
    simp [eventsOf, errorCount, Signal.event?]
  | .error we :: xs, recs, errors => by
    have hstep : (statsWalk d).signal (statsOf d recs errors) (.error we) =
        statsOf d recs (errors + 1) := statsOnError_of recs errors
    have hevents : eventsOf (.error we :: xs) = eventsOf xs := rfl
    have hcount : errorCount (.error we :: xs) = errorCount xs + 1 := List.countP_cons_of_pos rfl
    rw [List.foldl_cons, hstep, statsSignals_of xs, hevents, hcount, Nat.add_assoc, Nat.add_comm 1]

end Meaning

/-! ## Collecting -/

/-- The error calls of the default walk of a file. -/
def walkedErrors (env : Nat → CodecEnv) (file : Bytes) : Nat :=
  match containerParse file with
  | .error _ => 0
  | .ok cont => errorCount (walkSignals env WALK_DEFAULT_MAX_DECODE 0 0 cont.sections)

/-- A file that the statistics take in. -/
def Collectable (maxFile : Nat) (file : Bytes) : Prop :=
  file.length ≤ maxFile ∧ (containerParse file).toOption.isSome = true

instance (maxFile : Nat) (file : Bytes) : Decidable (Collectable maxFile file) :=
  inferInstanceAs (Decidable (_ ∧ _))

/-- **A file adds its records and its errors, or nothing.** -/
theorem statsCollectFile_of {δ : Type} (d : Doubles δ) (env : Nat → CodecEnv) (maxFile : Nat)
    (file : Bytes) (recs : List Record) (errors : Nat) :
    ((statsCollectFile d env maxFile file (statsOf d recs errors)).1 = none ↔
        Collectable maxFile file) ∧
      (statsCollectFile d env maxFile file (statsOf d recs errors)).2 =
        if Collectable maxFile file then
          statsOf d (recs ++ (delivered env file).map (·.record)) (errors + walkedErrors env file)
        else statsOf d recs errors := by
  by_cases hcol : Collectable maxFile file
  · obtain ⟨cont, hparse⟩ := Except.exists_ok hcol.2
    have hrecs : (delivered env file).map (·.record) = (eventsOf
        (walkSignals env WALK_DEFAULT_MAX_DECODE 0 0 cont.sections)).map (·.record) := by
      rw [delivered_eq env hparse, ← walkSignals_items env _ _ 0 0, List.map_map]
      rfl
    have hcap : (statsWalk d).cap = WALK_DEFAULT_MAX_DECODE := rfl
    rw [statsCollectFile, walkAbsorb, if_neg (Nat.not_lt.mpr hcol.1), if_pos hcol,
      walkMemory_fold env (fun _ _ => rfl), walkedErrors, hparse]
    dsimp only
    rw [hcap, statsSignals_of, hrecs]
    simp [hcol]
  · rw [if_neg hcol, statsCollectFile, walkAbsorb]
    by_cases hbig : file.length > maxFile
    · simp [hbig, hcol]
    · rw [if_neg hbig, walkMemory_fold env (fun _ _ => rfl)]
      cases hparse : containerParse file with
      | error rc => simp [hcol]
      | ok cont =>
        refine absurd ⟨Nat.not_lt.mp hbig, ?_⟩ hcol
        rw [hparse]
        rfl

/-- What a fresh accumulator takes in. -/
theorem statsCollectFile_first {δ : Type} {d : Doubles δ} {env : Nat → CodecEnv} {maxFile : Nat}
    {file : Bytes} {st : Stats δ}
    (h : statsCollectFile d env maxFile file (statsInit d) = (none, st)) :
    Collectable maxFile file ∧
      st = statsOf d ((delivered env file).map (·.record)) (walkedErrors env file) := by
  have hspec := statsCollectFile_of d env maxFile file [] 0
  have hinit : statsOf d [] 0 = statsInit d := rfl
  rw [hinit, h] at hspec
  have hcol := hspec.1.mp rfl
  have hst := hspec.2.trans (if_pos hcol)
  rw [List.nil_append, Nat.zero_add] at hst
  exact ⟨hcol, hst⟩

/-- Files collected one after the other, each in a memory state of its own. -/
def statsCollect {δ : Type} (d : Doubles δ) (maxFile : Nat)
    (files : List ((Nat → CodecEnv) × Bytes)) : Stats δ :=
  files.foldl (fun st p => (statsCollectFile d p.1 maxFile p.2 st).2) (statsInit d)

/-- **More files.** -/
theorem statsCollect_of {δ : Type} (d : Doubles δ) (maxFile : Nat) :
    ∀ (files : List ((Nat → CodecEnv) × Bytes)) (recs : List Record) (errors : Nat),
      files.foldl (fun st p => (statsCollectFile d p.1 maxFile p.2 st).2) (statsOf d recs errors) =
        statsOf d (recs ++ (files.filter fun p => Collectable maxFile p.2).flatMap fun p =>
            (delivered p.1 p.2).map (·.record))
          (errors + ((files.filter fun p => Collectable maxFile p.2).map fun p =>
            walkedErrors p.1 p.2).sum)
  | [], recs, errors => by simp
  | p :: files, recs, errors => by
    rw [List.foldl_cons, (statsCollectFile_of d p.1 maxFile p.2 recs errors).2]
    by_cases h : Collectable maxFile p.2
    · rw [if_pos h, statsCollect_of d maxFile files, List.filter_cons_of_pos (by simpa using h)]
      simp [Nat.add_assoc]
    · rw [if_neg h, statsCollect_of d maxFile files, List.filter_cons_of_neg (by simpa using h)]

/-- **Collecting is counting.** After any files, in any order and with any that are refused among them,
the accumulator holds the counts, the histograms and the folds of the records delivered from those
taken in, and the number of their errors. -/
theorem stats_collected {δ : Type} (d : Doubles δ) (maxFile : Nat)
    (files : List ((Nat → CodecEnv) × Bytes)) :
    let taken := files.filter fun p => Collectable maxFile p.2
    statsCollect d maxFile files =
      statsOf d (taken.flatMap fun p => (delivered p.1 p.2).map (·.record))
        (taken.map fun p => walkedErrors p.1 p.2).sum := by
  have h := statsCollect_of d maxFile files [] 0
  rw [List.nil_append, Nat.zero_add] at h
  exact h

/-! ## How the counts add up -/

/-- The tag of the records that an aggregate is over. -/
def StatField.tag : StatField → UInt8
  | hbUptimeS | hbSeq => REC_HEARTBEAT
  | batteryPct | batteryCycles => REC_BATTERY
  | geoLatE7 | geoLonE7 | geoAltMm => REC_GEO
  | netRxBytes | netTxBytes | netRxPkts | netTxPkts => REC_NET
  | sensorSamples | sensorValue => REC_SENSOR
  | eventCode | eventPayloadLen => REC_EVENT
  | diagBlobLen => REC_DIAG
  | configPairs => REC_CONFIG

/-- The counts of an accumulator agree with each other. -/
structure StatsBalanced {δ : Type} (st : Stats δ) (recs : List Record) : Prop where
  /-- no count wraps around -/
  total : st.totalRecords.toNat = recs.length
  tags : ((List.range 256).map fun t => (st.tagCounts (UInt8.ofNat t)).toNat).sum =
    st.totalRecords.toNat
  /-- every aggregate but that of the samples has one value for each record of its tag -/
  fields : ∀ f, f ≠ .sensorValue → (st.num f).count = st.tagCounts f.tag
  severities : ((List.range 256).map fun s => (st.logSeverity (UInt8.ofNat s)).toNat).sum =
    (st.tagCounts REC_LOG).toNat
  /-- the walk delivers no redacted record -/
  redacted : st.keyrefRedacted = 0 ∧ st.diagRedacted = 0

/-- Every item takes three bytes or more. -/
theorem flatMap_encodeTlv_le : ∀ ts : List Tlv, ts.length * 3 ≤ (ts.flatMap encodeTlv).length
  | [] => Nat.zero_le _
  | t :: ts => by
    have ih := flatMap_encodeTlv_le ts
    rw [List.flatMap_cons, List.length_append, encodeTlv_length, List.length_cons]
    omega

theorem sectionRecords_length_le (env : CodecEnv) (cap : Nat) (sec : Section) :
    (sectionRecords env cap sec).length ≤ cap := by
  have hraw := @sectionRecords_raw_le cap zeroSlack env sec
  have hitems := flatMap_encodeTlv_le ((sectionRecords env cap sec).map (Record.item zeroSlack))
  rw [List.length_map] at hitems
  omega

/-- A walk delivers far fewer records than a 64-bit counter holds. -/
theorem delivered_length_lt (env : Nat → CodecEnv) (file : Bytes) :
    (delivered env file).length < 2 ^ 40 := by
  cases hparse : containerParse file with
  | error rc =>
    rw [delivered, walkMemory, hparse]
    exact Nat.two_pow_pos 40
  | ok cont =>
    obtain ⟨es, region, hlayout, -, -, hsecs⟩ := containerParse_ok hparse
    have hcount : cont.sections.length < 2 ^ 16 := by
      rw [hsecs, List.length_map, hlayout.count_eq]
      exact cont.sectionCount.toNat_lt
    have hall : ∀ (secs : List Section) (k : Nat),
        (walkItems env WALK_DEFAULT_MAX_DECODE k secs).length ≤ secs.length * WALK_DEFAULT_MAX_DECODE := by
      intro secs
      induction secs with
      | nil => simp [walkItems]
      | cons sec secs ih =>
        intro k
        have hsec := sectionRecords_length_le (env k) WALK_DEFAULT_MAX_DECODE sec
        have hrest := ih (k + 1)
        rw [walkItems_cons, List.length_append, List.length_map, List.length_cons, Nat.succ_mul]
        omega
    have h := hall cont.sections 0
    rw [delivered_eq env hparse]
    have hcap : WALK_DEFAULT_MAX_DECODE = 2 ^ 24 := rfl
    rw [hcap] at h ⊢
    omega

theorem numOf_count {δ : Type} (d : Doubles δ) (vs : List δ) :
    (numOf d vs).count = UInt64.ofNat vs.length := by
  induction vs using List.reverseRecOn with
  | nil => rfl
  | append_singleton vs v ih =>
    rw [numOf_append, List.foldl_cons, List.foldl_nil, List.length_append, UInt64.ofNat_add, ← ih]
    rfl

theorem StatField.tag_known (f : StatField) : f.tag ∈ recTags := by
  cases f <;> simp [StatField.tag, recTags]

/-- One value for each record of the tag. -/
theorem statValues_length {δ : Type} (d : Doubles δ) {f : StatField} (h : f ≠ .sensorValue)
    (rec : Record) : (statValues d f rec).length = if rec.tag = f.tag then 1 else 0 := by
  cases rec with
  | other t ht =>
    have hne : (Record.other t ht).tag ≠ f.tag := by
      intro heq
      have hknown := f.tag_known
      rw [← heq] at hknown
      exact ht hknown
    rw [if_neg hne]
    cases f <;> rfl
  | _ => cases f <;> first | rfl | exact absurd rfl h

theorem statValues_count {δ : Type} (d : Doubles δ) {f : StatField} (h : f ≠ .sensorValue)
    (recs : List Record) :
    (recs.flatMap (statValues d f)).length = recs.countP fun rec => rec.tag = f.tag := by
  induction recs with
  | nil => rfl
  | cons rec recs ih =>
    rw [List.flatMap_cons, List.length_append, ih, statValues_length d h, List.countP_cons]
    by_cases htag : rec.tag = f.tag <;> simp [htag, Nat.add_comm]

/-- Elements counted by a number of theirs are counted once. -/
theorem sum_countP_key {α : Type} (p : α → Bool) (key : α → Nat) (xs : List α) : ∀ n : Nat,
    ((List.range n).map fun t => xs.countP fun x => p x && key x == t).sum =
      xs.countP fun x => p x && decide (key x < n)
  | 0 => by simp
  | n + 1 => by
    rw [List.range_succ, List.map_append, List.sum_append, sum_countP_key p key xs n, List.map_cons,
      List.map_nil, List.sum_cons, List.sum_nil, Nat.add_zero]
    induction xs with
    | nil => rfl
    | cons x xs ih =>
      simp only [List.countP_cons, ← ih]
      cases p x with
      | false => simp
      | true =>
        rcases Nat.lt_trichotomy (key x) n with h | h | h
        · simp [h, Nat.ne_of_lt h, Nat.lt_succ_of_lt h]
          omega
        · simp [h]
          omega
        · simp [Nat.ne_of_gt h, Nat.not_lt.mpr (Nat.le_of_lt h), Nat.not_lt.mpr (Nat.succ_le_of_lt h)]

/-- So are elements counted by a byte. -/
theorem sum_countP_byte {α : Type} (p : α → Bool) (byte : α → UInt8) (xs : List α) :
    ((List.range 256).map fun t => xs.countP fun x => p x && decide (byte x = UInt8.ofNat t)).sum =
      xs.countP p := by
  have hbyte : ∀ t ∈ List.range 256, (xs.countP fun x => p x && decide (byte x = UInt8.ofNat t)) =
      xs.countP fun x => p x && (byte x).toNat == t := by
    intro t ht
    rw [List.mem_range] at ht
    refine List.countP_congr fun x _ => ?_
    rw [Bool.and_eq_true, Bool.and_eq_true, decide_eq_true_eq, beq_iff_eq, ← UInt8.toNat_inj,
      UInt8.toNat_ofNat', Nat.mod_eq_of_lt ht]
  rw [List.map_congr_left hbyte, sum_countP_key]
  refine List.countP_congr fun x _ => ?_
  rw [decide_eq_true (byte x).toNat_lt, Bool.and_true]

/-- The severity of a `LOG`. -/
def Record.severity : Record → UInt8
  | log r => r.severity
  | _ => 0

theorem severityIs_eq (s : UInt8) (rec : Record) :
    rec.severityIs s = (decide (rec.tag = REC_LOG) && decide (rec.severity = s)) := by
  cases rec with
  | log r =>
    rw [Bool.eq_iff_iff, Bool.and_eq_true, decide_eq_true_eq, decide_eq_true_eq]
    simp [Record.severityIs, Record.severity, Record.tag]
  | other t ht =>
    have hne : t ≠ REC_LOG := fun h => ht (h ▸ by simp [recTags])
    simp [Record.severityIs, Record.tag, hne]
  | _ => rfl

/-- A comparison orders values: it is asymmetric, and what is not below something that is not below a
third is not below that.  `<` orders integers, and `float`s other than NaN. -/
def Orders {δ : Type} (lt : δ → δ → Bool) (vs : List δ) : Prop :=
  (∀ a ∈ vs, ∀ b ∈ vs, lt a b = true → lt b a = false) ∧
    ∀ a ∈ vs, ∀ b ∈ vs, ∀ c ∈ vs, lt a b = false → lt b c = false → lt a c = false

/-- `m` is one of the values, and none is below it. -/
def Least {δ : Type} (lt : δ → δ → Bool) (vs : List δ) (m : δ) : Prop :=
  m ∈ vs ∧ ∀ v ∈ vs, lt v m = false

section Extremes

variable {δ : Type} {lt : δ → δ → Bool} {vs : List δ}

theorem Orders.flip (h : Orders lt vs) : Orders (fun a b => lt b a) vs :=
  ⟨fun a ha b hb => h.1 b hb a ha, fun a ha b hb c hc hab hbc => h.2 c hc b hb a ha hbc hab⟩

theorem Orders.irrefl (h : Orders lt vs) {a : δ} (ha : a ∈ vs) : lt a a = false := by
  cases haa : lt a a with
  | false => rfl
  | true => exact haa.symm.trans (h.1 a ha a ha haa)

theorem Orders.left {v : δ} (h : Orders lt (vs ++ [v])) : Orders lt vs := by
  have hold : ∀ a ∈ vs, a ∈ vs ++ [v] := fun a ha => List.mem_append_left _ ha
  exact ⟨fun a ha b hb => h.1 a (hold a ha) b (hold b hb),
    fun a ha b hb c hc => h.2 a (hold a ha) b (hold b hb) c (hold c hc)⟩

/-- The smaller of the least value so far and the next is the least. -/
theorem Least.step {m v : δ} (horder : Orders lt (vs ++ [v])) (h : Least lt vs m) :
    Least lt (vs ++ [v]) (if lt v m then v else m) := by
  obtain ⟨hm, hleast⟩ := h
  have hv : v ∈ vs ++ [v] := by simp
  have hm' : m ∈ vs ++ [v] := List.mem_append_left _ hm
  cases hlt : lt v m with
  | false =>
    rw [if_neg (by simp)]
    refine ⟨hm', ?_⟩
    rw [List.forall_mem_append]
    exact ⟨hleast, by simpa using hlt⟩
  | true =>
    rw [if_pos rfl]
    refine ⟨hv, ?_⟩
    rw [List.forall_mem_append]
    refine ⟨fun a ha => ?_, by simpa using horder.irrefl hv⟩
    exact horder.2 a (List.mem_append_left _ ha) m hm' v hv (hleast a ha) (horder.1 v hv m hm' hlt)

end Extremes

theorem numOf_count_ne {δ : Type} (d : Doubles δ) {vs : List δ} (hne : vs ≠ [])
    (hlen : vs.length < 2 ^ 64) : (numOf d vs).count ≠ 0 := by
  rw [numOf_count]
  intro h0
  have hnat := congrArg UInt64.toNat h0
  rw [UInt64.toNat_ofNat_of_lt' (by rw [UInt64.size]; omega)] at hnat
  exact hne (List.length_eq_zero_iff.mp hnat)

/-- **The extremes are extremes**, of values that are ordered and few enough to be counted. -/
theorem numOf_extremes {δ : Type} {d : Doubles δ} {vs : List δ} (hne : vs ≠ [])
    (hlen : vs.length < 2 ^ 64) (horder : Orders d.lt vs) :
    Least d.lt vs (numOf d vs).min ∧ Least (fun a b => d.lt b a) vs (numOf d vs).max := by
  induction vs using List.reverseRecOn with
  | nil => exact absurd rfl hne
  | append_singleton vs v ih =>
    have hstep : numOf d (vs ++ [v]) = numAdd d (numOf d vs) v := numOf_append vs [v]
    rw [List.length_append, List.length_singleton] at hlen
    rw [hstep]
    rcases eq_or_ne vs [] with rfl | hvs
    · have hself := horder.irrefl (a := v) (by simp)
      simpa [numAdd, numBounds, numOf, numZero, Least] using hself
    · obtain ⟨hmin, hmax⟩ := ih hvs (by omega) horder.left
      simp only [numAdd, numBounds, if_neg (numOf_count_ne d hvs (by omega))]
      exact ⟨hmin.step horder, hmax.step horder.flip⟩

/-- The values of every aggregate but that of the samples are integers of 32 bits. -/
theorem statValues_int {δ : Type} {d : Doubles δ} {f : StatField} (h : f ≠ .sensorValue)
    {rec : Record} {v : δ} (hv : v ∈ statValues d f rec) :
    ∃ i : Int, i.natAbs < 2 ^ 32 ∧ v = d.ofInt i := by
  have h8 : ∀ x : UInt8, (x.toNat : Int).natAbs < 2 ^ 32 := fun x => by
    have := x.toNat_lt
    omega
  have h16 : ∀ x : UInt16, (x.toNat : Int).natAbs < 2 ^ 32 := fun x => by
    have := x.toNat_lt
    omega
  have h32 : ∀ x : UInt32, (x.toNat : Int).natAbs < 2 ^ 32 := fun x => by
    have := x.toNat_lt
    omega
  have hi32 : ∀ x : Int32, x.toInt.natAbs < 2 ^ 32 := fun x => by
    have := x.toInt_lt
    have := x.le_toInt
    omega
  cases f <;> cases rec <;> simp only [statValues, List.mem_singleton, List.not_mem_nil] at hv <;>
    first
    | exact absurd rfl h
    | exact ⟨_, h8 _, hv⟩
    | exact ⟨_, h16 _, hv⟩
    | exact ⟨_, h32 _, hv⟩
    | exact ⟨_, hi32 _, hv⟩

/-- **The extremes of a file.** Where `double` compares the 32-bit integers as integers, each aggregate
of an integer field whose type occurs has the least and the greatest value of the field for its bounds. -/
theorem stats_extremes {δ : Type} {d : Doubles δ} {env : Nat → CodecEnv} {maxFile : Nat} {file : Bytes}
    {st : Stats δ}
    (hlt : ∀ a b : Int, a.natAbs < 2 ^ 32 → b.natAbs < 2 ^ 32 →
      d.lt (d.ofInt a) (d.ofInt b) = decide (a < b))
    (h : statsCollectFile d env maxFile file (statsInit d) = (none, st)) {f : StatField}
    (hf : f ≠ .sensorValue) (hoccurs : ∃ it ∈ delivered env file, it.record.tag = f.tag) :
    let values := ((delivered env file).map (·.record)).flatMap (statValues d f)
    Least d.lt values (st.num f).min ∧ Least (fun a b => d.lt b a) values (st.num f).max := by
  obtain ⟨-, rfl⟩ := statsCollectFile_first h
  have hcount := statValues_count d hf ((delivered env file).map (·.record))
  have hle := List.countP_le_length (p := fun rec => rec.tag = f.tag)
    (l := (delivered env file).map (·.record))
  have hdelivered := delivered_length_lt env file
  rw [List.length_map] at hle
  apply numOf_extremes
  · obtain ⟨it, hit, htag⟩ := hoccurs
    have hpos : 0 < ((delivered env file).map (·.record)).countP fun rec => rec.tag = f.tag := by
      rw [List.countP_pos_iff]
      exact ⟨it.record, List.mem_map_of_mem hit, by simpa using htag⟩
    rw [← hcount] at hpos
    exact List.ne_nil_of_length_pos hpos
  · omega
  · have hint : ∀ v ∈ ((delivered env file).map (·.record)).flatMap (statValues d f),
        ∃ i : Int, i.natAbs < 2 ^ 32 ∧ v = d.ofInt i := by
      intro v hv
      obtain ⟨rec, -, hv⟩ := List.mem_flatMap.mp hv
      exact statValues_int hf hv
    constructor
    · intro a ha b hb
      obtain ⟨i, hi, rfl⟩ := hint a ha
      obtain ⟨j, hj, rfl⟩ := hint b hb
      simp only [hlt _ _ hi hj, hlt _ _ hj hi, decide_eq_true_eq, decide_eq_false_iff_not]
      omega
    · intro a ha b hb c hc
      obtain ⟨i, hi, rfl⟩ := hint a ha
      obtain ⟨j, hj, rfl⟩ := hint b hb
      obtain ⟨k, hk, rfl⟩ := hint c hc
      simp only [hlt _ _ hi hj, hlt _ _ hj hk, hlt _ _ hi hk, decide_eq_false_iff_not]
      omega

/-- Integers in place of `double`. -/
def intDoubles : Doubles Int where
  ofInt i := i
  ofFloat _ := 0
  lt a b := decide (a < b)
  add a b := a + b
  div a b := a / b
  fixed3 i := decimalInt i ++ ascii ".000"

theorem statsCollectFile_two : ∃ st,
    statsCollectFile intDoubles plainEnv 4096 twoSections (statsInit intDoubles) = (none, st) := by
  have hcol : (statsCollectFile intDoubles plainEnv 4096 twoSections (statsInit intDoubles)).1 = none := by
    decide +kernel
  revert hcol
  generalize statsCollectFile intDoubles plainEnv 4096 twoSections (statsInit intDoubles) = r
  intro hcol
  exact ⟨r.2, Prod.ext hcol rfl⟩

theorem stats_extremes_two : ∃ st,
    statsCollectFile intDoubles plainEnv 4096 twoSections (statsInit intDoubles) = (none, st) ∧
      Least intDoubles.lt (((delivered plainEnv twoSections).map (·.record)).flatMap
        (statValues intDoubles .hbSeq)) (st.num .hbSeq).min := by
  obtain ⟨st, hst⟩ := statsCollectFile_two
  have hoccurs : (delivered plainEnv twoSections).any
      (fun it => decide (it.record.tag = REC_HEARTBEAT)) = true := by
    decide +kernel
  obtain ⟨it, hit, htag⟩ := List.any_eq_true.mp hoccurs
  exact ⟨st, hst, (stats_extremes (f := .hbSeq) (fun _ _ _ _ => rfl) hst (fun h => by cases h)
    ⟨it, hit, of_decide_eq_true htag⟩).1⟩

end Dtl
