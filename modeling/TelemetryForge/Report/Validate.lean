import TelemetryForge.Lib.CText
import TelemetryForge.Report.Walk

/-!
# The validator

Model of `report/validate`: the per-type checks, the walk that drives them and the report.

`Reported` says of a container's bytes that they have a defect the validator reports, and `Whole`
that every section it decodes has its full length and ends with its last item.

Principal results: `validateMemory_errorCount` — the error count is zero exactly when nothing
`Reported` is there; `validate_sound_iff` — a clean verdict is sound exactly for bytes that are `Whole`
or have some reported defect.
-/

set_option autoImplicit false

namespace Dtl

open CText

/-- `dtl_validate_severity`. -/
inductive Severity where
  | info
  | warning
  | error
  deriving DecidableEq, Repr

/-- `dtl_issue`. -/
structure Issue where
  severity : Severity
  sectionIndex : Nat
  recordInSec : Nat
  message : Bytes
  deriving DecidableEq, Repr

/-- `dtl_validate_report`; `sections_checked`, which nothing sets, is left out. -/
structure ValidateReport where
  issues : List Issue
  recordsChecked : Nat
  errorCount : Nat
  warningCount : Nat
  deriving DecidableEq, Repr

def ISSUE_MESSAGE_SIZE : Nat := 96

/-- `dtl_validate_add`, with allocations that succeed. -/
def validateAdd (rep : ValidateReport) (sev : Severity) (sectionIndex recordInSec : Nat)
    (message : Bytes) : ValidateReport :=
  { rep with
    issues := rep.issues ++
      [⟨sev, sectionIndex, recordInSec, message.take (ISSUE_MESSAGE_SIZE - 1)⟩]
    errorCount := if sev = .error then rep.errorCount + 1 else rep.errorCount
    warningCount := if sev = .warning then rep.warningCount + 1 else rep.warningCount }

/-- One `if (..) dtl_validate_add(..)`. -/
def validateIf (c : Prop) [Decidable c] (sev : Severity) (si ri : Nat) (message : Bytes)
    (rep : ValidateReport) : ValidateReport :=
  if c then validateAdd rep sev si ri message else rep

/-- The pair loop of `dtl_validate_record`, from pair `i` on. -/
def validatePairs (si ri : Nat) : Nat → List ConfigPair → ValidateReport → ValidateReport
  | _, [], rep => rep
  | i, p :: ps, rep =>
    validatePairs si ri (i + 1) ps
      (validateIf (p.key.val = []) .error si ri
        (ascii "config pair " ++ decimal i ++ ascii " has empty key") rep)

/-- `dtl_validate_record`. -/
def validateRecord (rep : ValidateReport) (si ri : Nat) : Record → ValidateReport
  | .heartbeat r => validateIf (r.seq = 0) .warning si ri (ascii "heartbeat with seq 0") rep
  | .sensor r => validateIf (r.count = 0) .info si ri (ascii "sensor record with no samples") rep
  | .event r => validateIf (r.payloadLen = 0) .warning si ri
      (ascii "event 0x" ++ hexPad 4 r.code.toNat ++ ascii " with empty payload") rep
  | .diag r => validateIf (r.blobLen = 0 ∧ r.redacted = 0) .warning si ri
      (ascii "diag subsystem " ++ decimal r.subsystem.toNat ++ ascii " with empty blob") rep
  | .geo r =>
    validateIf (r.lonE7 > 1800000000 ∨ r.lonE7 < -1800000000) .error si ri
      (ascii "longitude " ++ decimalInt r.lonE7.toInt ++ ascii " out of range")
      (validateIf (r.latE7 > 900000000 ∨ r.latE7 < -900000000) .error si ri
        (ascii "latitude " ++ decimalInt r.latE7.toInt ++ ascii " out of range") rep)
  | .battery r => validateIf (r.pct > 100) .error si ri
      (ascii "battery pct " ++ decimal r.pct.toNat ++ ascii " over 100") rep
  | .net r =>
    validateIf (r.txPkts = 0 ∧ r.txBytes ≠ 0) .warning si ri
      (ascii "tx_bytes nonzero with zero tx_pkts")
      (validateIf (r.rxPkts = 0 ∧ r.rxBytes ≠ 0) .warning si ri
        (ascii "rx_bytes nonzero with zero rx_pkts") rep)
  | .log r =>
    validateIf (r.msgLen = 0) .info si ri (ascii "empty log message")
      (validateIf (r.severity > 7) .warning si ri
        (ascii "log severity " ++ decimal r.severity.toNat ++ ascii " above syslog range") rep)
  | .config r => validatePairs si ri 0 (r.pairs.take r.pairCount.toNat) rep
  | .keyref r => validateIf (r.slotId = 0) .warning si ri
      (ascii "keyref references reserved slot 0") rep
  | .firmware r => validateIf (r.major = 0 ∧ r.minor = 0 ∧ r.patch = 0) .warning si ri
      (ascii "firmware version 0.0.0") rep
  | .other tag _ => validateAdd rep .error si ri (ascii "unknown record tag 0x" ++ hexPad 2 tag.toNat)

/-- `dtl_validate_on_record`, `dtl_validate_on_error` and the default decode cap. -/
def validateWalk : Walk ValidateReport where
  onRecord ev rep := (none, validateRecord { rep with recordsChecked := rep.recordsChecked + 1 }
    ev.sectionIndex ev.recordInSec ev.record)
  onError we rep := validateAdd rep .error we.sectionIndex we.recordInSec
    (ascii "decode/parse failure: " ++ ascii (strerror we.rc))
  maxDecode := 0

/-- `dtl_validate_finish`: the report is the result, also for a rejected container. -/
def validateFinish : Option Err × ValidateReport → ValidateReport
  | (some rc, rep) => validateAdd rep .error 0 0 (ascii "container rejected: " ++ ascii (strerror rc))
  | (none, rep) => rep

/-- `dtl_validate_memory`. -/
def validateMemory (env : Nat → CodecEnv) (data : Bytes) : ValidateReport :=
  validateFinish (walkMemory env validateWalk data ⟨[], 0, 0, 0⟩)

/-- `dtl_validate_print`'s verdict. -/
def ValidateReport.verdict (rep : ValidateReport) : Bytes :=
  ascii (if rep.errorCount ≠ 0 then "FAIL" else "OK")

/-! ## What is reported -/

/-- An error-severity check fails. -/
def Record.Violates : Record → Prop
  | geo r => (r.latE7 > 900000000 ∨ r.latE7 < -900000000) ∨
      (r.lonE7 > 1800000000 ∨ r.lonE7 < -1800000000)
  | battery r => r.pct > 100
  | config r => ∃ p ∈ r.pairs.take r.pairCount.toNat, p.key.val = []
  | other _ _ => True
  | _ => False

theorem validateIf_errorCount {c : Prop} [Decidable c] {sev : Severity} {si ri : Nat}
    {message : Bytes} {rep : ValidateReport} :
    (validateIf c sev si ri message rep).errorCount = 0 ↔
      rep.errorCount = 0 ∧ ¬ (c ∧ sev = .error) := by
  unfold validateIf validateAdd
  split
  · rename_i hc
    by_cases hs : sev = .error
    · simp [hc, hs]
    · simp [hs]
  · rename_i hc
    simp [hc]

theorem validatePairs_errorCount {si ri : Nat} : ∀ (ps : List ConfigPair) (i : Nat)
    (rep : ValidateReport),
    (validatePairs si ri i ps rep).errorCount = 0 ↔
      rep.errorCount = 0 ∧ ¬ ∃ p ∈ ps, p.key.val = []
  | [], i, rep => by simp [validatePairs]
  | p :: ps, i, rep => by
    rw [validatePairs, validatePairs_errorCount ps, validateIf_errorCount]
    simp only [and_true, List.mem_cons, exists_eq_or_imp, not_or, and_assoc]

/-- A record's checks leave the error count at zero exactly when none of error severity fails. -/
theorem validateRecord_errorCount (rep : ValidateReport) (si ri : Nat) (rec : Record) :
    (validateRecord rep si ri rec).errorCount = 0 ↔ rep.errorCount = 0 ∧ ¬ rec.Violates := by
  cases rec with
  | config r => rw [validateRecord, validatePairs_errorCount, Record.Violates]
  | other t ht => simp [validateRecord, validateAdd, Record.Violates]
  | _ => simp [validateRecord, validateIf_errorCount, Record.Violates, and_assoc]

theorem validateWalk_continues : validateWalk.Continues := fun _ _ => rfl

theorem validateWalk_fold : ∀ (xs : List Signal) (rep : ValidateReport),
    (xs.foldl validateWalk.signal rep).errorCount = 0 ↔
      rep.errorCount = 0 ∧ ∀ x ∈ xs, x.Good fun rec => ¬ rec.Violates
  | [], rep => by simp
  | x :: xs, rep => by
    rw [List.foldl_cons, validateWalk_fold xs, List.forall_mem_cons, ← and_assoc]
    refine and_congr_left fun _ => ?_
    cases x with
    | record ev => exact validateRecord_errorCount _ _ _ _
    | error we => simp [Walk.signal, validateWalk, validateAdd, Signal.Good]

/-- An item is reported when it does not parse, or its record fails a check of error severity. -/
def ItemReported (t : Tlv) : Prop :=
  match recordParse t with
  | .error _ => True
  | .ok rec => rec.Violates

/-- A section is reported when it has no usable stream, or for one of the stream's items. -/
def SectionReported (env : CodecEnv) (sec : Section) : Prop :=
  match sectionStream env WALK_DEFAULT_MAX_DECODE sec with
  | .error _ => True
  | .ok raw => ∃ t ∈ (tlvItems raw).1, ItemReported t

/-- Some defect of the bytes is reported. -/
def Reported (env : Nat → CodecEnv) (data : Bytes) : Prop :=
  match containerParse data with
  | .error _ => True
  | .ok cont => ∃ i sec, cont.sections[i]? = some sec ∧ SectionReported (env i) sec

theorem not_itemReported (t : Tlv) :
    ¬ ItemReported t ↔ ∃ rec, recordParse t = .ok rec ∧ ¬ rec.Violates := by
  unfold ItemReported
  cases recordParse t <;> simp

theorem not_sectionReported (env : CodecEnv) (sec : Section) :
    ¬ SectionReported env sec ↔ ∃ raw, sectionStream env WALK_DEFAULT_MAX_DECODE sec = .ok raw ∧
      ∀ t ∈ (tlvItems raw).1, ∃ rec, recordParse t = .ok rec ∧ ¬ rec.Violates := by
  unfold SectionReported
  cases sectionStream env WALK_DEFAULT_MAX_DECODE sec with
  | error rc => simp
  | ok raw => simp only [not_exists, not_and, not_itemReported, Except.ok.injEq, exists_eq_left']

/-- **The error count is zero exactly when nothing reported is there.** -/
theorem validateMemory_errorCount (env : Nat → CodecEnv) (data : Bytes) :
    (validateMemory env data).errorCount = 0 ↔ ¬ Reported env data := by
  unfold validateMemory Reported
  rw [walkMemory_fold env validateWalk_continues]
  cases containerParse data with
  | error rc => simp [validateFinish, validateAdd]
  | ok cont =>
    have hcap : validateWalk.cap = WALK_DEFAULT_MAX_DECODE := rfl
    simp only [validateFinish, validateWalk_fold, walkSignals_good, true_and, hcap, Nat.zero_add,
      not_exists, not_and, not_sectionReported]

/-! ## Soundness of the verdict -/

/-- What the validator's contract asks of a section. -/
def SectionClean (env : CodecEnv) (sec : Section) : Prop :=
  ∃ codec raw, ∃ items : List Tlv, codecGet sec.codecId = some codec ∧
    codec.decode env sec.blob sec.rawLen.toNat = .ok raw ∧ raw.length = sec.rawLen.toNat ∧
    raw = items.flatMap encodeTlv ∧
    ∀ t ∈ items, t.Fits ∧ ∃ rec, recordParse t = .ok rec ∧ ¬ rec.Violates

/-- What the validator's contract asks of a container. -/
def Clean (env : Nat → CodecEnv) (data : Bytes) : Prop :=
  ∃ cont, containerParse data = .ok cont ∧
    ∀ i sec, cont.sections[i]? = some sec → SectionClean (env i) sec

/-- If the section has a usable stream, that stream has its full length and ends with an item. -/
def SectionWhole (env : CodecEnv) (sec : Section) : Prop :=
  match sectionStream env WALK_DEFAULT_MAX_DECODE sec with
  | .error _ => True
  | .ok raw => raw.length = sec.rawLen.toNat ∧ (tlvItems raw).2 = []

def Whole (env : Nat → CodecEnv) (data : Bytes) : Prop :=
  ∀ cont, containerParse data = .ok cont →
    ∀ i sec, cont.sections[i]? = some sec → SectionWhole (env i) sec

theorem sectionStream_ok {env : CodecEnv} {cap : Nat} {sec : Section} {raw : Bytes} :
    sectionStream env cap sec = .ok raw ↔ ∃ codec, codecGet sec.codecId = some codec ∧
      sec.rawLen.toNat ≤ cap ∧ codec.decode env sec.blob sec.rawLen.toNat = .ok raw := by
  unfold sectionStream
  cases codecGet sec.codecId with
  | none => simp
  | some codec =>
    by_cases h : sec.rawLen.toNat > cap
    · simp [h]
    · simp [h, Nat.le_of_not_lt h]

/-- A section in which nothing is reported is clean exactly when it is whole. -/
theorem sectionClean_iff {env : CodecEnv} {sec : Section} (h : ¬ SectionReported env sec) :
    SectionClean env sec ↔ SectionWhole env sec := by
  obtain ⟨raw, hraw, hitems⟩ := (not_sectionReported env sec).mp h
  obtain ⟨codec, hcodec, -, hdec⟩ := sectionStream_ok.mp hraw
  rw [SectionWhole, hraw]
  constructor
  · rintro ⟨codec', raw', items, hcodec', hdec', hlen, hcat, hgood⟩
    rw [hcodec, Option.some.injEq] at hcodec'
    subst hcodec'
    rw [hdec, Except.ok.injEq] at hdec'
    subst hdec'
    refine ⟨hlen, ?_⟩
    rw [hcat, tlvItems_encode items fun t ht => (hgood t ht).1]
  · rintro ⟨hlen, hrest⟩
    have hspec := (tlvItems_spec raw).1
    rw [hrest, List.append_nil] at hspec
    exact ⟨codec, raw, _, hcodec, hdec, hlen, hspec, fun t ht =>
      ⟨tlvItems_fits raw t ht, hitems t ht⟩⟩

/-- **When a clean verdict is sound.** The validator's promise, that a report without errors means a
container it describes, holds for exactly those bytes that have a reported defect somewhere, or whose
decoded sections all have their full length and no bytes behind their last item. -/
theorem validate_sound_iff (env : Nat → CodecEnv) (data : Bytes) :
    ((validateMemory env data).errorCount = 0 → Clean env data) ↔
      (Reported env data ∨ Whole env data) := by
  rw [validateMemory_errorCount]
  by_cases hrep : Reported env data
  · simp [hrep]
  · simp only [hrep, not_false_eq_true, true_imp_iff, false_or]
    cases hparse : containerParse data with
    | error rc => exact absurd (by simp [Reported, hparse]) hrep
    | ok cont =>
      have hsec : ∀ i sec, cont.sections[i]? = some sec → ¬ SectionReported (env i) sec := by
        intro i sec hi hr
        exact hrep (by rw [Reported, hparse]; exact ⟨i, sec, hi, hr⟩)
      constructor
      · rintro ⟨cont', hparse', hclean⟩ cont'' hparse'' i sec hi
        rw [hparse', Except.ok.injEq] at hparse''
        subst hparse''
        rw [hparse, Except.ok.injEq] at hparse'
        subst hparse'
        exact (sectionClean_iff (hsec i sec hi)).mp (hclean i sec hi)
      · intro hwhole
        exact ⟨cont, hparse, fun i sec hi =>
          (sectionClean_iff (hsec i sec hi)).mpr (hwhole cont hparse i sec hi)⟩

/-- One stored section whose stream is a single stray byte. -/
def strayByte : Bytes :=
  [68, 84, 76, 1, 1, 0, 1, 0, 89, 107, 50, 251, 1, 0, 0, 0, 1, 0, 0, 0, 1, 0, 0, 0, 0, 0, 0, 0, 16]

/-- The validator accepts a section whose stream breaks off inside an item. -/
theorem validate_misses_fragment : (validateMemory (fun _ => ⟨true, 0⟩) strayByte).errorCount = 0 ∧
    ¬ Clean (fun _ => ⟨true, 0⟩) strayByte := by
  refine ⟨by decide +kernel, ?_⟩
  rintro ⟨cont, hparse, hclean⟩
  have hcont : containerParse strayByte =
      .ok ⟨1, 0, 1, [⟨⟨1, CODEC_STORE, 1, 1, 0⟩, [16]⟩], none⟩ := by decide +kernel
  rw [hcont, Except.ok.injEq] at hparse
  subst hparse
  have hraw : sectionStream ⟨true, 0⟩ WALK_DEFAULT_MAX_DECODE
      ⟨⟨1, CODEC_STORE, 1, 1, 0⟩, [16]⟩ = .ok [16] := by decide +kernel
  have hitems : tlvItems [16] = ([], [16]) := by decide
  have hrep : ¬ SectionReported ⟨true, 0⟩ ⟨⟨1, CODEC_STORE, 1, 1, 0⟩, [16]⟩ := by
    rw [not_sectionReported]
    exact ⟨[16], hraw, by simp [hitems]⟩
  have hwhole := (sectionClean_iff hrep).mp (hclean 0 _ rfl)
  rw [SectionWhole, hraw] at hwhole
  dsimp only at hwhole
  rw [hitems] at hwhole
  exact absurd hwhole.2 (by decide)

end Dtl
