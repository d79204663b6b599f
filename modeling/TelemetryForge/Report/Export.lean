import TelemetryForge.Lib.CText
import TelemetryForge.Report.Tools

/-!
# CSV and JSON export

Model of `report/export`: the text written for a record in either format, and `dtl_export_file`.  The
output stream is the bytes written to it.  How a `float` is printed and read back is left to
`FloatText`; everything else is spelled out.

Principal result: `exportFile_eq` — exporting a container writes `exportText` of the records its walk
delivers.
-/

set_option autoImplicit false

namespace Dtl

open CText

/-- The conversions of `float` values, given by their bit patterns: `strtof` (`none` when nothing is
converted), `%.6g` and `%.9g`. -/
structure FloatText where
  strtof : Bytes → Option UInt32
  g6 : UInt32 → Bytes
  g9 : UInt32 → Bytes

/-- Conversions for texts and records in which there is no `float`. -/
def noFloats : FloatText := ⟨fun _ => none, fun _ => [], fun _ => []⟩

/-- `dtl_export_format`. -/
inductive ExportFormat where
  | csv
  | json
  deriving DecidableEq

/-! ## Strings -/

/-- `dtl_export_csv_string`. -/
def exportCsvString (s : Bytes) : Bytes :=
  34 :: ((s.flatMap fun c => if c = 34 then [34, c] else [c]) ++ [34])

/-- One character of a JSON string. -/
def jsonEscape (c : UInt8) : Bytes :=
  if c = 34 then [92, 34]
  else if c = 92 then [92, 92]
  else if c = 10 then [92, 110]
  else if c = 13 then [92, 114]
  else if c = 9 then [92, 116]
  else if c < 0x20 then 92 :: 117 :: hexPad 4 c.toNat
  else [c]

/-- `dtl_export_json_string`. -/
def exportJsonString (s : Bytes) : Bytes := 34 :: (s.flatMap jsonEscape ++ [34])

/-! ## CSV -/

/-- `dtl_export_csv_header`. -/
def exportCsvHeader : Bytes := ascii "index,tag,f0,f1,f2,f3,f4,f5\n"

/-- A comma and a column. -/
def csvColumn (text : Bytes) : Bytes := 44 :: text

/-- The columns of the first two pairs of a `CONFIG` record. -/
def exportCsvPairs (pairs : List ConfigPair) : Bytes :=
  (pairs.take 2).flatMap fun p =>
    csvColumn (exportCsvString p.key.val) ++ csvColumn (exportCsvString p.value.val)

/-- The columns that follow index and tag. -/
def exportCsvTail (ft : FloatText) : Record → Bytes
  | .heartbeat r => csvColumn (decimal r.uptimeS.toNat) ++ (csvColumn (decimal r.seq.toNat) ++
      ascii ",,,,")
  | .sensor r => csvColumn (decimal r.sensorId.toNat) ++ (csvColumn (decimal r.count.toNat) ++
      ((r.samples.take r.count.toNat).take 4).flatMap fun v => csvColumn (ft.g6 v))
  | .event r => csvColumn (decimal r.code.toNat) ++ (csvColumn (decimal r.payloadLen.toNat) ++
      (csvColumn (hexText (r.payload.take r.payloadLen.toNat)) ++ ascii ",,"))
  | .diag r => csvColumn (decimal r.subsystem.toNat) ++ (csvColumn (decimal r.blobLen.toNat) ++
      (csvColumn (decimal r.redacted.toNat) ++
        (csvColumn (hexText (r.blob.take (if r.redacted ≠ 0 then 0 else r.blobLen.toNat))) ++
          ascii ",,")))
  | .geo r => csvColumn (decimalInt r.latE7.toInt) ++ (csvColumn (decimalInt r.lonE7.toInt) ++
      (csvColumn (decimalInt r.altMm.toInt) ++ ascii ",,,"))
  | .battery r => csvColumn (decimal r.pct.toNat) ++ (csvColumn (decimalInt r.tempCE1.toInt) ++
      (csvColumn (decimal r.cycles.toNat) ++ ascii ",,,"))
  | .net r => csvColumn (decimal r.ifaceId.toNat) ++ (csvColumn (decimal r.rxBytes.toNat) ++
      (csvColumn (decimal r.txBytes.toNat) ++ (csvColumn (decimal r.rxPkts.toNat) ++
        (csvColumn (decimal r.txPkts.toNat) ++ ascii ","))))
  | .log r => csvColumn (decimal r.severity.toNat) ++
      (csvColumn (exportCsvString (r.msg.take r.msgLen.toNat)) ++ ascii ",,,")
  | .config r => csvColumn (decimal r.pairCount.toNat) ++
      exportCsvPairs (r.pairs.take r.pairCount.toNat)
  | .keyref r => csvColumn (decimal r.slotId.toNat) ++ (csvColumn (decimal r.redacted.toNat) ++
      (csvColumn (exportCsvString (r.label.take (if r.redacted ≠ 0 then 0 else r.labelLen.toNat))) ++
        ascii ",,,"))
  | .firmware r => csvColumn (decimal r.major.toNat) ++ (csvColumn (decimal r.minor.toNat) ++
      (csvColumn (decimal r.patch.toNat) ++ (csvColumn (hexText r.hash.val) ++ ascii ",,")))
  | .other _ _ => ascii ",,,,,,"

/-- The row of `dtl_export_csv_record`, without its newline. -/
def exportCsvRow (ft : FloatText) (rec : Record) (index : Nat) : Bytes :=
  decimal index ++ (csvColumn (ascii (walkTagName rec.tag)) ++ exportCsvTail ft rec)

/-- `dtl_export_csv_record`. -/
def exportCsvRecord (ft : FloatText) (rec : Record) (index : Nat) : Bytes :=
  exportCsvRow ft rec index ++ [10]

/-! ## JSON -/

/-- `"true"` or `"false"`. -/
def jsonBoolText (b : Bool) : Bytes := if b then ascii "true" else ascii "false"

/-- Texts with commas in between. -/
def commaJoin : List Bytes → Bytes
  | [] => []
  | [t] => t
  | t :: ts => t ++ 44 :: commaJoin ts

theorem commaJoin_cons (t : Bytes) (ts : List Bytes) :
    commaJoin (t :: ts) = t ++ ts.flatMap csvColumn := by
  induction ts generalizing t with
  | nil => simp [commaJoin]
  | cons u ts ih =>
    rw [List.flatMap_cons, ← List.append_assoc]
    show t ++ 44 :: commaJoin (u :: ts) = _
    rw [ih, csvColumn]
    simp

/-- `dtl_export_json_kv_tail`. -/
def exportJsonKvTail (ft : FloatText) : Record → Bytes
  | .heartbeat r => ascii ",\"uptime_s\":" ++ (decimal r.uptimeS.toNat ++ (ascii ",\"seq\":" ++
      decimal r.seq.toNat))
  | .sensor r => ascii ",\"sensor_id\":" ++ (decimal r.sensorId.toNat ++ (ascii ",\"samples\":[" ++
      (commaJoin ((r.samples.take r.count.toNat).map ft.g9) ++ ascii "]")))
  | .event r => ascii ",\"code\":" ++ (decimal r.code.toNat ++ (ascii ",\"payload_hex\":\"" ++
      (hexText (r.payload.take r.payloadLen.toNat) ++ ascii "\"")))
  | .diag r => ascii ",\"subsystem\":" ++ (decimal r.subsystem.toNat ++ (ascii ",\"redacted\":" ++
      (jsonBoolText (r.redacted ≠ 0) ++ (ascii ",\"blob_hex\":\"" ++
        (hexText (r.blob.take (if r.redacted ≠ 0 then 0 else r.blobLen.toNat)) ++ ascii "\"")))))
  | .geo r => ascii ",\"lat_e7\":" ++ (decimalInt r.latE7.toInt ++ (ascii ",\"lon_e7\":" ++
      (decimalInt r.lonE7.toInt ++ (ascii ",\"alt_mm\":" ++ decimalInt r.altMm.toInt))))
  | .battery r => ascii ",\"pct\":" ++ (decimal r.pct.toNat ++ (ascii ",\"temp_c_e1\":" ++
      (decimalInt r.tempCE1.toInt ++ (ascii ",\"cycles\":" ++ decimal r.cycles.toNat))))
  | .net r => ascii ",\"iface_id\":" ++ (decimal r.ifaceId.toNat ++ (ascii ",\"rx_bytes\":" ++
      (decimal r.rxBytes.toNat ++ (ascii ",\"tx_bytes\":" ++ (decimal r.txBytes.toNat ++
        (ascii ",\"rx_pkts\":" ++ (decimal r.rxPkts.toNat ++ (ascii ",\"tx_pkts\":" ++
          decimal r.txPkts.toNat))))))))
  | .log r => ascii ",\"severity\":" ++ (decimal r.severity.toNat ++ (ascii ",\"msg\":" ++
      exportJsonString (r.msg.take r.msgLen.toNat)))
  | .config r => ascii ",\"pairs\":\x7b" ++ (commaJoin ((r.pairs.take r.pairCount.toNat).map
      fun p => exportJsonString p.key.val ++ 58 :: exportJsonString p.value.val) ++ ascii "\x7d")
  | .keyref r => ascii ",\"slot_id\":" ++ (decimal r.slotId.toNat ++ (ascii ",\"redacted\":" ++
      (jsonBoolText (r.redacted ≠ 0) ++ (ascii ",\"label\":" ++
        exportJsonString (r.label.take (if r.redacted ≠ 0 then 0 else r.labelLen.toNat))))))
  | .firmware r => ascii ",\"version\":\"" ++ (decimal r.major.toNat ++ (ascii "." ++
      (decimal r.minor.toNat ++ (ascii "." ++ (decimal r.patch.toNat ++
        (ascii "\",\"hash_hex\":\"" ++ (hexText r.hash.val ++ ascii "\"")))))))
  | .other _ _ => []

/-- `dtl_export_json_record`. -/
def exportJsonRecord (ft : FloatText) (rec : Record) (index : Nat) (first : Bool) : Bytes :=
  (if first then [] else ascii ",") ++ (ascii "\n  \x7b\"index\":" ++ (decimal index ++
    (ascii ",\"tag\":" ++ (decimal rec.tag.toNat ++ (ascii ",\"type\":\"" ++
      (ascii (walkTagName rec.tag) ++ (ascii "\"" ++ (exportJsonKvTail ft rec ++
        ascii "\x7d"))))))))

/-! ## Files -/

/-- The text of one record of an export; `emitted` is how many came before it. -/
def exportRecordText (ft : FloatText) (fmt : ExportFormat) (rec : Record) (index emitted : Nat) :
    Bytes :=
  match fmt with
  | .csv => exportCsvRecord ft rec index
  | .json => exportJsonRecord ft rec index (emitted == 0)

/-- The text before the first record. -/
def exportOpening : ExportFormat → Bytes
  | .csv => exportCsvHeader
  | .json => ascii "["

/-- The text after the last record. -/
def exportClosing : ExportFormat → Bytes
  | .csv => []
  | .json => ascii "\n]\n"

/-- `dtl_export_on_record`, on the text written and the number of records emitted. -/
def exportWalk (ft : FloatText) (fmt : ExportFormat) : Walk (Bytes × Nat) where
  onRecord ev ctx :=
    (none, (ctx.1 ++ exportRecordText ft fmt ev.record ev.recordIndex ctx.2, ctx.2 + 1))
  onError _ ctx := ctx
  maxDecode := 0

/-- `dtl_export_file`: the code returned and the text written. -/
def exportFile (env : Nat → CodecEnv) (ft : FloatText) (fmt : ExportFormat) (maxFile : Nat)
    (file : Bytes) : Option Err × Bytes :=
  let (rc, ctx) := walkAbsorb env (exportWalk ft fmt) maxFile file (exportOpening fmt, 0)
  (rc, ctx.1 ++ exportClosing fmt)

/-- The text of records numbered from `k` on. -/
def exportRecords (ft : FloatText) (fmt : ExportFormat) : Nat → List Record → Bytes
  | _, [] => []
  | k, rec :: recs => exportRecordText ft fmt rec k k ++ exportRecords ft fmt (k + 1) recs

/-- The text of a whole export. -/
def exportText (ft : FloatText) (fmt : ExportFormat) (recs : List Record) : Bytes :=
  exportOpening fmt ++ (exportRecords ft fmt 0 recs ++ exportClosing fmt)

/-! ## What an export writes -/

/-- Records are numbered in the order of their delivery. -/
theorem itemSignals_numbered (si : Nat) (sec : Section) : ∀ (ts : List Tlv) (pos : WalkPos),
    (eventsOf (itemSignals si sec pos ts)).map (·.recordIndex) =
      List.range' pos.recordIndex (accepted ts)
  | [], _ => rfl
  | t :: ts, pos => by
    unfold itemSignals
    cases h : recordParse t with
    | error rc =>
      have hacc : accepted (t :: ts) = accepted ts := by simp [accepted, h, Except.toOption]
      rw [hacc]
      exact itemSignals_numbered si sec ts ⟨pos.recordInSec + 1, pos.recordIndex⟩
    | ok rec =>
      have hacc : accepted (t :: ts) = accepted ts + 1 := by
        simp [accepted, h, Except.toOption]
      have ih := itemSignals_numbered si sec ts ⟨pos.recordInSec + 1, pos.recordIndex + 1⟩
      rw [hacc, List.range'_succ]
      simp only [eventsOf, List.filterMap_cons, Signal.event?, List.map_cons] at ih ⊢
      rw [ih]

theorem walkSignals_numbered (env : Nat → CodecEnv) (cap : Nat) : ∀ (secs : List Section) (si k : Nat),
    ∃ n, (eventsOf (walkSignals env cap si k secs)).map (·.recordIndex) = List.range' k n
  | [], _, _ => ⟨0, rfl⟩
  | sec :: secs, si, k => by
    obtain ⟨n, hn⟩ := walkSignals_numbered env cap secs (si + 1) (k + sectionAccepted (env si) cap sec)
    have hsec : (eventsOf (sectionSignals (env si) cap si k sec)).map (·.recordIndex) =
        List.range' k (sectionAccepted (env si) cap sec) := by
      unfold sectionSignals sectionAccepted
      cases sectionStream (env si) cap sec with
      | error rc => rfl
      | ok raw => exact itemSignals_numbered si sec _ _
    refine ⟨sectionAccepted (env si) cap sec + n, ?_⟩
    rw [walkSignals, eventsOf_append, List.map_append, hsec, hn, List.range'_append_1]

/-- What holds at first and is preserved by every callback that does not abort holds of the records
delivered, the callback for a record knowing how many came before it. -/
theorem walkAbsorb_numbered {σ : Type} {w : Walk σ} {P : List Record → σ → Prop} {env : Nat → CodecEnv}
    {maxFile : Nat} {file : Bytes} {s s' : σ} (hcap : w.cap = WALK_DEFAULT_MAX_DECODE)
    (herror : ∀ recs we s, P recs s → P recs (w.onError we s))
    (hrecord : ∀ recs ev s s', P recs s → ev.recordIndex = recs.length → w.onRecord ev s = (none, s') →
      P (recs ++ [ev.record]) s')
    (hinit : P [] s) (hok : walkAbsorb env w maxFile file s = (none, s')) :
    P ((delivered env file).map (·.record)) s' := by
  unfold walkAbsorb at hok
  split at hok
  · cases hok
  rw [walkMemory_eq, hcap] at hok
  cases hparse : containerParse file with
  | error rc =>
    rw [hparse] at hok
    cases hok
  | ok cont =>
    rw [hparse] at hok
    dsimp only at hok
    obtain ⟨n, hn⟩ := walkSignals_numbered env WALK_DEFAULT_MAX_DECODE cont.sections 0 0
    have hrecs : (delivered env file).map (·.record) =
        (eventsOf (walkSignals env WALK_DEFAULT_MAX_DECODE 0 0 cont.sections)).map (·.record) := by
      rw [delivered_eq env hparse, ← walkSignals_items env _ _ 0 0, List.map_map]
      rfl
    rw [hrecs]
    revert hn hok
    generalize walkSignals env WALK_DEFAULT_MAX_DECODE 0 0 cont.sections = xs
    intro hok hn
    have hrun := deliver_events (P := fun (evs : List WalkEvent) (s : σ) =>
        evs.map WalkEvent.recordIndex = List.range evs.length → P (evs.map WalkEvent.record) s)
      (fun _ we s h hevs => herror _ we s (h hevs)) ?_ xs [] (fun _ => hinit) hok
    · refine hrun ?_
      have hlen : (eventsOf xs).length = n := by
        rw [← List.length_map fun ev : WalkEvent => ev.recordIndex, hn, List.length_range']
      rw [List.nil_append, hn, hlen, List.range_eq_range']
    · intro evs ev s s' h hstep hindex
      rw [List.map_append, List.length_append, List.length_singleton, List.range_succ] at hindex
      obtain ⟨hevs, hev⟩ := List.append_inj' hindex rfl
      rw [List.map_append]
      refine hrecord _ ev s s' (h hevs) ?_ hstep
      rw [List.length_map]
      exact (List.cons.inj hev).1

theorem exportWalk_fold (ft : FloatText) (fmt : ExportFormat) : ∀ (xs : List Signal) (out : Bytes)
    (k n : Nat), (eventsOf xs).map (·.recordIndex) = List.range' k n →
      (xs.foldl (exportWalk ft fmt).signal (out, k)).1 =
        out ++ exportRecords ft fmt k ((eventsOf xs).map (·.record))
  | [], out, k, n, _ => by simp [eventsOf, exportRecords]
  | .error we :: xs, out, k, n, h => exportWalk_fold ft fmt xs out k n h
  | .record ev :: xs, out, k, n, h => by
    have hcons : eventsOf (Signal.record ev :: xs) = ev :: eventsOf xs := rfl
    rw [hcons, List.map_cons] at h
    cases n with
    | zero => cases h
    | succ n =>
      rw [List.range'_succ, List.cons.injEq] at h
      obtain ⟨hk, htail⟩ := h
      rw [List.foldl_cons]
      have ih := exportWalk_fold ft fmt xs (out ++ exportRecordText ft fmt ev.record ev.recordIndex k)
        (k + 1) n htail
      rw [hcons, List.map_cons, exportRecords, ← hk, ← List.append_assoc]
      rw [← hk] at ih
      exact ih

/-- **An export writes the text of the records its walk delivers.** -/
theorem exportFile_eq (env : Nat → CodecEnv) (ft : FloatText) (fmt : ExportFormat) {maxFile : Nat}
    {file : Bytes} {cont : Container} (hlen : file.length ≤ maxFile)
    (h : containerParse file = .ok cont) :
    exportFile env ft fmt maxFile file =
      (none, exportText ft fmt ((delivered env file).map (·.record))) := by
  obtain ⟨n, hn⟩ := walkSignals_numbered env WALK_DEFAULT_MAX_DECODE cont.sections 0 0
  have hrecs : (delivered env file).map (·.record) =
      (eventsOf (walkSignals env WALK_DEFAULT_MAX_DECODE 0 0 cont.sections)).map (·.record) := by
    rw [delivered_eq env h, ← walkSignals_items env _ _ 0 0, List.map_map]
    rfl
  have hcap : (exportWalk ft fmt).cap = WALK_DEFAULT_MAX_DECODE := rfl
  unfold exportFile walkAbsorb
  rw [if_neg (by omega), walkMemory_fold env (fun _ _ => rfl), h]
  dsimp only
  rw [hcap, exportWalk_fold ft fmt _ _ 0 n hn, hrecs, exportText, List.append_assoc]

end Dtl
