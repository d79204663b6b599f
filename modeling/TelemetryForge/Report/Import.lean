import Mathlib.Data.List.DropRight
import TelemetryForge.Report.Export

/-!
# CSV import

Model of `report/import`, and of the part that it shares with `report/jimport`: the records that the
rows stand for go into one `STORE` section of type 1, opened at the first of them (`importRows`).  The
memory functions are modelled; the file functions only read and write a file around them.

A row is a fallible step: an error ends the import, `none` stands for a line that is skipped.  `handed`
is what the writer is handed by rows that all succeed.

Principal results: `importRows_eq_ok` — a successful import has handed the writer the records of its
rows and emitted exactly these; `importRows_refines` — what it leaves in the log; `importRows_succeeds`
— with memory to spare, records that fit are imported.
-/

set_option autoImplicit false

namespace Dtl

open CText

/-! ## Rows to container -/

structure ImportState where
  writer : Writer
  sectionOpen : Bool
  imported : Nat

/-- `if (!section_open) …`. -/
def importOpen (st : ImportState) : Res Writer :=
  if st.sectionOpen then .ok st.writer else checkedBegin st.writer 1 CODEC_STORE

/-- Hand a record to the writer. -/
def importAdd (e : EmitEnv) (st : ImportState) (rec : Record) : Res ImportState := do
  let w ← importOpen st
  let w ← checked (writerAddRecord e.slack w rec)
  return ⟨w, true, st.imported + 1⟩

/-- One row. -/
def importRow (e : EmitEnv) (st : ImportState) : Res (Option Record) → Res ImportState
  | .error rc => .error rc
  | .ok none => .ok st
  | .ok (some rec) => importAdd e st rec

/-- `if (section_open) …`. -/
def importClose (e : EmitEnv) (st : ImportState) : Res Writer :=
  if st.sectionOpen then checkedEnd e st.writer else .ok st.writer

/-- The rows in turn, then the end of the section and of the container: the bytes and the number of
records. -/
def importRows (e : EmitEnv) (a : Arena) (rows : List (Res (Option Record))) : Res (Bytes × Nat) := do
  let st ← rows.foldlM (importRow e) ⟨writerInit a, false, 0⟩
  let w ← importClose e st
  let bytes ← (writerFinish w).1
  return (bytes, st.imported)

/-- The records the writer is handed when every row succeeds. -/
def handed : List (Res (Option Record)) → Res (List Record)
  | [] => .ok []
  | .error rc :: _ => .error rc
  | .ok none :: rows => handed rows
  | .ok (some rec) :: rows => (rec :: ·) <$> handed rows

/-! ## The row tokenizer -/

def IMPORT_MAX_FIELDS : Nat := 8
def IMPORT_FIELD_CAP : Nat := 4096
def IMPORT_LINE_CAP : Nat := 8192

/-- Store a character of a field that already has `n`. -/
def csvStore (n : Nat) (c : UInt8) (next : Res (Bytes × Bytes)) : Res (Bytes × Bytes) :=
  if n + 1 ≥ IMPORT_FIELD_CAP then .error .badRecord else (fun p => (c :: p.1, p.2)) <$> next

/-- A quoted field, the opening quote consumed: its text and what follows the closing quote. -/
def csvQuoted (n : Nat) : Bytes → Res (Bytes × Bytes)
  | [] => .error .badRecord
  | c :: p =>
    if c = 34 then
      match p with
      | [] => .ok ([], [])
      | d :: p => if d = 34 then csvStore n 34 (csvQuoted (n + 1) p) else .ok ([], d :: p)
    else csvStore n c (csvQuoted (n + 1) p)

/-- An unquoted field. -/
def csvBare (n : Nat) : Bytes → Res (Bytes × Bytes)
  | [] => .ok ([], [])
  | c :: p => if c = 44 then .ok ([], c :: p) else csvStore n c (csvBare (n + 1) p)

/-- `if (*p != ',' && *p != '\0') return DTL_ERR_BADRECORD;`. -/
def csvClosed : Bytes × Bytes → Res (Bytes × Bytes)
  | (text, []) => .ok (text, [])
  | (text, c :: p) => if c = 44 then .ok (text, c :: p) else .error .badRecord

/-- One field, up to the comma or the end of the line. -/
def csvField : Bytes → Res (Bytes × Bytes)
  | [] => csvBare 0 []
  | c :: p => if c = 34 then csvQuoted 0 p >>= csvClosed else csvBare 0 (c :: p)

/-- The field loop; at most the given number of further fields. -/
def csvFields : Nat → Bytes → Res (List Bytes)
  | 0, _ => .error .badRecord
  | k + 1, p => do
    let (text, p) ← csvField p
    match p with
    | [] => return [text]
    | _ :: p => (text :: ·) <$> csvFields k p

/-- `dtl_csv_parse_row` on the line's C string. -/
def csvParseRow (line : Bytes) : Res (List Bytes) :=
  if line = [] then .error .truncated else csvFields IMPORT_MAX_FIELDS line

/-! ## Field parsers -/

/-- `dtl_field_u32`. -/
def fieldU32 (f : Bytes) : Option UInt32 :=
  match strtoul f with
  | some (v, []) => if v > 0xFFFFFFFF then none else some (UInt32.ofNat v)
  | _ => none

/-- `dtl_field_i32`. -/
def fieldI32 (f : Bytes) : Option Int32 :=
  match strtol f with
  | some (v, []) => some (Int32.ofInt v)
  | _ => none

/-- `dtl_field_hex`. -/
def fieldHex (f : Bytes) (outCap : Nat) : Option Bytes :=
  if f.length % 2 ≠ 0 ∨ f.length / 2 > outCap then none else unhex f

/-- The failure of a field as the failure of the record. -/
def orBad {α : Type} : Option α → Res α
  | none => .error .badRecord
  | some x => .ok x

/-- `DTL_U`. -/
def rowU (row : List Bytes) (ix : Nat) : Res UInt32 := orBad (row[ix]?.bind fieldU32)

/-- `DTL_I`. -/
def rowI (row : List Bytes) (ix : Nat) : Res Int32 := orBad (row[ix]?.bind fieldI32)

/-- The text of a field that is there and not empty. -/
def rowText? (row : List Bytes) (ix : Nat) : Option Bytes :=
  row[ix]?.bind fun f => if f.length ≠ 0 then some f else none

/-- The table of `dtl_import_tag`. -/
def importTags : List (String × UInt8) :=
  [("HEARTBEAT", REC_HEARTBEAT), ("SENSOR", REC_SENSOR), ("EVENT", REC_EVENT), ("DIAG", REC_DIAG),
   ("GEO", REC_GEO), ("BATTERY", REC_BATTERY), ("NET", REC_NET), ("LOG", REC_LOG),
   ("CONFIG", REC_CONFIG), ("KEYREF", REC_KEYREF), ("FIRMWARE", REC_FIRMWARE)]

/-- `dtl_import_tag`. -/
def importTag (name : Bytes) : Option UInt8 :=
  (importTags.find? fun e => name = ascii e.1).map (·.2)

/-! ## Rows to records -/

def csvHeartbeat (row : List Bytes) : Res Record := do
  let u0 ← rowU row 2
  let u1 ← rowU row 3
  return .heartbeat ⟨u0, u1⟩

def csvGeo (row : List Bytes) : Res Record := do
  let s0 ← rowI row 2
  let s1 ← rowI row 3
  let s2 ← rowI row 4
  return .geo ⟨s0, s1, s2⟩

def csvBattery (row : List Bytes) : Res Record := do
  let u0 ← rowU row 2
  let s0 ← rowI row 3
  let u1 ← rowU row 4
  failIf (u0 > 255 ∨ s0.toInt < -32768 ∨ s0.toInt > 32767) .badRecord
  return .battery ⟨u0.toUInt8, s0.toInt16, u1⟩

def csvNet (row : List Bytes) : Res Record := do
  let u0 ← rowU row 2
  let u1 ← rowU row 3
  let u2 ← rowU row 4
  let u3 ← rowU row 5
  let u4 ← rowU row 6
  failIf (u0 > 255) .badRecord
  return .net ⟨u0.toUInt8, u1, u2, u3, u4⟩

/-- The hash of a `FIRMWARE` row or object: exactly eight bytes. -/
def importHash (bytes : Option Bytes) : Res {h : Bytes // h.length = 8} :=
  match bytes with
  | none => .error .badRecord
  | some b => if h : b.length = 8 then .ok ⟨b, h⟩ else .error .badRecord

def csvFirmware (row : List Bytes) : Res Record := do
  let u0 ← rowU row 2
  let u1 ← rowU row 3
  let u2 ← rowU row 4
  failIf (u0 > 0xFFFF ∨ u1 > 0xFFFF ∨ u2 > 0xFFFF) .badRecord
  let hash ← importHash (row[5]?.bind fun f => fieldHex f 8)
  return .firmware ⟨u0.toUInt16, u1.toUInt16, u2.toUInt16, hash⟩

/-- The sample loop: at most `n` further samples, empty fields skipped. -/
def csvSamples (ft : FloatText) : Nat → List Bytes → Res (List UInt32)
  | 0, _ => .ok []
  | _ + 1, [] => .ok []
  | n + 1, f :: fs =>
    if f.length = 0 then csvSamples ft (n + 1) fs
    else
      match ft.strtof f with
      | none => .error .badRecord
      | some v => (v :: ·) <$> csvSamples ft n fs

def csvSensor (ft : FloatText) (row : List Bytes) : Res Record := do
  let u0 ← rowU row 2
  let u1 ← rowU row 3
  failIf (u0 > 0xFFFF ∨ u1 > 4) .badRecord
  let samples ← csvSamples ft u1.toNat (row.drop 4)
  failIf (samples.length ≠ u1.toNat) .badRecord
  return .sensor ⟨u0.toUInt16, UInt8.ofNat samples.length, samples⟩

/-- The payload of an `EVENT` row: hexadecimal text of exactly the declared length. -/
def csvPayload (row : List Bytes) (u1 : UInt32) : Res Bytes :=
  match rowText? row 4 with
  | some f => do
    let bytes ← orBad (fieldHex f u1.toNat)
    failIf (bytes.length ≠ u1.toNat) .badRecord
    return bytes
  | none => if u1 ≠ 0 then .error .badRecord else .ok []

def csvEvent (row : List Bytes) : Res Record := do
  let u0 ← rowU row 2
  let u1 ← rowU row 3
  failIf (u0 > 0xFFFF ∨ u1 > 0xFFFF) .badRecord
  let payload ← csvPayload row u1
  return .event ⟨u0.toUInt16, u1.toUInt16, if u1 ≠ 0 then payload else []⟩

def csvLog (row : List Bytes) : Res Record := do
  let u0 ← rowU row 2
  failIf (u0 > 255) .badRecord
  let msg ← orBad row[3]?
  failIf (msg.length > 0xFFFF) .badRecord
  return .log ⟨u0.toUInt8, UInt16.ofNat msg.length, msg⟩

/-- The pair loop. -/
def csvPairs : Nat → List Bytes → Res (List ConfigPair)
  | 0, _ => .ok []
  | n + 1, key :: value :: fs => (⟨cstr key, cstr value⟩ :: ·) <$> csvPairs n fs
  | _ + 1, _ => .error .badRecord

def csvConfig (row : List Bytes) : Res Record := do
  let u0 ← rowU row 2
  failIf (u0 > 2) .badRecord
  let pairs ← csvPairs u0.toNat (row.drop 3)
  return .config ⟨UInt8.ofNat pairs.length, pairs⟩

def csvKeyref (row : List Bytes) : Res Record := do
  let u0 ← rowU row 2
  failIf (u0 > 255) .badRecord
  let label ← orBad row[4]?
  failIf (label.length > 255) .badRecord
  return .keyref ⟨u0.toUInt8, UInt8.ofNat label.length, label, 0⟩

/-- The blob of a `DIAG` row: its size is that of the hexadecimal text, whatever length the row
declares. -/
def csvBlob (row : List Bytes) (u1 : UInt32) : Res Bytes :=
  match rowText? row 5 with
  | some f => orBad (fieldHex f (f.length / 2))
  | none => if u1 ≠ 0 then .error .badRecord else .ok []

def csvDiag (row : List Bytes) : Res Record := do
  let u0 ← rowU row 2
  let u1 ← rowU row 3
  failIf (u0 > 0xFFFF ∨ u1 > 0xFFFF) .badRecord
  let blob ← csvBlob row u1
  return .diag ⟨u0.toUInt16, u1.toUInt16, if u1 ≠ 0 then blob else [], 0⟩

/-- The switch of `dtl_import_row`. -/
def csvRecord (ft : FloatText) (row : List Bytes) (tag : UInt8) : Res Record :=
  if tag = REC_HEARTBEAT then csvHeartbeat row
  else if tag = REC_GEO then csvGeo row
  else if tag = REC_BATTERY then csvBattery row
  else if tag = REC_NET then csvNet row
  else if tag = REC_FIRMWARE then csvFirmware row
  else if tag = REC_SENSOR then csvSensor ft row
  else if tag = REC_EVENT then csvEvent row
  else if tag = REC_LOG then csvLog row
  else if tag = REC_CONFIG then csvConfig row
  else if tag = REC_KEYREF then csvKeyref row
  else if tag = REC_DIAG then csvDiag row
  else .error .badRecord

/-- `dtl_import_row`. -/
def csvImportRow (ft : FloatText) (row : List Bytes) : Res Record := do
  let tag ← orBad (row[1]?.bind importTag)
  csvRecord ft row tag

/-- The case of the switch that made the record of a row. -/
inductive CsvCase (ft : FloatText) (row : List Bytes) (rec : Record) : UInt8 → Prop where
  | heartbeat (h : csvHeartbeat row = .ok rec) : CsvCase ft row rec REC_HEARTBEAT
  | geo (h : csvGeo row = .ok rec) : CsvCase ft row rec REC_GEO
  | battery (h : csvBattery row = .ok rec) : CsvCase ft row rec REC_BATTERY
  | net (h : csvNet row = .ok rec) : CsvCase ft row rec REC_NET
  | firmware (h : csvFirmware row = .ok rec) : CsvCase ft row rec REC_FIRMWARE
  | sensor (h : csvSensor ft row = .ok rec) : CsvCase ft row rec REC_SENSOR
  | event (h : csvEvent row = .ok rec) : CsvCase ft row rec REC_EVENT
  | log (h : csvLog row = .ok rec) : CsvCase ft row rec REC_LOG
  | config (h : csvConfig row = .ok rec) : CsvCase ft row rec REC_CONFIG
  | keyref (h : csvKeyref row = .ok rec) : CsvCase ft row rec REC_KEYREF
  | diag (h : csvDiag row = .ok rec) : CsvCase ft row rec REC_DIAG

theorem csvRecord_case {ft : FloatText} {row : List Bytes} {tag : UInt8} {rec : Record}
    (h : csvRecord ft row tag = .ok rec) : CsvCase ft row rec tag := by
  unfold csvRecord at h
  refine branch_ok h (fun ht h => ht ▸ .heartbeat h) fun h => ?_
  refine branch_ok h (fun ht h => ht ▸ .geo h) fun h => ?_
  refine branch_ok h (fun ht h => ht ▸ .battery h) fun h => ?_
  refine branch_ok h (fun ht h => ht ▸ .net h) fun h => ?_
  refine branch_ok h (fun ht h => ht ▸ .firmware h) fun h => ?_
  refine branch_ok h (fun ht h => ht ▸ .sensor h) fun h => ?_
  refine branch_ok h (fun ht h => ht ▸ .event h) fun h => ?_
  refine branch_ok h (fun ht h => ht ▸ .log h) fun h => ?_
  refine branch_ok h (fun ht h => ht ▸ .config h) fun h => ?_
  refine branch_ok h (fun ht h => ht ▸ .keyref h) fun h => ?_
  refine branch_ok h (fun ht h => ht ▸ .diag h) fun h => ?_
  cases h

theorem orBad_eq_ok {α : Type} {x : Option α} {a : α} : orBad x = .ok a ↔ x = some a := by
  cases x <;> simp [orBad]

/-- An imported row names its tag. -/
theorem csvImportRow_case {ft : FloatText} {row : List Bytes} {rec : Record}
    (h : csvImportRow ft row = .ok rec) :
    ∃ tag, row[1]?.bind importTag = some tag ∧ CsvCase ft row rec tag := by
  simp only [csvImportRow, Except.bind_eq_ok, orBad_eq_ok] at h
  obtain ⟨tag, htag, h⟩ := h
  exact ⟨tag, htag, csvRecord_case h⟩

/-! ## What an imported row holds -/

theorem csvHeartbeat_ok {row : List Bytes} {rec : Record} (h : csvHeartbeat row = .ok rec) :
    ∃ u0 u1, rowU row 2 = .ok u0 ∧ rowU row 3 = .ok u1 ∧ rec = .heartbeat ⟨u0, u1⟩ := by
  simp only [csvHeartbeat, Except.bind_eq_ok, Except.pure_eq_ok, Except.ok.injEq] at h
  obtain ⟨u0, h0, u1, h1, rfl⟩ := h
  exact ⟨u0, u1, h0, h1, rfl⟩

theorem csvGeo_ok {row : List Bytes} {rec : Record} (h : csvGeo row = .ok rec) :
    ∃ s0 s1 s2, rowI row 2 = .ok s0 ∧ rowI row 3 = .ok s1 ∧ rowI row 4 = .ok s2 ∧
      rec = .geo ⟨s0, s1, s2⟩ := by
  simp only [csvGeo, Except.bind_eq_ok, Except.pure_eq_ok, Except.ok.injEq] at h
  obtain ⟨s0, h0, s1, h1, s2, h2, rfl⟩ := h
  exact ⟨s0, s1, s2, h0, h1, h2, rfl⟩

theorem csvBattery_ok {row : List Bytes} {rec : Record} (h : csvBattery row = .ok rec) :
    ∃ u0 s0 u1, rowU row 2 = .ok u0 ∧ rowI row 3 = .ok s0 ∧ rowU row 4 = .ok u1 ∧
      ¬ u0 > 255 ∧ ¬ s0.toInt < -32768 ∧ ¬ s0.toInt > 32767 ∧
      rec = .battery ⟨u0.toUInt8, s0.toInt16, u1⟩ := by
  simp only [csvBattery, Except.bind_eq_ok, failIf_eq_ok, Except.pure_eq_ok, Except.ok.injEq,
    not_or] at h
  obtain ⟨u0, h0, s0, h1, u1, h2, -, ⟨hle, hlo, hhi⟩, rfl⟩ := h
  exact ⟨u0, s0, u1, h0, h1, h2, hle, hlo, hhi, rfl⟩

theorem csvNet_ok {row : List Bytes} {rec : Record} (h : csvNet row = .ok rec) :
    ∃ u0 u1 u2 u3 u4, rowU row 2 = .ok u0 ∧ rowU row 3 = .ok u1 ∧ rowU row 4 = .ok u2 ∧
      rowU row 5 = .ok u3 ∧ rowU row 6 = .ok u4 ∧ ¬ u0 > 255 ∧
      rec = .net ⟨u0.toUInt8, u1, u2, u3, u4⟩ := by
  simp only [csvNet, Except.bind_eq_ok, failIf_eq_ok, Except.pure_eq_ok, Except.ok.injEq] at h
  obtain ⟨u0, h0, u1, h1, u2, h2, u3, h3, u4, h4, -, hle, rfl⟩ := h
  exact ⟨u0, u1, u2, u3, u4, h0, h1, h2, h3, h4, hle, rfl⟩

theorem csvFirmware_ok {row : List Bytes} {rec : Record} (h : csvFirmware row = .ok rec) :
    ∃ u0 u1 u2 hash, rowU row 2 = .ok u0 ∧ rowU row 3 = .ok u1 ∧ rowU row 4 = .ok u2 ∧
      ¬ u0 > 0xFFFF ∧ ¬ u1 > 0xFFFF ∧ ¬ u2 > 0xFFFF ∧
      rec = .firmware ⟨u0.toUInt16, u1.toUInt16, u2.toUInt16, hash⟩ := by
  simp only [csvFirmware, Except.bind_eq_ok, failIf_eq_ok, Except.pure_eq_ok, Except.ok.injEq,
    not_or] at h
  obtain ⟨u0, h0, u1, h1, u2, h2, -, ⟨hmj, hmi, hpa⟩, hash, -, rfl⟩ := h
  exact ⟨u0, u1, u2, hash, h0, h1, h2, hmj, hmi, hpa, rfl⟩

theorem csvSensor_ok {ft : FloatText} {row : List Bytes} {rec : Record}
    (h : csvSensor ft row = .ok rec) :
    ∃ u0 u1 samples, rowU row 2 = .ok u0 ∧ rowU row 3 = .ok u1 ∧ ¬ u0 > 0xFFFF ∧ ¬ u1 > 4 ∧
      samples.length = u1.toNat ∧
      rec = .sensor ⟨u0.toUInt16, UInt8.ofNat samples.length, samples⟩ := by
  simp only [csvSensor, Except.bind_eq_ok, failIf_eq_ok, Except.pure_eq_ok, Except.ok.injEq, not_or,
    not_not] at h
  obtain ⟨u0, h0, u1, h1, -, ⟨hid, hcount⟩, samples, -, -, hlen, rfl⟩ := h
  exact ⟨u0, u1, samples, h0, h1, hid, hcount, hlen, rfl⟩

theorem csvEvent_ok {row : List Bytes} {rec : Record} (h : csvEvent row = .ok rec) :
    ∃ u0 u1 payload, rowU row 2 = .ok u0 ∧ rowU row 3 = .ok u1 ∧ ¬ u0 > 0xFFFF ∧ ¬ u1 > 0xFFFF ∧
      csvPayload row u1 = .ok payload ∧
      rec = .event ⟨u0.toUInt16, u1.toUInt16, if u1 ≠ 0 then payload else []⟩ := by
  simp only [csvEvent, Except.bind_eq_ok, failIf_eq_ok, Except.pure_eq_ok, Except.ok.injEq,
    not_or] at h
  obtain ⟨u0, h0, u1, h1, -, ⟨hcode, hle⟩, payload, hpayload, rfl⟩ := h
  exact ⟨u0, u1, payload, h0, h1, hcode, hle, hpayload, rfl⟩

theorem csvLog_ok {row : List Bytes} {rec : Record} (h : csvLog row = .ok rec) :
    ∃ u0 msg, rowU row 2 = .ok u0 ∧ ¬ u0 > 255 ∧ ¬ msg.length > 0xFFFF ∧
      rec = .log ⟨u0.toUInt8, UInt16.ofNat msg.length, msg⟩ := by
  simp only [csvLog, Except.bind_eq_ok, failIf_eq_ok, Except.pure_eq_ok, Except.ok.injEq] at h
  obtain ⟨u0, h0, -, hle, msg, -, -, hmsg, rfl⟩ := h
  exact ⟨u0, msg, h0, hle, hmsg, rfl⟩

theorem csvConfig_ok {row : List Bytes} {rec : Record} (h : csvConfig row = .ok rec) :
    ∃ u0 pairs, rowU row 2 = .ok u0 ∧ ¬ u0 > 2 ∧ csvPairs u0.toNat (row.drop 3) = .ok pairs ∧
      rec = .config ⟨UInt8.ofNat pairs.length, pairs⟩ := by
  simp only [csvConfig, Except.bind_eq_ok, failIf_eq_ok, Except.pure_eq_ok, Except.ok.injEq] at h
  obtain ⟨u0, h0, -, hle, pairs, hpairs, rfl⟩ := h
  exact ⟨u0, pairs, h0, hle, hpairs, rfl⟩

theorem csvKeyref_ok {row : List Bytes} {rec : Record} (h : csvKeyref row = .ok rec) :
    ∃ u0 label, rowU row 2 = .ok u0 ∧ ¬ u0 > 255 ∧ ¬ label.length > 255 ∧
      rec = .keyref ⟨u0.toUInt8, UInt8.ofNat label.length, label, 0⟩ := by
  simp only [csvKeyref, Except.bind_eq_ok, failIf_eq_ok, Except.pure_eq_ok, Except.ok.injEq] at h
  obtain ⟨u0, h0, -, hle, label, -, -, hlabel, rfl⟩ := h
  exact ⟨u0, label, h0, hle, hlabel, rfl⟩

theorem csvDiag_ok {row : List Bytes} {rec : Record} (h : csvDiag row = .ok rec) :
    ∃ u0 u1 blob, rowU row 2 = .ok u0 ∧ rowU row 3 = .ok u1 ∧ ¬ u0 > 0xFFFF ∧ ¬ u1 > 0xFFFF ∧
      csvBlob row u1 = .ok blob ∧
      rec = .diag ⟨u0.toUInt16, u1.toUInt16, if u1 ≠ 0 then blob else [], 0⟩ := by
  simp only [csvDiag, Except.bind_eq_ok, failIf_eq_ok, Except.pure_eq_ok, Except.ok.injEq,
    not_or] at h
  obtain ⟨u0, h0, u1, h1, -, ⟨hsub, hle⟩, blob, hblob, rfl⟩ := h
  exact ⟨u0, u1, blob, h0, h1, hsub, hle, hblob, rfl⟩

/-! ## Lines -/

/-- A line without its trailing carriage returns. -/
def stripCr (line : Bytes) : Bytes := line.rdropWhile (· = 13)

/-- The body of the line loop up to the tokenizer: `none` for a line that is skipped. -/
def csvTokens (lineNo : Nat) (line : Bytes) : Res (Option (List Bytes)) :=
  if line.length = 0 then .ok none
  else if lineNo = 1 ∧ line.take 10 = ascii "index,tag," then .ok none
  else
    match csvParseRow (cstr line).val with
    | .error rc => if rc = .truncated then .ok none else .error rc
    | .ok row => .ok (some row)

/-- The line at the start of the text, and what follows its newline. -/
def splitLine (data : Bytes) : Bytes × Bytes :=
  (data.takeWhile (· ≠ 10), (data.dropWhile (· ≠ 10)).drop 1)

theorem splitLine_lt {data : Bytes} (h : data ≠ []) : (splitLine data).2.length < data.length := by
  have hpos : 0 < data.length := List.length_pos_iff.mpr h
  have hlen := congrArg List.length (List.takeWhile_append_dropWhile (p := (· ≠ (10 : UInt8))) (l := data))
  rw [List.length_append] at hlen
  unfold splitLine
  rw [List.length_drop]
  cases htake : data.takeWhile (· ≠ 10) with
  | nil => omega
  | cons c t =>
    rw [htake, List.length_cons] at hlen
    omega

/-- The line loop: the tokens of each line, `lineNo` lines having been read. -/
def csvTexts (lineNo : Nat) (data : Bytes) : List (Res (Option (List Bytes))) :=
  if h : data = [] then []
  else
    let line := (splitLine data).1
    if line.length + 1 > IMPORT_LINE_CAP then [.error .badRecord]
    else csvTokens (lineNo + 1) (stripCr line) :: csvTexts (lineNo + 1) (splitLine data).2
termination_by data.length
decreasing_by exact splitLine_lt h

/-- The rest of the loop body: the tokens' record. -/
def csvConvert (ft : FloatText) : Res (Option (List Bytes)) → Res (Option Record)
  | .error rc => .error rc
  | .ok none => .ok none
  | .ok (some row) => some <$> csvImportRow ft row

/-- The outcome of each line. -/
def csvRows (ft : FloatText) (data : Bytes) : List (Res (Option Record)) :=
  (csvTexts 0 data).map (csvConvert ft)

/-- `dtl_import_csv_memory`. -/
def importCsvMemory (e : EmitEnv) (a : Arena) (ft : FloatText) (data : Bytes) : Res (Bytes × Nat) :=
  importRows e a (csvRows ft data)

/-! ## What an import emits -/

/-- The sections of an imported container. -/
def importGroups (recs : List Record) : List Group :=
  if recs = [] then [] else [⟨1, CODEC_STORE, recs⟩]

/-- The rows succeed as long as their records are taken in. -/
theorem foldlM_importRow (e : EmitEnv) : ∀ (rows : List (Res (Option Record))) (st st' : ImportState),
    rows.foldlM (importRow e) st = .ok st' ↔
      ∃ recs, handed rows = .ok recs ∧ recs.foldlM (importAdd e) st = .ok st'
  | [], st, st' => by simp [handed]
  | .error rc :: rows, st, st' => by
    constructor
    · intro h
      cases h
    · rintro ⟨recs, h, -⟩
      cases h
  | .ok none :: rows, st, st' => foldlM_importRow e rows st st'
  | .ok (some rec) :: rows, st, st' => by
    rw [List.foldlM_cons, importRow, handed, Except.bind_eq_ok]
    constructor
    · rintro ⟨st₁, h1, h2⟩
      obtain ⟨recs, hrecs, hfold⟩ := (foldlM_importRow e rows st₁ st').mp h2
      refine ⟨rec :: recs, by rw [hrecs]; rfl, ?_⟩
      rw [List.foldlM_cons, h1]
      exact hfold
    · rintro ⟨recs, hrecs, hfold⟩
      obtain ⟨recs', hrecs', rfl⟩ := map_eq_ok.mp hrecs
      rw [List.foldlM_cons, Except.bind_eq_ok] at hfold
      obtain ⟨st₁, h1, h2⟩ := hfold
      exact ⟨st₁, h1, (foldlM_importRow e rows st₁ st').mpr ⟨recs', hrecs', h2⟩⟩

/-- Once the section is open, handing over records is the loop that adds them. -/
theorem foldlM_importAdd (e : EmitEnv) : ∀ (recs : List Record) (w : Writer) (n : Nat),
    recs.foldlM (importAdd e) ⟨w, true, n⟩ =
      (fun w' => ⟨w', true, n + recs.length⟩) <$> emitRecords e recs w
  | [], _, _ => rfl
  | rec :: recs, w, n => by
    rw [List.foldlM_cons, importAdd, importOpen, if_pos rfl, Except.bind_ok_eq, emitRecords]
    cases checked (writerAddRecord e.slack w rec) with
    | error rc => rfl
    | ok w₁ =>
      have ih := foldlM_importAdd e recs w₁ (n + 1)
      rw [Except.bind_ok_eq, Except.bind_ok_eq, Except.pure_eq_ok, Except.bind_ok_eq, ih,
        List.length_cons, Nat.add_comm recs.length 1, ← Nat.add_assoc]

/-- Handing over records and closing the section emits one group. -/
theorem importClose_groups (e : EmitEnv) (a : Arena) (recs : List Record) :
    (do let st ← recs.foldlM (importAdd e) ⟨writerInit a, false, 0⟩
        let w ← importClose e st
        return (w, st.imported)) =
      (fun w => (w, recs.length)) <$> (importGroups recs).foldlM (emitGroup e) (writerInit a) := by
  cases recs with
  | nil => rfl
  | cons rec recs =>
    have hopen : (rec :: recs).foldlM (importAdd e) ⟨writerInit a, false, 0⟩ =
        (checkedBegin (writerInit a) 1 CODEC_STORE >>= fun w =>
          (rec :: recs).foldlM (importAdd e) ⟨w, true, 0⟩) := by
      simp only [List.foldlM_cons, importAdd, importOpen, Bool.false_eq_true, if_false, if_true]
      cases checkedBegin (writerInit a) 1 CODEC_STORE <;> rfl
    rw [hopen, importGroups, if_neg (by simp), List.foldlM_cons, emitGroup]
    cases checkedBegin (writerInit a) 1 CODEC_STORE with
    | error rc => rfl
    | ok w =>
      rw [Except.bind_ok_eq, Except.bind_ok_eq, foldlM_importAdd]
      cases emitRecords e (rec :: recs) w with
      | error rc => rfl
      | ok w₁ =>
        rw [Except.bind_ok_eq, map_ok, Except.bind_ok_eq, importClose, if_pos rfl, Nat.zero_add]
        cases checkedEnd e w₁ <;> rfl

/-- **An import that succeeds has emitted the records of its rows.** -/
theorem importRows_eq_ok {e : EmitEnv} {a : Arena} {rows : List (Res (Option Record))} {bytes : Bytes}
    {n : Nat} : importRows e a rows = .ok (bytes, n) ↔
      ∃ recs w, handed rows = .ok recs ∧ n = recs.length ∧
        (importGroups recs).foldlM (emitGroup e) (writerInit a) = .ok w ∧
        (writerFinish w).1 = .ok bytes := by
  simp only [importRows, Except.bind_eq_ok, foldlM_importRow, Except.pure_eq_ok, Except.ok.injEq,
    Prod.mk.injEq]
  constructor
  · rintro ⟨st, ⟨recs, hrecs, hst⟩, w, hw, bytes', hbytes, rfl, rfl⟩
    have hgroups := importClose_groups e a recs
    rw [hst, Except.bind_ok_eq, hw, Except.bind_ok_eq, Except.pure_eq_ok] at hgroups
    obtain ⟨w', hw', heq⟩ := map_eq_ok.mp hgroups.symm
    obtain ⟨rfl, himp⟩ := Prod.mk.inj heq
    exact ⟨recs, w', hrecs, himp.symm, hw', hbytes⟩
  · rintro ⟨recs, w, hrecs, rfl, hw, hbytes⟩
    have hgroups := importClose_groups e a recs
    rw [hw, map_ok] at hgroups
    simp only [Except.bind_eq_ok, Except.pure_eq_ok, Except.ok.injEq, Prod.mk.injEq] at hgroups
    obtain ⟨st, hst, w', hw', rfl, himp⟩ := hgroups
    exact ⟨st, ⟨recs, hrecs, hst⟩, w', hw', bytes, hbytes, rfl, himp⟩

/-- The writer behind a successful import holds the log of the handed records. -/
theorem importRows_refines {e : EmitEnv} {a : Arena} {rows : List (Res (Option Record))}
    {bytes : Bytes} {n : Nat} (h : importRows e a rows = .ok (bytes, n)) :
    ∃ recs w l, handed rows = .ok recs ∧ n = recs.length ∧ Refines w l ∧
      l.closed = (importGroups recs).map (Group.log e.slack) ∧ (writerFinish w).1 = .ok bytes := by
  obtain ⟨recs, w, hrecs, hn, hw, hfin⟩ := importRows_eq_ok.mp h
  exact ⟨recs, w, _, hrecs, hn, emitGroups_refines _ (writerInit_refines a) rfl hw, by simp, hfin⟩

/-- The stream of the imported section. -/
def importRaw (slack : Slack) (recs : List Record) : Bytes :=
  (recs.map (Record.item slack)).flatMap encodeTlv

/-- The section of a successful import has an admissible size. -/
theorem importRows_raw_le {e : EmitEnv} {a : Arena} {rows : List (Res (Option Record))}
    {bytes : Bytes} {n : Nat} {recs : List Record} (h : importRows e a rows = .ok (bytes, n))
    (hrecs : handed rows = .ok recs) : (importRaw e.slack recs).length ≤ SECTION_MAX_RAW := by
  obtain ⟨recs', w, l, hrecs', -, hr, hclosed, -⟩ := importRows_refines h
  cases hrecs.symm.trans hrecs'
  by_cases hnil : recs = []
  · subst hnil
    exact Nat.zero_le _
  · have hstands := hr.closed
    rw [hclosed, importGroups, if_neg hnil, List.map_singleton, List.forall₂_cons_right_iff] at hstands
    obtain ⟨s, ss, hs, -⟩ := hstands
    exact hs.rawLe

/-- **With memory to spare, records that fit are imported.** -/
theorem importRows_succeeds {e : EmitEnv} {a : Arena} {rows : List (Res (Option Record))}
    {recs : List Record} (hrecs : handed rows = .ok recs) (hroomy : a.Roomy)
    (hfit : ∀ rec ∈ recs, rec.Parseable ∧ (rec.payload e.slack).length ≤ 0xFFFF)
    (hraw : (importRaw e.slack recs).length ≤ SECTION_MAX_RAW) :
    ∃ bytes, importRows e a rows = .ok (bytes, recs.length) := by
  suffices hemit : ∃ w, (importGroups recs).foldlM (emitGroup e) (writerInit a) = .ok w ∧
      ∃ bytes, (writerFinish w).1 = .ok bytes by
    obtain ⟨w, hw, bytes, hbytes⟩ := hemit
    exact ⟨bytes, importRows_eq_ok.mpr ⟨recs, w, hrecs, rfl, hw, hbytes⟩⟩
  by_cases hnil : recs = []
  · subst hnil
    exact ⟨writerInit a, rfl, writerFinish_succeeds rfl rfl hroomy (Nat.zero_le _) (Nat.zero_le _)⟩
  · have hmax : SECTION_MAX_RAW = 67108864 := rfl
    have hbegin : checkedBegin (writerInit a) 1 CODEC_STORE =
        .ok (writerBeginSection (writerInit a) 1 CODEC_STORE).2 := rfl
    obtain ⟨w₁, h1, hroomy1, happ⟩ := emitRecords_succeeds (e := e) recs
      (w := (writerBeginSection (writerInit a) 1 CODEC_STORE).2) ⟨rfl, rfl, hroomy⟩ hfit (by
        show 0 + (importRaw e.slack recs).length ≤ 2 ^ 61
        omega)
    have htlv : w₁.tlv = importRaw e.slack recs := happ.tlv
    have hpos : 0 < w₁.tlv.length := by
      rw [htlv]
      cases recs with
      | nil => exact absurd rfl hnil
      | cons rec recs =>
        rw [importRaw, List.map_cons, List.flatMap_cons, List.length_append, encodeTlv_length]
        omega
    obtain ⟨w₂, h2, hroomy2, herr2, hsec2, hsum⟩ := checkedEnd_succeeds (e := e)
      ⟨happ.err, happ.inSection, hroomy1⟩ happ.curCodec hpos (by rw [htlv]; exact hraw)
    have hgroups : (importGroups recs).foldlM (emitGroup e) (writerInit a) = .ok w₂ := by
      rw [importGroups, if_neg hnil, List.foldlM_cons, emitGroup, hbegin, Except.bind_ok_eq, h1,
        Except.bind_ok_eq, h2]
      rfl
    have hr := emitGroups_refines _ (writerInit_refines a) rfl hgroups
    have hcount := hr.room
    rw [hsec2] at hcount
    refine ⟨w₂, hgroups, writerFinish_succeeds herr2 hsec2 hroomy2 (by simpa using hcount) ?_⟩
    rw [hsum, happ.sections, htlv]
    show 0 + (importRaw e.slack recs).length ≤ 0xFFFFFFFF
    omega

end Dtl
