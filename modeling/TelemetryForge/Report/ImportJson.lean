import TelemetryForge.Report.Import

/-!
# JSON import

Model of `report/jimport`: the parser for the subset of JSON that the exporter writes, and the
conversion of its objects to records.  A pointer to parsed text is the C string it points to, so the
length of a string with an escaped NUL in it is lost where the source loses it.

The parser's state is the text that is left, and `none` stands for `NULL`.  `jsonValue d` parses a
value that may nest `d` levels deep; the item loops take as fuel the length of the text, of which
every item takes at least one byte.  The requests for memory of the parser and of the conversion are
taken to succeed; when one is refused, the import ends with an error.  A store past the block that is
sized to the record's count byte is taken to miss the record.
-/

set_option autoImplicit false

namespace Dtl

open CText

/-- `dtl_json_node`. -/
inductive Json where
  | null
  | bool (b : Bool)
  | num (text : Bytes)
  | str (s : CStr)
  | arr (items : List Json)
  | obj (pairs : List (CStr × Json))

/-- `DTL_JSON_MAX_DEPTH`. -/
def JSON_MAX_DEPTH : Nat := 64

/-! ## The parser -/

/-- `dtl_json_skip_ws`. -/
def jsonSkipWs (p : Bytes) : Bytes := p.dropWhile fun c => c = 32 || c = 9 || c = 10 || c = 13

/-- The character a one-letter escape stands for. -/
def jsonUnescape (c : UInt8) : Option UInt8 :=
  if c = 110 then some 10
  else if c = 116 then some 9
  else if c = 114 then some 13
  else if c = 98 then some 8
  else if c = 102 then some 12
  else if c = 47 then some 47
  else if c = 92 then some 92
  else if c = 34 then some 34
  else none

/-- The character of a `\u` escape. -/
def jsonUnicode (h0 h1 h2 h3 : UInt8) : Option UInt8 := do
  let v0 ← hexVal h0
  let v1 ← hexVal h1
  let v2 ← hexVal h2
  let v3 ← hexVal h3
  let v := ((v0 * 16 + v1) * 16 + v2) * 16 + v3
  if v > 0x7F then none else some (UInt8.ofNat v)

/-- `buf[n++] = c`. -/
def jsonStore (c : UInt8) (next : Option (Bytes × Bytes)) : Option (Bytes × Bytes) :=
  next.map fun p => (c :: p.1, p.2)

/-- The characters of a string up to its closing quote. -/
def jsonChars : Bytes → Option (Bytes × Bytes)
  | [] => none
  | c :: p =>
    if c = 34 then some ([], p)
    else if c = 92 then
      match p with
      | [] => none
      | c :: p =>
        if c = 117 then
          match p with
          | h0 :: h1 :: h2 :: h3 :: p => (jsonUnicode h0 h1 h2 h3).bind fun c => jsonStore c (jsonChars p)
          | _ => none
        else (jsonUnescape c).bind fun c => jsonStore c (jsonChars p)
    else jsonStore c (jsonChars p)

/-- `dtl_json_parse_string`, the opening quote consumed. -/
def jsonString (p : Bytes) : Option (CStr × Bytes) := (jsonChars p).map fun q => (cstr q.1, q.2)

/-- `[.digits]`. -/
def jsonFraction : Bytes → Bytes × Bytes
  | [] => ([], [])
  | c :: p => if c = 46 then (c :: p.takeWhile isDigit, p.dropWhile isDigit) else ([], c :: p)

/-- `[+-]`. -/
def jsonSign : Bytes → Bytes × Bytes
  | [] => ([], [])
  | c :: p => if c = 43 ∨ c = 45 then ([c], p) else ([], c :: p)

/-- `[eE[+-]digits]`. -/
def jsonExponent : Bytes → Bytes × Bytes
  | [] => ([], [])
  | c :: p =>
    if c = 101 ∨ c = 69 then
      let (sign, p) := jsonSign p
      (c :: (sign ++ p.takeWhile isDigit), p.dropWhile isDigit)
    else ([], c :: p)

/-- `[-]`. -/
def jsonMinus : Bytes → Bytes × Bytes
  | [] => ([], [])
  | c :: p => if c = 45 then ([c], p) else ([], c :: p)

/-- A number, kept as its text. -/
def jsonNumber (p : Bytes) : Option (Bytes × Bytes) :=
  let (minus, p) := jsonMinus p
  let digits := p.takeWhile isDigit
  if digits = [] then none
  else
    let (fraction, p) := jsonFraction (p.dropWhile isDigit)
    let (exponent, p) := jsonExponent p
    some (minus ++ (digits ++ (fraction ++ exponent)), p)

section Items

variable {α : Type} (item : Bytes → Option (α × Bytes)) (close : UInt8)

/-- The item loop of arrays and objects. -/
def jsonItems : Nat → Bytes → Option (List α × Bytes)
  | 0, _ => none
  | fuel + 1, p => do
    let (x, p) ← item p
    match jsonSkipWs p with
    | [] => none
    | c :: p =>
      if c = 44 then (fun q => (x :: q.1, q.2)) <$> jsonItems fuel p
      else if c = close then some ([x], p)
      else none

/-- `dtl_json_parse_array` and `dtl_json_parse_object`, the opening bracket consumed. -/
def jsonList (p : Bytes) : Option (List α × Bytes) :=
  match jsonSkipWs p with
  | [] => none
  | c :: p => if c = close then some ([], p) else jsonItems item close (c :: p).length (c :: p)

end Items

/-- A key, a colon and a value. -/
def jsonMember (value : Bytes → Option (Json × Bytes)) (p : Bytes) : Option ((CStr × Json) × Bytes) :=
  match jsonSkipWs p with
  | [] => none
  | c :: p =>
    if c = 34 then do
      let (key, p) ← jsonString p
      match jsonSkipWs p with
      | [] => none
      | c :: p => if c = 58 then (fun q => ((key, q.1), q.2)) <$> value p else none
    else none

/-- A word that stands for a value. -/
def jsonWord (word : String) (value : Json) (p : Bytes) : Option (Json × Bytes) :=
  if p.take (ascii word).length = ascii word then some (value, p.drop (ascii word).length) else none

/-- `dtl_json_parse_value`, with the levels that are left. -/
def jsonValue : Nat → Bytes → Option (Json × Bytes)
  | 0, _ => none
  | d + 1, p =>
    match jsonSkipWs p with
    | [] => none
    | c :: p =>
      if c = 123 then (fun q => (.obj q.1, q.2)) <$> jsonList (jsonMember (jsonValue d)) 125 p
      else if c = 91 then (fun q => (.arr q.1, q.2)) <$> jsonList (jsonValue d) 93 p
      else if c = 34 then (fun q => (.str q.1, q.2)) <$> jsonString p
      else if c = 116 then jsonWord "true" (.bool true) (c :: p)
      else if c = 102 then jsonWord "false" (.bool false) (c :: p)
      else if c = 110 then jsonWord "null" .null (c :: p)
      else (fun q => (.num q.1, q.2)) <$> jsonNumber (c :: p)

/-- The array that is the whole text. -/
def jsonRoot (data : Bytes) : Option (List Json) :=
  match jsonSkipWs data with
  | [] => none
  | c :: p =>
    if c = 91 then do
      let (items, p) ← jsonList (jsonValue JSON_MAX_DEPTH) 93 p
      if jsonSkipWs p = [] then some items else none
    else none

/-! ## Accessors -/

/-- `dtl_json_get`. -/
def jsonGet (obj : Json) (key : String) : Option Json :=
  match obj with
  | .obj pairs => (pairs.find? fun p => p.1.val = ascii key).map (·.2)
  | _ => none

/-- `dtl_json_u32`. -/
def jsonU32 (obj : Json) (key : String) : Option UInt32 :=
  match jsonGet obj key with
  | some (.num text) => fieldU32 text
  | _ => none

/-- `dtl_json_i32`. -/
def jsonI32 (obj : Json) (key : String) : Option Int32 :=
  match jsonGet obj key with
  | some (.num text) => fieldI32 text
  | _ => none

/-- `dtl_json_bool`. -/
def jsonBool (obj : Json) (key : String) : Option Bool :=
  match jsonGet obj key with
  | some (.bool b) => some b
  | _ => none

/-- `dtl_json_str`. -/
def jsonStr (obj : Json) (key : String) : Option CStr :=
  match jsonGet obj key with
  | some (.str s) => some s
  | _ => none

/-- `dtl_json_hex` into a buffer of half the text's length. -/
def jsonHex (hex : CStr) : Option Bytes := fieldHex hex.val (hex.val.length / 2)

/-! ## Objects to records -/

def jsonHeartbeat (obj : Json) : Res Record := do
  let u0 ← orBad (jsonU32 obj "uptime_s")
  let u1 ← orBad (jsonU32 obj "seq")
  return .heartbeat ⟨u0, u1⟩

/-- The sample loop. -/
def jsonSamples (ft : FloatText) : List Json → Res (List UInt32)
  | [] => .ok []
  | .num text :: items => do
    let v ← orBad (ft.strtof text)
    (v :: ·) <$> jsonSamples ft items
  | _ :: _ => .error .badRecord

def jsonSensor (ft : FloatText) (obj : Json) : Res Record := do
  let u0 ← orBad (jsonU32 obj "sensor_id")
  failIf (u0 > 0xFFFF) .badRecord
  match jsonGet obj "samples" with
  | some (.arr items) =>
    failIf (items.length > 0xFFFF) .badRecord
    let scount := UInt8.ofNat items.length
    let samples ← jsonSamples ft items
    return .sensor ⟨u0.toUInt16, scount, samples.take scount.toNat⟩
  | _ => .error .badRecord

def jsonEvent (obj : Json) : Res Record := do
  let u0 ← orBad (jsonU32 obj "code")
  failIf (u0 > 0xFFFF) .badRecord
  let hex ← orBad (jsonStr obj "payload_hex")
  let payload ← orBad (jsonHex hex)
  failIf (payload.length > 0xFFFF) .badRecord
  return .event ⟨u0.toUInt16, UInt16.ofNat payload.length, payload⟩

/-- The text of a field that redaction empties. -/
def jsonRedactable (redacted : Bool) (s : Option CStr) : Option CStr :=
  if redacted then some (cstr []) else s

def jsonDiag (obj : Json) : Res Record := do
  let u0 ← orBad (jsonU32 obj "subsystem")
  let redacted ← orBad (jsonBool obj "redacted")
  failIf (u0 > 0xFFFF) .badRecord
  let hex ← orBad (jsonRedactable redacted (jsonStr obj "blob_hex"))
  let blob ← orBad (jsonHex hex)
  failIf (blob.length > 0xFFFF) .badRecord
  return .diag ⟨u0.toUInt16, UInt16.ofNat blob.length, blob, if redacted then 1 else 0⟩

def jsonGeo (obj : Json) : Res Record := do
  let s0 ← orBad (jsonI32 obj "lat_e7")
  let s1 ← orBad (jsonI32 obj "lon_e7")
  let s2 ← orBad (jsonI32 obj "alt_mm")
  return .geo ⟨s0, s1, s2⟩

def jsonBattery (obj : Json) : Res Record := do
  let u0 ← orBad (jsonU32 obj "pct")
  let s0 ← orBad (jsonI32 obj "temp_c_e1")
  let u1 ← orBad (jsonU32 obj "cycles")
  failIf (u0 > 255 ∨ s0.toInt < -32768 ∨ s0.toInt > 32767) .badRecord
  return .battery ⟨u0.toUInt8, s0.toInt16, u1⟩

def jsonNet (obj : Json) : Res Record := do
  let u0 ← orBad (jsonU32 obj "iface_id")
  let u1 ← orBad (jsonU32 obj "rx_bytes")
  let u2 ← orBad (jsonU32 obj "tx_bytes")
  let u3 ← orBad (jsonU32 obj "rx_pkts")
  let u4 ← orBad (jsonU32 obj "tx_pkts")
  failIf (u0 > 255) .badRecord
  return .net ⟨u0.toUInt8, u1, u2, u3, u4⟩

def jsonLog (obj : Json) : Res Record := do
  let u0 ← orBad (jsonU32 obj "severity")
  failIf (u0 > 255) .badRecord
  let msg ← orBad (jsonStr obj "msg")
  failIf (msg.val.length > 0xFFFF) .badRecord
  return .log ⟨u0.toUInt8, UInt16.ofNat msg.val.length, msg.val⟩

/-- The pair loop. -/
def jsonPairs : List (CStr × Json) → Res (List ConfigPair)
  | [] => .ok []
  | (key, .str value) :: pairs => (⟨key, value⟩ :: ·) <$> jsonPairs pairs
  | _ :: _ => .error .badRecord

def jsonConfig (obj : Json) : Res Record :=
  match jsonGet obj "pairs" with
  | some (.obj items) => do
    failIf (items.length > 0xFFFF) .badRecord
    let pcount := UInt8.ofNat items.length
    let pairs ← jsonPairs items
    return .config ⟨pcount, pairs.take pcount.toNat⟩
  | _ => .error .badRecord

def jsonKeyref (obj : Json) : Res Record := do
  let u0 ← orBad (jsonU32 obj "slot_id")
  let redacted ← orBad (jsonBool obj "redacted")
  failIf (u0 > 255) .badRecord
  let label := ((jsonRedactable redacted (jsonStr obj "label")).getD (cstr [])).val
  failIf (label.length > 255) .badRecord
  return .keyref ⟨u0.toUInt8, UInt8.ofNat label.length, label, if redacted then 1 else 0⟩

/-- The rest of the text after a dot. -/
def scanDot : Bytes → Option Bytes
  | [] => none
  | c :: p => if c = 46 then some p else none

/-- `sscanf(ver, "%u.%u.%u", …)` when all three are converted. -/
def scanVersion (ver : Bytes) : Option (Nat × Nat × Nat) := do
  let (mj, p) ← scanfU ver
  let p ← scanDot p
  let (mi, p) ← scanfU p
  let p ← scanDot p
  let (pa, _) ← scanfU p
  return (mj, mi, pa)

def jsonFirmware (obj : Json) : Res Record := do
  let ver ← orBad (jsonStr obj "version")
  let hex ← orBad (jsonStr obj "hash_hex")
  let (mj, mi, pa) ← orBad (scanVersion ver.val)
  failIf (mj > 0xFFFF ∨ mi > 0xFFFF ∨ pa > 0xFFFF) .badRecord
  let hash ← importHash (fieldHex hex.val 8)
  return .firmware ⟨UInt16.ofNat mj, UInt16.ofNat mi, UInt16.ofNat pa, hash⟩

/-- The switch of `dtl_jimport_record`. -/
def jsonRecord (ft : FloatText) (obj : Json) (tag : UInt8) : Res Record :=
  if tag = REC_HEARTBEAT then jsonHeartbeat obj
  else if tag = REC_SENSOR then jsonSensor ft obj
  else if tag = REC_EVENT then jsonEvent obj
  else if tag = REC_DIAG then jsonDiag obj
  else if tag = REC_GEO then jsonGeo obj
  else if tag = REC_BATTERY then jsonBattery obj
  else if tag = REC_NET then jsonNet obj
  else if tag = REC_LOG then jsonLog obj
  else if tag = REC_CONFIG then jsonConfig obj
  else if tag = REC_KEYREF then jsonKeyref obj
  else if tag = REC_FIRMWARE then jsonFirmware obj
  else .error .badRecord

/-- `dtl_jimport_record`. -/
def jimportRecord (ft : FloatText) (obj : Json) : Res Record := do
  let u0 ← orBad (jsonU32 obj "tag")
  failIf (u0 > 0xFF) .badRecord
  jsonRecord ft obj u0.toUInt8

/-- The case of the switch that made the record of an object. -/
inductive JsonCase (ft : FloatText) (obj : Json) (rec : Record) : UInt8 → Prop where
  | heartbeat (h : jsonHeartbeat obj = .ok rec) : JsonCase ft obj rec REC_HEARTBEAT
  | sensor (h : jsonSensor ft obj = .ok rec) : JsonCase ft obj rec REC_SENSOR
  | event (h : jsonEvent obj = .ok rec) : JsonCase ft obj rec REC_EVENT
  | diag (h : jsonDiag obj = .ok rec) : JsonCase ft obj rec REC_DIAG
  | geo (h : jsonGeo obj = .ok rec) : JsonCase ft obj rec REC_GEO
  | battery (h : jsonBattery obj = .ok rec) : JsonCase ft obj rec REC_BATTERY
  | net (h : jsonNet obj = .ok rec) : JsonCase ft obj rec REC_NET
  | log (h : jsonLog obj = .ok rec) : JsonCase ft obj rec REC_LOG
  | config (h : jsonConfig obj = .ok rec) : JsonCase ft obj rec REC_CONFIG
  | keyref (h : jsonKeyref obj = .ok rec) : JsonCase ft obj rec REC_KEYREF
  | firmware (h : jsonFirmware obj = .ok rec) : JsonCase ft obj rec REC_FIRMWARE

theorem jsonRecord_case {ft : FloatText} {obj : Json} {tag : UInt8} {rec : Record}
    (h : jsonRecord ft obj tag = .ok rec) : JsonCase ft obj rec tag := by
  unfold jsonRecord at h
  refine branch_ok h (fun ht h => ht ▸ .heartbeat h) fun h => ?_
  refine branch_ok h (fun ht h => ht ▸ .sensor h) fun h => ?_
  refine branch_ok h (fun ht h => ht ▸ .event h) fun h => ?_
  refine branch_ok h (fun ht h => ht ▸ .diag h) fun h => ?_
  refine branch_ok h (fun ht h => ht ▸ .geo h) fun h => ?_
  refine branch_ok h (fun ht h => ht ▸ .battery h) fun h => ?_
  refine branch_ok h (fun ht h => ht ▸ .net h) fun h => ?_
  refine branch_ok h (fun ht h => ht ▸ .log h) fun h => ?_
  refine branch_ok h (fun ht h => ht ▸ .config h) fun h => ?_
  refine branch_ok h (fun ht h => ht ▸ .keyref h) fun h => ?_
  refine branch_ok h (fun ht h => ht ▸ .firmware h) fun h => ?_
  cases h

/-! ## What an imported object holds -/

theorem jsonHeartbeat_ok {obj : Json} {rec : Record} (h : jsonHeartbeat obj = .ok rec) :
    ∃ u0 u1, jsonU32 obj "uptime_s" = some u0 ∧ jsonU32 obj "seq" = some u1 ∧
      rec = .heartbeat ⟨u0, u1⟩ := by
  simp only [jsonHeartbeat, Except.bind_eq_ok, orBad_eq_ok, Except.pure_eq_ok, Except.ok.injEq] at h
  obtain ⟨u0, h0, u1, h1, rfl⟩ := h
  exact ⟨u0, u1, h0, h1, rfl⟩

theorem jsonSensor_ok {ft : FloatText} {obj : Json} {rec : Record} (h : jsonSensor ft obj = .ok rec) :
    ∃ u0 items samples, jsonU32 obj "sensor_id" = some u0 ∧ ¬ u0 > 0xFFFF ∧
      jsonGet obj "samples" = some (.arr items) ∧ ¬ items.length > 0xFFFF ∧
      jsonSamples ft items = .ok samples ∧
      rec = .sensor ⟨u0.toUInt16, UInt8.ofNat items.length,
        samples.take (UInt8.ofNat items.length).toNat⟩ := by
  simp only [jsonSensor, Except.bind_eq_ok, orBad_eq_ok, failIf_eq_ok] at h
  obtain ⟨u0, h0, -, hid, h⟩ := h
  split at h
  · rename_i items hget
    simp only [Except.bind_eq_ok, failIf_eq_ok, Except.pure_eq_ok, Except.ok.injEq] at h
    obtain ⟨-, hlen, samples, hsamples, rfl⟩ := h
    exact ⟨u0, items, samples, h0, hid, hget, hlen, hsamples, rfl⟩
  · cases h

theorem jsonEvent_ok {obj : Json} {rec : Record} (h : jsonEvent obj = .ok rec) :
    ∃ u0 payload, jsonU32 obj "code" = some u0 ∧ ¬ u0 > 0xFFFF ∧ ¬ payload.length > 0xFFFF ∧
      rec = .event ⟨u0.toUInt16, UInt16.ofNat payload.length, payload⟩ := by
  simp only [jsonEvent, Except.bind_eq_ok, orBad_eq_ok, failIf_eq_ok, Except.pure_eq_ok,
    Except.ok.injEq] at h
  obtain ⟨u0, h0, -, hcode, hex, -, payload, -, -, hlen, rfl⟩ := h
  exact ⟨u0, payload, h0, hcode, hlen, rfl⟩

theorem jsonDiag_ok {obj : Json} {rec : Record} (h : jsonDiag obj = .ok rec) :
    ∃ u0 redacted blob, jsonU32 obj "subsystem" = some u0 ∧ jsonBool obj "redacted" = some redacted ∧
      ¬ u0 > 0xFFFF ∧ ¬ blob.length > 0xFFFF ∧
      rec = .diag ⟨u0.toUInt16, UInt16.ofNat blob.length, blob, if redacted then 1 else 0⟩ := by
  simp only [jsonDiag, Except.bind_eq_ok, orBad_eq_ok, failIf_eq_ok, Except.pure_eq_ok,
    Except.ok.injEq] at h
  obtain ⟨u0, h0, redacted, hred, -, hsub, hex, -, blob, -, -, hlen, rfl⟩ := h
  exact ⟨u0, redacted, blob, h0, hred, hsub, hlen, rfl⟩

theorem jsonGeo_ok {obj : Json} {rec : Record} (h : jsonGeo obj = .ok rec) :
    ∃ s0 s1 s2, jsonI32 obj "lat_e7" = some s0 ∧ jsonI32 obj "lon_e7" = some s1 ∧
      jsonI32 obj "alt_mm" = some s2 ∧ rec = .geo ⟨s0, s1, s2⟩ := by
  simp only [jsonGeo, Except.bind_eq_ok, orBad_eq_ok, Except.pure_eq_ok, Except.ok.injEq] at h
  obtain ⟨s0, h0, s1, h1, s2, h2, rfl⟩ := h
  exact ⟨s0, s1, s2, h0, h1, h2, rfl⟩

theorem jsonBattery_ok {obj : Json} {rec : Record} (h : jsonBattery obj = .ok rec) :
    ∃ u0 s0 u1, jsonU32 obj "pct" = some u0 ∧ jsonI32 obj "temp_c_e1" = some s0 ∧
      jsonU32 obj "cycles" = some u1 ∧ ¬ u0 > 255 ∧ ¬ s0.toInt < -32768 ∧ ¬ s0.toInt > 32767 ∧
      rec = .battery ⟨u0.toUInt8, s0.toInt16, u1⟩ := by
  simp only [jsonBattery, Except.bind_eq_ok, orBad_eq_ok, failIf_eq_ok, Except.pure_eq_ok,
    Except.ok.injEq, not_or] at h
  obtain ⟨u0, h0, s0, h1, u1, h2, -, ⟨hle, hlo, hhi⟩, rfl⟩ := h
  exact ⟨u0, s0, u1, h0, h1, h2, hle, hlo, hhi, rfl⟩

theorem jsonNet_ok {obj : Json} {rec : Record} (h : jsonNet obj = .ok rec) :
    ∃ u0 u1 u2 u3 u4, jsonU32 obj "iface_id" = some u0 ∧ jsonU32 obj "rx_bytes" = some u1 ∧
      jsonU32 obj "tx_bytes" = some u2 ∧ jsonU32 obj "rx_pkts" = some u3 ∧
      jsonU32 obj "tx_pkts" = some u4 ∧ ¬ u0 > 255 ∧ rec = .net ⟨u0.toUInt8, u1, u2, u3, u4⟩ := by
  simp only [jsonNet, Except.bind_eq_ok, orBad_eq_ok, failIf_eq_ok, Except.pure_eq_ok,
    Except.ok.injEq] at h
  obtain ⟨u0, h0, u1, h1, u2, h2, u3, h3, u4, h4, -, hle, rfl⟩ := h
  exact ⟨u0, u1, u2, u3, u4, h0, h1, h2, h3, h4, hle, rfl⟩

theorem jsonLog_ok {obj : Json} {rec : Record} (h : jsonLog obj = .ok rec) :
    ∃ u0 msg, jsonU32 obj "severity" = some u0 ∧ ¬ u0 > 255 ∧ ¬ msg.length > 0xFFFF ∧
      rec = .log ⟨u0.toUInt8, UInt16.ofNat msg.length, msg⟩ := by
  simp only [jsonLog, Except.bind_eq_ok, orBad_eq_ok, failIf_eq_ok, Except.pure_eq_ok,
    Except.ok.injEq] at h
  obtain ⟨u0, h0, -, hle, msg, -, -, hmsg, rfl⟩ := h
  exact ⟨u0, msg.val, h0, hle, hmsg, rfl⟩

theorem jsonConfig_ok {obj : Json} {rec : Record} (h : jsonConfig obj = .ok rec) :
    ∃ items pairs, jsonGet obj "pairs" = some (.obj items) ∧ ¬ items.length > 0xFFFF ∧
      jsonPairs items = .ok pairs ∧
      rec = .config ⟨UInt8.ofNat items.length, pairs.take (UInt8.ofNat items.length).toNat⟩ := by
  unfold jsonConfig at h
  split at h
  · rename_i items hget
    simp only [Except.bind_eq_ok, failIf_eq_ok, Except.pure_eq_ok, Except.ok.injEq] at h
    obtain ⟨-, hlen, pairs, hpairs, rfl⟩ := h
    exact ⟨items, pairs, hget, hlen, hpairs, rfl⟩
  · cases h

theorem jsonKeyref_ok {obj : Json} {rec : Record} (h : jsonKeyref obj = .ok rec) :
    ∃ u0 redacted label, jsonU32 obj "slot_id" = some u0 ∧ jsonBool obj "redacted" = some redacted ∧
      ¬ u0 > 255 ∧ ¬ label.length > 255 ∧
      rec = .keyref ⟨u0.toUInt8, UInt8.ofNat label.length, label, if redacted then 1 else 0⟩ := by
  simp only [jsonKeyref, Except.bind_eq_ok, orBad_eq_ok, failIf_eq_ok, Except.pure_eq_ok,
    Except.ok.injEq] at h
  obtain ⟨u0, h0, redacted, hred, -, hle, -, hlabel, rfl⟩ := h
  exact ⟨u0, redacted, _, h0, hred, hle, hlabel, rfl⟩

theorem jsonFirmware_ok {obj : Json} {rec : Record} (h : jsonFirmware obj = .ok rec) :
    ∃ ver mj mi pa hash, jsonStr obj "version" = some ver ∧
      scanVersion ver.val = some (mj, mi, pa) ∧ ¬ mj > 0xFFFF ∧ ¬ mi > 0xFFFF ∧ ¬ pa > 0xFFFF ∧
      rec = .firmware ⟨UInt16.ofNat mj, UInt16.ofNat mi, UInt16.ofNat pa, hash⟩ := by
  simp only [jsonFirmware, Except.bind_eq_ok, orBad_eq_ok, failIf_eq_ok, Except.pure_eq_ok,
    Except.ok.injEq, not_or] at h
  obtain ⟨ver, hver, hex, -, ⟨mj, mi, pa⟩, hscan, -, ⟨hmj, hmi, hpa⟩, hash, -, rfl⟩ := h
  exact ⟨ver, mj, mi, pa, hash, hver, hscan, hmj, hmi, hpa, rfl⟩

/-! ## The whole text -/

/-- The outcome of each item of the root array, or the one error of a text that is no array. -/
def jsonRows (ft : FloatText) (data : Bytes) : List (Res (Option Record)) :=
  match jsonRoot data with
  | none => [.error .badRecord]
  | some items => items.map fun item => some <$> jimportRecord ft item

/-- `dtl_import_json_memory`. -/
def importJsonMemory (e : EmitEnv) (a : Arena) (ft : FloatText) (data : Bytes) : Res (Bytes × Nat) :=
  importRows e a (jsonRows ft data)

end Dtl
