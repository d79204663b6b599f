import TelemetryForge.Lib.Nullable
import TelemetryForge.Report.ImportJson

/-!
# The JSON parser over its input in memory

`Machine.jsonParseValue` and its siblings follow `report/jimport` on the bytes of the input, with the
cursor as an index: a byte read, or a cursor moved, past the end is a fault, and so is an element
stored past the block it goes to.  `alloc n` is the arena's answer to request number `n`.

`jsonParseValue stack` is a call with `stack` frames for it and the calls below it; the loops take fuel.
A run that needs more than it is given is stopped.  `calls` is a ghost: the calls that have returned.
-/

set_option autoImplicit false

namespace Dtl

open CText Nullable

namespace Machine

/-- Why a run of the parser is stopped. -/
inductive JsonStop where
  | outside
  | spent
  deriving DecidableEq, Repr

/-- The functions whose calls are recorded. -/
inductive JsonFn where
  | value
  | array
  | object
  | string
  deriving DecidableEq, Repr

/-- A call that has returned: the cursor and the depth before and after it. -/
structure JsonCall where
  fn : JsonFn
  start : Nat
  stop : Nat
  enter : Nat
  leave : Nat
  ok : Bool
  deriving DecidableEq, Repr

/-- `dtl_json_parser`, with the number of requests made of the arena. -/
structure JsonParser where
  p : Nat
  depth : Nat
  requests : Nat
  calls : List JsonCall

abbrev JsonParse := Cmd JsonStop JsonParser

/-- The call that has led from `s` to `s'`. -/
def JsonParser.call (fn : JsonFn) (s : JsonParser) (ok : Bool) (s' : JsonParser) : JsonCall :=
  ⟨fn, s.p, s'.p, s.depth, s'.depth, ok⟩

def JsonParser.record (fn : JsonFn) (s : JsonParser) (ok : Bool) (s' : JsonParser) : JsonParser :=
  { s' with calls := s'.calls ++ [s.call fn ok s'] }

section Parser

variable {α : Type} (data : Bytes) (alloc : Nat → Bool)

/-- A call of `fn`. -/
def jsonCall (fn : JsonFn) (x : JsonParse α) : JsonParse α :=
  atExit x fun s r s' => s.record fn r.isSome s'

/-! ## The cursor and the arena -/

/-- `*ps->p`. -/
def jsonByte : JsonParse UInt8 := fun s =>
  match data[s.p]? with
  | some c => .ok (some c, s)
  | none => .error .outside

/-- `ps->p += n`. -/
def jsonAdvance (n : Nat) : JsonParse Unit := fun s =>
  if s.p + n ≤ data.length then .ok (some (), { s with p := s.p + n }) else .error .outside

/-- The `n` bytes at `start`. -/
def jsonBytes (start n : Nat) : JsonParse Bytes := fun s =>
  if start + n ≤ data.length then .ok (some ((data.drop start).take n), s) else .error .outside

/-- `ps->end - ps->p`. -/
def jsonLeft : JsonParse Nat := ask fun s => data.length - s.p

/-- The byte at the cursor, read when `ps->p < ps->end`. -/
def jsonLook : JsonParse (Option UInt8) := do
  let left ← jsonLeft data
  if left = 0 then return none
  else do
    let c ← jsonByte data
    return some c

/-- `NULL` at the end, else `*ps->p`. -/
def jsonNeed : JsonParse UInt8 := do
  let c ← jsonLook data
  orNull c

/-- `NULL` at the end, else `*ps->p++`. -/
def jsonNext : JsonParse UInt8 := do
  let c ← jsonNeed data
  jsonAdvance data 1
  return c

/-- `dtl_arena_alloc`. -/
def jsonRequest : JsonParse Unit := fun s =>
  .ok (if alloc s.requests then some () else none, { s with requests := s.requests + 1 })

/-- Two requests, of which neither may be refused. -/
def jsonRequests : JsonParse Unit := fun s =>
  .ok (if alloc s.requests && alloc (s.requests + 1) then some () else none,
    { s with requests := s.requests + 2 })

/-- The capacity after a block that is full has been doubled. -/
def jsonGrow (full : Bool) (cap : Nat) : JsonParse Nat :=
  if full then do
    jsonRequest alloc
    return cap * 2
  else return cap

/-- A store of element `n` in a block of `cap` elements. -/
def jsonStore (n cap : Nat) : JsonParse Unit := if n < cap then pure () else fault .outside

/-! ## Strings and numbers -/

/-- `while (ps->p < ps->end && keep(*ps->p)) ps->p++`. -/
def jsonSkipLoop (keep : UInt8 → Bool) : Nat → JsonParse Unit
  | 0 => fault .spent
  | fuel + 1 => do
    let c ← jsonLook data
    if c.any keep then do
      jsonAdvance data 1
      jsonSkipLoop keep fuel
    else return ()

def jsonSkip (keep : UInt8 → Bool) : JsonParse Unit := do
  let left ← jsonLeft data
  jsonSkipLoop data keep (left + 1)

/-- `dtl_json_skip_ws`. -/
def jsonSkipWs : JsonParse Unit := jsonSkip data fun c => c = 32 || c = 9 || c = 10 || c = 13

/-- `dtl_json_expect`. -/
def jsonExpect (c : UInt8) : JsonParse Unit := do
  jsonSkipWs data
  let next ← jsonLook data
  if next = some c then jsonAdvance data 1 else null

/-- The digits of a `\u` escape. -/
def jsonHexLoop : Nat → Nat → JsonParse Nat
  | 0, v => return v
  | n + 1, v => do
    let h ← jsonNext data
    let d ← orNull (hexVal h)
    jsonHexLoop n (v * 16 + d)

/-- The character of a `\u` escape. -/
def jsonUnicode : JsonParse UInt8 := do
  let v ← jsonHexLoop data 4 0
  if v > 0x7F then null else return UInt8.ofNat v

/-- The character that `c` and an escape behind it stand for. -/
def jsonChar (c : UInt8) : JsonParse UInt8 :=
  if c = 92 then do
    let c ← jsonNext data
    if c = 117 then jsonUnicode data else orNull (jsonUnescape c)
  else return c

/-- The loop of `dtl_json_parse_string`. -/
def jsonStringLoop : Nat → Bytes → Nat → JsonParse Bytes
  | 0, _, _ => fault .spent
  | fuel + 1, buf, cap => do
    let c ← jsonNext data
    if c = 34 then do
      jsonStore buf.length cap
      return buf
    else do
      let c ← jsonChar data c
      let cap ← jsonGrow alloc (buf.length + 1 ≥ cap) cap
      jsonStore buf.length cap
      jsonStringLoop fuel (buf ++ [c]) cap

/-- `dtl_json_parse_string`. -/
def jsonParseString : JsonParse CStr := jsonCall .string do
  jsonRequest alloc
  jsonAdvance data 1
  let left ← jsonLeft data
  let buf ← jsonStringLoop data alloc (left + 1) [] 32
  return cstr buf

/-- `[-]`. -/
def jsonMinus : JsonParse Unit := do
  let c ← jsonByte data
  if c = 45 then jsonAdvance data 1 else return ()

/-- `digits`, of which there has to be one. -/
def jsonDigits : JsonParse Unit := do
  let c ← jsonNeed data
  if isDigit c then jsonSkip data isDigit else null

/-- `[.digits]`. -/
def jsonFraction : JsonParse Unit := do
  let c ← jsonLook data
  if c = some 46 then do
    jsonAdvance data 1
    jsonSkip data isDigit
  else return ()

/-- `[+-]`. -/
def jsonSign : JsonParse Unit := do
  let c ← jsonLook data
  if c = some 43 ∨ c = some 45 then jsonAdvance data 1 else return ()

/-- `[eE[+-]digits]`. -/
def jsonExponent : JsonParse Unit := do
  let c ← jsonLook data
  if c = some 101 ∨ c = some 69 then do
    jsonAdvance data 1
    jsonSign data
    jsonSkip data isDigit
  else return ()

/-- The default case of the switch. -/
def jsonNumber : JsonParse Json := do
  let start ← ask JsonParser.p
  jsonMinus data
  jsonDigits data
  jsonFraction data
  jsonExponent data
  let p ← ask JsonParser.p
  jsonRequest alloc
  let txt ← jsonBytes data start (p - start)
  jsonRequest alloc
  return .num txt

/-- The case of a word. -/
def jsonWord (word : String) (value : Json) : JsonParse Json := do
  let left ← jsonLeft data
  let p ← ask JsonParser.p
  if left < (ascii word).length then null
  else do
    let txt ← jsonBytes data p (ascii word).length
    if txt = ascii word then do
      jsonAdvance data (ascii word).length
      jsonRequest alloc
      return value
    else null

/-! ## Arrays, objects and values -/

section Items

variable (item : JsonParse α) (close : UInt8)

/-- The item loop of arrays and objects. -/
def jsonItemLoop : Nat → List α → Nat → JsonParse (List α)
  | 0, _, _ => fault .spent
  | fuel + 1, items, cap => do
    let x ← item
    let cap ← jsonGrow alloc (items.length = cap) cap
    jsonStore items.length cap
    jsonSkipWs data
    let c ← jsonNeed data
    if c = 44 then do
      jsonAdvance data 1
      jsonItemLoop fuel (items ++ [x]) cap
    else if c = close then do
      jsonAdvance data 1
      return items ++ [x]
    else null

/-- The body of `dtl_json_parse_array` and `dtl_json_parse_object`. -/
def jsonParseList : JsonParse (List α) := do
  jsonRequests alloc
  jsonAdvance data 1
  jsonSkipWs data
  let c ← jsonLook data
  if c = some close then do
    jsonAdvance data 1
    return []
  else do
    let left ← jsonLeft data
    jsonItemLoop data alloc item close (left + 1) [] 8

end Items

/-- A key, a colon and a value. -/
def jsonMember (value : JsonParse Json) : JsonParse (CStr × Json) := do
  jsonSkipWs data
  let c ← jsonLook data
  if c = some 34 then do
    let key ← jsonParseString data alloc
    jsonExpect data 58
    let val ← value
    return (key, val)
  else null

/-- `dtl_json_parse_array`. -/
def jsonParseArray (value : JsonParse Json) : JsonParse (List Json) :=
  jsonCall .array (jsonParseList data alloc value 93)

/-- `dtl_json_parse_object`. -/
def jsonParseObject (value : JsonParse Json) : JsonParse (List (CStr × Json)) :=
  jsonCall .object (jsonParseList data alloc (jsonMember data alloc value) 125)

/-- `++ps->depth > DTL_JSON_MAX_DEPTH`. -/
def jsonEnter : JsonParse Unit := do
  change fun s => { s with depth := s.depth + 1 }
  let depth ← ask JsonParser.depth
  if depth > JSON_MAX_DEPTH then null else return ()

/-- The switch of `dtl_json_parse_value`. -/
def jsonSwitch (value : JsonParse Json) : JsonParse Json := do
  jsonSkipWs data
  let c ← jsonNeed data
  if c = 123 then do
    let pairs ← jsonParseObject data alloc value
    return .obj pairs
  else if c = 91 then do
    let items ← jsonParseArray data alloc value
    return .arr items
  else if c = 34 then do
    let str ← jsonParseString data alloc
    jsonRequest alloc
    return .str str
  else if c = 116 then jsonWord data alloc "true" (.bool true)
  else if c = 102 then jsonWord data alloc "false" (.bool false)
  else if c = 110 then jsonWord data alloc "null" .null
  else jsonNumber data alloc

/-- `dtl_json_parse_value`. -/
def jsonParseValue : Nat → JsonParse Json
  | 0 => fault .spent
  | stack + 1 => jsonCall .value do
    jsonEnter
    atExit (jsonSwitch data alloc (jsonParseValue stack)) fun _ _ s => { s with depth := s.depth - 1 }

/-! ## The whole text -/

/-- The parser before it has read anything. -/
def JsonParser.start : JsonParser := ⟨0, 0, 0, []⟩

/-- The parser of `dtl_import_json_memory`: the items of the root array. -/
def jsonParse : JsonParse (List Json) := do
  jsonSkipWs data
  let c ← jsonLook data
  if c = some 91 then do
    let items ← jsonParseArray data alloc (jsonParseValue data alloc (JSON_MAX_DEPTH + 1))
    jsonSkipWs data
    let left ← jsonLeft data
    if left = 0 then return items else null
  else null

/-- `dtl_import_json_memory`, with the parser as it is left. -/
def importJsonMemory (e : EmitEnv) (a : Arena) (ft : FloatText) :
    Except JsonStop (Res (Bytes × Nat) × JsonParser) :=
  match jsonParse data alloc .start with
  | .error stop => .error stop
  | .ok (none, s) => .ok (.error .badRecord, s)
  | .ok (some items, s) => .ok (importRows e a (items.map fun item => some <$> jimportRecord ft item), s)

end Parser

end Machine

end Dtl
