import TelemetryForge.Query.Parse
import TelemetryForge.Records.Record

/-!
# Query evaluation

Model of `query/eval` and `query/query`: the value of an expression on a record, and whether a record
matches a compiled query.
-/

set_option autoImplicit false

namespace Dtl

/-- `dtl_value`. -/
inductive Value where
  | none
  | int (i : Int)
  | str (s : Bytes)
  deriving DecidableEq, Repr

/-- `dtl_ascii_lower`. -/
def asciiLower (c : UInt8) : UInt8 := if 65 ≤ c ∧ c ≤ 90 then c + 32 else c

/-- `dtl_name_ieq`. -/
def nameIeq (s : Bytes) (lit : String) : Bool := s.map asciiLower = (ascii lit).map asciiLower

/-- The table of `dtl_typename_tag`. -/
def typeNames : List (String × UInt8) :=
  [("HEARTBEAT", REC_HEARTBEAT), ("SENSOR", REC_SENSOR), ("EVENT", REC_EVENT), ("DIAG", REC_DIAG),
   ("GEO", REC_GEO), ("BATTERY", REC_BATTERY), ("NET", REC_NET), ("LOG", REC_LOG),
   ("CONFIG", REC_CONFIG), ("KEYREF", REC_KEYREF), ("FIRMWARE", REC_FIRMWARE)]

/-- `dtl_typename_tag`. -/
def typenameTag (s : Bytes) : Option UInt8 := (typeNames.find? fun e => nameIeq s e.1).map (·.2)

/-- The first entry named `s`, as the chains of `dtl_name_eq` tests find it. -/
def namedValue (s : Bytes) (fields : List (String × Value)) : Value :=
  ((fields.find? fun e => s = ascii e.1).map (·.2)).getD .none

/-- `dtl_field_value`. -/
def fieldValue (rec : Record) (s : Bytes) : Value :=
  match rec with
  | .heartbeat r => namedValue s [("seq", .int r.seq.toNat), ("uptime", .int r.uptimeS.toNat)]
  | .geo r => namedValue s
      [("lat", .int r.latE7.toInt), ("lon", .int r.lonE7.toInt), ("alt", .int r.altMm.toInt)]
  | .battery r => namedValue s
      [("pct", .int r.pct.toNat), ("temp", .int r.tempCE1.toInt), ("cycles", .int r.cycles.toNat)]
  | .net r => namedValue s
      [("iface", .int r.ifaceId.toNat), ("rx_bytes", .int r.rxBytes.toNat),
       ("tx_bytes", .int r.txBytes.toNat), ("rx_pkts", .int r.rxPkts.toNat),
       ("tx_pkts", .int r.txPkts.toNat)]
  | .firmware r => namedValue s
      [("major", .int r.major.toNat), ("minor", .int r.minor.toNat), ("patch", .int r.patch.toNat)]
  | .sensor r => namedValue s [("id", .int r.sensorId.toNat), ("count", .int r.count.toNat)]
  | .event r => namedValue s [("code", .int r.code.toNat), ("len", .int r.payloadLen.toNat)]
  | .log r => namedValue s
      [("severity", .int r.severity.toNat), ("len", .int r.msgLen.toNat),
       ("msg", .str (r.msg.take r.msgLen.toNat))]
  | .config r =>
    -- the field name is looked up as a key
    match (r.pairs.take r.pairCount.toNat).find? (·.key.val = s) with
    | some p => .str p.value.val
    | none => .none
  | .keyref r => namedValue s
      [("slot", .int r.slotId.toNat), ("label", .str (r.label.take r.labelLen.toNat))]
  | .diag r => namedValue s [("subsystem", .int r.subsystem.toNat), ("len", .int r.blobLen.toNat)]
  | .other _ _ => .none

/-- `dtl_resolve`. -/
def resolve (rec : Record) (s1 : Bytes) : Option Bytes → Value
  | none =>
    if s1 = ascii "type" then .int rec.tag.toNat
    else match typenameTag s1 with
      | some tag => .int tag.toNat
      | none => fieldValue rec s1
  | some s2 =>
    match typenameTag s1 with
    | none => .none
    | some tag => if rec.tag ≠ tag then .none else fieldValue rec s2

/-- An ordering tested by an operator. -/
def CmpOp.holds : CmpOp → Ordering → Bool
  | eq, o => o.isEq
  | ne, o => o.isNe
  | lt, o => o.isLT
  | le, o => o.isLE
  | gt, o => o.isGT
  | ge, o => o.isGE

/-- `memcmp` over the shorter length, then the lengths. -/
def bytesOrder : Bytes → Bytes → Ordering
  | [], [] => .eq
  | [], _ :: _ => .lt
  | _ :: _, [] => .gt
  | a :: as, b :: bs => if a < b then .lt else if b < a then .gt else bytesOrder as bs

/-- `dtl_compare`, with `dtl_int_cmp` and `dtl_str_cmp`. -/
def valueCompare (op : CmpOp) : Value → Value → Bool
  | .none, _ => false
  | _, .none => false
  | .int a, .int b => op.holds (compare a b)
  | .str a, .str b => op.holds (bytesOrder a b)
  | _, _ => op = .ne

/-- `dtl_truthy`. -/
def truthy : Value → Bool
  | .int i => i ≠ 0
  | .str s => s ≠ []
  | .none => false

def boolValue (b : Bool) : Value := .int (if b then 1 else 0)

/-- `dtl_eval_value`. -/
def evalValue (rec : Record) : Ast → Value
  | .int v => .int v
  | .str s => .str s
  | .field s1 s2 => resolve rec s1 s2
  | .not child => boolValue (!truthy (evalValue rec child))
  | .and left right =>
    if !truthy (evalValue rec left) then boolValue false else boolValue (truthy (evalValue rec right))
  | .or left right =>
    if truthy (evalValue rec left) then boolValue true else boolValue (truthy (evalValue rec right))
  | .cmp op left right => boolValue (valueCompare op (evalValue rec left) (evalValue rec right))

/-- `dtl_query_match`. -/
def queryMatch (root : Ast) (rec : Record) : Bool := truthy (evalValue rec root)

/-! ## What a query can see of a record -/

section Sees

variable {rec rec' : Record} (htag : rec.tag = rec'.tag)
  (hfields : ∀ s, fieldValue rec s = fieldValue rec' s)

include htag hfields

theorem resolve_congr (s1 : Bytes) (s2 : Option Bytes) : resolve rec s1 s2 = resolve rec' s1 s2 := by
  cases s2 with
  | none => rw [resolve, resolve, htag, hfields]
  | some s2 => rw [resolve, resolve, htag, hfields]

/-- An expression sees the tag and the named fields of a record, and nothing else. -/
theorem evalValue_congr (e : Ast) : evalValue rec e = evalValue rec' e := by
  induction e with
  | int v => rfl
  | str s => rfl
  | field s1 s2 => exact resolve_congr htag hfields s1 s2
  | not child ih => rw [evalValue, evalValue, ih]
  | and left right ihl ihr => rw [evalValue, evalValue, ihl, ihr]
  | or left right ihl ihr => rw [evalValue, evalValue, ihl, ihr]
  | cmp op left right ihl ihr => rw [evalValue, evalValue, ihl, ihr]

theorem queryMatch_congr (root : Ast) : queryMatch root rec = queryMatch root rec' := by
  rw [queryMatch, queryMatch, evalValue_congr htag hfields]

end Sees

end Dtl
