import TelemetryForge.Lib.Faults
import TelemetryForge.Records.Parse

/-!
# Parsing a record with whatever memory there is

The parsers of the variable-length records ask for buffers: one for the samples, the payload, the blob,
the message or the label, and for a `CONFIG` record one for its pairs and one for each string, from the
string pool or, failing that, from the arena.  `Grants` says which of these requests are granted.

Principal results: `recordParseIn_degrades` — a parse ends as with all buffers, or with `DTL_ERR_OOM`;
`recordParseIn_granted` — with all buffers it is `recordParse`.
-/

set_option autoImplicit false

namespace Dtl

open Faults PrefixCode

/-- Whether the `k`-th buffer that a parser asks for is granted. -/
abbrev Grants := Nat → Bool

/-- `dtl_sensor_parse`. -/
def sensorParseIn (g : Grants) (val : Bytes) : Res Sensor := do
  let (sensorId, b) ← bufReadU16 val
  let (count, b) ← bufReadU8 b
  failIf (b.length ≠ count.toNat * SENSOR_SAMPLE_SIZE) .badRecord
  failIf (count ≠ 0 ∧ g 0 = false) .oom
  let (samples, _) ← readMany bufReadU32 count.toNat b
  return ⟨sensorId, count, samples⟩

/-- `dtl_event_parse`. -/
def eventParseIn (g : Grants) (val : Bytes) : Res Event := do
  let (code, b) ← bufReadU16 val
  let (payloadLen, b) ← bufReadU16 b
  failIf (payloadLen.toNat ≠ b.length) .badRecord
  failIf (payloadLen ≠ 0 ∧ g 0 = false) .oom
  let (payload, _) ← bufReadBytes payloadLen.toNat b
  return ⟨code, payloadLen, payload⟩

/-- `dtl_diag_parse`. -/
def diagParseIn (g : Grants) (val : Bytes) : Res Diag := do
  let (subsystem, b) ← bufReadU16 val
  let (blobLen, b) ← bufReadU16 b
  failIf (blobLen.toNat ≠ b.length) .badRecord
  failIf (blobLen ≠ 0 ∧ g 0 = false) .oom
  let (blob, _) ← bufReadBytes blobLen.toNat b
  return ⟨subsystem, blobLen, blob, 0⟩

/-- `dtl_log_parse`. -/
def logParseIn (g : Grants) (val : Bytes) : Res Log := do
  let (severity, b) ← bufReadU8 val
  failIf (severity > LOG_SEVERITY_MAX) .badRecord
  let (msgLen, b) ← bufReadU16 b
  failIf (msgLen.toNat ≠ b.length) .badRecord
  failIf (g 0 = false) .oom
  let (msg, _) ← bufReadBytes msgLen.toNat b
  return ⟨severity, msgLen, msg⟩

/-- `dtl_keyref_parse`. -/
def keyrefParseIn (g : Grants) (val : Bytes) : Res Keyref := do
  let (slotId, b) ← bufReadU8 val
  let (labelLen, b) ← bufReadU8 b
  failIf (g 0 = false) .oom
  let (label, b) ← bufReadBytes labelLen.toNat b
  failIf (b.length ≠ 0) .badRecord
  return ⟨slotId, labelLen, label, 0⟩

/-- `dtl_config_read_str`, whose buffer is number `k`. -/
def configReadStrIn (g : Grants) (k : Nat) (b : Bytes) : Res (CStr × Bytes) := do
  let (slen, b) ← bufReadU8 b
  failIf (g k = false) .oom
  let (s, b) ← bufReadBytes slen.toNat b
  return (cstr s, b)

/-- The pair loop of `dtl_config_parse`, whose next string has buffer number `k`. -/
def configReadPairsIn (g : Grants) : Nat → Nat → Bytes → Res (List ConfigPair × Bytes)
  | _, 0, b => .ok ([], b)
  | k, n + 1, b => do
    let (key, b) ← configReadStrIn g k b
    let (value, b) ← configReadStrIn g (k + 1) b
    let (pairs, b) ← configReadPairsIn g (k + 2) n b
    return (⟨key, value⟩ :: pairs, b)

/-- `dtl_config_parse`. -/
def configParseIn (g : Grants) (val : Bytes) : Res Config := do
  let (pairCount, b) ← bufReadU8 val
  failIf (pairCount ≠ 0 ∧ g 0 = false) .oom
  let (pairs, b) ← configReadPairsIn g 1 pairCount.toNat b
  failIf (b.length ≠ 0) .badRecord
  return ⟨pairCount, pairs⟩

/-- `dtl_record_parse`; the parsers of the fixed-size records ask for nothing. -/
def recordParseIn (g : Grants) (tlv : Tlv) : Res Record :=
  if tlv.tag = REC_HEARTBEAT then Record.heartbeat <$> heartbeatParse tlv.val
  else if tlv.tag = REC_GEO then Record.geo <$> geoParse tlv.val
  else if tlv.tag = REC_BATTERY then Record.battery <$> batteryParse tlv.val
  else if tlv.tag = REC_NET then do
    let net ← netParse tlv.val
    failIf (net.ifaceId ≥ 250) .badRecord
    return .net net
  else if tlv.tag = REC_FIRMWARE then Record.firmware <$> firmwareParse tlv.val
  else if tlv.tag = REC_SENSOR then Record.sensor <$> sensorParseIn g tlv.val
  else if tlv.tag = REC_EVENT then Record.event <$> eventParseIn g tlv.val
  else if tlv.tag = REC_LOG then Record.log <$> logParseIn g tlv.val
  else if tlv.tag = REC_CONFIG then Record.config <$> configParseIn g tlv.val
  else if tlv.tag = REC_KEYREF then Record.keyref <$> keyrefParseIn g tlv.val
  else if tlv.tag = REC_DIAG then Record.diag <$> diagParseIn g tlv.val
  else .error .badRecord

/-! ## Against all buffers -/

section Degrades

variable (g : Grants)

/-- A request may stop a parse; it changes nothing else. -/
theorem degrades_request {α : Type} {p : Prop} [Decidable p] {x y : Res α}
    (h : Degrades .oom x y) : Degrades .oom (failIf p .oom >>= fun _ => x) y := by
  by_cases hp : p
  · rw [failIf_pos hp]
    exact Or.inl rfl
  · rw [failIf_neg hp]
    exact h

theorem sensorParseIn_degrades (val : Bytes) :
    Degrades .oom (sensorParseIn g val) (sensorParse val) := by
  refine (Degrades.refl _).bind fun p => (Degrades.refl _).bind fun q => (Degrades.refl _).bind fun _ => ?_
  exact degrades_request (.refl _)

theorem eventParseIn_degrades (val : Bytes) :
    Degrades .oom (eventParseIn g val) (eventParse val) := by
  refine (Degrades.refl _).bind fun p => (Degrades.refl _).bind fun q => (Degrades.refl _).bind fun _ => ?_
  exact degrades_request (.refl _)

theorem diagParseIn_degrades (val : Bytes) :
    Degrades .oom (diagParseIn g val) (diagParse val) := by
  refine (Degrades.refl _).bind fun p => (Degrades.refl _).bind fun q => (Degrades.refl _).bind fun _ => ?_
  exact degrades_request (.refl _)

theorem logParseIn_degrades (val : Bytes) : Degrades .oom (logParseIn g val) (logParse val) := by
  refine (Degrades.refl _).bind fun p => (Degrades.refl _).bind fun _ => ?_
  refine (Degrades.refl _).bind fun q => (Degrades.refl _).bind fun _ => ?_
  exact degrades_request (.refl _)

theorem keyrefParseIn_degrades (val : Bytes) :
    Degrades .oom (keyrefParseIn g val) (keyrefParse val) := by
  refine (Degrades.refl _).bind fun p => (Degrades.refl _).bind fun q => ?_
  exact degrades_request (.refl _)

theorem configReadStrIn_degrades (k : Nat) (b : Bytes) :
    Degrades .oom (configReadStrIn g k b) (configReadStr b) := by
  rw [configReadStr, configReadBytes, bind_assoc]
  exact (Degrades.refl _).bind fun p => degrades_request (.refl _)

theorem configReadPairsIn_degrades : ∀ (n k : Nat) (b : Bytes),
    Degrades .oom (configReadPairsIn g k n b) (readMany configReadPair n b)
  | 0, _, _ => .refl _
  | n + 1, k, b => by
    rw [configReadPairsIn, readMany, configReadPair, bind_assoc]
    refine (configReadStrIn_degrades g k b).bind fun p => ?_
    rw [bind_assoc]
    refine (configReadStrIn_degrades g (k + 1) p.2).bind fun q => ?_
    rw [pure_bind]
    exact (configReadPairsIn_degrades n (k + 2) q.2).bind fun _ => .refl _

theorem configParseIn_degrades (val : Bytes) :
    Degrades .oom (configParseIn g val) (configParse val) := by
  refine (Degrades.refl _).bind fun p => degrades_request ?_
  exact (configReadPairsIn_degrades g p.1.toNat 1 p.2).bind fun _ => .refl _

/-- **A parse ends as with all buffers, or with `DTL_ERR_OOM`.** -/
theorem recordParseIn_degrades (tlv : Tlv) :
    Degrades .oom (recordParseIn g tlv) (recordParse tlv) := by
  unfold recordParseIn recordParse
  iterate 5 refine Degrades.ite (.refl _) ?_
  refine Degrades.ite ((sensorParseIn_degrades g _).map _) ?_
  refine Degrades.ite ((eventParseIn_degrades g _).map _) ?_
  refine Degrades.ite ((logParseIn_degrades g _).map _) ?_
  refine Degrades.ite ((configParseIn_degrades g _).map _) ?_
  refine Degrades.ite ((keyrefParseIn_degrades g _).map _) ?_
  exact Degrades.ite ((diagParseIn_degrades g _).map _) (.refl _)

end Degrades

/-! ## All buffers -/

section Granted

variable {g : Grants} (hg : ∀ k, g k = true)

include hg

theorem configReadStrIn_granted (k : Nat) (b : Bytes) : configReadStrIn g k b = configReadStr b := by
  simp only [configReadStrIn, configReadStr, configReadBytes, hg, Bool.true_eq_false,
    failIf_neg not_false, Except.bind_ok_eq, bind_assoc]

theorem configReadPairsIn_granted : ∀ (n k : Nat) (b : Bytes),
    configReadPairsIn g k n b = readMany configReadPair n b
  | 0, _, _ => rfl
  | n + 1, k, b => by
    simp only [configReadPairsIn, readMany, configReadPair, configReadStrIn_granted hg,
      configReadPairsIn_granted n, bind_assoc, pure_bind]

/-- **With all buffers it is the plain parse.** -/
theorem recordParseIn_granted (tlv : Tlv) : recordParseIn g tlv = recordParse tlv := by
  simp only [recordParseIn, recordParse, sensorParseIn, sensorParse, eventParseIn, eventParse,
    logParseIn, logParse, configParseIn, configParse, keyrefParseIn, keyrefParse, diagParseIn,
    diagParse, configReadPairsIn_granted hg, hg, Bool.true_eq_false, and_false, failIf_neg not_false,
    Except.bind_ok_eq]

end Granted

end Dtl
