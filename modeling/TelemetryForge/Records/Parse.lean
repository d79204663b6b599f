import TelemetryForge.Records.Record

/-!
# Record parsers

Model of the eleven `dtl_*_parse` functions and of `dtl_record_parse`, with allocations that
succeed.

Principal results: `recordParse_payload` — the wire form of a well-formed record within the
parser's limits parses to that record; `recordParse_ok` — a parsed record is well-formed, within the
limits, and carries the item's tag; `recordParse_exact` — its wire form is the parsed payload, with
the strings of a `CONFIG` payload cut at their first NUL (`configCut`).
-/

set_option autoImplicit false

namespace Dtl

open PrefixCode

/-! ## Fixed-layout records -/

def HEARTBEAT_SIZE : Nat := 8
def GEO_SIZE : Nat := 12
def BATTERY_SIZE : Nat := 7
def NET_SIZE : Nat := 17
def FIRMWARE_SIZE : Nat := 14
def FIRMWARE_HASH_LEN : Nat := 8

/-- `dtl_heartbeat_parse`. -/
def heartbeatParse (val : Bytes) : Res Heartbeat := do
  failIf (val.length ≠ HEARTBEAT_SIZE) .badRecord
  let (uptimeS, b) ← bufReadU32 val
  let (seq, _) ← bufReadU32 b
  return ⟨uptimeS, seq⟩

/-- `dtl_geo_parse`. -/
def geoParse (val : Bytes) : Res Geo := do
  failIf (val.length ≠ GEO_SIZE) .badRecord
  let (lat, b) ← bufReadU32 val
  let (lon, b) ← bufReadU32 b
  let (alt, _) ← bufReadU32 b
  return ⟨lat.toInt32, lon.toInt32, alt.toInt32⟩

/-- `dtl_battery_parse`. -/
def batteryParse (val : Bytes) : Res Battery := do
  failIf (val.length ≠ BATTERY_SIZE) .badRecord
  let (pct, b) ← bufReadU8 val
  let (t, b) ← bufReadU16 b
  let (cycles, _) ← bufReadU32 b
  return ⟨pct, t.toInt16, cycles⟩

/-- `dtl_net_parse`. -/
def netParse (val : Bytes) : Res Net := do
  failIf (val.length ≠ NET_SIZE) .badRecord
  let (ifaceId, b) ← bufReadU8 val
  let (rxBytes, b) ← bufReadU32 b
  let (txBytes, b) ← bufReadU32 b
  let (rxPkts, b) ← bufReadU32 b
  let (txPkts, _) ← bufReadU32 b
  return ⟨ifaceId, rxBytes, txBytes, rxPkts, txPkts⟩

/-- The eight hash bytes, as the array the structure holds. -/
def firmwareReadHash (b : Bytes) : Res ({h : Bytes // h.length = 8} × Bytes) :=
  if h : FIRMWARE_HASH_LEN > b.length then .error .truncated
  else .ok (⟨b.take FIRMWARE_HASH_LEN, List.length_take_of_le (Nat.le_of_not_lt h)⟩,
    b.drop FIRMWARE_HASH_LEN)

/-- `dtl_firmware_parse`. -/
def firmwareParse (val : Bytes) : Res Firmware := do
  failIf (val.length ≠ FIRMWARE_SIZE) .badRecord
  let (major, b) ← bufReadU16 val
  let (minor, b) ← bufReadU16 b
  let (patch, b) ← bufReadU16 b
  let (hash, _) ← firmwareReadHash b
  return ⟨major, minor, patch, hash⟩

/-! ## Variable-length records -/

def SENSOR_SAMPLE_SIZE : Nat := 4
def LOG_SEVERITY_MAX : UInt8 := 7

/-- `dtl_sensor_parse`. -/
def sensorParse (val : Bytes) : Res Sensor := do
  let (sensorId, b) ← bufReadU16 val
  let (count, b) ← bufReadU8 b
  failIf (b.length ≠ count.toNat * SENSOR_SAMPLE_SIZE) .badRecord
  let (samples, _) ← readMany bufReadU32 count.toNat b
  return ⟨sensorId, count, samples⟩

/-- `dtl_event_parse`. -/
def eventParse (val : Bytes) : Res Event := do
  let (code, b) ← bufReadU16 val
  let (payloadLen, b) ← bufReadU16 b
  failIf (payloadLen.toNat ≠ b.length) .badRecord
  let (payload, _) ← bufReadBytes payloadLen.toNat b
  return ⟨code, payloadLen, payload⟩

/-- `dtl_diag_parse`. -/
def diagParse (val : Bytes) : Res Diag := do
  let (subsystem, b) ← bufReadU16 val
  let (blobLen, b) ← bufReadU16 b
  failIf (blobLen.toNat ≠ b.length) .badRecord
  let (blob, _) ← bufReadBytes blobLen.toNat b
  return ⟨subsystem, blobLen, blob, 0⟩

/-- `dtl_log_parse`. -/
def logParse (val : Bytes) : Res Log := do
  let (severity, b) ← bufReadU8 val
  failIf (severity > LOG_SEVERITY_MAX) .badRecord
  let (msgLen, b) ← bufReadU16 b
  failIf (msgLen.toNat ≠ b.length) .badRecord
  let (msg, _) ← bufReadBytes msgLen.toNat b
  return ⟨severity, msgLen, msg⟩

/-- `dtl_keyref_parse`. -/
def keyrefParse (val : Bytes) : Res Keyref := do
  let (slotId, b) ← bufReadU8 val
  let (labelLen, b) ← bufReadU8 b
  let (label, b) ← bufReadBytes labelLen.toNat b
  failIf (b.length ≠ 0) .badRecord
  return ⟨slotId, labelLen, label, 0⟩

/-- The length-prefixed bytes `dtl_config_read_str` copies. -/
def configReadBytes (b : Bytes) : Res (Bytes × Bytes) := do
  let (slen, b) ← bufReadU8 b
  bufReadBytes slen.toNat b

/-- `dtl_config_read_str`: the copy, terminated, is a C string. -/
def configReadStr (b : Bytes) : Res (CStr × Bytes) := do
  let (s, b) ← configReadBytes b
  return (cstr s, b)

/-- The loop body of `dtl_config_parse`. -/
def configReadPair (b : Bytes) : Res (ConfigPair × Bytes) := do
  let (key, b) ← configReadStr b
  let (value, b) ← configReadStr b
  return (⟨key, value⟩, b)

/-- `dtl_config_parse`. -/
def configParse (val : Bytes) : Res Config := do
  let (pairCount, b) ← bufReadU8 val
  let (pairs, b) ← readMany configReadPair pairCount.toNat b
  failIf (b.length ≠ 0) .badRecord
  return ⟨pairCount, pairs⟩

/-- `dtl_record_parse`. -/
def recordParse (tlv : Tlv) : Res Record :=
  if tlv.tag = REC_HEARTBEAT then Record.heartbeat <$> heartbeatParse tlv.val
  else if tlv.tag = REC_GEO then Record.geo <$> geoParse tlv.val
  else if tlv.tag = REC_BATTERY then Record.battery <$> batteryParse tlv.val
  else if tlv.tag = REC_NET then do
    let net ← netParse tlv.val
    -- interface ids from 250 on are reserved
    failIf (net.ifaceId ≥ 250) .badRecord
    return .net net
  else if tlv.tag = REC_FIRMWARE then Record.firmware <$> firmwareParse tlv.val
  else if tlv.tag = REC_SENSOR then Record.sensor <$> sensorParse tlv.val
  else if tlv.tag = REC_EVENT then Record.event <$> eventParse tlv.val
  else if tlv.tag = REC_LOG then Record.log <$> logParse tlv.val
  else if tlv.tag = REC_CONFIG then Record.config <$> configParse tlv.val
  else if tlv.tag = REC_KEYREF then Record.keyref <$> keyrefParse tlv.val
  else if tlv.tag = REC_DIAG then Record.diag <$> diagParse tlv.val
  else .error .badRecord

/-! ## Parsing a wire form -/

theorem map_ok {α β : Type} (f : α → β) (a : α) : (f <$> (Except.ok a : Res α)) = .ok (f a) := rfl

theorem map_eq_ok {α β : Type} {f : α → β} {x : Res α} {b : β} :
    f <$> x = .ok b ↔ ∃ a, x = .ok a ∧ f a = b := by
  cases x with
  | error e => simp [Functor.map, Except.map]
  | ok a => simp [Functor.map, Except.map]

theorem bufReadU32_write_nil (v : UInt32) :
    bufReadU32 (endianWriteU32le v) = .ok (v, []) := by
  have h := bufReadU32_write v []
  rwa [List.append_nil] at h

theorem not_ne_self {α : Type} (a : α) : ¬ a ≠ a := fun h => h rfl

theorem heartbeatParse_payload (s : Slack) (r : Heartbeat) :
    heartbeatParse ((Record.heartbeat r).payload s) = .ok r := by
  have hlen : ¬ ((Record.heartbeat r).payload s).length ≠ HEARTBEAT_SIZE := not_ne_self _
  rw [heartbeatParse, failIf_neg hlen]
  simp only [Record.payload, bufReadU32_write,
    bufReadU32_write_nil, Except.bind_ok_eq, Except.pure_eq_ok]

theorem geoParse_payload (s : Slack) (r : Geo) :
    geoParse ((Record.geo r).payload s) = .ok r := by
  have hlen : ¬ ((Record.geo r).payload s).length ≠ GEO_SIZE := not_ne_self _
  rw [geoParse, failIf_neg hlen]
  simp only [Record.payload, bufReadU32_write,
    bufReadU32_write_nil, Except.bind_ok_eq, Except.pure_eq_ok, Int32.toInt32_toUInt32]

theorem batteryParse_payload (s : Slack) (r : Battery) :
    batteryParse ((Record.battery r).payload s) = .ok r := by
  have hlen : ¬ ((Record.battery r).payload s).length ≠ BATTERY_SIZE := not_ne_self _
  rw [batteryParse, failIf_neg hlen]
  simp only [Record.payload, bufReadU8_cons, bufReadU16_write,
    bufReadU32_write_nil, Except.bind_ok_eq, Except.pure_eq_ok, Int16.toInt16_toUInt16]

theorem netParse_payload (s : Slack) (r : Net) :
    netParse ((Record.net r).payload s) = .ok r := by
  have hlen : ¬ ((Record.net r).payload s).length ≠ NET_SIZE := not_ne_self _
  rw [netParse, failIf_neg hlen]
  simp only [Record.payload, bufReadU8_cons, bufReadU32_write,
    bufReadU32_write_nil, Except.bind_ok_eq, Except.pure_eq_ok]

theorem firmwareReadHash_self (h : {b : Bytes // b.length = 8}) :
    firmwareReadHash h.val = .ok (h, []) := by
  have hle : ¬ FIRMWARE_HASH_LEN > h.val.length := by rw [h.property]; decide
  rw [firmwareReadHash, dif_neg hle]
  congr 2
  · exact Subtype.ext (List.take_of_length_le (by rw [h.property]; decide))
  · exact List.drop_eq_nil_of_le (by rw [h.property]; decide)

theorem firmwareParse_payload (s : Slack) (r : Firmware) :
    firmwareParse ((Record.firmware r).payload s) = .ok r := by
  have hlen : ¬ ((Record.firmware r).payload s).length ≠ FIRMWARE_SIZE := by
    have := r.hash.property
    simp [Record.payload, FIRMWARE_SIZE, this]
  rw [firmwareParse, failIf_neg hlen]
  simp only [Record.payload, bufReadU16_write,
    firmwareReadHash_self, Except.bind_ok_eq, Except.pure_eq_ok]

theorem flatMap_u32_length (ws : List UInt32) : (ws.flatMap endianWriteU32le).length =
    ws.length * SENSOR_SAMPLE_SIZE := by
  induction ws with
  | nil => rfl
  | cons w ws ih =>
    rw [List.flatMap_cons, List.length_append, ih, List.length_cons, endianWriteU32le_length,
      SENSOR_SAMPLE_SIZE]
    omega

theorem sensorParse_payload (s : Slack) (r : Sensor) (h : r.samples.length = r.count.toNat) :
    sensorParse ((Record.sensor r).payload s) = .ok r := by
  have hlen : ¬ (r.samples.flatMap endianWriteU32le).length ≠ r.count.toNat * SENSOR_SAMPLE_SIZE := by
    rw [flatMap_u32_length, h]; exact not_ne_self _
  have hread := readMany_inverts bufReadU32_inverts r.samples [] (fun _ _ => trivial)
  rw [List.append_nil, h] at hread
  simp only [sensorParse, Record.payload, readN_all _ h, bufReadU16_write, bufReadU8_cons,
    Except.bind_ok_eq, failIf_neg hlen, hread, Except.pure_eq_ok]

theorem bufReadBytes_all {b : Bytes} {n : Nat} (h : b.length = n) :
    bufReadBytes n b = .ok (b, []) := by
  have hread := bufReadBytes_append b []
  rwa [List.append_nil, h] at hread

theorem eventParse_payload (s : Slack) (r : Event) (h : r.payload.length = r.payloadLen.toNat) :
    eventParse ((Record.event r).payload s) = .ok r := by
  have hlen : ¬ r.payloadLen.toNat ≠ r.payload.length := by rw [h]; exact not_ne_self _
  simp only [eventParse, Record.payload, readN_all _ h, bufReadU16_write, Except.bind_ok_eq,
    failIf_neg hlen, bufReadBytes_all h, Except.pure_eq_ok]

theorem diagParse_payload (s : Slack) (r : Diag) (h : r.blob.length = r.blobLen.toNat)
    (h0 : r.redacted = 0) : diagParse ((Record.diag r).payload s) = .ok r := by
  have hlen : ¬ r.blobLen.toNat ≠ r.blob.length := by rw [h]; exact not_ne_self _
  simp only [diagParse, Record.payload, readN_all _ h, bufReadU16_write, Except.bind_ok_eq,
    failIf_neg hlen, bufReadBytes_all h, Except.pure_eq_ok, ← h0]

theorem logParse_payload (s : Slack) (r : Log) (h : r.msg.length = r.msgLen.toNat)
    (hsev : r.severity ≤ 7) : logParse ((Record.log r).payload s) = .ok r := by
  have hlen : ¬ r.msgLen.toNat ≠ r.msg.length := by rw [h]; exact not_ne_self _
  have hmax : ¬ r.severity > LOG_SEVERITY_MAX := UInt8.not_lt.mpr hsev
  simp only [logParse, Record.payload, readN_all _ h, bufReadU8_cons, bufReadU16_write,
    Except.bind_ok_eq, failIf_neg hmax, failIf_neg hlen, bufReadBytes_all h, Except.pure_eq_ok]

theorem keyrefParse_payload (s : Slack) (r : Keyref) (h : r.label.length = r.labelLen.toNat)
    (h0 : r.redacted = 0) : keyrefParse ((Record.keyref r).payload s) = .ok r := by
  have hend : ¬ ([] : Bytes).length ≠ 0 := not_ne_self _
  simp only [keyrefParse, Record.payload, readN_all _ h, bufReadU8_cons, Except.bind_ok_eq,
    bufReadBytes_all h, failIf_neg hend, Except.pure_eq_ok, ← h0]

theorem configReadBytes_inverts :
    Inverts configReadBytes (fun b => UInt8.ofNat b.length :: b) (fun b => b.length ≤ 255) := by
  intro b r hb
  have hlen : (UInt8.ofNat b.length).toNat = b.length := by rw [UInt8.toNat_ofNat']; omega
  simp only [configReadBytes, List.cons_append, bufReadU8_cons, Except.bind_ok_eq, hlen,
    bufReadBytes_append]

theorem configReadStr_inverts :
    Inverts configReadStr encodeConfigStr (fun s => s.val.length ≤ 255) := by
  intro s r hs
  simp only [configReadStr, encodeConfigStr, configReadBytes_inverts s.val r hs, Except.bind_ok_eq,
    cstr_val, Except.pure_eq_ok]

theorem configReadPair_inverts : Inverts configReadPair encodeConfigPair
    (fun p => p.key.val.length ≤ 255 ∧ p.value.val.length ≤ 255) := by
  intro p r hp
  simp only [configReadPair, encodeConfigPair, List.append_assoc,
    configReadStr_inverts p.key _ hp.1, configReadStr_inverts p.value _ hp.2, Except.bind_ok_eq,
    Except.pure_eq_ok]

theorem configParse_payload (s : Slack) (r : Config) (h : r.pairs.length = r.pairCount.toNat)
    (hp : ∀ p ∈ r.pairs, p.key.val.length ≤ 255 ∧ p.value.val.length ≤ 255) :
    configParse ((Record.config r).payload s) = .ok r := by
  have hread := readMany_inverts configReadPair_inverts r.pairs [] hp
  rw [List.append_nil, h] at hread
  have hend : ¬ ([] : Bytes).length ≠ 0 := not_ne_self _
  simp only [configParse, Record.payload, readN_all _ h, bufReadU8_cons, Except.bind_ok_eq, hread,
    failIf_neg hend, Except.pure_eq_ok]

/-- **The wire form of a record within the parser's limits parses to that record.** -/
theorem recordParse_payload (s : Slack) (rec : Record) (hw : rec.WellFormed) (hl : rec.InLimits) :
    recordParse ⟨rec.tag, rec.payload s⟩ = .ok rec := by
  cases rec with
  | heartbeat r => exact congrArg (Record.heartbeat <$> ·) (heartbeatParse_payload s r)
  | geo r => exact congrArg (Record.geo <$> ·) (geoParse_payload s r)
  | battery r => exact congrArg (Record.battery <$> ·) (batteryParse_payload s r)
  | net r =>
    have hid : ¬ r.ifaceId ≥ 250 := UInt8.not_le.mpr hl
    show (netParse ((Record.net r).payload s) >>= fun net => _) = _
    rw [netParse_payload, Except.bind_ok_eq, failIf_neg hid]
    rfl
  | firmware r => exact congrArg (Record.firmware <$> ·) (firmwareParse_payload s r)
  | sensor r => exact congrArg (Record.sensor <$> ·) (sensorParse_payload s r hw)
  | event r => exact congrArg (Record.event <$> ·) (eventParse_payload s r hw)
  | log r => exact congrArg (Record.log <$> ·) (logParse_payload s r hw hl)
  | config r => exact congrArg (Record.config <$> ·) (configParse_payload s r hw hl)
  | keyref r => exact congrArg (Record.keyref <$> ·) (keyrefParse_payload s r hw hl)
  | diag r => exact congrArg (Record.diag <$> ·) (diagParse_payload s r hw hl)
  | other t ht => exact hw.elim

/-! ## Parsed records and the payloads they come from -/

theorem heartbeatParse_ok {val : Bytes} {r : Heartbeat} (s : Slack)
    (h : heartbeatParse val = .ok r) : (Record.heartbeat r).payload s = val := by
  simp only [heartbeatParse, Except.bind_eq_ok, failIf_eq_ok, Except.pure_eq_ok,
    Except.ok.injEq] at h
  obtain ⟨_, hlen, ⟨u, b₁⟩, h1, ⟨q, b₂⟩, h2, rfl⟩ := h
  dsimp only at *
  have e1 := bufReadU32_exact _ _ _ h1
  have e2 := bufReadU32_exact _ _ _ h2
  subst e1 e2
  have hb : b₂ = [] := by
    simp only [HEARTBEAT_SIZE, ne_eq, not_not, List.length_append, endianWriteU32le_length] at hlen
    exact List.length_eq_zero_iff.mp (by omega)
  simp [Record.payload, hb]

theorem geoParse_ok {val : Bytes} {r : Geo} (s : Slack) (h : geoParse val = .ok r) :
    (Record.geo r).payload s = val := by
  simp only [geoParse, Except.bind_eq_ok, failIf_eq_ok, Except.pure_eq_ok, Except.ok.injEq] at h
  obtain ⟨_, hlen, ⟨u, b₁⟩, h1, ⟨v, b₂⟩, h2, ⟨w, b₃⟩, h3, rfl⟩ := h
  dsimp only at *
  have e1 := bufReadU32_exact _ _ _ h1
  have e2 := bufReadU32_exact _ _ _ h2
  have e3 := bufReadU32_exact _ _ _ h3
  subst e1 e2 e3
  have hb : b₃ = [] := by
    simp only [GEO_SIZE, ne_eq, not_not, List.length_append, endianWriteU32le_length] at hlen
    exact List.length_eq_zero_iff.mp (by omega)
  simp [Record.payload, hb, UInt32.toUInt32_toInt32]

theorem batteryParse_ok {val : Bytes} {r : Battery} (s : Slack) (h : batteryParse val = .ok r) :
    (Record.battery r).payload s = val := by
  simp only [batteryParse, Except.bind_eq_ok, failIf_eq_ok, Except.pure_eq_ok, Except.ok.injEq] at h
  obtain ⟨_, hlen, ⟨u, b₁⟩, h1, ⟨v, b₂⟩, h2, ⟨w, b₃⟩, h3, rfl⟩ := h
  dsimp only at *
  have e1 := bufReadU8_exact _ _ _ h1
  have e2 := bufReadU16_exact _ _ _ h2
  have e3 := bufReadU32_exact _ _ _ h3
  subst e1 e2 e3
  have hb : b₃ = [] := by
    simp only [BATTERY_SIZE, ne_eq, not_not, List.length_append, endianWriteU32le_length,
      endianWriteU16le_length, List.length_singleton] at hlen
    exact List.length_eq_zero_iff.mp (by omega)
  simp [Record.payload, hb, UInt16.toUInt16_toInt16]

theorem netParse_ok {val : Bytes} {r : Net} (s : Slack) (h : netParse val = .ok r) :
    (Record.net r).payload s = val := by
  simp only [netParse, Except.bind_eq_ok, failIf_eq_ok, Except.pure_eq_ok, Except.ok.injEq] at h
  obtain ⟨_, hlen, ⟨u, b₁⟩, h1, ⟨v, b₂⟩, h2, ⟨w, b₃⟩, h3, ⟨x, b₄⟩, h4, ⟨y, b₅⟩, h5, rfl⟩ := h
  dsimp only at *
  have e1 := bufReadU8_exact _ _ _ h1
  have e2 := bufReadU32_exact _ _ _ h2
  have e3 := bufReadU32_exact _ _ _ h3
  have e4 := bufReadU32_exact _ _ _ h4
  have e5 := bufReadU32_exact _ _ _ h5
  subst e1 e2 e3 e4 e5
  have hb : b₅ = [] := by
    simp only [NET_SIZE, ne_eq, not_not, List.length_append, endianWriteU32le_length,
      List.length_singleton] at hlen
    exact List.length_eq_zero_iff.mp (by omega)
  simp [Record.payload, hb]

theorem firmwareReadHash_ok {b r : Bytes} {x : {h : Bytes // h.length = 8}}
    (h : firmwareReadHash b = .ok (x, r)) : b = x.val ++ r := by
  unfold firmwareReadHash at h
  split at h
  · cases h
  · cases h
    exact (List.take_append_drop _ b).symm

theorem firmwareParse_ok {val : Bytes} {r : Firmware} (s : Slack) (h : firmwareParse val = .ok r) :
    (Record.firmware r).payload s = val := by
  simp only [firmwareParse, Except.bind_eq_ok, failIf_eq_ok, Except.pure_eq_ok,
    Except.ok.injEq] at h
  obtain ⟨_, hlen, ⟨u, b₁⟩, h1, ⟨v, b₂⟩, h2, ⟨w, b₃⟩, h3, ⟨x, b₄⟩, h4, rfl⟩ := h
  dsimp only at *
  have e1 := bufReadU16_exact _ _ _ h1
  have e2 := bufReadU16_exact _ _ _ h2
  have e3 := bufReadU16_exact _ _ _ h3
  have e4 := firmwareReadHash_ok h4
  have hx := x.property
  subst e1 e2 e3 e4
  have hb : b₄ = [] := by
    simp only [FIRMWARE_SIZE, ne_eq, not_not, List.length_append, endianWriteU16le_length,
      hx] at hlen
    exact List.length_eq_zero_iff.mp (by omega)
  simp [Record.payload, hb]

theorem sensorParse_ok {val : Bytes} {r : Sensor} (s : Slack) (h : sensorParse val = .ok r) :
    (Record.sensor r).payload s = val ∧ r.samples.length = r.count.toNat := by
  simp only [sensorParse, Except.bind_eq_ok, failIf_eq_ok, Except.pure_eq_ok, Except.ok.injEq] at h
  obtain ⟨⟨u, b₁⟩, h1, ⟨v, b₂⟩, h2, _, hlen, ⟨ws, b₃⟩, h3, rfl⟩ := h
  dsimp only at *
  have e1 := bufReadU16_exact _ _ _ h1
  have e2 := bufReadU8_exact _ _ _ h2
  obtain ⟨hn, e3⟩ := readMany_exact bufReadU32_exact h3
  subst e1 e2 e3
  have hb : b₃ = [] := by
    simp only [ne_eq, not_not, List.length_append, flatMap_u32_length, hn] at hlen
    exact List.length_eq_zero_iff.mp (by omega)
  refine ⟨?_, hn⟩
  simp only [Record.payload, readN_all _ hn, hb, List.append_nil, List.cons_append, List.nil_append]

theorem bufReadBytes_rest {n : Nat} {b v r : Bytes} (h : bufReadBytes n b = .ok (v, r))
    (hn : ¬ n ≠ b.length) : b = v ∧ v.length = n := by
  obtain ⟨rfl, hv⟩ := bufReadBytes_ok h
  have hr : r = [] := by
    rw [not_ne_iff, List.length_append] at hn
    exact List.length_eq_zero_iff.mp (by omega)
  rw [hr, List.append_nil]
  exact ⟨rfl, hv⟩

theorem eventParse_ok {val : Bytes} {r : Event} (s : Slack) (h : eventParse val = .ok r) :
    (Record.event r).payload s = val ∧ r.payload.length = r.payloadLen.toNat := by
  simp only [eventParse, Except.bind_eq_ok, failIf_eq_ok, Except.pure_eq_ok, Except.ok.injEq] at h
  obtain ⟨⟨u, b₁⟩, h1, ⟨v, b₂⟩, h2, _, hlen, ⟨p, b₃⟩, h3, rfl⟩ := h
  dsimp only at *
  obtain ⟨rfl, hp⟩ := bufReadBytes_rest h3 hlen
  have e1 := bufReadU16_exact _ _ _ h1
  have e2 := bufReadU16_exact _ _ _ h2
  subst e1 e2
  exact ⟨by simp only [Record.payload, readN_all _ hp], hp⟩

theorem diagParse_ok {val : Bytes} {r : Diag} (s : Slack) (h : diagParse val = .ok r) :
    (Record.diag r).payload s = val ∧ r.blob.length = r.blobLen.toNat ∧ r.redacted = 0 := by
  simp only [diagParse, Except.bind_eq_ok, failIf_eq_ok, Except.pure_eq_ok, Except.ok.injEq] at h
  obtain ⟨⟨u, b₁⟩, h1, ⟨v, b₂⟩, h2, _, hlen, ⟨p, b₃⟩, h3, rfl⟩ := h
  dsimp only at *
  obtain ⟨rfl, hp⟩ := bufReadBytes_rest h3 hlen
  have e1 := bufReadU16_exact _ _ _ h1
  have e2 := bufReadU16_exact _ _ _ h2
  subst e1 e2
  exact ⟨by simp only [Record.payload, readN_all _ hp], hp, rfl⟩

theorem logParse_ok {val : Bytes} {r : Log} (s : Slack) (h : logParse val = .ok r) :
    (Record.log r).payload s = val ∧ r.msg.length = r.msgLen.toNat ∧ r.severity ≤ 7 := by
  simp only [logParse, Except.bind_eq_ok, failIf_eq_ok, Except.pure_eq_ok, Except.ok.injEq] at h
  obtain ⟨⟨u, b₁⟩, h1, _, hsev, ⟨v, b₂⟩, h2, _, hlen, ⟨p, b₃⟩, h3, rfl⟩ := h
  dsimp only at *
  obtain ⟨rfl, hp⟩ := bufReadBytes_rest h3 hlen
  have e1 := bufReadU8_exact _ _ _ h1
  have e2 := bufReadU16_exact _ _ _ h2
  subst e1 e2
  exact ⟨by simp only [Record.payload, readN_all _ hp, List.cons_append, List.nil_append], hp,
    UInt8.not_lt.mp hsev⟩

theorem keyrefParse_ok {val : Bytes} {r : Keyref} (s : Slack) (h : keyrefParse val = .ok r) :
    (Record.keyref r).payload s = val ∧ r.label.length = r.labelLen.toNat ∧ r.redacted = 0 := by
  simp only [keyrefParse, Except.bind_eq_ok, failIf_eq_ok, Except.pure_eq_ok, Except.ok.injEq] at h
  obtain ⟨⟨u, b₁⟩, h1, ⟨v, b₂⟩, h2, ⟨p, b₃⟩, h3, _, hlen, rfl⟩ := h
  dsimp only at *
  obtain ⟨rfl, hp⟩ := bufReadBytes_ok h3
  have e1 := bufReadU8_exact _ _ _ h1
  have e2 := bufReadU8_exact _ _ _ h2
  subst e1 e2
  have hb : b₃ = [] := List.length_eq_zero_iff.mp (not_ne_iff.mp hlen)
  exact ⟨by simp [Record.payload, readN_all _ hp, hb], hp, rfl⟩

/-! ## CONFIG payloads -/

/-- The uncut strings of a pair, as they stand in the payload. -/
def configReadRaw (b : Bytes) : Res ((Bytes × Bytes) × Bytes) := do
  let (k, b) ← configReadBytes b
  let (v, b) ← configReadBytes b
  return ((k, v), b)

/-- The key and value strings a `CONFIG` payload spells out, terminators not yet looked for. -/
def configRaw (val : Bytes) : List (Bytes × Bytes) :=
  match (do let (n, b) ← bufReadU8 val; readMany configReadRaw n.toNat b) with
  | .ok (raws, _) => raws
  | .error _ => []

/-- No key or value of a `CONFIG` payload contains a NUL byte. -/
def ConfigNulFree (val : Bytes) : Prop :=
  ∀ p ∈ configRaw val, (0 : UInt8) ∉ p.1 ∧ (0 : UInt8) ∉ p.2

instance (val : Bytes) : Decidable (ConfigNulFree val) :=
  inferInstanceAs (Decidable (∀ p ∈ configRaw val, (0 : UInt8) ∉ p.1 ∧ (0 : UInt8) ∉ p.2))

/-- The in-memory form of a pair: both strings end at their first NUL. -/
def configCut (p : Bytes × Bytes) : ConfigPair := ⟨cstr p.1, cstr p.2⟩

def encodeRawPair (p : Bytes × Bytes) : Bytes :=
  (UInt8.ofNat p.1.length :: p.1) ++ (UInt8.ofNat p.2.length :: p.2)

theorem configReadBytes_ok {b s r : Bytes} (h : configReadBytes b = .ok (s, r)) :
    b = (UInt8.ofNat s.length :: s) ++ r ∧ s.length ≤ 255 := by
  simp only [configReadBytes, Except.bind_eq_ok] at h
  obtain ⟨⟨n, b₁⟩, h1, h2⟩ := h
  dsimp only at h2
  obtain ⟨rfl, hs⟩ := bufReadBytes_ok h2
  have e1 := bufReadU8_exact _ _ _ h1
  have hn := n.toNat_lt
  refine ⟨?_, by omega⟩
  rw [e1, hs, UInt8.ofNat_toNat]
  rfl

theorem configReadRaw_ok {b r : Bytes} {p : Bytes × Bytes} (h : configReadRaw b = .ok (p, r)) :
    b = encodeRawPair p ++ r ∧ p.1.length ≤ 255 ∧ p.2.length ≤ 255 := by
  simp only [configReadRaw, Except.bind_eq_ok, Except.pure_eq_ok, Except.ok.injEq,
    Prod.mk.injEq] at h
  obtain ⟨⟨k, b₁⟩, h1, ⟨v, b₂⟩, h2, rfl, rfl⟩ := h
  dsimp only at *
  obtain ⟨e1, hk⟩ := configReadBytes_ok h1
  obtain ⟨e2, hv⟩ := configReadBytes_ok h2
  refine ⟨?_, hk, hv⟩
  rw [e1, e2, encodeRawPair, List.append_assoc]

theorem configReadRaw_exact : Exact configReadRaw encodeRawPair := fun _ _ _ h => (configReadRaw_ok h).1

theorem configReadRaw_inverts : Inverts configReadRaw encodeRawPair
    (fun p => p.1.length ≤ 255 ∧ p.2.length ≤ 255) := by
  intro p r hp
  simp only [configReadRaw, encodeRawPair, List.append_assoc,
    configReadBytes_inverts p.1 _ hp.1, configReadBytes_inverts p.2 _ hp.2, Except.bind_ok_eq,
    Except.pure_eq_ok]

theorem configReadPair_eq (b : Bytes) :
    configReadPair b = (fun q => (configCut q.1, q.2)) <$> configReadRaw b := by
  unfold configReadPair configReadRaw configReadStr
  cases configReadBytes b with
  | error e => rfl
  | ok p =>
    cases h : configReadBytes p.2 with
    | error e => simp only [Except.bind_ok_eq, Except.pure_eq_ok, h]; rfl
    | ok q => simp only [Except.bind_ok_eq, Except.pure_eq_ok, h]; rfl

theorem readMany_configReadPair (n : Nat) (b : Bytes) : readMany configReadPair n b =
    (fun q => (q.1.map configCut, q.2)) <$> readMany configReadRaw n b := by
  induction n generalizing b with
  | zero => rfl
  | succ n ih =>
    simp only [readMany, configReadPair_eq]
    cases configReadRaw b with
    | error e => rfl
    | ok p =>
      simp only [map_ok, Except.bind_ok_eq, ih]
      cases readMany configReadRaw n p.2 with
      | error e => rfl
      | ok q => rfl

/-- A parsed `CONFIG` payload: its pairs are the spelled-out strings, cut at their first NUL. -/
theorem configParse_ok {val : Bytes} {r : Config} (h : configParse val = .ok r) :
    val = r.pairCount :: (configRaw val).flatMap encodeRawPair ∧
      r.pairs = (configRaw val).map configCut ∧ r.pairs.length = r.pairCount.toNat ∧
      ∀ p ∈ configRaw val, p.1.length ≤ 255 ∧ p.2.length ≤ 255 := by
  simp only [configParse, Except.bind_eq_ok, failIf_eq_ok, Except.pure_eq_ok, Except.ok.injEq,
    readMany_configReadPair, map_eq_ok] at h
  obtain ⟨⟨n, b₁⟩, h1, ⟨ps, b₂⟩, ⟨⟨raws, b₃⟩, h2, hmap⟩, _, hend, rfl⟩ := h
  simp only [Prod.mk.injEq] at hmap
  obtain ⟨rfl, rfl⟩ := hmap
  dsimp only at *
  obtain ⟨hlen, e2⟩ := readMany_exact configReadRaw_exact h2
  have e1 := bufReadU8_exact _ _ _ h1
  have hraw : configRaw val = raws := by
    unfold configRaw
    rw [h1, Except.bind_ok_eq]
    dsimp only
    rw [h2]
  have hb : b₃ = [] := List.length_eq_zero_iff.mp (not_ne_iff.mp hend)
  rw [hraw]
  refine ⟨by rw [e1, e2, hb]; simp, rfl, by rw [List.length_map, hlen], ?_⟩
  exact readMany_all (fun _ _ _ h => (configReadRaw_ok h).2) h2

/-- **A `CONFIG` record re-encodes to its payload exactly when no string contains a NUL.** -/
theorem configPayload_eq_iff {val : Bytes} {r : Config} (s : Slack) (h : configParse val = .ok r) :
    (Record.config r).payload s = val ↔ ConfigNulFree val := by
  obtain ⟨hval, hpairs, hcount, hlen⟩ := configParse_ok h
  have hpay : (Record.config r).payload s = r.pairCount ::
      ((configRaw val).map fun p => ((cstr p.1).val, (cstr p.2).val)).flatMap encodeRawPair := by
    simp only [Record.payload, readN_all _ hcount]
    rw [hpairs, List.flatMap_map, List.flatMap_map]
    rfl
  constructor
  · intro heq
    -- both strings of pairs have the same encoding, so they are the same pairs
    have henc : ((configRaw val).map fun p => ((cstr p.1).val, (cstr p.2).val)).flatMap
        encodeRawPair = (configRaw val).flatMap encodeRawPair := by
      have := hpay.symm.trans (heq.trans hval)
      exact (List.cons.inj this).2
    have h1 := readMany_inverts configReadRaw_inverts (configRaw val) [] hlen
    have h2 := readMany_inverts configReadRaw_inverts
      ((configRaw val).map fun p => ((cstr p.1).val, (cstr p.2).val)) [] (by
        intro q hq
        obtain ⟨p, hp, rfl⟩ := List.mem_map.mp hq
        have := hlen p hp
        exact ⟨(cstr_length_le p.1).trans this.1, (cstr_length_le p.2).trans this.2⟩)
    rw [henc, List.length_map, h1, Except.ok.injEq, Prod.mk.injEq] at h2
    intro p hp
    have hfix := List.map_inj_left.mp (h2.1.symm.trans (List.map_id _).symm) p hp
    exact ⟨(cstr_eq_iff p.1).mp (congrArg Prod.fst hfix), (cstr_eq_iff p.2).mp (congrArg Prod.snd hfix)⟩
  · intro hfree
    have hfix : ((configRaw val).map fun p => ((cstr p.1).val, (cstr p.2).val)) = configRaw val :=
      (List.map_congr_left fun p hp => by
        rw [cstr_of_not_mem (hfree p hp).1, cstr_of_not_mem (hfree p hp).2]
        rfl).trans (List.map_id _)
    rw [hpay, hfix, ← hval]

/-! ## The dispatcher -/

/-- What `dtl_record_parse` accepts, by tag. -/
theorem recordParse_cases {t : Tlv} {rec : Record} (h : recordParse t = .ok rec) :
    rec.tag = t.tag ∧
    match rec with
    | .heartbeat r => heartbeatParse t.val = .ok r
    | .geo r => geoParse t.val = .ok r
    | .battery r => batteryParse t.val = .ok r
    | .net r => netParse t.val = .ok r ∧ r.ifaceId < 250
    | .firmware r => firmwareParse t.val = .ok r
    | .sensor r => sensorParse t.val = .ok r
    | .event r => eventParse t.val = .ok r
    | .log r => logParse t.val = .ok r
    | .config r => configParse t.val = .ok r
    | .keyref r => keyrefParse t.val = .ok r
    | .diag r => diagParse t.val = .ok r
    | .other _ _ => False := by
  have key : ∀ {α : Type} {f : α → Record} {x : Res α}, f <$> x = .ok rec →
      ∃ a, x = .ok a ∧ rec = f a := fun hx => by
    obtain ⟨a, h1, h2⟩ := map_eq_ok.mp hx
    exact ⟨a, h1, h2.symm⟩
  unfold recordParse at h
  refine branch_ok h (fun (ht : t.tag = REC_HEARTBEAT) h => ?_) fun h => ?_
  · obtain ⟨r, hr, rfl⟩ := key h
    exact ⟨ht.symm, hr⟩
  refine branch_ok h (fun (ht : t.tag = REC_GEO) h => ?_) fun h => ?_
  · obtain ⟨r, hr, rfl⟩ := key h
    exact ⟨ht.symm, hr⟩
  refine branch_ok h (fun (ht : t.tag = REC_BATTERY) h => ?_) fun h => ?_
  · obtain ⟨r, hr, rfl⟩ := key h
    exact ⟨ht.symm, hr⟩
  refine branch_ok h (fun (ht : t.tag = REC_NET) h => ?_) fun h => ?_
  · simp only [Except.bind_eq_ok, failIf_eq_ok, Except.pure_eq_ok, Except.ok.injEq] at h
    obtain ⟨r, hr, _, hid, rfl⟩ := h
    exact ⟨ht.symm, hr, UInt8.not_le.mp hid⟩
  refine branch_ok h (fun (ht : t.tag = REC_FIRMWARE) h => ?_) fun h => ?_
  · obtain ⟨r, hr, rfl⟩ := key h
    exact ⟨ht.symm, hr⟩
  refine branch_ok h (fun (ht : t.tag = REC_SENSOR) h => ?_) fun h => ?_
  · obtain ⟨r, hr, rfl⟩ := key h
    exact ⟨ht.symm, hr⟩
  refine branch_ok h (fun (ht : t.tag = REC_EVENT) h => ?_) fun h => ?_
  · obtain ⟨r, hr, rfl⟩ := key h
    exact ⟨ht.symm, hr⟩
  refine branch_ok h (fun (ht : t.tag = REC_LOG) h => ?_) fun h => ?_
  · obtain ⟨r, hr, rfl⟩ := key h
    exact ⟨ht.symm, hr⟩
  refine branch_ok h (fun (ht : t.tag = REC_CONFIG) h => ?_) fun h => ?_
  · obtain ⟨r, hr, rfl⟩ := key h
    exact ⟨ht.symm, hr⟩
  refine branch_ok h (fun (ht : t.tag = REC_KEYREF) h => ?_) fun h => ?_
  · obtain ⟨r, hr, rfl⟩ := key h
    exact ⟨ht.symm, hr⟩
  refine branch_ok h (fun (ht : t.tag = REC_DIAG) h => ?_) fun h => ?_
  · obtain ⟨r, hr, rfl⟩ := key h
    exact ⟨ht.symm, hr⟩
  cases h

theorem recordParse_tag {t : Tlv} {rec : Record} (h : recordParse t = .ok rec) : rec.tag = t.tag :=
  (recordParse_cases h).1

/-- **A parsed record is well-formed and within the parser's limits.** -/
theorem recordParse_ok {t : Tlv} {rec : Record} (h : recordParse t = .ok rec) :
    rec.WellFormed ∧ rec.InLimits := by
  have slack : Slack := ⟨fun _ => 0, fun _ => 0, fun _ => ⟨cstr [], cstr []⟩⟩
  have hc := (recordParse_cases h).2
  cases rec with
  | heartbeat r => exact ⟨trivial, trivial⟩
  | geo r => exact ⟨trivial, trivial⟩
  | battery r => exact ⟨trivial, trivial⟩
  | net r => exact ⟨trivial, hc.2⟩
  | firmware r => exact ⟨trivial, trivial⟩
  | sensor r => exact ⟨(sensorParse_ok slack hc).2, trivial⟩
  | event r => exact ⟨(eventParse_ok slack hc).2, trivial⟩
  | log r => exact (logParse_ok slack hc).2
  | keyref r => exact (keyrefParse_ok slack hc).2
  | diag r => exact (diagParse_ok slack hc).2
  | other t ht => exact hc.elim
  | config r =>
    obtain ⟨-, hpairs, hcount, hlen⟩ := configParse_ok hc
    refine ⟨hcount, ?_⟩
    intro p hp
    rw [hpairs] at hp
    obtain ⟨q, hq, rfl⟩ := List.mem_map.mp hp
    have := hlen q hq
    exact ⟨(cstr_length_le q.1).trans this.1, (cstr_length_le q.2).trans this.2⟩

/-- **The wire form of a parsed record is its payload**, unless a `CONFIG` string contains a
NUL. -/
theorem recordParse_exact {t : Tlv} {rec : Record} (s : Slack) (h : recordParse t = .ok rec) :
    rec.payload s = t.val ↔ (t.tag = REC_CONFIG → ConfigNulFree t.val) := by
  obtain ⟨htag, hc⟩ := recordParse_cases h
  have other : ∀ tag : UInt8, tag = t.tag → tag ≠ REC_CONFIG → rec.payload s = t.val →
      (rec.payload s = t.val ↔ (t.tag = REC_CONFIG → ConfigNulFree t.val)) :=
    fun _ ht hne hp => ⟨fun _ he => absurd (ht.trans he) hne, fun _ => hp⟩
  cases rec with
  | heartbeat r => exact other REC_HEARTBEAT htag (by decide) (heartbeatParse_ok s hc)
  | geo r => exact other REC_GEO htag (by decide) (geoParse_ok s hc)
  | battery r => exact other REC_BATTERY htag (by decide) (batteryParse_ok s hc)
  | net r => exact other REC_NET htag (by decide) (netParse_ok s hc.1)
  | firmware r => exact other REC_FIRMWARE htag (by decide) (firmwareParse_ok s hc)
  | sensor r => exact other REC_SENSOR htag (by decide) (sensorParse_ok s hc).1
  | event r => exact other REC_EVENT htag (by decide) (eventParse_ok s hc).1
  | log r => exact other REC_LOG htag (by decide) (logParse_ok s hc).1
  | keyref r => exact other REC_KEYREF htag (by decide) (keyrefParse_ok s hc).1
  | diag r => exact other REC_DIAG htag (by decide) (diagParse_ok s hc).1
  | other t ht => exact hc.elim
  | config r =>
    rw [configPayload_eq_iff s hc]
    exact ⟨fun hf _ => hf, fun hf => hf htag.symm⟩

end Dtl
