import TelemetryForge.Report.ImportWalk

/-!
# Imported integers

Every integer of an imported record that does not count the bytes of a text is read from the decimal
text of a column, of a member, or of a part of a version.  `csvIntTexts` and `jsonIntTexts` list these
texts with the integers they denote, `Record.columnInts` and `Record.memberInts` the fields they are
read into.

Principal result: `import_exact_iff` — the integers of a record that was imported are those of its
texts if and only if no text denotes one that its reader wraps.
-/

set_option autoImplicit false

namespace Dtl

open CText

/-! ## Texts and readers -/

/-- The readers of integers: `dtl_field_u32` and `dtl_json_u32`, `dtl_field_i32` and `dtl_json_i32`,
and the `%u` conversions of a version. -/
inductive IntKind where
  | unsigned
  | signed
  | version
  deriving DecidableEq

/-- The integers that a reader does not wrap.  An unsigned number of more than 32 bits is refused. -/
def IntKind.Keeps : IntKind → Int → Prop
  | .unsigned, i => 0 ≤ i
  | .signed, i => -2 ^ 31 ≤ i ∧ i < 2 ^ 31
  | .version, i => 0 ≤ i ∧ i < 2 ^ 32

/-- A text that an integer is read from: its reader and the integer that it denotes. -/
structure IntText where
  kind : IntKind
  denotes : Option Int
  deriving DecidableEq

namespace IntText

/-- The text does not denote an integer that its reader wraps. -/
def Keeps (t : IntText) : Prop := ∀ i, t.denotes = some i → t.kind.Keeps i

/-- The text denotes the value. -/
def Exact (t : IntText) (v : Int) : Prop := t.denotes = some v

/-- The value is what the reader makes of the text. -/
def Reads (t : IntText) (v : Int) : Prop := ∃ i, t.denotes = some i ∧ (i = v ↔ t.kind.Keeps i)

theorem Reads.exact_iff {t : IntText} {v : Int} (h : t.Reads v) : t.Exact v ↔ t.Keeps := by
  obtain ⟨i, hi, hiff⟩ := h
  simp [Exact, Keeps, hi, hiff]

/-- Values are exact if and only if none of their texts is wrapped. -/
theorem exact_iff {ts : List IntText} {vs : List Int} (h : List.Forall₂ Reads ts vs) :
    List.Forall₂ Exact ts vs ↔ ∀ t ∈ ts, t.Keeps := by
  induction h with
  | nil => simp
  | cons hread _ ih => rw [List.forall₂_cons, List.forall_mem_cons, hread.exact_iff, ih]

end IntText

theorem fieldU32_reads {f : Option Bytes} {v : UInt32} (h : f.bind fieldU32 = some v) :
    IntText.Reads ⟨.unsigned, f.bind denoted⟩ v.toNat := by
  obtain ⟨text, rfl, hread⟩ := Option.bind_eq_some_iff.mp h
  unfold fieldU32 at hread
  rw [strtoul_eq] at hread
  cases hs : scanDenoted text with
  | none => simp [hs] at hread
  | some p =>
    obtain ⟨i, rest⟩ := p
    cases rest with
    | cons c rest => simp [hs] at hread
    | nil =>
      rw [hs] at hread
      dsimp only [Option.map_some] at hread
      by_cases hbig : ulongOf i > 0xFFFFFFFF
      · rw [if_pos hbig] at hread
        cases hread
      · rw [if_neg hbig] at hread
        cases hread
        have hmax : ULONG_MAX = 2 ^ 64 - 1 := rfl
        have hv : (UInt32.ofNat (ulongOf i)).toNat = ulongOf i := UInt32.toNat_ofNat_of_lt' (by
          show ulongOf i < 2 ^ 32
          omega)
        refine ⟨i, by simp [denoted, hs], ?_⟩
        rw [hv, eq_comm]
        exact ulongOf_eq_iff (by omega)

theorem fieldI32_reads {f : Option Bytes} {v : Int32} (h : f.bind fieldI32 = some v) :
    IntText.Reads ⟨.signed, f.bind denoted⟩ v.toInt := by
  obtain ⟨text, rfl, hread⟩ := Option.bind_eq_some_iff.mp h
  unfold fieldI32 at hread
  rw [strtol_eq] at hread
  cases hs : scanDenoted text with
  | none => simp [hs] at hread
  | some p =>
    obtain ⟨i, rest⟩ := p
    cases rest with
    | cons c rest => simp [hs] at hread
    | nil =>
      rw [hs] at hread
      cases hread
      refine ⟨i, by simp [denoted, hs], ?_⟩
      constructor
      · intro heq
        rw [heq]
        exact ⟨Int32.le_toInt _, Int32.toInt_lt _⟩
      · rintro ⟨hlo, hhi⟩
        rw [longOf_eq ⟨by omega, by omega⟩, Int32.toInt_ofInt_of_le hlo hhi]

/-! ## Rows -/

/-- The columns of a row that integers are read from, for each tag. -/
def csvIntColumns : List (UInt8 × List (IntKind × Nat)) :=
  [(REC_HEARTBEAT, [(.unsigned, 2), (.unsigned, 3)]),
   (REC_GEO, [(.signed, 2), (.signed, 3), (.signed, 4)]),
   (REC_BATTERY, [(.unsigned, 2), (.signed, 3), (.unsigned, 4)]),
   (REC_NET, [(.unsigned, 2), (.unsigned, 3), (.unsigned, 4), (.unsigned, 5), (.unsigned, 6)]),
   (REC_FIRMWARE, [(.unsigned, 2), (.unsigned, 3), (.unsigned, 4)]),
   (REC_SENSOR, [(.unsigned, 2), (.unsigned, 3)]),
   (REC_EVENT, [(.unsigned, 2), (.unsigned, 3)]),
   (REC_LOG, [(.unsigned, 2)]),
   (REC_CONFIG, [(.unsigned, 2)]),
   (REC_KEYREF, [(.unsigned, 2)]),
   (REC_DIAG, [(.unsigned, 2), (.unsigned, 3)])]

/-- The texts of a row that integers are read from. -/
def csvIntTexts (row : List Bytes) : List IntText :=
  match row[1]?.bind importTag with
  | none => []
  | some tag => ((csvIntColumns.lookup tag).getD []).map fun c => ⟨c.1, row[c.2]?.bind denoted⟩

/-- The integers of a record that have columns, in their order.  The length of a text has none, and
the redaction flag, 0 after an import, is not read from the one that an export gives it. -/
def Record.columnInts : Record → List Int
  | .heartbeat r => [r.uptimeS.toNat, r.seq.toNat]
  | .geo r => [r.latE7.toInt, r.lonE7.toInt, r.altMm.toInt]
  | .battery r => [r.pct.toNat, r.tempCE1.toInt, r.cycles.toNat]
  | .net r => [r.ifaceId.toNat, r.rxBytes.toNat, r.txBytes.toNat, r.rxPkts.toNat, r.txPkts.toNat]
  | .firmware r => [r.major.toNat, r.minor.toNat, r.patch.toNat]
  | .sensor r => [r.sensorId.toNat, r.count.toNat]
  | .event r => [r.code.toNat, r.payloadLen.toNat]
  | .log r => [r.severity.toNat]
  | .config r => [r.pairCount.toNat]
  | .keyref r => [r.slotId.toNat]
  | .diag r => [r.subsystem.toNat, r.blobLen.toNat]
  | .other _ _ => []

theorem rowU_reads {row : List Bytes} {ix : Nat} {v : UInt32} (h : rowU row ix = .ok v) :
    IntText.Reads ⟨.unsigned, row[ix]?.bind denoted⟩ v.toNat := fieldU32_reads (orBad_eq_ok.mp h)

theorem rowI_reads {row : List Bytes} {ix : Nat} {v : Int32} (h : rowI row ix = .ok v) :
    IntText.Reads ⟨.signed, row[ix]?.bind denoted⟩ v.toInt := fieldI32_reads (orBad_eq_ok.mp h)

theorem toInt16_toInt {v : Int32} (hlo : ¬ v.toInt < -32768) (hhi : ¬ v.toInt > 32767) :
    v.toInt16.toInt = v.toInt := by
  rw [Int32.toInt_toInt16]
  exact Int.bmod_eq_of_le (by omega) (by omega)

theorem csvIntTexts_eq {row : List Bytes} {tag : UInt8} (h : row[1]?.bind importTag = some tag) :
    csvIntTexts row =
      ((csvIntColumns.lookup tag).getD []).map fun c => ⟨c.1, row[c.2]?.bind denoted⟩ := by
  rw [csvIntTexts, h]

/-- **What a row's integers are read from.** -/
theorem csvImportRow_reads {ft : FloatText} {row : List Bytes} {rec : Record}
    (h : csvImportRow ft row = .ok rec) :
    List.Forall₂ IntText.Reads (csvIntTexts row) rec.columnInts := by
  obtain ⟨tag, htag, h⟩ := csvImportRow_case h
  rw [csvIntTexts_eq htag]
  cases h with
  | heartbeat h =>
    obtain ⟨u0, u1, h0, h1, rfl⟩ := csvHeartbeat_ok h
    exact .cons (rowU_reads h0) (.cons (rowU_reads h1) .nil)
  | geo h =>
    obtain ⟨s0, s1, s2, h0, h1, h2, rfl⟩ := csvGeo_ok h
    exact .cons (rowI_reads h0) (.cons (rowI_reads h1) (.cons (rowI_reads h2) .nil))
  | battery h =>
    obtain ⟨u0, s0, u1, h0, h1, h2, hle, hlo, hhi, rfl⟩ := csvBattery_ok h
    rw [Record.columnInts, toUInt8_toNat hle, toInt16_toInt hlo hhi]
    exact .cons (rowU_reads h0) (.cons (rowI_reads h1) (.cons (rowU_reads h2) .nil))
  | net h =>
    obtain ⟨u0, u1, u2, u3, u4, h0, h1, h2, h3, h4, hle, rfl⟩ := csvNet_ok h
    rw [Record.columnInts, toUInt8_toNat hle]
    exact .cons (rowU_reads h0) (.cons (rowU_reads h1) (.cons (rowU_reads h2)
      (.cons (rowU_reads h3) (.cons (rowU_reads h4) .nil))))
  | firmware h =>
    obtain ⟨u0, u1, u2, hash, h0, h1, h2, hmj, hmi, hpa, rfl⟩ := csvFirmware_ok h
    rw [Record.columnInts, toUInt16_toNat hmj, toUInt16_toNat hmi, toUInt16_toNat hpa]
    exact .cons (rowU_reads h0) (.cons (rowU_reads h1) (.cons (rowU_reads h2) .nil))
  | sensor h =>
    obtain ⟨u0, u1, samples, h0, h1, hid, hcount, hlen, rfl⟩ := csvSensor_ok h
    have hn : samples.length ≤ 255 := by
      rw [UInt32.not_lt, UInt32.le_iff_toNat_le] at hcount
      exact hlen ▸ hcount.trans (by decide)
    rw [Record.columnInts, toUInt16_toNat hid, ← ofNat_length_u8 hn, hlen]
    exact .cons (rowU_reads h0) (.cons (rowU_reads h1) .nil)
  | event h =>
    obtain ⟨u0, u1, payload, h0, h1, hcode, hlen, -, rfl⟩ := csvEvent_ok h
    rw [Record.columnInts, toUInt16_toNat hcode, toUInt16_toNat hlen]
    exact .cons (rowU_reads h0) (.cons (rowU_reads h1) .nil)
  | log h =>
    obtain ⟨u0, msg, h0, hle, -, rfl⟩ := csvLog_ok h
    rw [Record.columnInts, toUInt8_toNat hle]
    exact .cons (rowU_reads h0) .nil
  | config h =>
    obtain ⟨u0, pairs, h0, hle, hpairs, rfl⟩ := csvConfig_ok h
    have hn : pairs.length ≤ 255 := by
      rw [UInt32.not_lt, UInt32.le_iff_toNat_le] at hle
      exact csvPairs_length hpairs ▸ hle.trans (by decide)
    rw [Record.columnInts, ← ofNat_length_u8 hn, csvPairs_length hpairs]
    exact .cons (rowU_reads h0) .nil
  | keyref h =>
    obtain ⟨u0, label, h0, hle, -, rfl⟩ := csvKeyref_ok h
    rw [Record.columnInts, toUInt8_toNat hle]
    exact .cons (rowU_reads h0) .nil
  | diag h =>
    obtain ⟨u0, u1, blob, h0, h1, hsub, hlen, -, rfl⟩ := csvDiag_ok h
    rw [Record.columnInts, toUInt16_toNat hsub, toUInt16_toNat hlen]
    exact .cons (rowU_reads h0) (.cons (rowU_reads h1) .nil)

/-! ## Objects -/

/-- The members of an object that integers are read from, for each tag. -/
def jsonIntMembers : List (UInt8 × List (IntKind × String)) :=
  [(REC_HEARTBEAT, [(.unsigned, "uptime_s"), (.unsigned, "seq")]),
   (REC_SENSOR, [(.unsigned, "sensor_id")]),
   (REC_EVENT, [(.unsigned, "code")]),
   (REC_DIAG, [(.unsigned, "subsystem")]),
   (REC_GEO, [(.signed, "lat_e7"), (.signed, "lon_e7"), (.signed, "alt_mm")]),
   (REC_BATTERY, [(.unsigned, "pct"), (.signed, "temp_c_e1"), (.unsigned, "cycles")]),
   (REC_NET, [(.unsigned, "iface_id"), (.unsigned, "rx_bytes"), (.unsigned, "tx_bytes"),
     (.unsigned, "rx_pkts"), (.unsigned, "tx_pkts")]),
   (REC_LOG, [(.unsigned, "severity")]),
   (REC_KEYREF, [(.unsigned, "slot_id")])]

/-- The text of a member that is a number. -/
def jsonNum (obj : Json) (key : String) : Option Bytes :=
  match jsonGet obj key with
  | some (.num text) => some text
  | _ => none

/-- The three integers that a version starts with. -/
def versionDenoted (ver : Bytes) : Option (Int × Int × Int) := do
  let (mj, p) ← scanDenoted ver
  let p ← scanDot p
  let (mi, p) ← scanDenoted p
  let p ← scanDot p
  let (pa, _) ← scanDenoted p
  return (mj, mi, pa)

/-- The parts of the version of a `FIRMWARE` object. -/
def versionTexts (obj : Json) : List IntText :=
  let parts := (jsonStr obj "version").bind fun ver => versionDenoted ver.val
  [⟨.version, parts.map (·.1)⟩, ⟨.version, parts.map (·.2.1)⟩, ⟨.version, parts.map (·.2.2)⟩]

/-- The texts of an object that integers are read from, the tag first. -/
def jsonIntTexts (obj : Json) : List IntText :=
  match jsonU32 obj "tag" with
  | none => []
  | some u =>
    ⟨.unsigned, (jsonNum obj "tag").bind denoted⟩ ::
      if u.toUInt8 = REC_FIRMWARE then versionTexts obj
      else ((jsonIntMembers.lookup u.toUInt8).getD []).map fun m =>
        ⟨m.1, (jsonNum obj m.2).bind denoted⟩

/-- The integers of a record that have members, behind the tag.  A length or count has none. -/
def Record.memberTail : Record → List Int
  | .heartbeat r => (Record.heartbeat r).columnInts
  | .geo r => (Record.geo r).columnInts
  | .battery r => (Record.battery r).columnInts
  | .net r => (Record.net r).columnInts
  | .firmware r => (Record.firmware r).columnInts
  | .sensor r => [(r.sensorId.toNat : Int)]
  | .event r => [(r.code.toNat : Int)]
  | .log r => (Record.log r).columnInts
  | .config _ => []
  | .keyref r => (Record.keyref r).columnInts
  | .diag r => [(r.subsystem.toNat : Int)]
  | .other _ _ => []

/-- The integers of a record that have members, the tag first. -/
def Record.memberInts (rec : Record) : List Int := rec.tag.toNat :: rec.memberTail

theorem jsonU32_eq (obj : Json) (key : String) :
    jsonU32 obj key = (jsonNum obj key).bind fieldU32 := by
  unfold jsonU32 jsonNum
  rcases jsonGet obj key with _ | (_ | _ | _ | _ | _ | _) <;> rfl

theorem jsonI32_eq (obj : Json) (key : String) :
    jsonI32 obj key = (jsonNum obj key).bind fieldI32 := by
  unfold jsonI32 jsonNum
  rcases jsonGet obj key with _ | (_ | _ | _ | _ | _ | _) <;> rfl

theorem jsonU32_reads {obj : Json} {key : String} {v : UInt32} (h : jsonU32 obj key = some v) :
    IntText.Reads ⟨.unsigned, (jsonNum obj key).bind denoted⟩ v.toNat :=
  fieldU32_reads (jsonU32_eq obj key ▸ h)

theorem jsonI32_reads {obj : Json} {key : String} {v : Int32} (h : jsonI32 obj key = some v) :
    IntText.Reads ⟨.signed, (jsonNum obj key).bind denoted⟩ v.toInt :=
  fieldI32_reads (jsonI32_eq obj key ▸ h)

theorem scanfU_denoted {s rest : Bytes} {n : Nat} (h : scanfU s = some (n, rest)) :
    ∃ i, scanDenoted s = some (i, rest) ∧ n = ulongOf i % 2 ^ 32 := by
  rw [scanfU, strtoul_eq, Option.map_map] at h
  obtain ⟨⟨i, rest'⟩, hi, heq⟩ := Option.map_eq_some_iff.mp h
  cases heq
  exact ⟨i, hi, rfl⟩

/-- The parts of a version are read from the integers that it denotes. -/
theorem scanVersion_denoted {ver : Bytes} {mj mi pa : Nat} (h : scanVersion ver = some (mj, mi, pa)) :
    ∃ i j k, versionDenoted ver = some (i, j, k) ∧ mj = ulongOf i % 2 ^ 32 ∧
      mi = ulongOf j % 2 ^ 32 ∧ pa = ulongOf k % 2 ^ 32 := by
  simp only [scanVersion, Option.bind_eq_bind, Option.bind_eq_some_iff, Option.pure_def,
    Option.some.injEq, Prod.mk.injEq, Prod.exists] at h
  obtain ⟨mj', p, hmj, q, hdot, mi', p', hmi, q', hdot', pa', p'', hpa, rfl, rfl, rfl⟩ := h
  obtain ⟨i, hi, rfl⟩ := scanfU_denoted hmj
  obtain ⟨j, hj, rfl⟩ := scanfU_denoted hmi
  obtain ⟨k, hk, rfl⟩ := scanfU_denoted hpa
  exact ⟨i, j, k, by simp [versionDenoted, hi, hdot, hj, hdot', hk], rfl, rfl, rfl⟩

theorem versionPart_reads {i : Int} {d : Option Int} (hd : d = some i)
    (hle : ¬ ulongOf i % 2 ^ 32 > 0xFFFF) :
    IntText.Reads ⟨.version, d⟩ (UInt16.ofNat (ulongOf i % 2 ^ 32)).toNat := by
  refine ⟨i, hd, ?_⟩
  have hn : (UInt16.ofNat (ulongOf i % 2 ^ 32)).toNat = ulongOf i % 2 ^ 32 := by
    rw [UInt16.toNat_ofNat']
    omega
  rw [hn, eq_comm]
  exact scanfU_eq_iff i

/-- The texts of an object with a tag. -/
theorem jsonIntTexts_eq {obj : Json} {tag : UInt8} (h : jsonU32 obj "tag" = some tag.toUInt32) :
    jsonIntTexts obj = ⟨.unsigned, (jsonNum obj "tag").bind denoted⟩ ::
      if tag = REC_FIRMWARE then versionTexts obj
      else ((jsonIntMembers.lookup tag).getD []).map fun m =>
        ⟨m.1, (jsonNum obj m.2).bind denoted⟩ := by
  simp [jsonIntTexts, h]

/-- **What an object's integers are read from.** -/
theorem jimportRecord_reads {ft : FloatText} {obj : Json} {rec : Record}
    (h : jimportRecord ft obj = .ok rec) :
    List.Forall₂ IntText.Reads (jsonIntTexts obj) rec.memberInts := by
  obtain ⟨tag, hu, h⟩ := jimportRecord_case h
  rw [jsonIntTexts_eq hu]
  have htag : IntText.Reads ⟨.unsigned, (jsonNum obj "tag").bind denoted⟩ tag.toNat := by
    have hread := jsonU32_reads hu
    rwa [UInt8.toNat_toUInt32] at hread
  cases h with
  | heartbeat h =>
    obtain ⟨u0, u1, h0, h1, rfl⟩ := jsonHeartbeat_ok h
    exact .cons htag (.cons (jsonU32_reads h0) (.cons (jsonU32_reads h1) .nil))
  | sensor h =>
    obtain ⟨u0, items, samples, h0, hid, -, -, -, rfl⟩ := jsonSensor_ok h
    rw [Record.memberInts, Record.memberTail, toUInt16_toNat hid]
    exact .cons htag (.cons (jsonU32_reads h0) .nil)
  | event h =>
    obtain ⟨u0, payload, h0, hcode, -, rfl⟩ := jsonEvent_ok h
    rw [Record.memberInts, Record.memberTail, toUInt16_toNat hcode]
    exact .cons htag (.cons (jsonU32_reads h0) .nil)
  | diag h =>
    obtain ⟨u0, redacted, blob, h0, -, hsub, -, rfl⟩ := jsonDiag_ok h
    rw [Record.memberInts, Record.memberTail, toUInt16_toNat hsub]
    exact .cons htag (.cons (jsonU32_reads h0) .nil)
  | geo h =>
    obtain ⟨s0, s1, s2, h0, h1, h2, rfl⟩ := jsonGeo_ok h
    exact .cons htag (.cons (jsonI32_reads h0) (.cons (jsonI32_reads h1)
      (.cons (jsonI32_reads h2) .nil)))
  | battery h =>
    obtain ⟨u0, s0, u1, h0, h1, h2, hle, hlo, hhi, rfl⟩ := jsonBattery_ok h
    rw [Record.memberInts, Record.memberTail, Record.columnInts, toUInt8_toNat hle,
      toInt16_toInt hlo hhi]
    exact .cons htag (.cons (jsonU32_reads h0) (.cons (jsonI32_reads h1)
      (.cons (jsonU32_reads h2) .nil)))
  | net h =>
    obtain ⟨u0, u1, u2, u3, u4, h0, h1, h2, h3, h4, hle, rfl⟩ := jsonNet_ok h
    rw [Record.memberInts, Record.memberTail, Record.columnInts, toUInt8_toNat hle]
    exact .cons htag (.cons (jsonU32_reads h0) (.cons (jsonU32_reads h1) (.cons (jsonU32_reads h2)
      (.cons (jsonU32_reads h3) (.cons (jsonU32_reads h4) .nil)))))
  | log h =>
    obtain ⟨u0, msg, h0, hle, -, rfl⟩ := jsonLog_ok h
    rw [Record.memberInts, Record.memberTail, Record.columnInts, toUInt8_toNat hle]
    exact .cons htag (.cons (jsonU32_reads h0) .nil)
  | config h =>
    obtain ⟨items, pairs, -, -, -, rfl⟩ := jsonConfig_ok h
    exact .cons htag .nil
  | keyref h =>
    obtain ⟨u0, redacted, label, h0, -, hle, -, rfl⟩ := jsonKeyref_ok h
    rw [Record.memberInts, Record.memberTail, Record.columnInts, toUInt8_toNat hle]
    exact .cons htag (.cons (jsonU32_reads h0) .nil)
  | firmware h =>
    obtain ⟨ver, mj, mi, pa, hash, hver, hscan, hmj, hmi, hpa, rfl⟩ := jsonFirmware_ok h
    obtain ⟨i, j, k, hparts, rfl, rfl, rfl⟩ := scanVersion_denoted hscan
    have hbind : (jsonStr obj "version").bind (fun ver => versionDenoted ver.val) =
        some (i, j, k) := by
      rw [hver, Option.bind_some, hparts]
    rw [if_pos rfl, versionTexts, hbind]
    exact .cons htag (.cons (versionPart_reads rfl hmj) (.cons (versionPart_reads rfl hmi)
      (.cons (versionPart_reads rfl hpa) .nil)))

/-- **When imported integers are exact.** The integers of an imported record are those that the texts of
its row or object denote if and only if no unsigned text denotes a negative integer, no signed text one
of more than 32 bits, and no part of a version either. -/
theorem import_exact_iff (ft : FloatText) (row : List Bytes) (obj : Json) (rec : Record) :
    (csvImportRow ft row = .ok rec →
      (List.Forall₂ IntText.Exact (csvIntTexts row) rec.columnInts ↔
        ∀ t ∈ csvIntTexts row, t.Keeps)) ∧
    (jimportRecord ft obj = .ok rec →
      (List.Forall₂ IntText.Exact (jsonIntTexts obj) rec.memberInts ↔
        ∀ t ∈ jsonIntTexts obj, t.Keeps)) := by
  constructor
  · intro h
    exact IntText.exact_iff (csvImportRow_reads h)
  · intro h
    exact IntText.exact_iff (jimportRecord_reads h)

/-- A `GEO` row of three texts. -/
def geoRow (lat lon alt : String) : List Bytes :=
  [ascii "0", ascii "GEO", ascii lat, ascii lon, ascii alt]

/-- A `FIRMWARE` object of a version. -/
def firmwareObject (version : String) : Json :=
  .obj [(cstr (ascii "tag"), .num (ascii "26")),
    (cstr (ascii "version"), .str (cstr (ascii version))),
    (cstr (ascii "hash_hex"), .str (cstr (ascii "0000000000000000")))]

/-- A `HEARTBEAT` object of an uptime. -/
def heartbeatObject (uptime : String) : Json :=
  .obj [(cstr (ascii "tag"), .num (ascii "16")), (cstr (ascii "uptime_s"), .num (ascii uptime)),
    (cstr (ascii "seq"), .num (ascii "0"))]

/-- A `GEO` row and a `FIRMWARE` object, read exactly. -/
theorem import_exact_two :
    List.Forall₂ IntText.Exact (csvIntTexts (geoRow "-2147483648" " +7" "007"))
        [-2147483648, 7, 7] ∧
      List.Forall₂ IntText.Exact (jsonIntTexts (firmwareObject "1.20.65535")) [26, 1, 20, 65535] := by
  have hrow : csvIntTexts (geoRow "-2147483648" " +7" "007") =
      [⟨.signed, some (-2147483648)⟩, ⟨.signed, some 7⟩, ⟨.signed, some 7⟩] := by decide +kernel
  have hobj : jsonIntTexts (firmwareObject "1.20.65535") = [⟨.unsigned, some 26⟩,
      ⟨.version, some 1⟩, ⟨.version, some 20⟩, ⟨.version, some 65535⟩] := by decide +kernel
  constructor
  · refine ((import_exact_iff noFloats (geoRow "-2147483648" " +7" "007") .null
      (.geo ⟨-2147483648, 7, 7⟩)).1 (by decide +kernel)).mpr ?_
    simp [hrow, IntText.Keeps, IntKind.Keeps]
  · refine ((import_exact_iff noFloats [] (firmwareObject "1.20.65535")
      (.firmware ⟨1, 20, 65535, ⟨List.replicate 8 0, rfl⟩⟩)).2 (by decide +kernel)).mpr ?_
    simp [hobj, IntText.Keeps, IntKind.Keeps]

/-- A latitude of 2 ^ 32 is imported as 0, and an uptime of 1 - 2 ^ 64 as 1. -/
theorem import_wraps :
    csvImportRow noFloats (geoRow "4294967296" "0" "0") = .ok (.geo ⟨0, 0, 0⟩) ∧
      ¬ List.Forall₂ IntText.Exact (csvIntTexts (geoRow "4294967296" "0" "0"))
        (Record.geo ⟨0, 0, 0⟩).columnInts ∧
      jimportRecord noFloats (heartbeatObject "-18446744073709551615") = .ok (.heartbeat ⟨1, 0⟩) ∧
      ¬ List.Forall₂ IntText.Exact (jsonIntTexts (heartbeatObject "-18446744073709551615"))
        (Record.heartbeat ⟨1, 0⟩).memberInts := by
  have hrow : csvIntTexts (geoRow "4294967296" "0" "0") =
      [⟨.signed, some 4294967296⟩, ⟨.signed, some 0⟩, ⟨.signed, some 0⟩] := by decide +kernel
  have hobj : jsonIntTexts (heartbeatObject "-18446744073709551615") = [⟨.unsigned, some 16⟩,
      ⟨.unsigned, some (-18446744073709551615)⟩, ⟨.unsigned, some 0⟩] := by decide +kernel
  refine ⟨by decide +kernel, ?_, by decide +kernel, ?_⟩
  · simp [hrow, IntText.Exact, Record.columnInts]
  · simp [hobj, IntText.Exact, Record.memberInts, Record.memberTail, Record.columnInts]

end Dtl
