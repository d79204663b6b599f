import TelemetryForge.Report.ImportJson

/-!
# Printed fields

What the two exporters print of a field, the field parsers that the two importers share read back.
`Record.Walked` is a record as a walk delivers it: one parsed from an item.

Principal results: `fieldU32_decimal`, `fieldI32_decimalInt`, `fieldHex_hexText`; `delivered_walked` —
the records of a container are walked; `importRows_walked` — walked records that fit into a section are
imported.
-/

set_option autoImplicit false

namespace Dtl

open CText

/-! ## Records as the walk delivers them -/

/-- Some item of a stream parses to the record. -/
def Record.Walked (rec : Record) : Prop := ∃ t : Tlv, t.Fits ∧ recordParse t = .ok rec

/-- A `SENSOR` record has no samples. -/
def Record.NoSamples : Record → Prop
  | .sensor r => r.samples = []
  | _ => True

theorem Record.Walked.parseable {rec : Record} (h : rec.Walked) : rec.Parseable := by
  obtain ⟨t, -, ht⟩ := h
  exact recordParse_ok ht

theorem Record.Walked.payload_le {rec : Record} (h : rec.Walked) (slack : Slack) :
    (rec.payload slack).length ≤ 0xFFFF := by
  obtain ⟨t, hfit, ht⟩ := h
  exact (recordParse_payload_le slack ht).trans hfit

/-- What a section delivers is walked. -/
theorem sectionRecords_walked {env : CodecEnv} {cap : Nat} {sec : Section} {rec : Record}
    (hrec : rec ∈ sectionRecords env cap sec) : rec.Walked := by
  unfold sectionRecords at hrec
  split at hrec
  · cases hrec
  · rename_i raw _
    obtain ⟨t, ht, hparse⟩ := List.mem_filterMap.mp hrec
    refine ⟨t, tlvItems_fits raw t ht, ?_⟩
    cases hp : recordParse t with
    | error rc =>
      rw [hp] at hparse
      cases hparse
    | ok rec' =>
      rw [hp] at hparse
      cases hparse
      rfl

/-- **What a walk delivers is walked.** -/
theorem delivered_walked {env : Nat → CodecEnv} {file : Bytes} {cont : Container}
    (h : containerParse file = .ok cont) :
    ∀ rec ∈ (delivered env file).map (·.record), rec.Walked := by
  intro rec hdelivered
  obtain ⟨it, hit, rfl⟩ := List.mem_map.mp hdelivered
  rw [delivered_eq env h, walkItems, List.mem_flatMap] at hit
  obtain ⟨⟨sec, i⟩, -, hit⟩ := hit
  obtain ⟨rec, hrec, rfl⟩ := List.mem_map.mp hit
  exact sectionRecords_walked hrec

/-- Walked records that fit into a section are imported, given memory. -/
theorem importRows_walked {e : EmitEnv} {a : Arena} {rows : List (Res (Option Record))}
    {recs : List Record} (hrecs : handed rows = .ok recs) (hroomy : a.Roomy)
    (hwalked : ∀ rec ∈ recs, rec.Walked)
    (hraw : (importRaw e.slack recs).length ≤ SECTION_MAX_RAW) :
    ∃ bytes, importRows e a rows = .ok (bytes, recs.length) :=
  importRows_succeeds hrecs hroomy
    (fun rec hrec => ⟨(hwalked rec hrec).parseable, (hwalked rec hrec).payload_le e.slack⟩) hraw

/-! ## Numbers -/

theorem fieldU32_decimal {n : Nat} (h : n < 2 ^ 32) : fieldU32 (decimal n) = some (UInt32.ofNat n) := by
  have hscan := strtoul_decimal (n := n) (by omega) (s := []) trivial
  rw [List.append_nil] at hscan
  rw [fieldU32, hscan]
  dsimp only
  rw [if_neg (by omega)]

theorem fieldU32_u32 (v : UInt32) : fieldU32 (decimal v.toNat) = some v := by
  rw [fieldU32_decimal v.toNat_lt, UInt32.ofNat_toNat]

theorem fieldU32_u16 (v : UInt16) : fieldU32 (decimal v.toNat) = some v.toUInt32 := by
  have hlt := v.toNat_lt
  rw [fieldU32_decimal (by omega), UInt32.ofNat_uInt16ToNat]

theorem fieldU32_u8 (v : UInt8) : fieldU32 (decimal v.toNat) = some v.toUInt32 := by
  have hlt := v.toNat_lt
  rw [fieldU32_decimal (by omega), UInt32.ofNat_uInt8ToNat]

theorem u16_in_range (v : UInt16) : ¬ v.toUInt32 > 0xFFFF := by
  have hlt := v.toNat_lt
  rw [UInt32.not_lt, UInt32.le_iff_toNat_le, UInt16.toNat_toUInt32]
  exact Nat.le_of_lt_succ hlt

theorem u8_in_range (v : UInt8) : ¬ v.toUInt32 > 255 := by
  have hlt := v.toNat_lt
  rw [UInt32.not_lt, UInt32.le_iff_toNat_le, UInt8.toNat_toUInt32]
  exact Nat.le_of_lt_succ hlt

theorem fieldI32_decimalInt {i : Int} (h : i.natAbs < 2 ^ 63) :
    fieldI32 (decimalInt i) = some (Int32.ofInt i) := by
  have hscan := strtol_decimalInt h (s := []) trivial
  rw [List.append_nil] at hscan
  rw [fieldI32, hscan]

theorem fieldI32_i32 (v : Int32) : fieldI32 (decimalInt v.toInt) = some v := by
  have hle : v.toInt ≤ 2147483647 := v.toInt_le
  have hge : -2147483648 ≤ v.toInt := v.le_toInt
  rw [fieldI32_decimalInt (by omega), Int32.ofInt_toInt]

theorem fieldI32_i16 (v : Int16) : fieldI32 (decimalInt v.toInt) = some v.toInt32 := by
  have hle : v.toInt ≤ 32767 := v.toInt_le
  have hge : -32768 ≤ v.toInt := v.le_toInt
  rw [fieldI32_decimalInt (by omega)]
  rfl

theorem i16_in_range (v : Int16) : ¬ (v.toInt32.toInt < -32768 ∨ v.toInt32.toInt > 32767) := by
  have hle : v.toInt ≤ 32767 := v.toInt_le
  have hge : -32768 ≤ v.toInt := v.le_toInt
  rw [Int16.toInt_toInt32]
  omega

/-! ## Hexadecimal text -/

theorem fieldHex_hexText {bs : Bytes} {outCap : Nat} (h : bs.length ≤ outCap) :
    fieldHex (hexText bs) outCap = some bs := by
  rw [fieldHex, if_neg (by rw [hexText_length]; omega), unhex_hexText]

theorem importHash_hexText (hash : {b : Bytes // b.length = 8}) :
    importHash (fieldHex (hexText hash.val) 8) = .ok hash := by
  rw [fieldHex_hexText (Nat.le_of_eq hash.property), importHash, dif_pos hash.property]

end Dtl
