import Mathlib.Data.List.Forall2
import TelemetryForge.Report.Export

/-!
# The record comparator

Model of `dtl_record_compare` with the texts it writes, and what the comparator looks at.
`Record.shown` is a record as the comparator sees it: texts end at their first NUL, a zero has no
sign, and a record with a NaN sample is not seen at all.

Principal results: `diffRecordsEqual_eq` — two records are equal when no difference is reported;
`diffRecordsEqual_shown` — they are when they are seen as the same record, so the comparator is
symmetric and transitive; `diffRecordsEqual_items` — for records parsed from items this is being the
same item, but for NaN samples and for what is `Unseen`.
-/

set_option autoImplicit false

namespace Dtl

open CText

/-! ## The comparator -/

/-- `DTL_DIFF_U` with a `%u` field. -/
def diffU (field : String) (a b : Nat) : Option Bytes :=
  if a ≠ b then some (ascii field ++ ascii " " ++ decimal a ++ ascii " != " ++ decimal b) else none

/-- `DTL_DIFF_U` with a `%d` field. -/
def diffD (field : String) (a b : Int) : Option Bytes :=
  if a ≠ b then some (ascii field ++ ascii " " ++ decimalInt a ++ ascii " != " ++ decimalInt b)
  else none

/-- A reason for unequal contents. -/
def diffText (equal : Bool) (text : Bytes) : Option Bytes := if equal then none else some text

/-- The two lengths in the text about unequal byte strings. -/
def diffLengths (what : String) (a b : Nat) : Bytes :=
  ascii what ++ ascii " differs (" ++ decimal a ++ ascii " vs " ++ decimal b ++ ascii " bytes)"

/-- The sample loop, from sample `i` on. -/
def diffSamples (ft : FloatText) : Nat → List (UInt32 × UInt32) → Option Bytes
  | _, [] => none
  | i, p :: rest =>
    diffText (floatEq p.1 p.2) (ascii "sensor.samples[" ++ decimal i ++ ascii "] " ++ ft.g9 p.1 ++
      ascii " != " ++ ft.g9 p.2) <|> diffSamples ft (i + 1) rest

/-- The pair loop, from pair `i` on. -/
def diffPairs : Nat → List (ConfigPair × ConfigPair) → Option Bytes
  | _, [] => none
  | i, p :: rest =>
    diffText (p.1.key == p.2.key && p.1.value == p.2.value)
      (ascii "config pair " ++ decimal i ++ ascii " differs") <|> diffPairs (i + 1) rest

/-- The `switch` of `dtl_record_compare`, on two records of one tag. -/
def recordCompareFields (ft : FloatText) (ignoreRedaction : Bool) : Record → Record → Option Bytes
  | .heartbeat a, .heartbeat b =>
    diffU "u.heartbeat.uptime_s" a.uptimeS.toNat b.uptimeS.toNat <|>
      diffU "u.heartbeat.seq" a.seq.toNat b.seq.toNat
  | .sensor a, .sensor b =>
    diffU "u.sensor.sensor_id" a.sensorId.toNat b.sensorId.toNat <|>
      diffU "u.sensor.count" a.count.toNat b.count.toNat <|>
      diffSamples ft 0 ((a.samples.take a.count.toNat).zip (b.samples.take a.count.toNat))
  | .event a, .event b =>
    diffU "u.event.code" a.code.toNat b.code.toNat <|>
      diffText (bytesEqual a.payload a.payloadLen.toNat b.payload b.payloadLen.toNat)
        (diffLengths "event payload" a.payloadLen.toNat b.payloadLen.toNat)
  | .diag a, .diag b =>
    diffU "u.diag.subsystem" a.subsystem.toNat b.subsystem.toNat <|>
      (if ignoreRedaction then none else diffU "u.diag.redacted" a.redacted.toNat b.redacted.toNat) <|>
      diffText (bytesEqual a.blob a.blobLen.toNat b.blob b.blobLen.toNat)
        (diffLengths "diag blob" a.blobLen.toNat b.blobLen.toNat)
  | .geo a, .geo b =>
    diffD "u.geo.lat_e7" a.latE7.toInt b.latE7.toInt <|>
      diffD "u.geo.lon_e7" a.lonE7.toInt b.lonE7.toInt <|>
      diffD "u.geo.alt_mm" a.altMm.toInt b.altMm.toInt
  | .battery a, .battery b =>
    diffU "u.battery.pct" a.pct.toNat b.pct.toNat <|>
      diffD "u.battery.temp_c_e1" a.tempCE1.toInt b.tempCE1.toInt <|>
      diffU "u.battery.cycles" a.cycles.toNat b.cycles.toNat
  | .net a, .net b =>
    diffU "u.net.iface_id" a.ifaceId.toNat b.ifaceId.toNat <|>
      diffU "u.net.rx_bytes" a.rxBytes.toNat b.rxBytes.toNat <|>
      diffU "u.net.tx_bytes" a.txBytes.toNat b.txBytes.toNat <|>
      diffU "u.net.rx_pkts" a.rxPkts.toNat b.rxPkts.toNat <|>
      diffU "u.net.tx_pkts" a.txPkts.toNat b.txPkts.toNat
  | .log a, .log b =>
    diffU "u.log.severity" a.severity.toNat b.severity.toNat <|>
      diffText (strEqual a.msg b.msg) (ascii "log message differs")
  | .config a, .config b =>
    diffU "u.config.pair_count" a.pairCount.toNat b.pairCount.toNat <|>
      diffPairs 0 ((a.pairs.take a.pairCount.toNat).zip (b.pairs.take a.pairCount.toNat))
  | .keyref a, .keyref b =>
    diffU "u.keyref.slot_id" a.slotId.toNat b.slotId.toNat <|>
      (if ignoreRedaction then none
        else diffU "u.keyref.redacted" a.redacted.toNat b.redacted.toNat <|>
          diffText (strEqual a.label b.label) (ascii "keyref label differs"))
  | .firmware a, .firmware b =>
    diffU "u.firmware.major" a.major.toNat b.major.toNat <|>
      diffU "u.firmware.minor" a.minor.toNat b.minor.toNat <|>
      diffU "u.firmware.patch" a.patch.toNat b.patch.toNat <|>
      diffText (a.hash.val == b.hash.val) (ascii "firmware hash differs")
  | _, _ => none

/-- `dtl_record_compare`: the reason for a difference, `none` for 0. -/
def recordCompare (ft : FloatText) (ra rb : Record) (ignoreRedaction : Bool) : Option Bytes :=
  (if ra.tag ≠ rb.tag then
    some (ascii "tag " ++ ascii (walkTagName ra.tag) ++ ascii " != " ++ ascii (walkTagName rb.tag))
  else recordCompareFields ft ignoreRedaction ra rb).map (·.take 95)

/-! ## Equality is the absence of a difference -/

@[simp] theorem isNone_orElse {α : Type} (x y : Option α) :
    (x <|> y).isNone = (x.isNone && y.isNone) := by
  cases x <;> simp

@[simp] theorem diffU_isNone (field : String) (a b : Nat) : (diffU field a b).isNone = (a == b) := by
  unfold diffU
  by_cases h : a = b <;> simp [h]

@[simp] theorem diffD_isNone (field : String) (a b : Int) : (diffD field a b).isNone = (a == b) := by
  unfold diffD
  by_cases h : a = b <;> simp [h]

@[simp] theorem diffText_isNone (equal : Bool) (text : Bytes) :
    (diffText equal text).isNone = equal := by
  cases equal <;> rfl

@[simp] theorem diffSamples_isNone (ft : FloatText) : ∀ (l : List (UInt32 × UInt32)) (i : Nat),
    (diffSamples ft i l).isNone = l.all fun p => floatEq p.1 p.2
  | [], _ => rfl
  | p :: l, i => by
    rw [diffSamples, isNone_orElse, diffText_isNone, diffSamples_isNone ft l, List.all_cons]

@[simp] theorem diffPairs_isNone : ∀ (l : List (ConfigPair × ConfigPair)) (i : Nat),
    (diffPairs i l).isNone = l.all fun p => p.1.key == p.2.key && p.1.value == p.2.value
  | [], _ => rfl
  | p :: l, i => by
    rw [diffPairs, isNone_orElse, diffText_isNone, diffPairs_isNone l, List.all_cons]

/-- The kind of a record is the place of its tag in the table. -/
theorem Record.kind_eq (rec : Record) : rec.ctorIdx = recTags.idxOf rec.tag := by
  cases rec with
  | other t ht => exact (List.idxOf_eq_length ht).symm
  | _ => rfl

/-- Records of one tag are of one kind. -/
theorem Record.tag_cases {P : Record → Record → Prop} (heartbeat : ∀ a b, P (.heartbeat a) (.heartbeat b))
    (sensor : ∀ a b, P (.sensor a) (.sensor b)) (event : ∀ a b, P (.event a) (.event b))
    (diag : ∀ a b, P (.diag a) (.diag b)) (geo : ∀ a b, P (.geo a) (.geo b))
    (battery : ∀ a b, P (.battery a) (.battery b)) (net : ∀ a b, P (.net a) (.net b))
    (log : ∀ a b, P (.log a) (.log b)) (config : ∀ a b, P (.config a) (.config b))
    (keyref : ∀ a b, P (.keyref a) (.keyref b)) (firmware : ∀ a b, P (.firmware a) (.firmware b))
    (other : ∀ t h, P (.other t h) (.other t h)) {ra rb : Record} (h : ra.tag = rb.tag) :
    P ra rb := by
  have hkind : ra.ctorIdx = rb.ctorIdx := by rw [kind_eq, kind_eq, h]
  cases ra with
  | heartbeat a =>
    cases rb with
    | heartbeat b => exact heartbeat a b
    | _ => cases hkind
  | sensor a =>
    cases rb with
    | sensor b => exact sensor a b
    | _ => cases hkind
  | event a =>
    cases rb with
    | event b => exact event a b
    | _ => cases hkind
  | diag a =>
    cases rb with
    | diag b => exact diag a b
    | _ => cases hkind
  | geo a =>
    cases rb with
    | geo b => exact geo a b
    | _ => cases hkind
  | battery a =>
    cases rb with
    | battery b => exact battery a b
    | _ => cases hkind
  | net a =>
    cases rb with
    | net b => exact net a b
    | _ => cases hkind
  | log a =>
    cases rb with
    | log b => exact log a b
    | _ => cases hkind
  | config a =>
    cases rb with
    | config b => exact config a b
    | _ => cases hkind
  | keyref a =>
    cases rb with
    | keyref b => exact keyref a b
    | _ => cases hkind
  | firmware a =>
    cases rb with
    | firmware b => exact firmware a b
    | _ => cases hkind
  | other t ht =>
    cases rb with
    | other t' ht' =>
      cases h
      exact other t ht
    | _ => cases hkind

theorem diffRecordsEqual_tag {ra rb : Record} {ignoreRedaction : Bool} (h : ra.tag ≠ rb.tag) :
    diffRecordsEqual ra rb ignoreRedaction = false := by
  cases ra <;> cases rb <;> first
    | rfl
    | exact absurd rfl h
    | (rw [diffRecordsEqual, beq_eq_false_iff_ne]
       exact h)

/-- **Records are equal when no difference is reported.** -/
theorem diffRecordsEqual_eq (ft : FloatText) (ra rb : Record) (ignoreRedaction : Bool) :
    diffRecordsEqual ra rb ignoreRedaction = (recordCompare ft ra rb ignoreRedaction).isNone := by
  rw [recordCompare, Option.isNone_map]
  by_cases htag : ra.tag = rb.tag
  · rw [if_neg (not_not.mpr htag)]
    have h8 : ∀ a b : UInt8, (a.toNat == b.toNat) = (a == b) :=
      fun _ _ => Function.Injective.beq_eq fun _ _ => UInt8.toNat_inj.mp
    have h16 : ∀ a b : UInt16, (a.toNat == b.toNat) = (a == b) :=
      fun _ _ => Function.Injective.beq_eq fun _ _ => UInt16.toNat_inj.mp
    have h32 : ∀ a b : UInt32, (a.toNat == b.toNat) = (a == b) :=
      fun _ _ => Function.Injective.beq_eq fun _ _ => UInt32.toNat_inj.mp
    have i16 : ∀ a b : Int16, (a.toInt == b.toInt) = (a == b) :=
      fun _ _ => Function.Injective.beq_eq fun _ _ => Int16.toInt_inj.mp
    have i32 : ∀ a b : Int32, (a.toInt == b.toInt) = (a == b) :=
      fun _ _ => Function.Injective.beq_eq fun _ _ => Int32.toInt_inj.mp
    refine Record.tag_cases (P := fun ra rb => diffRecordsEqual ra rb ignoreRedaction =
      (recordCompareFields ft ignoreRedaction ra rb).isNone)
      ?heartbeat ?sensor ?event ?diag ?geo ?battery ?net ?log ?config ?keyref ?firmware ?other htag
    case other =>
      intro t ht
      simp [diffRecordsEqual, recordCompareFields]
    case diag | keyref =>
      intro a b
      cases ignoreRedaction <;>
        simp [diffRecordsEqual, recordCompareFields, h8, h16, Bool.and_assoc]
    all_goals
      intro a b
      simp [diffRecordsEqual, recordCompareFields, h8, h16, h32, i16, i32, Bool.and_assoc]
  · rw [if_pos htag, diffRecordsEqual_tag htag]
    rfl

/-! ## What the comparator sees -/

/-- The bits of a `float` but its sign. -/
def magnitude (x : UInt32) : UInt32 := x &&& 0x7fffffff

def isNan (x : UInt32) : Bool := magnitude x > 0x7f800000

/-- A number as `==` sees it: both zeros are one. -/
def unsigned (x : UInt32) : UInt32 := if magnitude x = 0 then 0 else x

theorem unsigned_eq_iff (x y : UInt32) :
    unsigned x = unsigned y ↔ x = y ∨ magnitude x = 0 ∧ magnitude y = 0 := by
  have hzero : magnitude 0 = 0 := by decide
  unfold unsigned
  split <;> split <;> rename_i hx hy
  · simp [hx, hy]
  · constructor
    · rintro rfl
      exact absurd hzero hy
    · rintro (rfl | ⟨-, hy'⟩)
      · exact absurd hx hy
      · exact absurd hy' hy
  · constructor
    · rintro rfl
      exact absurd hzero hx
    · rintro (rfl | ⟨hx', -⟩)
      · exact absurd hy hx
      · exact absurd hx' hx
  · simp [hx]

theorem floatEq_iff (x y : UInt32) : floatEq x y = true ↔
    isNan x = false ∧ isNan y = false ∧ unsigned x = unsigned y := by
  rw [unsigned_eq_iff]
  simp [floatEq, isNan, magnitude, and_assoc]

/-- The sample loop passes when no sample is a NaN and the samples are the same numbers. -/
theorem all_floatEq_iff : ∀ {xs ys : List UInt32}, xs.length = ys.length →
    ((xs.zip ys).all (fun p => floatEq p.1 p.2) = true ↔
      xs.any isNan = false ∧ ys.any isNan = false ∧ xs.map unsigned = ys.map unsigned)
  | [], [], _ => by simp
  | x :: xs, y :: ys, h => by
    have ih := all_floatEq_iff (Nat.succ_inj.mp h)
    rw [List.zip_cons_cons, List.all_cons, Bool.and_eq_true, ih, floatEq_iff]
    simp only [List.any_cons, Bool.or_eq_false_iff, List.map_cons, List.cons.injEq]
    tauto

theorem all_floatEq_forall₂ {xs ys : List UInt32} (h : xs.length = ys.length) :
    (xs.zip ys).all (fun p => floatEq p.1 p.2) = true ↔
      List.Forall₂ (fun x y => isNan x = false ∧ isNan y = false ∧
        (x = y ∨ magnitude x = 0 ∧ magnitude y = 0)) xs ys := by
  rw [List.forall₂_iff_zip, List.all_eq_true]
  constructor
  · intro hall
    refine ⟨h, fun {x y} hmem => ?_⟩
    rw [← unsigned_eq_iff, ← floatEq_iff]
    exact hall (x, y) hmem
  · rintro ⟨-, hall⟩ ⟨x, y⟩ hmem
    rw [floatEq_iff, unsigned_eq_iff]
    exact hall hmem

/-- A record as the comparator sees it; one with a NaN sample is not seen. -/
def Record.shown (ignoreRedaction : Bool) : Record → Option Record
  | .sensor r =>
    if r.samples.any isNan then none else some (.sensor { r with samples := r.samples.map unsigned })
  | .log r => some (.log { r with msgLen := 0, msg := (cstr r.msg).val })
  | .keyref r => some (.keyref
      { r with
        labelLen := 0
        label := if ignoreRedaction then [] else (cstr r.label).val
        redacted := if ignoreRedaction then 0 else r.redacted })
  | .diag r => some (.diag { r with redacted := if ignoreRedaction then 0 else r.redacted })
  | rec => some rec

theorem bytesEqual_iff {a b : Bytes} {an bn : UInt16} (ha : a.length = an.toNat)
    (hb : b.length = bn.toNat) : bytesEqual a an.toNat b bn.toNat = true ↔ an = bn ∧ a = b := by
  rw [bytesEqual, Bool.and_eq_true, beq_iff_eq, beq_iff_eq, UInt16.toNat_inj]
  refine and_congr_right fun hn => ?_
  subst hn
  rw [List.take_of_length_le (Nat.le_of_eq ha), List.take_of_length_le (Nat.le_of_eq hb)]

theorem strEqual_iff (a b : Bytes) : strEqual a b = true ↔ (cstr a).val = (cstr b).val := beq_iff_eq

theorem all_pairs_iff : ∀ {xs ys : List ConfigPair}, xs.length = ys.length →
    ((xs.zip ys).all (fun p => p.1.key == p.2.key && p.1.value == p.2.value) = true ↔ xs = ys)
  | [], [], _ => by simp
  | x :: xs, y :: ys, h => by
    have ih := all_pairs_iff (Nat.succ_inj.mp h)
    rw [List.zip_cons_cons, List.all_cons, Bool.and_eq_true, ih, Bool.and_eq_true, beq_iff_eq,
      beq_iff_eq, List.cons.injEq]
    cases x
    cases y
    simp

/-- The loop over the samples, which runs when the counts are equal. -/
theorem samplesEqual_iff {na nb : UInt8} {xs ys : List UInt32} (ha : xs.length = na.toNat)
    (hb : ys.length = nb.toNat) :
    (na = nb ∧ ((xs.take na.toNat).zip (ys.take na.toNat)).all (fun p => floatEq p.1 p.2) = true) ↔
      na = nb ∧ xs.any isNan = false ∧ ys.any isNan = false ∧ xs.map unsigned = ys.map unsigned := by
  refine and_congr_right ?_
  rintro rfl
  rw [List.take_of_length_le (Nat.le_of_eq ha), List.take_of_length_le (Nat.le_of_eq hb),
    all_floatEq_iff (ha.trans hb.symm)]

/-- The loop over the pairs, likewise. -/
theorem pairsEqual_iff {na nb : UInt8} {xs ys : List ConfigPair} (ha : xs.length = na.toNat)
    (hb : ys.length = nb.toNat) :
    (na = nb ∧ ((xs.take na.toNat).zip (ys.take na.toNat)).all
      (fun p => p.1.key == p.2.key && p.1.value == p.2.value) = true) ↔ na = nb ∧ xs = ys := by
  refine and_congr_right ?_
  rintro rfl
  rw [List.take_of_length_le (Nat.le_of_eq ha), List.take_of_length_le (Nat.le_of_eq hb),
    all_pairs_iff (ha.trans hb.symm)]

theorem exists_some_eq {α : Type} (x y : α) : (∃ v, some x = some v ∧ some y = some v) ↔ x = y := by
  constructor
  · rintro ⟨v, hx, hy⟩
    exact Option.some.inj (hx.trans hy.symm)
  · rintro rfl
    exact ⟨x, rfl, rfl⟩

theorem exists_unless_eq {α : Type} (p q : Bool) (x y : α) :
    (∃ v, (if p then none else some x) = some v ∧ (if q then none else some y) = some v) ↔
      p = false ∧ q = false ∧ x = y := by
  cases p <;> cases q <;> simp [eq_comm]

theorem shown_tag {ignoreRedaction : Bool} {rec v : Record} (h : rec.shown ignoreRedaction = some v) :
    v.tag = rec.tag := by
  cases rec <;> simp only [Record.shown, Option.some.injEq] at h <;> first
    | (subst h; rfl)
    | (split at h
       · cases h
       · cases h
         rfl)

/-- **Two records are equal when they are seen as the same record.** -/
theorem diffRecordsEqual_shown {ra rb : Record} (ha : ra.WellFormed) (hb : rb.WellFormed)
    (ignoreRedaction : Bool) : diffRecordsEqual ra rb ignoreRedaction = true ↔
      ∃ v, ra.shown ignoreRedaction = some v ∧ rb.shown ignoreRedaction = some v := by
  by_cases htag : ra.tag = rb.tag
  · revert ha hb
    refine Record.tag_cases (P := fun ra rb => ra.WellFormed → rb.WellFormed →
      (diffRecordsEqual ra rb ignoreRedaction = true ↔
        ∃ v, ra.shown ignoreRedaction = some v ∧ rb.shown ignoreRedaction = some v))
      ?heartbeat ?sensor ?event ?diag ?geo ?battery ?net ?log ?config ?keyref ?firmware ?other htag
    case sensor =>
      rintro ⟨ida, na, xs⟩ ⟨idb, nb, ys⟩ ha hb
      simp only [Record.WellFormed] at ha hb
      simp only [diffRecordsEqual, Record.shown, Bool.and_eq_true, beq_iff_eq]
      rw [exists_unless_eq]
      rw [Record.sensor.injEq, Sensor.mk.injEq, and_assoc, samplesEqual_iff ha hb]
      tauto
    case event =>
      rintro ⟨ca, na, xs⟩ ⟨cb, nb, ys⟩ ha hb
      simp only [diffRecordsEqual, Record.shown, exists_some_eq, Bool.and_eq_true, beq_iff_eq,
        bytesEqual_iff ha hb, Record.event.injEq, Event.mk.injEq]
    case diag =>
      rintro ⟨sa, na, xs, fa⟩ ⟨sb, nb, ys, fb⟩ ha hb
      simp only [diffRecordsEqual, Record.shown, exists_some_eq, Bool.and_eq_true, Bool.or_eq_true,
        beq_iff_eq, bytesEqual_iff ha hb, Record.diag.injEq, Diag.mk.injEq]
      cases ignoreRedaction with
      | false =>
        simp only [Bool.false_eq_true, if_false, false_or]
        tauto
      | true => simp only [if_true, true_or, and_true]
    case log =>
      rintro ⟨sa, na, xs⟩ ⟨sb, nb, ys⟩ - -
      simp only [diffRecordsEqual, Record.shown, exists_some_eq, Bool.and_eq_true, beq_iff_eq,
        strEqual_iff, Record.log.injEq, Log.mk.injEq, true_and]
    case config =>
      rintro ⟨na, xs⟩ ⟨nb, ys⟩ ha hb
      simp only [Record.WellFormed] at ha hb
      simp only [diffRecordsEqual, Record.shown, exists_some_eq, Bool.and_eq_true, beq_iff_eq,
        Record.config.injEq, Config.mk.injEq]
      exact pairsEqual_iff ha hb
    case keyref =>
      rintro ⟨sa, na, xs, fa⟩ ⟨sb, nb, ys, fb⟩ - -
      simp only [diffRecordsEqual, Record.shown, exists_some_eq, Bool.and_eq_true, Bool.or_eq_true,
        beq_iff_eq, strEqual_iff, Record.keyref.injEq, Keyref.mk.injEq]
      cases ignoreRedaction with
      | false =>
        simp only [Bool.false_eq_true, if_false, false_or, true_and]
        tauto
      | true => simp only [if_true, true_or, and_true]
    case firmware =>
      rintro ⟨ma, na, pa, ⟨ha, _⟩⟩ ⟨mb, nb, pb, ⟨hb, _⟩⟩ - -
      simp only [diffRecordsEqual, Record.shown, exists_some_eq, Bool.and_eq_true, beq_iff_eq,
        Record.firmware.injEq, Firmware.mk.injEq, Subtype.mk.injEq, and_assoc]
    case other =>
      intro t ht _ _
      simp only [diffRecordsEqual, Record.shown, exists_some_eq, beq_self_eq_true]
    all_goals
      rintro ⟨⟩ ⟨⟩ - -
      simp only [diffRecordsEqual, Record.shown, exists_some_eq, Bool.and_eq_true, beq_iff_eq,
        Record.heartbeat.injEq, Heartbeat.mk.injEq, Record.geo.injEq, Geo.mk.injEq,
        Record.battery.injEq, Battery.mk.injEq, Record.net.injEq, Net.mk.injEq, and_assoc]
  · rw [diffRecordsEqual_tag htag]
    constructor
    · intro h
      cases h
    · rintro ⟨v, hv, hv'⟩
      exact absurd ((shown_tag hv).symm.trans (shown_tag hv')) htag

theorem diffRecordsEqual_symm {ra rb : Record} (ha : ra.WellFormed) (hb : rb.WellFormed)
    {ignoreRedaction : Bool} (h : diffRecordsEqual ra rb ignoreRedaction = true) :
    diffRecordsEqual rb ra ignoreRedaction = true := by
  rw [diffRecordsEqual_shown ha hb] at h
  rw [diffRecordsEqual_shown hb ha]
  obtain ⟨v, hv, hv'⟩ := h
  exact ⟨v, hv', hv⟩

theorem diffRecordsEqual_comm {ra rb : Record} (ha : ra.WellFormed) (hb : rb.WellFormed)
    (ignoreRedaction : Bool) :
    diffRecordsEqual ra rb ignoreRedaction = diffRecordsEqual rb ra ignoreRedaction :=
  Bool.eq_iff_iff.mpr ⟨diffRecordsEqual_symm ha hb, diffRecordsEqual_symm hb ha⟩

theorem diffRecordsEqual_trans {ra rb rc : Record} (ha : ra.WellFormed) (hb : rb.WellFormed)
    (hc : rc.WellFormed) {ignoreRedaction : Bool}
    (hab : diffRecordsEqual ra rb ignoreRedaction = true)
    (hbc : diffRecordsEqual rb rc ignoreRedaction = true) :
    diffRecordsEqual ra rc ignoreRedaction = true := by
  rw [diffRecordsEqual_shown ha hb] at hab
  rw [diffRecordsEqual_shown hb hc] at hbc
  rw [diffRecordsEqual_shown ha hc]
  obtain ⟨v, hv, hv'⟩ := hab
  obtain ⟨w, hw, hw'⟩ := hbc
  cases hv'.symm.trans hw
  exact ⟨v, hv, hw'⟩

/-! ## Records of items -/

/-- A record with a NaN sample. -/
def Record.HasNan : Record → Prop
  | .sensor r => ∃ x ∈ r.samples, isNan x = true
  | _ => False

/-- Records that agree in all the comparator looks at, of the kinds where that is not all of the item:
samples are the same numbers, and texts are the same up to their first NUL.  With `ignore_redaction`
a `KEYREF` label is not looked at. -/
def Record.Unseen (ignoreRedaction : Bool) : Record → Record → Prop
  | .sensor a, .sensor b => a.sensorId = b.sensorId ∧ a.count = b.count ∧
      List.Forall₂ (fun x y => isNan x = false ∧ isNan y = false ∧
        (x = y ∨ magnitude x = 0 ∧ magnitude y = 0)) a.samples b.samples
  | .log a, .log b => a.severity = b.severity ∧ cstr a.msg = cstr b.msg
  | .config a, .config b => a = b
  | .keyref a, .keyref b => a.slotId = b.slotId ∧ (ignoreRedaction = true ∨ cstr a.label = cstr b.label)
  | _, _ => False

theorem diffRecordsEqual_self {rec : Record} (hw : rec.WellFormed) (ignoreRedaction : Bool) :
    diffRecordsEqual rec rec ignoreRedaction = true ↔ ¬ rec.HasNan := by
  rw [diffRecordsEqual_shown hw hw]
  cases rec with
  | sensor r =>
    rw [Record.shown, exists_unless_eq, Record.HasNan]
    simp [List.any_eq_false]
  | _ =>
    rw [Record.shown, exists_some_eq]
    all_goals simp [Record.HasNan]

/-- An item without `CONFIG` strings is determined by its record. -/
theorem item_of_record {t t' : Tlv} {rec : Record} (h : recordParse t = .ok rec)
    (h' : recordParse t' = .ok rec) (hne : rec.tag ≠ REC_CONFIG) : t = t' := by
  have htag := recordParse_tag h
  have htag' := recordParse_tag h'
  have slack : Slack := ⟨fun _ => 0, fun _ => 0, fun _ => ⟨cstr [], cstr []⟩⟩
  have hval := (recordParse_exact slack h).mpr fun hc => absurd (htag.trans hc) hne
  have hval' := (recordParse_exact slack h').mpr fun hc => absurd (htag'.trans hc) hne
  cases t
  cases t'
  cases htag.symm.trans htag'
  cases hval.symm.trans hval'
  rfl

/-- Records that are seen as a whole are equal only when they come from one item. -/
theorem diffRecordsEqual_whole {t t' : Tlv} {ra rb : Record} {ignoreRedaction : Bool}
    (h : recordParse t = .ok ra) (h' : recordParse t' = .ok rb) (hne : ra.tag ≠ REC_CONFIG)
    (ha : ra.shown ignoreRedaction = some ra) (hb : rb.shown ignoreRedaction = some rb)
    (heq : diffRecordsEqual ra rb ignoreRedaction = true) : t = t' := by
  obtain ⟨v, hv, hv'⟩ :=
    (diffRecordsEqual_shown (recordParse_ok h).1 (recordParse_ok h').1 ignoreRedaction).mp heq
  cases ha.symm.trans hv
  cases hb.symm.trans hv'
  exact item_of_record h h' hne

theorem Record.Unseen.tag {ra rb : Record} {ignoreRedaction : Bool}
    (h : ra.Unseen ignoreRedaction rb) : ra.tag = rb.tag := by
  cases ra <;> cases rb <;> first
    | rfl
    | exact h.elim

/-- Different items compare equal exactly when their records differ only in what is unseen. -/
theorem diffRecordsEqual_distinct {t t' : Tlv} {ra rb : Record} (h : recordParse t = .ok ra)
    (h' : recordParse t' = .ok rb) (ht : t ≠ t') (ignoreRedaction : Bool) :
    diffRecordsEqual ra rb ignoreRedaction = true ↔ ra.Unseen ignoreRedaction rb := by
  by_cases htag : ra.tag = rb.tag
  · revert h h'
    refine Record.tag_cases (P := fun ra rb => recordParse t = .ok ra → recordParse t' = .ok rb →
      (diffRecordsEqual ra rb ignoreRedaction = true ↔ ra.Unseen ignoreRedaction rb))
      ?heartbeat ?sensor ?event ?diag ?geo ?battery ?net ?log ?config ?keyref ?firmware ?other htag
    case sensor =>
      intro a b h h'
      have hlen : a.samples.length = a.count.toNat := (recordParse_ok h).1
      have hlen' : b.samples.length = b.count.toNat := (recordParse_ok h').1
      simp only [diffRecordsEqual, Record.Unseen, Bool.and_eq_true, beq_iff_eq, and_assoc]
      refine and_congr_right fun _ => and_congr_right fun hn => ?_
      rw [← hn] at hlen'
      rw [List.take_of_length_le (Nat.le_of_eq hlen), List.take_of_length_le (Nat.le_of_eq hlen'),
        all_floatEq_forall₂ (hlen.trans hlen'.symm)]
    case diag =>
      intro a b h h'
      have hshown : ∀ {t : Tlv} {r : Diag}, recordParse t = .ok (.diag r) →
          (Record.diag r).shown ignoreRedaction = some (.diag r) := by
        intro t r hr
        have hzero : r.redacted = 0 := (recordParse_ok hr).2
        rw [Record.shown, hzero, ite_self, ← hzero]
      exact ⟨fun heq => absurd (diffRecordsEqual_whole h h' (show REC_DIAG ≠ REC_CONFIG by decide)
        (hshown h) (hshown h') heq) ht, fun hu => hu.elim⟩
    case log =>
      rintro ⟨sa, na, xs⟩ ⟨sb, nb, ys⟩ - -
      simp only [diffRecordsEqual, Record.Unseen, Bool.and_eq_true, beq_iff_eq, strEqual_iff,
        Subtype.ext_iff]
    case config =>
      intro a b h h'
      rw [diffRecordsEqual_shown (recordParse_ok h).1 (recordParse_ok h').1]
      simp only [Record.shown, exists_some_eq, Record.config.injEq, Record.Unseen]
    case keyref =>
      intro a b h h'
      have hzero : a.redacted = 0 := (recordParse_ok h).2
      have hzero' : b.redacted = 0 := (recordParse_ok h').2
      simp only [diffRecordsEqual, Record.Unseen, Bool.and_eq_true, Bool.or_eq_true, beq_iff_eq,
        strEqual_iff, Subtype.ext_iff, hzero, hzero', true_and]
    case other =>
      intro tag hne h
      exact absurd (recordParse_cases h).2 (fun hf => hf)
    all_goals
      intro a b h h'
      refine ⟨fun heq => absurd (diffRecordsEqual_whole h h' ?_ rfl rfl heq) ht, fun hu => hu.elim⟩
      simp only [Record.tag]
      decide
  · rw [diffRecordsEqual_tag htag]
    exact ⟨fun h => (Bool.false_ne_true h).elim, fun hu => absurd hu.tag htag⟩

/-- **What the comparator says of two items**: they are the same item without a NaN, or they differ
only in what is unseen. -/
theorem diffRecordsEqual_items {t t' : Tlv} {ra rb : Record} (h : recordParse t = .ok ra)
    (h' : recordParse t' = .ok rb) (ignoreRedaction : Bool) :
    diffRecordsEqual ra rb ignoreRedaction = true ↔
      t = t' ∧ ¬ ra.HasNan ∨ t ≠ t' ∧ ra.Unseen ignoreRedaction rb := by
  by_cases ht : t = t'
  · subst ht
    cases h.symm.trans h'
    rw [diffRecordsEqual_self (recordParse_ok h).1]
    simp
  · rw [diffRecordsEqual_distinct h h' ht]
    simp [ht]

end Dtl
