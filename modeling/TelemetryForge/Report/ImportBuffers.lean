import TelemetryForge.Report.ImportWalk

/-!
# The buffers behind imported records

An importer allocates the buffers of a record and sets the lengths that describe them.  A CSV row
declares its lengths in columns of their own; a JSON object has as many samples or pairs as it has, and
the block that they are stored into is sized to the count byte of the record.

Principal results: `csvImportRow_wellFormed_iff` — when every length field of an imported row is the
length of its buffer; `jimportRecord_buffers_iff` — when the stores of an imported object stay inside
their block and the counts are those of the items.
-/

set_option autoImplicit false

namespace Dtl

open CText

/-! ## Rows -/

/-- A `DIAG` row declares the size of its hexadecimal text, or nothing. -/
def RowDeclares (row : List Bytes) : Prop :=
  row[1]?.bind importTag = some REC_DIAG → ∀ v, rowU row 3 = .ok v →
    v = 0 ∨ v.toNat = (row[5]?.getD []).length / 2

theorem rowDeclares_of_tag {row : List Bytes} {tag : UInt8} (h : row[1]?.bind importTag = some tag)
    (hdiag : tag ≠ REC_DIAG) : RowDeclares row := by
  intro h'
  cases h.symm.trans h'
  exact absurd rfl hdiag

/-- The blob of a `DIAG` row is as long as the row declares if and only if the row says so. -/
theorem csvDiag_wellFormed_iff {row : List Bytes} {rec : Record}
    (htag : row[1]?.bind importTag = some REC_DIAG) (h : csvDiag row = .ok rec) :
    rec.WellFormed ↔ RowDeclares row := by
  obtain ⟨u0, u1, blob, -, hu1, -, hle, hblob, rfl⟩ := csvDiag_ok h
  have hlen : (Record.diag ⟨u0.toUInt16, u1.toUInt16, if u1 ≠ 0 then blob else [], 0⟩).WellFormed ↔
      u1 = 0 ∨ u1.toNat = (row[5]?.getD []).length / 2 := by
    show (if u1 ≠ 0 then blob else []).length = u1.toUInt16.toNat ↔ _
    rw [toUInt16_toNat hle, ← csvBlob_length hblob]
    by_cases h0 : u1 = 0
    · simp [h0]
    · simp [h0, eq_comm]
  rw [hlen]
  constructor
  · intro hdecl _ v hv
    cases hu1.symm.trans hv
    exact hdecl
  · intro hdecl
    exact hdecl htag u1 hu1

/-- **Which rows make well-formed records.** Every length and count field of an imported row is the
length of its buffer, and its payload is read within its buffers, if and only if the row, where it is a
`DIAG` row, declares the size of the hexadecimal text that it carries. -/
theorem csvImportRow_wellFormed_iff {ft : FloatText} {row : List Bytes} {rec : Record}
    (h : csvImportRow ft row = .ok rec) :
    (rec.WellFormed ∧ ∀ slack slack', rec.payload slack = rec.payload slack') ↔ RowDeclares row := by
  obtain ⟨tag, htag, h⟩ := csvImportRow_case h
  have hinside : (rec.WellFormed ∧ ∀ slack slack', rec.payload slack = rec.payload slack') ↔
      rec.WellFormed := and_iff_left_of_imp Record.payload_slack
  rw [hinside]
  -- every row but a `DIAG` row is well formed anyway
  have plain : rec.WellFormed → tag ≠ REC_DIAG → (rec.WellFormed ↔ RowDeclares row) := fun hw hd =>
    iff_of_true hw (rowDeclares_of_tag htag hd)
  cases h with
  | heartbeat h => exact plain (csvHeartbeat_wellFormed h).1 (by decide)
  | geo h => exact plain (csvGeo_wellFormed h).1 (by decide)
  | battery h => exact plain (csvBattery_wellFormed h).1 (by decide)
  | net h => exact plain (csvNet_survives h).1 (by decide)
  | firmware h => exact plain (csvFirmware_wellFormed h).1 (by decide)
  | sensor h => exact plain (csvSensor_wellFormed h).1 (by decide)
  | event h => exact plain (csvEvent_wellFormed h).1 (by decide)
  | log h => exact plain (csvLog_survives h).1 (by decide)
  | config h =>
    obtain ⟨n, pairs, rfl, hw⟩ := csvConfig_counts h
    exact plain hw (by decide)
  | keyref h => exact plain (csvKeyref_wellFormed h).1 (by decide)
  | diag h => exact csvDiag_wellFormed_iff htag h

/-- A `DIAG` row that declares the one byte it has. -/
theorem csvImportRow_wellFormed_one :
    csvImportRow noFloats [ascii "0", ascii "DIAG", ascii "1", ascii "1", [], ascii "2a"] =
        .ok (.diag ⟨1, 1, [0x2A], 0⟩) ∧
      (Record.diag ⟨1, 1, [0x2A], 0⟩).WellFormed := by
  have hrow : csvImportRow noFloats
      [ascii "0", ascii "DIAG", ascii "1", ascii "1", [], ascii "2a"] =
      .ok (.diag ⟨1, 1, [0x2A], 0⟩) := by decide +kernel
  refine ⟨hrow, ((csvImportRow_wellFormed_iff hrow).mpr ?_).1⟩
  intro _ v hv
  have hone : rowU [ascii "0", ascii "DIAG", ascii "1", ascii "1", [], ascii "2a"] 3 = .ok 1 := by
    decide +kernel
  cases hone.symm.trans hv
  right
  decide

/-- A `DIAG` row that declares four bytes and has one is imported, and the writer reads the other three
from the memory behind the blob. -/
theorem csvImportRow_overreads :
    csvImportRow noFloats [ascii "0", ascii "DIAG", ascii "1", ascii "4", [], ascii "2a"] =
        .ok (.diag ⟨1, 4, [0x2A], 0⟩) ∧
      ¬ (Record.diag ⟨1, 4, [0x2A], 0⟩).WellFormed ∧
      ∃ slack slack', (Record.diag ⟨1, 4, [0x2A], 0⟩).payload slack ≠
        (Record.diag ⟨1, 4, [0x2A], 0⟩).payload slack' := by
  refine ⟨by decide +kernel, by simp [Record.WellFormed], zeroSlack,
    { zeroSlack with bytes := fun _ => 1 }, by decide⟩

/-! ## Objects -/

/-- A block sized to a count byte, and the indices that a loop stores at. -/
structure CountedBlock where
  size : Nat
  stores : List Nat
  deriving DecidableEq

/-- The elements that are asked for when a count is cut to a byte: `count ? count : 1`. -/
def blockSize (n : Nat) : Nat := if UInt8.ofNat n = 0 then 1 else (UInt8.ofNat n).toNat

/-- The sample loop from item `i` on: where it stores, and its outcome.  `strtof` stores before its
`end` is tested. -/
def sampleLoop (ft : FloatText) : Nat → List Json → List Nat × Res (List UInt32)
  | _, [] => ([], .ok [])
  | i, .num text :: items =>
    match ft.strtof text with
    | none => ([i], .error .badRecord)
    | some v =>
      let (stores, samples) := sampleLoop ft (i + 1) items
      (i :: stores, (v :: ·) <$> samples)
  | _, _ :: _ => ([], .error .badRecord)

/-- The pair loop from member `i` on. -/
def pairLoop : Nat → List (CStr × Json) → List Nat × Res (List ConfigPair)
  | _, [] => ([], .ok [])
  | i, (key, .str value) :: items =>
    let (stores, pairs) := pairLoop (i + 1) items
    (i :: stores, (⟨key, value⟩ :: ·) <$> pairs)
  | _, _ :: _ => ([], .error .badRecord)

/-- The samples of a `SENSOR` object that passes the checks in front of the loop. -/
def sensorItems (obj : Json) : Res (List Json) := do
  let u0 ← orBad (jsonU32 obj "sensor_id")
  failIf (u0 > 0xFFFF) .badRecord
  match jsonGet obj "samples" with
  | some (.arr items) =>
    failIf (items.length > 0xFFFF) .badRecord
    return items
  | _ => .error .badRecord

/-- The members of a `CONFIG` object that passes the checks in front of the loop. -/
def configItems (obj : Json) : Res (List (CStr × Json)) :=
  match jsonGet obj "pairs" with
  | some (.obj items) => do
    failIf (items.length > 0xFFFF) .badRecord
    return items
  | _ => .error .badRecord

/-- The block that `dtl_jimport_record` sizes to the count byte of the record, where it does. -/
def jimportBlock (ft : FloatText) (obj : Json) : Option CountedBlock :=
  if jsonU32 obj "tag" = some REC_SENSOR.toUInt32 then
    (sensorItems obj).toOption.map fun items => ⟨blockSize items.length, (sampleLoop ft 0 items).1⟩
  else if jsonU32 obj "tag" = some REC_CONFIG.toUInt32 then
    (configItems obj).toOption.map fun items => ⟨blockSize items.length, (pairLoop 0 items).1⟩
  else none

/-- The number of samples or pairs that an object has. -/
def itemCount (obj : Json) : Option Nat :=
  if jsonU32 obj "tag" = some REC_SENSOR.toUInt32 then
    match jsonGet obj "samples" with
    | some (.arr items) => some items.length
    | _ => none
  else if jsonU32 obj "tag" = some REC_CONFIG.toUInt32 then
    match jsonGet obj "pairs" with
    | some (.obj items) => some items.length
    | _ => none
  else none

/-- The count of the record is the number of items of the object. -/
def CountsItems (obj : Json) : Record → Prop
  | .sensor r => itemCount obj = some r.count.toNat
  | .config r => itemCount obj = some r.pairCount.toNat
  | _ => True

/-- What an import owes the buffers of an object: stores inside the block, lengths and counts that are
those of the buffers and items, and no object with more items than a byte counts. -/
structure BuffersHold (ft : FloatText) (obj : Json) : Prop where
  inside : ∀ b, jimportBlock ft obj = some b → ∀ i ∈ b.stores, i < b.size
  counted : ∀ rec, jimportRecord ft obj = .ok rec → rec.WellFormed ∧ CountsItems obj rec
  refused : ∀ n, itemCount obj = some n → 255 < n → ∃ rc, jimportRecord ft obj = .error rc

/-! ## Where a loop stores -/

section Stores

variable {α : Type} (stored passed : α → Bool)

/-- A loop that stores an item and then goes on past it or stops. -/
def storeIndices : Nat → List α → List Nat
  | _, [] => []
  | i, x :: xs => if stored x then i :: (if passed x then storeIndices (i + 1) xs else []) else []

/-- The loop stores behind a block sized to the count byte: there are more items than the byte counts,
all of those that the block has room for are passed, and the next one is stored. -/
def Overruns (xs : List α) : Prop :=
  255 < xs.length ∧ (∀ x ∈ xs.take (max (xs.length % 256) 1), passed x = true) ∧
    ∃ x, xs[max (xs.length % 256) 1]? = some x ∧ stored x = true

variable {stored passed}

/-- An index is stored at when the items in front of it were passed and its own item is stored. -/
theorem mem_storeIndices : ∀ {xs : List α} {i j : Nat}, (∀ x, passed x = true → stored x = true) →
    (i + j ∈ storeIndices stored passed i xs ↔
      (∀ x ∈ xs.take j, passed x = true) ∧ ∃ x, xs[j]? = some x ∧ stored x = true)
  | [], _, _, _ => by simp [storeIndices]
  | x :: xs, i, 0, _ => by
    rw [storeIndices]
    by_cases hs : stored x = true
    · simp [hs]
    · simp [hs]
  | x :: xs, i, j + 1, hp => by
    have ih := @mem_storeIndices xs (i + 1) j hp
    have hj : i + (j + 1) = i + 1 + j := by omega
    rw [storeIndices, List.take_succ_cons, List.forall_mem_cons, List.getElem?_cons_succ, hj]
    by_cases hx : passed x = true
    · simp [hx, hp x hx, ih]
      omega
    · have hne : i + 1 + j ≠ i := by omega
      by_cases hs : stored x = true <;> simp [hx, hs, hne]

end Stores

theorem blockSize_eq (n : Nat) : blockSize n = max (n % 256) 1 := by
  unfold blockSize
  have hbyte : (UInt8.ofNat n).toNat = n % 256 := UInt8.toNat_ofNat'
  by_cases h0 : UInt8.ofNat n = 0
  · rw [if_pos h0]
    rw [h0] at hbyte
    have hzero : (0 : UInt8).toNat = 0 := rfl
    omega
  · rw [if_neg h0, hbyte]
    have hne : n % 256 ≠ 0 := by
      intro hz
      rw [hz] at hbyte
      exact h0 (UInt8.toNat_inj.mp hbyte)
    omega

section Stores

variable {α : Type} {stored passed : α → Bool}

/-- **The stores of a loop stay inside its block if and only if it does not overrun.** -/
theorem storeIndices_inside_iff {xs : List α} (hp : ∀ x, passed x = true → stored x = true) :
    (∀ j ∈ storeIndices stored passed 0 xs, j < blockSize xs.length) ↔
      ¬ Overruns stored passed xs := by
  constructor
  · rintro hin ⟨hlong, hpass, hstore⟩
    have hmem := (mem_storeIndices (i := 0) hp).mpr ⟨hpass, hstore⟩
    have hlt := hin _ hmem
    rw [blockSize_eq] at hlt
    omega
  · intro hno j hj
    by_contra hge
    rw [blockSize_eq, Nat.not_lt] at hge
    rw [← Nat.zero_add j, mem_storeIndices hp] at hj
    obtain ⟨hpass, x, hx, hs⟩ := hj
    obtain ⟨hlt, rfl⟩ := List.getElem?_eq_some_iff.mp hx
    have hm : max (xs.length % 256) 1 < xs.length := by omega
    refine hno ⟨by omega, ?_, xs[max (xs.length % 256) 1], List.getElem?_eq_getElem hm, ?_⟩
    · intro y hy
      rw [← Nat.min_eq_left hge, ← List.take_take] at hy
      exact hpass y (List.mem_of_mem_take hy)
    · rcases Nat.lt_or_eq_of_le hge with hlt' | heq
      · apply hp
        apply hpass
        exact List.mem_take_iff_getElem.mpr ⟨_, by omega, rfl⟩
      · simp only [heq]
        exact hs

/-- A loop that passes all of more than 255 items overruns. -/
theorem length_le_of_passed {xs : List α} (hp : ∀ x, passed x = true → stored x = true)
    (hall : ∀ x ∈ xs, passed x = true) (hno : ¬ Overruns stored passed xs) : xs.length ≤ 255 := by
  by_contra hlong
  have hm : max (xs.length % 256) 1 < xs.length := by omega
  refine hno ⟨by omega, fun x hx => hall x (List.mem_of_mem_take hx), _,
    List.getElem?_eq_getElem hm, ?_⟩
  exact hp _ (hall _ (List.getElem_mem hm))

end Stores

/-! ## The two loops -/

/-- The items that the sample loop stores. -/
def isNum : Json → Bool
  | .num _ => true
  | _ => false

/-- The items that the sample loop passes. -/
def converts (ft : FloatText) : Json → Bool
  | .num text => (ft.strtof text).isSome
  | _ => false

/-- The members that the pair loop stores, and passes. -/
def isStr : CStr × Json → Bool
  | (_, .str _) => true
  | _ => false

theorem isNum_of_converts {ft : FloatText} : ∀ x, converts ft x = true → isNum x = true := by
  intro x h
  cases x <;> simp_all [converts, isNum]

/-- The sample loop of the block is that of the record. -/
theorem sampleLoop_eq (ft : FloatText) : ∀ (i : Nat) (items : List Json),
    sampleLoop ft i items = (storeIndices isNum (converts ft) i items, jsonSamples ft items)
  | _, [] => rfl
  | i, .num text :: items => by
    rw [sampleLoop, sampleLoop_eq ft (i + 1) items]
    cases hv : ft.strtof text <;>
      simp [storeIndices, jsonSamples, isNum, converts, orBad, hv, Except.bind_ok_eq]
  | _, .null :: _ => rfl
  | _, .bool _ :: _ => rfl
  | _, .str _ :: _ => rfl
  | _, .arr _ :: _ => rfl
  | _, .obj _ :: _ => rfl

/-- The pair loop of the block is that of the record. -/
theorem pairLoop_eq : ∀ (i : Nat) (items : List (CStr × Json)),
    pairLoop i items = (storeIndices isStr isStr i items, jsonPairs items)
  | _, [] => rfl
  | i, (key, .str value) :: items => by
    rw [pairLoop, pairLoop_eq (i + 1) items]
    simp [storeIndices, jsonPairs, isStr]
  | _, (_, .null) :: _ => rfl
  | _, (_, .bool _) :: _ => rfl
  | _, (_, .num _) :: _ => rfl
  | _, (_, .arr _) :: _ => rfl
  | _, (_, .obj _) :: _ => rfl

theorem jsonSamples_converts {ft : FloatText} : ∀ {items : List Json} {samples : List UInt32},
    jsonSamples ft items = .ok samples → ∀ x ∈ items, converts ft x = true
  | [], _, _ => by simp
  | .num text :: items, samples, h => by
    simp only [jsonSamples, Except.bind_eq_ok, orBad_eq_ok] at h
    obtain ⟨v, hv, h⟩ := h
    obtain ⟨vs, hvs, -⟩ := map_eq_ok.mp h
    have hnum : converts ft (.num text) = true := by simp [converts, hv]
    exact List.forall_mem_cons.mpr ⟨hnum, jsonSamples_converts hvs⟩
  | .null :: _, _, h => by cases h
  | .bool _ :: _, _, h => by cases h
  | .str _ :: _, _, h => by cases h
  | .arr _ :: _, _, h => by cases h
  | .obj _ :: _, _, h => by cases h

theorem jsonPairs_isStr : ∀ {items : List (CStr × Json)} {pairs : List ConfigPair},
    jsonPairs items = .ok pairs → ∀ x ∈ items, isStr x = true
  | [], _, _ => by simp
  | (key, .str value) :: items, pairs, h => by
    obtain ⟨ps, hps, -⟩ := map_eq_ok.mp h
    exact List.forall_mem_cons.mpr ⟨rfl, jsonPairs_isStr hps⟩
  | (_, .null) :: _, _, h => by cases h
  | (_, .bool _) :: _, _, h => by cases h
  | (_, .num _) :: _, _, h => by cases h
  | (_, .arr _) :: _, _, h => by cases h
  | (_, .obj _) :: _, _, h => by cases h

/-! ## Objects whose items fit -/

theorem toOption_eq_some {α : Type} {x : Res α} {a : α} : x.toOption = some a ↔ x = .ok a := by
  cases x <;> simp [Except.toOption]

theorem sensorItems_ok {obj : Json} {u0 : UInt32} {items : List Json}
    (hu0 : jsonU32 obj "sensor_id" = some u0) (hid : ¬ u0 > 0xFFFF)
    (hget : jsonGet obj "samples" = some (.arr items)) (hlen : ¬ items.length > 0xFFFF) :
    sensorItems obj = .ok items := by
  rw [sensorItems, orBad_eq_ok.mpr hu0, Except.bind_ok_eq, failIf_neg hid, Except.bind_ok_eq, hget]
  dsimp only
  rw [failIf_neg hlen]
  rfl

theorem configItems_ok {obj : Json} {items : List (CStr × Json)}
    (hget : jsonGet obj "pairs" = some (.obj items)) (hlen : ¬ items.length > 0xFFFF) :
    configItems obj = .ok items := by
  rw [configItems, hget]
  dsimp only
  rw [failIf_neg hlen]
  rfl

/-- An object whose loop does not overrun: not a `SENSOR` object with more than 255 samples, nor a
`CONFIG` object with more than 255 members, of which as many as the block has room for are numbers that
convert, or strings, and the next one is a number, or a string. -/
structure ObjectFits (ft : FloatText) (obj : Json) : Prop where
  sensor : jsonU32 obj "tag" = some REC_SENSOR.toUInt32 →
    ∀ items, sensorItems obj = .ok items → ¬ Overruns isNum (converts ft) items
  config : jsonU32 obj "tag" = some REC_CONFIG.toUInt32 →
    ∀ items, configItems obj = .ok items → ¬ Overruns isStr isStr items

theorem jimportBlock_sensor {ft : FloatText} {obj : Json} {items : List Json}
    (htag : jsonU32 obj "tag" = some REC_SENSOR.toUInt32) (h : sensorItems obj = .ok items) :
    jimportBlock ft obj =
      some ⟨blockSize items.length, storeIndices isNum (converts ft) 0 items⟩ := by
  rw [jimportBlock, if_pos htag, h]
  simp [Except.toOption, sampleLoop_eq]

theorem jimportBlock_config {ft : FloatText} {obj : Json} {items : List (CStr × Json)}
    (htag : jsonU32 obj "tag" = some REC_CONFIG.toUInt32) (h : configItems obj = .ok items) :
    jimportBlock ft obj = some ⟨blockSize items.length, storeIndices isStr isStr 0 items⟩ := by
  have hne : jsonU32 obj "tag" ≠ some REC_SENSOR.toUInt32 := by simp [htag, REC_CONFIG, REC_SENSOR]
  rw [jimportBlock, if_neg hne, if_pos htag, h]
  simp [Except.toOption, pairLoop_eq]

/-- The block is that of one of the two loops. -/
theorem jimportBlock_cases {ft : FloatText} {obj : Json} {b : CountedBlock}
    (h : jimportBlock ft obj = some b) :
    (jsonU32 obj "tag" = some REC_SENSOR.toUInt32 ∧ ∃ items, sensorItems obj = .ok items ∧
        b = ⟨blockSize items.length, storeIndices isNum (converts ft) 0 items⟩) ∨
      (jsonU32 obj "tag" = some REC_CONFIG.toUInt32 ∧ ∃ items, configItems obj = .ok items ∧
        b = ⟨blockSize items.length, storeIndices isStr isStr 0 items⟩) := by
  unfold jimportBlock at h
  split at h
  · rename_i htag
    obtain ⟨items, hitems, rfl⟩ := Option.map_eq_some_iff.mp h
    refine .inl ⟨htag, items, toOption_eq_some.mp hitems, ?_⟩
    rw [sampleLoop_eq]
  · split at h
    · rename_i htag
      obtain ⟨items, hitems, rfl⟩ := Option.map_eq_some_iff.mp h
      refine .inr ⟨htag, items, toOption_eq_some.mp hitems, ?_⟩
      rw [pairLoop_eq]
    · cases h

/-- The stores stay inside their block if and only if the object fits. -/
theorem jimportBlock_inside_iff {ft : FloatText} {obj : Json} :
    (∀ b, jimportBlock ft obj = some b → ∀ i ∈ b.stores, i < b.size) ↔ ObjectFits ft obj := by
  constructor
  · intro hin
    constructor
    · intro htag items hitems
      exact (storeIndices_inside_iff isNum_of_converts).mp (hin _ (jimportBlock_sensor htag hitems))
    · intro htag items hitems
      exact (storeIndices_inside_iff fun _ h => h).mp (hin _ (jimportBlock_config htag hitems))
  · intro hfit b hb
    rcases jimportBlock_cases hb with ⟨htag, items, hitems, rfl⟩ | ⟨htag, items, hitems, rfl⟩
    · exact (storeIndices_inside_iff isNum_of_converts).mpr (hfit.sensor htag items hitems)
    · exact (storeIndices_inside_iff fun _ h => h).mpr (hfit.config htag items hitems)

/-- The record of an object has the object's tag. -/
theorem JsonCase.tag {ft : FloatText} {obj : Json} {rec : Record} {tag : UInt8}
    (h : JsonCase ft obj rec tag) : rec.tag = tag := by
  cases h with
  | heartbeat h =>
    obtain ⟨u0, u1, -, -, rfl⟩ := jsonHeartbeat_ok h
    rfl
  | sensor h =>
    obtain ⟨u0, items, samples, -, -, -, -, -, rfl⟩ := jsonSensor_ok h
    rfl
  | event h =>
    obtain ⟨u0, payload, -, -, -, rfl⟩ := jsonEvent_ok h
    rfl
  | diag h =>
    obtain ⟨u0, redacted, blob, -, -, -, -, rfl⟩ := jsonDiag_ok h
    rfl
  | geo h =>
    obtain ⟨s0, s1, s2, -, -, -, rfl⟩ := jsonGeo_ok h
    rfl
  | battery h =>
    obtain ⟨u0, s0, u1, -, -, -, -, -, -, rfl⟩ := jsonBattery_ok h
    rfl
  | net h =>
    obtain ⟨u0, u1, u2, u3, u4, -, -, -, -, -, -, rfl⟩ := jsonNet_ok h
    rfl
  | log h =>
    obtain ⟨u0, msg, -, -, -, rfl⟩ := jsonLog_ok h
    rfl
  | config h =>
    obtain ⟨n, pairs, rfl, -⟩ := jsonConfig_counts h
    rfl
  | keyref h =>
    obtain ⟨u0, redacted, label, -, -, -, -, rfl⟩ := jsonKeyref_ok h
    rfl
  | firmware h =>
    obtain ⟨ver, mj, mi, pa, hash, -, -, -, -, -, rfl⟩ := jsonFirmware_ok h
    rfl

/-- The lengths of an imported object describe its buffers, the samples and pairs cut to the count. -/
theorem jimportRecord_wellFormed {ft : FloatText} {obj : Json} {rec : Record}
    (h : jimportRecord ft obj = .ok rec) : rec.WellFormed := by
  obtain ⟨tag, -, h⟩ := jimportRecord_case h
  cases h with
  | heartbeat h => exact (jsonHeartbeat_wellFormed h).1
  | sensor h => exact (jsonSensor_wellFormed h).1
  | event h => exact (jsonEvent_wellFormed h).1
  | diag h => exact (jsonDiag_survives h).1
  | geo h => exact (jsonGeo_wellFormed h).1
  | battery h => exact (jsonBattery_wellFormed h).1
  | net h => exact (jsonNet_survives h).1
  | log h => exact (jsonLog_survives h).1
  | config h =>
    obtain ⟨n, pairs, rfl, hw⟩ := jsonConfig_counts h
    exact hw
  | keyref h => exact (jsonKeyref_survives h).1
  | firmware h => exact (jsonFirmware_wellFormed h).1

/-- The counts of the other objects are there to begin with. -/
theorem countsItems_of_tag {obj : Json} {rec : Record}
    (htag : jsonU32 obj "tag" = some rec.tag.toUInt32) (h1 : rec.tag ≠ REC_SENSOR)
    (h2 : rec.tag ≠ REC_CONFIG) : CountsItems obj rec ∧ itemCount obj = none := by
  constructor
  · cases rec with
    | sensor r => exact absurd rfl h1
    | config r => exact absurd rfl h2
    | _ => trivial
  · have hne1 : jsonU32 obj "tag" ≠ some REC_SENSOR.toUInt32 := by
      rw [htag]
      intro heq
      exact h1 (UInt8.toUInt32_inj.mp (Option.some.inj heq))
    have hne2 : jsonU32 obj "tag" ≠ some REC_CONFIG.toUInt32 := by
      rw [htag]
      intro heq
      exact h2 (UInt8.toUInt32_inj.mp (Option.some.inj heq))
    rw [itemCount, if_neg hne1, if_neg hne2]

theorem ofNat_toNat_of_le {n : Nat} (h : n ≤ 255) : (UInt8.ofNat n).toNat = n := by
  rw [UInt8.toNat_ofNat']
  omega

/-- The count of an object that fits is the number of its items. -/
theorem jimportRecord_counts {ft : FloatText} {obj : Json} {rec : Record}
    (hfit : ObjectFits ft obj) (h : jimportRecord ft obj = .ok rec) :
    CountsItems obj rec ∧ ∀ n, itemCount obj = some n → n ≤ 255 := by
  obtain ⟨tag, htag, h⟩ := jimportRecord_case h
  by_cases hs : tag = REC_SENSOR
  · subst hs
    cases h with
    | sensor h =>
      obtain ⟨u0, items, samples, hu0, hid, hget, hlen, hsamples, rfl⟩ := jsonSensor_ok h
      have hno := hfit.sensor htag items (sensorItems_ok hu0 hid hget hlen)
      have hle := length_le_of_passed isNum_of_converts (jsonSamples_converts hsamples) hno
      have hn : itemCount obj = some items.length := by rw [itemCount, if_pos htag, hget]
      simp [CountsItems, hn, ofNat_toNat_of_le hle, hle]
  by_cases hc : tag = REC_CONFIG
  · subst hc
    cases h with
    | config h =>
      obtain ⟨items, pairs, hget, hlen, hpairs, rfl⟩ := jsonConfig_ok h
      have hno := hfit.config htag items (configItems_ok hget hlen)
      have hle := length_le_of_passed (fun _ h => h) (jsonPairs_isStr hpairs) hno
      have hne : jsonU32 obj "tag" ≠ some REC_SENSOR.toUInt32 := by
        simp [htag, REC_CONFIG, REC_SENSOR]
      have hn : itemCount obj = some items.length := by
        rw [itemCount, if_neg hne, if_pos htag, hget]
      simp [CountsItems, hn, ofNat_toNat_of_le hle, hle]
  have heq := h.tag
  subst heq
  obtain ⟨hcounts, hnone⟩ := countsItems_of_tag htag hs hc
  exact ⟨hcounts, by simp [hnone]⟩

/-- **When the buffers of an object hold.** -/
theorem jimportRecord_buffers_iff (ft : FloatText) (obj : Json) :
    BuffersHold ft obj ↔ ObjectFits ft obj := by
  constructor
  · intro h
    exact jimportBlock_inside_iff.mp h.inside
  · intro hfit
    refine ⟨jimportBlock_inside_iff.mpr hfit, ?_, ?_⟩
    · intro rec hrec
      exact ⟨jimportRecord_wellFormed hrec, (jimportRecord_counts hfit hrec).1⟩
    · intro n hn hlong
      cases hrec : jimportRecord ft obj with
      | error rc => exact ⟨rc, rfl⟩
      | ok rec =>
        have hle := (jimportRecord_counts hfit hrec).2 n hn
        omega

/-- A `SENSOR` object with the given number of samples, each of them `0`. -/
def zeroSamples (n : Nat) : Json :=
  .obj [(cstr (ascii "tag"), .num (ascii "17")), (cstr (ascii "sensor_id"), .num (ascii "1")),
    (cstr (ascii "samples"), .arr (List.replicate n (.num (ascii "0"))))]

/-- The conversion of the text `0`. -/
def zeroFloats : FloatText := { noFloats with strtof := fun s => if s = ascii "0" then some 0 else none }

/-- An object with 256 samples is imported as a record without any: its block has room for one sample,
and all 256 are stored. -/
theorem jimportRecord_overruns :
    jimportBlock zeroFloats (zeroSamples 256) = some ⟨1, List.range 256⟩ ∧
      jimportRecord zeroFloats (zeroSamples 256) = .ok (.sensor ⟨1, 0, []⟩) ∧
      ¬ BuffersHold zeroFloats (zeroSamples 256) := by
  have hblock : jimportBlock zeroFloats (zeroSamples 256) = some ⟨1, List.range 256⟩ := by
    decide +kernel
  refine ⟨hblock, by decide +kernel, ?_⟩
  intro h
  have hlast := h.inside _ hblock 255 (by simp)
  exact absurd hlast (by simp)

end Dtl
