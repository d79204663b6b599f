import Mathlib.Tactic.IntervalCases
import TelemetryForge.Lib.Slots
import TelemetryForge.Lib.CText
import TelemetryForge.Core.Buf

/-!
# The hex dump

`dtl_hexdump` formats each row of 16 bytes into a buffer of 80 characters, one store at a time, and
hands it to `fputs`: an offset of eight digits, two groups of eight columns, and the row once more as
text.  A store outside the buffer, or a text without its end marker, is a fault; `line` is whatever the
buffer held before.

Principal result: `hexdump_reads` — no byte string makes a store outside the buffer, and what is
printed reads back as the bytes.
-/

set_option autoImplicit false

namespace Dtl

open Checked CText

def HEXDUMP_COLS : Nat := 16

def HEXDUMP_LINE : Nat := 80

/-- `char line[80]`. -/
abbrev HexLine := {line : Bytes // line.length = HEXDUMP_LINE}

def hexdumpPrintable (c : UInt8) : UInt8 := if c ≥ 0x20 ∧ c ≤ 0x7e then c else 46

/-- `hexd[i]`. -/
def hexd (i : Nat) : UInt8 := (ascii "0123456789abcdef").getD i 0

/-- The buffer and `p`. -/
structure LineState where
  line : Bytes
  p : Nat

/-- `line[p++] = c;`. -/
def linePut (st : LineState) (c : UInt8) : Run Err LineState := do
  let line ← Slots.store st.line st.p c
  return ⟨line, st.p + 1⟩

section Row

variable (data : Bytes) (row : Nat)

/-- The offset, from its most significant digit on. -/
def lineOffset (st : LineState) : Run Err LineState := do
  let st ← [28, 24, 20, 16, 12, 8, 4, 0].foldlM (fun st sh => linePut st (hexd (row >>> sh &&& 0xf))) st
  let st ← linePut st 32
  linePut st 32

/-- The two digits of a column, or blanks past the end of the data, and the gaps. -/
def lineColumn (st : LineState) (col : Nat) : Run Err LineState := do
  let st ←
    match data[row + col]? with
    | some b => do
      let st ← linePut st (hexd (b.toNat >>> 4))
      linePut st (hexd (b.toNat &&& 0xf))
    | none => do
      let st ← linePut st 32
      linePut st 32
  let st ← linePut st 32
  if col = 7 then linePut st 32 else return st

/-- A column of the text. -/
def lineChar (st : LineState) (col : Nat) : Run Err LineState :=
  match data[row + col]? with
  | some b => linePut st (hexdumpPrintable b)
  | none => return st

/-- The loop body up to `fputs`. -/
def hexdumpRow (line : Bytes) : Run Err Bytes := do
  let st ← lineOffset row ⟨line, 0⟩
  let st ← (List.range HEXDUMP_COLS).foldlM (lineColumn data row) st
  let st ← linePut st 32
  let st ← linePut st 124
  let st ← (List.range HEXDUMP_COLS).foldlM (lineChar data row) st
  let st ← linePut st 124
  let st ← linePut st 10
  Slots.store st.line st.p 0

end Row

/-- The characters before the end marker. -/
def fputs (line : Bytes) : Run Err Bytes :=
  if 0 ∈ line then .ok (line.takeWhile (· ≠ 0)) else .error .outside

/-- The rows from one offset on. -/
def hexdumpFrom (data : Bytes) (row : Nat) (line : Bytes) : Run Err Bytes :=
  if row < data.length then do
    let line ← hexdumpRow data row line
    let text ← fputs line
    let rest ← hexdumpFrom data (row + HEXDUMP_COLS) line
    return text ++ rest
  else return []
termination_by data.length - row
decreasing_by all_goals simp only [HEXDUMP_COLS]; omega

/-- `dtl_hexdump`. -/
def hexdump (line : HexLine) (data : Bytes) : Run Err Bytes := hexdumpFrom data 0 line.val

/-! ## What a row says -/

section RowText

variable (data : Bytes) (row : Nat)

def offsetText : Bytes :=
  [28, 24, 20, 16, 12, 8, 4, 0].map fun sh => hexd (row >>> sh &&& 0xf)

/-- The two characters of a column. -/
def pairText (col : Nat) : UInt8 × UInt8 :=
  match data[row + col]? with
  | some b => (hexd (b.toNat >>> 4), hexd (b.toNat &&& 0xf))
  | none => (32, 32)

def columnText (col : Nat) : Bytes :=
  (pairText data row col).1 :: (pairText data row col).2 :: 32 :: if col = 7 then [32] else []

def charText (col : Nat) : Bytes := (data[row + col]?.map hexdumpPrintable).toList

/-- A row up to its end of line. -/
def rowText : Bytes :=
  offsetText row ++ [32, 32] ++ (List.range HEXDUMP_COLS).flatMap (columnText data row) ++ [32, 124] ++
    (List.range HEXDUMP_COLS).flatMap (charText data row) ++ [124]

end RowText

/-! ## Formatting -/

/-- The buffer starts with what was formatted. -/
structure LineState.Holds (st : LineState) (text : Bytes) : Prop where
  filled : Slots.Filled HEXDUMP_LINE st.line text
  p : st.p = text.length

/-- **Characters are appended as long as there is room.** -/
theorem linePuts_holds : ∀ (cs : Bytes) {st : LineState} {text : Bytes}, st.Holds text →
    text.length + cs.length ≤ HEXDUMP_LINE →
      ∃ st', cs.foldlM linePut st = .ok st' ∧ st'.Holds (text ++ cs)
  | [], st, text, h, _ => ⟨st, rfl, by simpa using h⟩
  | c :: cs, st, text, h, hroom => by
    rw [List.length_cons] at hroom
    obtain ⟨line, hstore, hfilled⟩ := h.filled.push (ε := Err) c (by omega)
    have hput : linePut st c = .ok ⟨line, st.p + 1⟩ := by
      rw [linePut, h.p, hstore]
      rfl
    obtain ⟨st', hputs, hholds⟩ := @linePuts_holds cs ⟨line, st.p + 1⟩ (text ++ [c])
      ⟨hfilled, by simp [h.p]⟩ (by simp; omega)
    refine ⟨st', ?_, by simpa using hholds⟩
    rw [List.foldlM_cons, hput]
    exact hputs

theorem linePut_last (x : Run Err LineState) : (x >>= fun st => .ok st) = x := bind_pure x

theorem lineOffset_eq (row : Nat) (st : LineState) :
    lineOffset row st = (offsetText row ++ [32, 32]).foldlM linePut st := by
  rw [List.foldlM_append, offsetText, List.foldlM_map]
  simp [lineOffset, linePut_last]

theorem lineColumn_eq (data : Bytes) (row : Nat) (st : LineState) (col : Nat) :
    lineColumn data row st col = (columnText data row col).foldlM linePut st := by
  unfold lineColumn columnText pairText
  cases data[row + col]? <;> by_cases hcol : col = 7 <;> simp [hcol, linePut_last]

theorem lineChar_eq (data : Bytes) (row : Nat) (st : LineState) (col : Nat) :
    lineChar data row st col = (charText data row col).foldlM linePut st := by
  unfold lineChar charText
  cases data[row + col]? <;> simp [linePut_last]

/-- A loop over the columns appends their texts. -/
theorem columns_eq {f : LineState → Nat → Run Err LineState} {text : Nat → Bytes}
    (h : ∀ st col, f st col = (text col).foldlM linePut st) : ∀ (cols : List Nat) (st : LineState),
      cols.foldlM f st = (cols.flatMap text).foldlM linePut st
  | [], _ => rfl
  | col :: cols, st => by
    rw [List.foldlM_cons, List.flatMap_cons, List.foldlM_append, h]
    exact congrArg _ (funext fun st' => columns_eq h cols st')

theorem hexdumpRow_eq (data : Bytes) (row : Nat) (line : Bytes) :
    hexdumpRow data row line = (rowText data row ++ [10]).foldlM linePut ⟨line, 0⟩ >>= fun st =>
      Slots.store st.line st.p 0 := by
  simp [hexdumpRow, rowText, lineOffset_eq, columns_eq (lineColumn_eq data row),
    columns_eq (lineChar_eq data row)]

/-! ## The length of a row -/

theorem hexd_eq {i : Nat} (h : i < 16) : hexd i = hexDigit i := by
  revert h
  revert i
  decide

theorem columnText_length (data : Bytes) (row col : Nat) :
    (columnText data row col).length = if col = 7 then 4 else 3 := by
  unfold columnText
  split <;> rfl

theorem charsText_length_le (data : Bytes) (row : Nat) (cols : List Nat) :
    (cols.flatMap (charText data row)).length ≤ cols.length := by
  induction cols with
  | nil => exact Nat.le_refl 0
  | cons col cols ih =>
    rw [List.flatMap_cons, List.length_append, List.length_cons]
    have hone : (charText data row col).length ≤ 1 := by
      unfold charText
      cases data[row + col]? <;> simp
    omega

/-- A full row takes all of the buffer but the place of the end marker. -/
theorem rowText_length_le (data : Bytes) (row : Nat) : (rowText data row).length + 2 ≤ HEXDUMP_LINE := by
  have hchars := charsText_length_le data row (List.range HEXDUMP_COLS)
  have hcols : ((List.range HEXDUMP_COLS).flatMap (columnText data row)).length = 49 := by
    simp only [List.length_flatMap, columnText_length]
    rfl
  have hoffset : (offsetText row).length = 8 := rfl
  have hcount : HEXDUMP_COLS = 16 := rfl
  rw [List.length_range] at hchars
  simp only [rowText, List.length_append, hoffset, hcols, List.length_cons, List.length_nil,
    HEXDUMP_LINE]
  omega

/-! ## The characters of a row -/

/-- Printable ASCII. -/
def Printable (c : UInt8) : Prop := 0x20 ≤ c ∧ c ≤ 0x7e

theorem hexdumpPrintable_printable (c : UInt8) : Printable (hexdumpPrintable c) := by
  unfold hexdumpPrintable
  split
  · assumption
  · exact ⟨by decide, by decide⟩

theorem hexd_printable : ∀ i < 16, 0x20 ≤ hexd i ∧ hexd i ≤ 0x7e := by decide

theorem nibble_lt (n : Nat) : n &&& 0xf < 16 := Nat.lt_succ_of_le Nat.and_le_right

theorem byte_high_lt (b : UInt8) : b.toNat >>> 4 < 16 := by
  have := b.toNat_lt
  rw [Nat.shiftRight_eq_div_pow]
  omega

theorem pairText_printable (data : Bytes) (row col : Nat) :
    Printable (pairText data row col).1 ∧ Printable (pairText data row col).2 := by
  unfold pairText
  cases data[row + col]? with
  | none => exact ⟨⟨by decide, by decide⟩, ⟨by decide, by decide⟩⟩
  | some b => exact ⟨hexd_printable _ (byte_high_lt b), hexd_printable _ (nibble_lt _)⟩

theorem rowText_printable (data : Bytes) (row : Nat) : ∀ c ∈ rowText data row, Printable c := by
  have hblank : Printable 32 := ⟨by decide, by decide⟩
  have hbar : Printable 124 := ⟨by decide, by decide⟩
  intro c hc
  simp only [rowText, List.mem_append, List.mem_flatMap, List.mem_cons, List.not_mem_nil, or_false] at hc
  rcases hc with ((((hc | rfl | rfl) | ⟨col, -, hc⟩) | rfl | rfl) | ⟨col, -, hc⟩) | rfl
  · obtain ⟨sh, -, rfl⟩ := List.mem_map.mp hc
    exact hexd_printable _ (nibble_lt _)
  · exact hblank
  · exact hblank
  · obtain ⟨hfst, hsnd⟩ := pairText_printable data row col
    simp only [columnText, List.mem_cons] at hc
    rcases hc with rfl | rfl | rfl | hc
    · exact hfst
    · exact hsnd
    · exact hblank
    · split at hc
      · rw [List.mem_singleton.mp hc]
        exact hblank
      · cases hc
  · exact hblank
  · exact hbar
  · unfold charText at hc
    cases hb : data[row + col]? with
    | none => simp [hb] at hc
    | some b =>
      simp only [hb, Option.map_some, Option.toList_some, List.mem_singleton] at hc
      exact hc ▸ hexdumpPrintable_printable b
  · exact hbar

/-! ## What is printed -/

theorem fputs_eq {text rest : Bytes} (h : ∀ c ∈ text, c ≠ 0) : fputs (text ++ 0 :: rest) = .ok text := by
  rw [fputs, if_pos (by simp), List.takeWhile_append_of_pos (by simpa using h)]
  simp

/-- **A row stays inside the buffer** and is printed up to its end of line. -/
theorem hexdumpRow_holds (data : Bytes) (row : Nat) {line : Bytes} (hlen : line.length = HEXDUMP_LINE) :
    ∃ line', hexdumpRow data row line = .ok line' ∧ line'.length = HEXDUMP_LINE ∧
      fputs line' = .ok (rowText data row ++ [10]) := by
  have hroom := rowText_length_le data row
  obtain ⟨st, hputs, hst⟩ := @linePuts_holds (rowText data row ++ [10]) ⟨line, 0⟩ []
    ⟨.nil hlen, rfl⟩ (by simp; omega)
  rw [List.nil_append] at hst
  obtain ⟨line', hstore, hfilled⟩ := hst.filled.push (ε := Err) 0 (by simp; omega)
  refine ⟨line', ?_, hfilled.length, ?_⟩
  · rw [hexdumpRow_eq, hputs, Except.bind_ok_eq, hst.p, hstore]
  · rw [hfilled.split, List.append_assoc, List.singleton_append, fputs_eq]
    rw [List.forall_mem_append]
    refine ⟨fun c hc => ?_, by simp⟩
    rintro rfl
    exact absurd (rowText_printable data row 0 hc).1 (by decide)

/-- The rows from one offset on, as a text. -/
def hexdumpText (data : Bytes) (row : Nat) : Bytes :=
  if row < data.length then rowText data row ++ 10 :: hexdumpText data (row + HEXDUMP_COLS) else []
termination_by data.length - row
decreasing_by simp only [HEXDUMP_COLS]; omega

theorem hexdumpFrom_eq (data : Bytes) (row : Nat) {line : Bytes} (hlen : line.length = HEXDUMP_LINE) :
    hexdumpFrom data row line = .ok (hexdumpText data row) := by
  rw [hexdumpFrom, hexdumpText]
  split
  · rename_i hrow
    obtain ⟨line', hline, hlen', hfputs⟩ := hexdumpRow_holds data row hlen
    have hrest := hexdumpFrom_eq data (row + HEXDUMP_COLS) hlen'
    simp [hline, hfputs, hrest]
  · rfl
termination_by data.length - row
decreasing_by simp only [HEXDUMP_COLS]; omega

/-! ## Reading a dump -/

/-- The byte in a column of a row, when there is one. -/
def undumpColumn (text : Bytes) (col : Nat) : Option UInt8 := do
  let pos := 10 + 3 * col + if col < 8 then 0 else 1
  let hi ← text[pos]?.bind hexVal
  let lo ← text[pos + 1]?.bind hexVal
  return UInt8.ofNat (hi * 16 + lo)

def undumpLine (text : Bytes) : Bytes := (List.range HEXDUMP_COLS).filterMap (undumpColumn text)

/-- The bytes that a dump shows. -/
def undump (text : Bytes) : Bytes := (text.splitOn 10).flatMap undumpLine

/-- A column stands where the reader looks for it. -/
theorem rowText_column (data : Bytes) (row : Nat) {col : Nat} (h : col < HEXDUMP_COLS) :
    (rowText data row)[10 + 3 * col + if col < 8 then 0 else 1]? = some (pairText data row col).1 ∧
      (rowText data row)[10 + 3 * col + (if col < 8 then 0 else 1) + 1]? =
        some (pairText data row col).2 := by
  have hcount : HEXDUMP_COLS = 16 := rfl
  rw [hcount] at h
  interval_cases col <;> exact ⟨rfl, rfl⟩

theorem undumpColumn_row (data : Bytes) (row : Nat) {col : Nat} (h : col < HEXDUMP_COLS) :
    undumpColumn (rowText data row) col = data[row + col]? := by
  obtain ⟨hfst, hsnd⟩ := rowText_column data row h
  simp only [undumpColumn, hfst, hsnd, Option.bind_some, pairText]
  cases data[row + col]? with
  | none => rfl
  | some b =>
    have hhi := byte_high_lt b
    have hlo := nibble_lt b.toNat
    have hval : b.toNat >>> 4 * 16 + (b.toNat &&& 0xf) = b.toNat := by
      have hand : b.toNat &&& 0xf = b.toNat % 16 := Nat.and_two_pow_sub_one_eq_mod b.toNat 4
      rw [hand, Nat.shiftRight_eq_div_pow]
      omega
    dsimp only
    rw [hexd_eq hhi, hexd_eq hlo, hexVal_hexDigit hhi, hexVal_hexDigit hlo]
    show some (UInt8.ofNat (b.toNat >>> 4 * 16 + (b.toNat &&& 0xf))) = some b
    rw [hval, UInt8.ofNat_toNat]

theorem filterMap_range (data : Bytes) : ∀ (n row : Nat),
    (List.range n).filterMap (fun col => data[row + col]?) = (data.drop row).take n
  | 0, row => by simp
  | n + 1, row => by
    rw [List.range_succ, List.filterMap_append, filterMap_range data n row, List.take_add_one,
      List.getElem?_drop]
    cases hb : data[row + n]? <;> simp [hb]

/-- **A row reads back as its bytes.** -/
theorem undumpLine_row (data : Bytes) (row : Nat) :
    undumpLine (rowText data row) = (data.drop row).take HEXDUMP_COLS := by
  rw [← filterMap_range, undumpLine]
  refine List.filterMap_congr fun col hcol => ?_
  exact undumpColumn_row data row (List.mem_range.mp hcol)

theorem undump_hexdumpText (data : Bytes) (row : Nat) : undump (hexdumpText data row) = data.drop row := by
  rw [hexdumpText]
  split
  · have hrest := undump_hexdumpText data (row + HEXDUMP_COLS)
    have hsplit : ∀ c ∈ rowText data row, (c == 10) = false := by
      intro c hc
      have := (rowText_printable data row c hc).1
      rw [beq_eq_false_iff_ne]
      rintro rfl
      exact absurd this (by decide)
    rw [undump, List.splitOn_eq_splitOnP, List.splitOnP_append_cons_of_forall_mem hsplit 10 rfl,
      List.flatMap_cons, undumpLine_row, ← List.splitOn_eq_splitOnP]
    rw [undump] at hrest
    rw [hrest, ← List.drop_drop, List.take_append_drop]
  · rename_i hrow
    rw [List.drop_eq_nil_of_le (by omega)]
    rfl
termination_by data.length - row
decreasing_by simp only [HEXDUMP_COLS]; omega

/-- **A dump stays inside its buffer and shows every byte.** Whatever the buffer held and whatever is
dumped, no store leaves the 80 characters, every text handed to `fputs` is ended, and the hexadecimal
columns of what is printed read back as the data. -/
theorem hexdump_reads (line : HexLine) (data : Bytes) :
    ∃ text, hexdump line data = .ok text ∧ undump text = data := by
  refine ⟨hexdumpText data 0, hexdumpFrom_eq data 0 line.property, ?_⟩
  rw [undump_hexdumpText, List.drop_zero]

end Dtl
