import TelemetryForge.Report.Printed

/-!
# Importing a CSV export

An exported row is a list of columns, each written as it is or in quotes.  Lines are split at every
newline and cut at the first NUL before the quotes are looked at; a string with one of the two in it
leaves a quote open at the end of its line, which the tokenizer refuses.  So a row is either refused
or tokenized to the texts of its columns.

Principal results: `csvTexts_row` — that alternative; `csvImportRow_cols` — the columns of a record
stand for the record; `exportCsv_import` — importing a CSV export is faithful or refused, and succeeds
on records whose strings, columns and rows are within bounds.
-/

set_option autoImplicit false

namespace Dtl

open CText

/-! ## Columns -/

/-- Text that is written as it is: no quote, comma, line end or NUL. -/
abbrev BareText := {s : Bytes // ∀ c ∈ s, c ≠ 34 ∧ c ≠ 44 ∧ c ≠ 10 ∧ c ≠ 13 ∧ c ≠ 0}

/-- A column of a row. -/
inductive CsvCol where
  | bare (s : BareText)
  | quoted (s : Bytes)

/-- The text a column stands for. -/
def CsvCol.text : CsvCol → Bytes
  | bare s => s.val
  | quoted s => s

/-- The text as it is written. -/
def CsvCol.cell : CsvCol → Bytes
  | bare s => s.val
  | quoted s => exportCsvString s

/-- The inside of a quoted column. -/
def quoteText (s : Bytes) : Bytes := s.flatMap fun c => if c = 34 then [34, c] else [c]

/-- The text of a row. -/
def csvRowText (cols : List CsvCol) : Bytes := commaJoin (cols.map CsvCol.cell)

theorem quoteText_cons (c : UInt8) (s : Bytes) :
    quoteText (c :: s) = (if c = 34 then [34, c] else [c]) ++ quoteText s := by
  rw [quoteText, List.flatMap_cons]
  rfl

theorem quoteText_append (s t : Bytes) : quoteText (s ++ t) = quoteText s ++ quoteText t := by
  rw [quoteText, List.flatMap_append]
  rfl

theorem mem_quoteText {c : UInt8} {s : Bytes} (hc : c ≠ 34) : c ∈ quoteText s ↔ c ∈ s := by
  rw [quoteText, List.mem_flatMap]
  constructor
  · rintro ⟨d, hd, hmem⟩
    split at hmem
    · rename_i h34
      simp only [List.mem_cons, List.not_mem_nil, or_false, h34, or_self] at hmem
      exact absurd hmem hc
    · rwa [List.mem_singleton.mp hmem]
  · intro h
    exact ⟨c, h, by rw [if_neg hc]; simp⟩

/-! ## The tokenizer on columns -/

/-- A character of a quoted column is stored, whether it is a doubled quote or not. -/
theorem csvQuoted_char (n : Nat) (c : UInt8) (p : Bytes) :
    csvQuoted n ((if c = 34 then [34, c] else [c]) ++ p) = csvStore n c (csvQuoted (n + 1) p) := by
  split
  · rename_i h34
    subst h34
    rfl
  · rename_i h34
    rw [List.singleton_append, csvQuoted.eq_def]
    dsimp only
    rw [if_neg h34]

theorem csvStore_ok {n : Nat} {c : UInt8} {s rest : Bytes} (hn : n < IMPORT_FIELD_CAP) :
    csvStore n c (if n + 1 + s.length < IMPORT_FIELD_CAP then .ok (s, rest) else .error .badRecord) =
      if n + (c :: s).length < IMPORT_FIELD_CAP then .ok (c :: s, rest) else .error .badRecord := by
  have hlen : n + (c :: s).length = n + 1 + s.length := by
    rw [List.length_cons]
    omega
  unfold csvStore
  rw [hlen]
  by_cases hroom : n + 1 ≥ IMPORT_FIELD_CAP
  · rw [if_pos hroom, if_neg (by omega)]
  · rw [if_neg hroom]
    split <;> rfl

/-- A quoted column that is closed. -/
theorem csvQuoted_closed (rest : Bytes) (hrest : rest.head? ≠ some 34) : ∀ (s : Bytes) (n : Nat),
    n < IMPORT_FIELD_CAP → csvQuoted n (quoteText s ++ 34 :: rest) =
      if n + s.length < IMPORT_FIELD_CAP then .ok (s, rest) else .error .badRecord
  | [], n, hn => by
    rw [if_pos (by simpa using hn)]
    cases rest with
    | nil => rfl
    | cons d p =>
      have hd : d ≠ 34 := by simpa using hrest
      show csvQuoted n (34 :: d :: p) = _
      rw [csvQuoted, if_pos rfl, if_neg hd]
  | c :: s, n, hn => by
    rw [quoteText_cons, List.append_assoc, csvQuoted_char]
    by_cases hroom : n + 1 < IMPORT_FIELD_CAP
    · rw [csvQuoted_closed rest hrest s (n + 1) hroom, csvStore_ok hn]
    · rw [csvStore, if_pos (by omega), if_neg (by rw [List.length_cons]; omega)]

/-- A quoted column that the line does not close. -/
theorem csvQuoted_open : ∀ (s : Bytes) (n : Nat), csvQuoted n (quoteText s) = .error .badRecord
  | [], _ => rfl
  | c :: s, n => by
    rw [quoteText_cons, csvQuoted_char, csvQuoted_open s (n + 1)]
    unfold csvStore
    split <;> rfl

/-- What follows a column: nothing, or a comma. -/
def CsvEnd (rest : Bytes) : Prop := rest = [] ∨ rest.head? = some 44

theorem csvBare_text {rest : Bytes} (hrest : CsvEnd rest) : ∀ (s : Bytes) (n : Nat),
    (∀ c ∈ s, c ≠ 44) → n < IMPORT_FIELD_CAP → csvBare n (s ++ rest) =
      if n + s.length < IMPORT_FIELD_CAP then .ok (s, rest) else .error .badRecord
  | [], n, _, hn => by
    rw [if_pos (by simpa using hn), List.nil_append]
    rcases hrest with rfl | hrest
    · rfl
    · cases rest with
      | nil => cases hrest
      | cons c p =>
        have hc : c = 44 := by simpa using hrest
        rw [csvBare, if_pos hc]
  | c :: s, n, hs, hn => by
    rw [List.forall_mem_cons] at hs
    rw [List.cons_append, csvBare, if_neg hs.1]
    by_cases hroom : n + 1 < IMPORT_FIELD_CAP
    · rw [csvBare_text hrest s (n + 1) hs.2 hroom, csvStore_ok hn]
    · rw [csvStore, if_pos (by omega), if_neg (by rw [List.length_cons]; omega)]

/-- **A column is tokenized to its text**, or refused for its length. -/
theorem csvField_cell (col : CsvCol) {rest : Bytes} (hrest : CsvEnd rest) :
    csvField (col.cell ++ rest) =
      if col.text.length < IMPORT_FIELD_CAP then .ok (col.text, rest) else .error .badRecord := by
  have hpos : 0 < IMPORT_FIELD_CAP := by decide
  cases col with
  | bare s =>
    obtain ⟨s, hs⟩ := s
    have hbare := csvBare_text hrest s 0 (fun c hc => (hs c hc).2.1) hpos
    rw [Nat.zero_add] at hbare
    show csvField (s ++ rest) = _
    refine Eq.trans ?_ hbare
    cases hcons : s ++ rest with
    | nil => rfl
    | cons c p =>
      have hc : c ≠ 34 := by
        cases s with
        | nil =>
          rw [List.nil_append] at hcons
          subst hcons
          rcases hrest with h | h
          · cases h
          · rintro rfl
            cases h
        | cons d s =>
          cases hcons
          exact (hs c (by simp)).1
      rw [csvField, if_neg hc]
  | quoted s =>
    have hhead : rest.head? ≠ some 34 := by
      rcases hrest with rfl | h
      · simp
      · rw [h]
        decide
    have hcell : (CsvCol.quoted s).cell ++ rest = 34 :: (quoteText s ++ 34 :: rest) := by
      simp [CsvCol.cell, exportCsvString, quoteText]
    rw [hcell, csvField, if_pos rfl, csvQuoted_closed rest hhead s 0 hpos, Nat.zero_add]
    show _ = if s.length < IMPORT_FIELD_CAP then Except.ok (s, rest) else _
    split
    · rcases hrest with rfl | h
      · rfl
      · cases rest with
        | nil => cases h
        | cons c p =>
          have hc : c = 44 := by simpa using h
          show csvClosed (s, c :: p) = _
          rw [csvClosed, if_pos hc]
    · rfl

/-- **The columns of a row are tokenized to their texts**, or the row is refused for their lengths. -/
theorem csvFields_row : ∀ (cols : List CsvCol) (k : Nat), cols ≠ [] → cols.length ≤ k →
    csvFields k (csvRowText cols) =
      if ∀ col ∈ cols, col.text.length < IMPORT_FIELD_CAP then .ok (cols.map CsvCol.text)
      else .error .badRecord
  | [], _, h, _ => absurd rfl h
  | [col], k + 1, _, _ => by
    have hfield := csvField_cell col (show CsvEnd [] from .inl rfl)
    rw [List.append_nil] at hfield
    show csvFields (k + 1) col.cell = _
    rw [csvFields, hfield]
    simp only [List.forall_mem_singleton]
    split <;> rfl
  | col :: col' :: cols, k + 1, _, hk => by
    have ih := csvFields_row (col' :: cols) k (by simp) (by simpa using hk)
    have hfield := csvField_cell col (show CsvEnd (44 :: csvRowText (col' :: cols)) from .inr rfl)
    show csvFields (k + 1) (col.cell ++ 44 :: csvRowText (col' :: cols)) = _
    rw [csvFields, hfield]
    simp only [List.forall_mem_cons (a := col)]
    by_cases hcol : col.text.length < IMPORT_FIELD_CAP
    · rw [if_pos hcol, Except.bind_ok_eq]
      dsimp only
      rw [ih]
      simp only [hcol, true_and]
      split <;> rfl
    · rw [if_neg hcol, if_neg (by simp [hcol])]
      rfl
  | [_], 0, _, hk => by simp at hk
  | _ :: _ :: _, 0, _, hk => by simp at hk

/-- A row that breaks off in a quoted column is refused. -/
theorem csvFields_open (s : Bytes) : ∀ (cols : List CsvCol) (k : Nat),
    csvFields k (commaJoin (cols.map CsvCol.cell ++ [34 :: quoteText s])) = .error .badRecord
  | _, 0 => rfl
  | [], k + 1 => by
    show csvFields (k + 1) (34 :: quoteText s) = _
    rw [csvFields, csvField, if_pos rfl, csvQuoted_open]
    rfl
  | col :: cols, k + 1 => by
    have ih := csvFields_open s cols k
    have hjoin : commaJoin ((col :: cols).map CsvCol.cell ++ [34 :: quoteText s]) =
        col.cell ++ 44 :: commaJoin (cols.map CsvCol.cell ++ [34 :: quoteText s]) := by
      cases cols <;> rfl
    rw [hjoin, csvFields, csvField_cell col (.inr rfl)]
    split
    · rw [Except.bind_ok_eq]
      dsimp only
      rw [ih]
      rfl
    · rfl

/-! ## Lines -/

/-- A string that leaves a row in one piece. -/
def Unbroken (s : Bytes) : Prop := (10 : UInt8) ∉ s ∧ (0 : UInt8) ∉ s

instance (s : Bytes) : Decidable (Unbroken s) := inferInstanceAs (Decidable (_ ∧ _))

theorem commaJoin_append_cons (ts us : List Bytes) (a b : Bytes) :
    commaJoin (ts ++ (a ++ b) :: us) = commaJoin (ts ++ [a]) ++ (b ++ us.flatMap csvColumn) := by
  cases ts with
  | nil => simp [commaJoin_cons]
  | cons t ts => simp [commaJoin_cons, csvColumn]

/-- A character of a row is a comma or a character of one of its cells. -/
theorem mem_commaJoin {c : UInt8} : ∀ {ts : List Bytes}, c ∈ commaJoin ts → c = 44 ∨ ∃ t ∈ ts, c ∈ t
  | [], h => by cases h
  | t :: ts, h => by
    rw [commaJoin_cons, List.mem_append, List.mem_flatMap] at h
    rcases h with h | ⟨u, hu, h⟩
    · exact .inr ⟨t, by simp, h⟩
    · rcases List.mem_cons.mp h with rfl | h
      · exact .inl rfl
      · exact .inr ⟨u, by simp [hu], h⟩

theorem CsvCol.mem_cell {col : CsvCol} {c : UInt8} (h34 : c ≠ 34) (h : c ∈ col.cell) :
    c ∈ col.text := by
  cases col with
  | bare s => exact h
  | quoted s =>
    have h' : c ∈ 34 :: (quoteText s ++ [34]) := h
    rw [List.mem_cons, List.mem_append, List.mem_singleton] at h'
    rcases h' with h | h | h
    · exact absurd h h34
    · exact (mem_quoteText h34).mp h
    · exact absurd h h34

/-- A row of unbroken columns has neither a newline nor a NUL in it. -/
theorem csvRowText_unbroken {cols : List CsvCol} (h : ∀ col ∈ cols, Unbroken col.text) :
    Unbroken (csvRowText cols) := by
  have hmem : ∀ c : UInt8, c ≠ 34 → c ≠ 44 → c ∈ csvRowText cols → ∃ col ∈ cols, c ∈ col.text := by
    intro c h34 h44 hc
    rcases mem_commaJoin hc with hc | ⟨t, ht, hc⟩
    · exact absurd hc h44
    · obtain ⟨col, hcol, rfl⟩ := List.mem_map.mp ht
      exact ⟨col, hcol, col.mem_cell h34 hc⟩
  constructor
  · intro hc
    obtain ⟨col, hcol, hc⟩ := hmem 10 (by decide) (by decide) hc
    exact (h col hcol).1 hc
  · intro hc
    obtain ⟨col, hcol, hc⟩ := hmem 0 (by decide) (by decide) hc
    exact (h col hcol).2 hc

/-- The line without trailing carriage returns, cut at the first NUL. -/
def csvLine (line : Bytes) : Bytes := (cstr (stripCr line)).val

/-- Stripping stops at any other character. -/
theorem stripCr_append_cons (l : Bytes) {c : UInt8} (hc : c ≠ 13) (t : Bytes) :
    stripCr (l ++ c :: t) = l ++ c :: stripCr t := by
  induction t using List.reverseRecOn with
  | nil => exact List.rdropWhile_concat_neg _ _ _ (by simpa using hc)
  | append_singleton t d ih =>
    unfold stripCr at ih ⊢
    rw [← List.cons_append, ← List.append_assoc]
    by_cases hd : d = 13
    · rw [List.rdropWhile_concat_pos _ _ _ (by simpa using hd),
        List.rdropWhile_concat_pos _ _ _ (by simpa using hd), ih]
    · rw [List.rdropWhile_concat_neg _ _ _ (by simpa using hd),
        List.rdropWhile_concat_neg _ _ _ (by simpa using hd)]
      simp

/-- Stripping the inside of a quoted column leaves the inside of a shorter one. -/
theorem stripCr_quoteText (s : Bytes) : stripCr (quoteText s) = quoteText (stripCr s) := by
  induction s using List.reverseRecOn with
  | nil => rfl
  | append_singleton s c ih =>
    by_cases hc : c = 13
    · subst hc
      have hstrip : stripCr (s ++ [13]) = stripCr s := List.rdropWhile_concat_pos _ _ _ (by decide)
      rw [quoteText_append, hstrip, ← ih]
      exact List.rdropWhile_concat_pos _ _ _ (by decide)
    · have hstrip : stripCr (s ++ [c]) = s ++ [c] :=
        List.rdropWhile_concat_neg _ _ _ (by simpa using hc)
      have hlast : ∃ l, quoteText [c] = l ++ [c] := by
        by_cases h34 : c = 34
        · exact ⟨[34], by rw [h34]; rfl⟩
        · exact ⟨[], by simp [quoteText, h34]⟩
      obtain ⟨l, hl⟩ := hlast
      rw [hstrip, quoteText_append, hl, ← List.append_assoc]
      exact List.rdropWhile_concat_neg _ _ _ (by simpa using hc)

/-- The first element that fails a test splits the list. -/
theorem exists_first {α : Type} {p : α → Prop} [DecidablePred p] {l : List α} (h : ¬ ∀ x ∈ l, p x) :
    ∃ pre x post, l = pre ++ x :: post ∧ (∀ y ∈ pre, p y) ∧ ¬ p x := by
  cases hfind : l.find? (fun x => ¬ p x) with
  | none =>
    rw [List.find?_eq_none] at hfind
    exact absurd (fun x hx => by simpa using hfind x hx) h
  | some x =>
    obtain ⟨hx, pre, post, rfl, hpre⟩ := List.find?_eq_some_iff_append.mp hfind
    exact ⟨pre, x, post, rfl, fun y hy => by simpa using hpre y hy, by simpa using hx⟩

/-- A broken string breaks off its line inside the quotes. -/
theorem csvLine_broken {s : Bytes} (h : ¬ Unbroken s) (rest : Bytes) :
    ∃ s', csvLine ((quoteText s ++ rest).takeWhile (· ≠ 10)) = quoteText s' := by
  have hfirst : ¬ ∀ c ∈ s, c ≠ 10 ∧ c ≠ 0 := by
    intro hall
    exact h ⟨fun hc => (hall 10 hc).1 rfl, fun hc => (hall 0 hc).2 rfl⟩
  obtain ⟨s₁, b, s₂, rfl, hs₁, hb⟩ := exists_first hfirst
  have hnl : ∀ c ∈ quoteText s₁, (c ≠ 10) = true := fun c hc => by
    by_cases h34 : c = 34
    · simp [h34]
    · simpa using (hs₁ c ((mem_quoteText h34).mp hc)).1
  have hnul : ∀ {t : Bytes}, (∀ c ∈ t, c ≠ 0) → ∀ c ∈ quoteText t, (c ≠ 0) = true := by
    intro t ht c hc
    by_cases h34 : c = 34
    · simp [h34]
    · simpa using ht c ((mem_quoteText h34).mp hc)
  rw [quoteText_append, quoteText_cons, List.append_assoc]
  by_cases h10 : b = 10
  · -- a newline ends the line; carriage returns before it are dropped
    subst h10
    refine ⟨stripCr s₁, ?_⟩
    have hline : (quoteText s₁ ++ ((if (10 : UInt8) = 34 then [34, 10] else [10]) ++ quoteText s₂ ++
        rest)).takeWhile (· ≠ 10) = quoteText s₁ := by
      rw [List.takeWhile_append_of_pos (by simpa using hnl)]
      simp
    rw [hline, csvLine, stripCr_quoteText]
    apply cstr_of_not_mem
    intro h0
    have hmem : (0 : UInt8) ∈ stripCr s₁ := (mem_quoteText (by decide)).mp h0
    exact (hs₁ 0 ((List.rdropWhile_prefix _ _).mem hmem)).2 rfl
  · -- a NUL ends the string
    have h0 : b = 0 := by
      rw [not_and_or] at hb
      rcases hb with hb | hb
      · exact absurd (not_ne_iff.mp hb) h10
      · exact not_ne_iff.mp hb
    subst h0
    refine ⟨s₁, ?_⟩
    rw [List.takeWhile_append_of_pos (by simpa using hnl)]
    have hcons : ((if (0 : UInt8) = 34 then [34, 0] else [0]) ++ quoteText s₂ ++ rest).takeWhile (· ≠ 10) =
        0 :: (quoteText s₂ ++ rest).takeWhile (· ≠ 10) := by simp
    rw [hcons, csvLine, stripCr_append_cons _ (by decide)]
    show List.takeWhile _ _ = _
    rw [List.takeWhile_append_of_pos (by simpa using hnul (fun c hc => (hs₁ c hc).2))]
    simp

/-! ## Rows of a text -/

/-- What a line that is not the first is tokenized to. -/
theorem csvTokens_line {lineNo : Nat} {line : Bytes} (hno : lineNo ≠ 1) (hne : csvLine line ≠ []) :
    csvTokens lineNo (stripCr line) =
      match csvFields IMPORT_MAX_FIELDS (csvLine line) with
      | .error rc => if rc = .truncated then .ok none else .error rc
      | .ok row => .ok (some row) := by
  have hlen : (stripCr line).length ≠ 0 := by
    intro h0
    rw [List.length_eq_zero_iff] at h0
    exact hne (by rw [csvLine, h0]; rfl)
  rw [csvTokens, if_neg hlen, if_neg (by simp [hno]), csvParseRow]
  rw [if_neg (show ¬ (cstr (stripCr line)).val = [] from hne)]
  rfl

theorem csvTexts_line (k : Nat) {line rest data : Bytes} (hne : data ≠ [])
    (h : splitLine data = (line, rest)) :
    csvTexts k data =
      if line.length + 1 > IMPORT_LINE_CAP then [.error .badRecord]
      else csvTokens (k + 1) (stripCr line) :: csvTexts (k + 1) rest := by
  rw [csvTexts, dif_neg hne, h]

/-- A row with at least two columns ends in a comma and a cell. -/
theorem csvRowText_last : ∀ {cols : List CsvCol}, 2 ≤ cols.length →
    ∃ l last, csvRowText cols = l ++ 44 :: CsvCol.cell last
  | [], h => by simp at h
  | col :: cols, h => by
    have hne : cols ≠ [] := by
      rintro rfl
      simp at h
    refine ⟨col.cell ++ (cols.dropLast.map CsvCol.cell).flatMap csvColumn, cols.getLast hne, ?_⟩
    have hsplit : cols.map CsvCol.cell =
        cols.dropLast.map CsvCol.cell ++ [(cols.getLast hne).cell] := by
      rw [← List.map_singleton, ← List.map_append, List.dropLast_append_getLast]
    rw [csvRowText, List.map_cons, commaJoin_cons, hsplit, List.flatMap_append]
    simp [csvColumn]

theorem stripCr_cell (col : CsvCol) : stripCr col.cell = col.cell := by
  cases col with
  | bare s =>
    refine (List.rdropWhile_eq_self_iff).mpr ?_
    intro hne
    have := (s.property _ (List.getLast_mem hne)).2.2.2.1
    simpa using this
  | quoted s =>
    show stripCr (34 :: (quoteText s ++ [34])) = 34 :: (quoteText s ++ [34])
    rw [← List.cons_append]
    exact List.rdropWhile_concat_neg _ _ _ (by decide)

/-- An unbroken row is its own line. -/
theorem csvLine_row {cols : List CsvCol} (h2 : 2 ≤ cols.length)
    (h : ∀ col ∈ cols, Unbroken col.text) : csvLine (csvRowText cols) = csvRowText cols := by
  obtain ⟨l, last, hrow⟩ := csvRowText_last h2
  have hstrip : stripCr (csvRowText cols) = csvRowText cols := by
    rw [hrow, stripCr_append_cons l (by decide), stripCr_cell]
  rw [csvLine, hstrip]
  exact cstr_of_not_mem (csvRowText_unbroken h).2

/-- **A row of unbroken columns** is tokenized to their texts, unless it or one of them is too long. -/
theorem csvTexts_unbroken {k : Nat} (hk : 0 < k) {cols : List CsvCol} (h2 : 2 ≤ cols.length)
    (h8 : cols.length ≤ IMPORT_MAX_FIELDS) (h : ∀ col ∈ cols, Unbroken col.text) (rest : Bytes) :
    csvTexts k (csvRowText cols ++ 10 :: rest) =
      if (csvRowText cols).length + 1 > IMPORT_LINE_CAP then [.error .badRecord]
      else (if ∀ col ∈ cols, col.text.length < IMPORT_FIELD_CAP then
        .ok (some (cols.map CsvCol.text)) else .error .badRecord) :: csvTexts (k + 1) rest := by
  have hne : cols ≠ [] := by
    rintro rfl
    simp at h2
  have hnl : ∀ c ∈ csvRowText cols, (decide (c ≠ 10)) = true := fun c hc => by
    have : c ≠ 10 := fun h10 => (csvRowText_unbroken h).1 (h10 ▸ hc)
    simpa using this
  have hsplit : splitLine (csvRowText cols ++ 10 :: rest) = (csvRowText cols, rest) := by
    rw [splitLine, List.takeWhile_append_of_pos hnl, List.dropWhile_append_of_pos hnl]
    simp
  have hrow : csvRowText cols ≠ [] := by
    obtain ⟨l, last, hrow⟩ := csvRowText_last h2
    rw [hrow]
    simp
  rw [csvTexts_line k (by simp) hsplit, csvTokens_line (by omega) (by rwa [csvLine_row h2 h]),
    csvLine_row h2 h, csvFields_row cols _ hne h8]
  by_cases hcap : ∀ col ∈ cols, col.text.length < IMPORT_FIELD_CAP
  · simp only [if_pos hcap]
  · simp only [if_neg hcap]
    rfl

/-- The part of a row up to the opening quote of a column. -/
def csvOpening (cols : List CsvCol) : Bytes := commaJoin (cols.map CsvCol.cell ++ [[34]])

theorem csvOpening_unbroken {cols : List CsvCol} (h : ∀ col ∈ cols, Unbroken col.text) :
    Unbroken (csvOpening cols) := by
  have hcell : csvOpening cols <+: csvRowText (cols ++ [.quoted []]) := by
    have hjoin := commaJoin_append_cons (cols.map CsvCol.cell) [] [34] [34]
    rw [csvRowText, List.map_append, List.map_singleton]
    exact ⟨[34], by simpa [csvOpening, CsvCol.cell, exportCsvString] using hjoin.symm⟩
  have hrow : Unbroken (csvRowText (cols ++ [.quoted []])) := by
    apply csvRowText_unbroken
    intro col hcol
    rcases List.mem_append.mp hcol with hcol | hcol
    · exact h col hcol
    · rw [List.mem_singleton.mp hcol]
      exact ⟨List.not_mem_nil, List.not_mem_nil⟩
  exact ⟨fun hc => hrow.1 (hcell.mem hc), fun hc => hrow.2 (hcell.mem hc)⟩

/-- It stays as it is when the line is stripped and cut. -/
theorem csvLine_opening {cols : List CsvCol} (h : ∀ col ∈ cols, Unbroken col.text) (t : Bytes) :
    csvLine (csvOpening cols ++ t) = csvOpening cols ++ csvLine t := by
  have hend : csvOpening cols = commaJoin (cols.map CsvCol.cell ++ [[]]) ++ [34] :=
    commaJoin_append_cons (cols.map CsvCol.cell) [] [] [34]
  have hstrip : stripCr (csvOpening cols ++ t) = csvOpening cols ++ stripCr t := by
    rw [hend, List.append_assoc, List.singleton_append, stripCr_append_cons _ (by decide),
      List.append_assoc, List.singleton_append]
  have hnul : ∀ c ∈ csvOpening cols, (decide (c ≠ 0)) = true := fun c hc => by
    have : c ≠ 0 := fun h0 => (csvOpening_unbroken h).2 (h0 ▸ hc)
    simpa using this
  rw [csvLine, hstrip]
  exact List.takeWhile_append_of_pos hnul

/-- **A row with a broken column** is refused. -/
theorem csvTexts_broken {k : Nat} (hk : 0 < k) {cols : List CsvCol}
    (h : ¬ ∀ col ∈ cols, Unbroken col.text) (rest : Bytes) :
    ∃ tl, csvTexts k (csvRowText cols ++ 10 :: rest) = .error .badRecord :: tl := by
  obtain ⟨pre, col, post, rfl, hpre, hcol⟩ := exists_first h
  cases col with
  | bare s =>
    refine absurd ⟨?_, ?_⟩ hcol
    · intro h10
      exact (s.property 10 h10).2.2.1 rfl
    · intro h0
      exact (s.property 0 h0).2.2.2.2 rfl
  | quoted s =>
    have hrow : csvRowText (pre ++ .quoted s :: post) ++ 10 :: rest = csvOpening pre ++
        (quoteText s ++ ([34] ++ ((post.map CsvCol.cell).flatMap csvColumn ++ 10 :: rest))) := by
      have hjoin := commaJoin_append_cons (pre.map CsvCol.cell) (post.map CsvCol.cell) [34]
        (quoteText s ++ [34])
      rw [csvRowText, List.map_append, List.map_cons]
      show commaJoin (_ ++ ([34] ++ (quoteText s ++ [34])) :: _) ++ _ = _
      rw [hjoin, csvOpening]
      simp
    generalize [34] ++ ((post.map CsvCol.cell).flatMap csvColumn ++ 10 :: rest) = t at hrow
    -- the line is what is left of the column's string behind the opening quote
    obtain ⟨s', hs'⟩ := csvLine_broken (show ¬ Unbroken s from hcol) t
    have hnl : ∀ c ∈ csvOpening pre, (decide (c ≠ 10)) = true := fun c hc => by
      have : c ≠ 10 := fun h10 => (csvOpening_unbroken hpre).1 (h10 ▸ hc)
      simpa using this
    obtain ⟨line, rest', hsplit⟩ : ∃ line rest',
        splitLine (csvRowText (pre ++ .quoted s :: post) ++ 10 :: rest) = (line, rest') := ⟨_, _, rfl⟩
    have hline : csvLine line = commaJoin (pre.map CsvCol.cell ++ [34 :: quoteText s']) := by
      have hjoin := commaJoin_append_cons (pre.map CsvCol.cell) [] [34] (quoteText s')
      rw [List.singleton_append] at hjoin
      have htake : line = csvOpening pre ++ (quoteText s ++ t).takeWhile (· ≠ 10) := by
        have hfst := congrArg Prod.fst hsplit
        rw [hrow, splitLine, List.takeWhile_append_of_pos hnl] at hfst
        exact hfst.symm
      rw [htake, csvLine_opening hpre, hs', hjoin, csvOpening]
      simp
    have hne : commaJoin (pre.map CsvCol.cell ++ [34 :: quoteText s']) ≠ [] := by
      cases pre <;> simp [commaJoin_cons, csvColumn]
    rw [csvTexts_line k (by simp) hsplit]
    split
    · exact ⟨[], rfl⟩
    · rw [csvTokens_line (by omega) (by rwa [hline]), hline, csvFields_open]
      exact ⟨_, rfl⟩

/-! ## The columns of a record -/

theorem isDigit_bare {c : UInt8} (h : isDigit c = true) :
    c ≠ 34 ∧ c ≠ 44 ∧ c ≠ 10 ∧ c ≠ 13 ∧ c ≠ 0 := by
  refine ⟨?_, ?_, ?_, ?_, ?_⟩ <;>
    · rintro rfl
      exact absurd h (by decide)

theorem hexDigit_bare {d : Nat} (h : d < 16) : hexDigit d ≠ 34 ∧ hexDigit d ≠ 44 ∧ hexDigit d ≠ 10 ∧
    hexDigit d ≠ 13 ∧ hexDigit d ≠ 0 := by
  revert h
  revert d
  decide

/-- `%u`. -/
def uCol (n : Nat) : CsvCol := .bare ⟨decimal n, fun c hc => isDigit_bare (decimal_isDigit n c hc)⟩

/-- `%d`. -/
def dCol (i : Int) : CsvCol := .bare ⟨decimalInt i, fun c hc => by
  unfold decimalInt at hc
  split at hc
  · rcases List.mem_cons.mp hc with rfl | hc
    · decide
    · exact isDigit_bare (decimal_isDigit _ c hc)
  · exact isDigit_bare (decimal_isDigit _ c hc)⟩

/-- Hexadecimal bytes. -/
def hexCol (bs : Bytes) : CsvCol := .bare ⟨hexText bs, fun c hc => by
  obtain ⟨b, -, hb⟩ := List.mem_flatMap.mp hc
  have hlt := b.toNat_lt
  rw [hexPad_byte, List.mem_cons, List.mem_singleton] at hb
  rcases hb with rfl | rfl
  · exact hexDigit_bare (by omega)
  · exact hexDigit_bare (by omega)⟩

theorem walkTagName_bare (tag : UInt8) : ∀ c ∈ ascii (walkTagName tag),
    c ≠ 34 ∧ c ≠ 44 ∧ c ≠ 10 ∧ c ≠ 13 ∧ c ≠ 0 := by
  intro c hc
  exact of_decide_eq_true (walkTagName_all
    (p := fun c => c ≠ 34 ∧ c ≠ 44 ∧ c ≠ 10 ∧ c ≠ 13 ∧ c ≠ 0) (by decide) tag c hc)

/-- The name of a tag. -/
def nameCol (tag : UInt8) : CsvCol := .bare ⟨ascii (walkTagName tag), walkTagName_bare tag⟩

/-- A column that is left empty. -/
def noCol : CsvCol := .bare ⟨[], fun _ hc => (by cases hc)⟩

/-- The columns of a pair. -/
def pairCols (p : ConfigPair) : List CsvCol := [.quoted p.key.val, .quoted p.value.val]

/-- The columns that follow index and tag. -/
def csvTail : Record → List CsvCol
  | .heartbeat r => [uCol r.uptimeS.toNat, uCol r.seq.toNat, noCol, noCol, noCol, noCol]
  | .sensor r => [uCol r.sensorId.toNat, uCol r.count.toNat]
  | .event r => [uCol r.code.toNat, uCol r.payloadLen.toNat,
      hexCol (r.payload.take r.payloadLen.toNat), noCol, noCol]
  | .diag r => [uCol r.subsystem.toNat, uCol r.blobLen.toNat, uCol r.redacted.toNat,
      hexCol (r.blob.take (if r.redacted ≠ 0 then 0 else r.blobLen.toNat)), noCol, noCol]
  | .geo r => [dCol r.latE7.toInt, dCol r.lonE7.toInt, dCol r.altMm.toInt, noCol, noCol, noCol]
  | .battery r => [uCol r.pct.toNat, dCol r.tempCE1.toInt, uCol r.cycles.toNat, noCol, noCol, noCol]
  | .net r => [uCol r.ifaceId.toNat, uCol r.rxBytes.toNat, uCol r.txBytes.toNat, uCol r.rxPkts.toNat,
      uCol r.txPkts.toNat, noCol]
  | .log r => [uCol r.severity.toNat, .quoted (r.msg.take r.msgLen.toNat), noCol, noCol, noCol]
  | .config r => uCol r.pairCount.toNat ::
      ((r.pairs.take r.pairCount.toNat).take 2).flatMap pairCols
  | .keyref r => [uCol r.slotId.toNat, uCol r.redacted.toNat,
      .quoted (r.label.take (if r.redacted ≠ 0 then 0 else r.labelLen.toNat)), noCol, noCol, noCol]
  | .firmware r => [uCol r.major.toNat, uCol r.minor.toNat, uCol r.patch.toNat, hexCol r.hash.val,
      noCol, noCol]
  | .other _ _ => [noCol, noCol, noCol, noCol, noCol, noCol]

/-- The columns of an exported row, of a record without samples. -/
def csvCols (rec : Record) (index : Nat) : List CsvCol := uCol index :: nameCol rec.tag :: csvTail rec

/-- The exporter writes the columns. -/
theorem exportCsvRow_eq {ft : FloatText} {rec : Record} {index : Nat} (h : rec.NoSamples) :
    exportCsvRow ft rec index = csvRowText (csvCols rec index) := by
  cases rec with
  | sensor r =>
    have hs : r.samples = [] := h
    rw [exportCsvRow, exportCsvTail, hs, List.take_nil, List.take_nil, List.flatMap_nil,
      List.append_nil]
    rfl
  | config r =>
    rw [exportCsvRow, exportCsvTail, exportCsvPairs, csvRowText, csvCols, csvTail, List.map_cons,
      commaJoin_cons]
    generalize (r.pairs.take r.pairCount.toNat).take 2 = ps
    simp only [List.map_cons, List.flatMap_cons, List.map_flatMap, List.flatMap_assoc, pairCols,
      List.map_nil, List.flatMap_nil, List.append_nil]
    rfl
  | _ => rfl

theorem csvCols_length (rec : Record) (index : Nat) :
    2 ≤ (csvCols rec index).length ∧ (csvCols rec index).length ≤ IMPORT_MAX_FIELDS := by
  cases rec with
  | config r =>
    have hle : ((r.pairs.take r.pairCount.toNat).take 2).length ≤ 2 := List.length_take_le _ _
    generalize hps : (r.pairs.take r.pairCount.toNat).take 2 = ps at hle
    have hlen : (csvCols (.config r) index).length = 3 + 2 * ps.length := by
      simp [csvCols, csvTail, hps, List.length_flatMap, pairCols]
      omega
    have hmax : IMPORT_MAX_FIELDS = 8 := rfl
    rw [hlen]
    omega
  | _ => exact ⟨by simp [csvCols], by simp [csvCols, csvTail, IMPORT_MAX_FIELDS]⟩

/-! ## Importing the columns -/

section Row

variable {row : List Bytes} {ix : Nat}

theorem rowU_u32 {v : UInt32} (h : row[ix]? = some (decimal v.toNat)) : rowU row ix = .ok v := by
  rw [rowU, h, Option.bind_some, fieldU32_u32]
  rfl

theorem rowU_u16 {v : UInt16} (h : row[ix]? = some (decimal v.toNat)) :
    rowU row ix = .ok v.toUInt32 := by
  rw [rowU, h, Option.bind_some, fieldU32_u16]
  rfl

theorem rowU_u8 {v : UInt8} (h : row[ix]? = some (decimal v.toNat)) :
    rowU row ix = .ok v.toUInt32 := by
  rw [rowU, h, Option.bind_some, fieldU32_u8]
  rfl

theorem rowI_i32 {v : Int32} (h : row[ix]? = some (decimalInt v.toInt)) : rowI row ix = .ok v := by
  rw [rowI, h, Option.bind_some, fieldI32_i32]
  rfl

theorem rowI_i16 {v : Int16} (h : row[ix]? = some (decimalInt v.toInt)) :
    rowI row ix = .ok v.toInt32 := by
  rw [rowI, h, Option.bind_some, fieldI32_i16]
  rfl

end Row

/-- A `CONFIG` record has at most two pairs. -/
def Record.FewPairs : Record → Prop
  | .config r => r.pairCount.toNat ≤ 2
  | _ => True

theorem csvImportRow_heartbeat (ft : FloatText) (r : Heartbeat) (index : Nat) :
    csvImportRow ft ((csvCols (.heartbeat r) index).map CsvCol.text) = .ok (.heartbeat r) := by
  show csvHeartbeat _ = _
  rw [csvHeartbeat, rowU_u32 (v := r.uptimeS) rfl, Except.bind_ok_eq, rowU_u32 (v := r.seq) rfl]
  rfl

theorem csvImportRow_battery (ft : FloatText) (r : Battery) (index : Nat) :
    csvImportRow ft ((csvCols (.battery r) index).map CsvCol.text) = .ok (.battery r) := by
  show csvBattery _ = _
  rw [csvBattery, rowU_u8 (v := r.pct) rfl, Except.bind_ok_eq, rowI_i16 (v := r.tempCE1) rfl,
    Except.bind_ok_eq, rowU_u32 (v := r.cycles) rfl, Except.bind_ok_eq,
    failIf_neg (not_or.mpr ⟨u8_in_range _, i16_in_range _⟩)]
  simp

theorem csvImportRow_geo (ft : FloatText) (r : Geo) (index : Nat) :
    csvImportRow ft ((csvCols (.geo r) index).map CsvCol.text) = .ok (.geo r) := by
  show csvGeo _ = _
  rw [csvGeo, rowI_i32 (v := r.latE7) rfl, Except.bind_ok_eq, rowI_i32 (v := r.lonE7) rfl,
    Except.bind_ok_eq, rowI_i32 (v := r.altMm) rfl]
  rfl

theorem csvImportRow_net (ft : FloatText) (r : Net) (index : Nat) :
    csvImportRow ft ((csvCols (.net r) index).map CsvCol.text) = .ok (.net r) := by
  show csvNet _ = _
  rw [csvNet, rowU_u8 (v := r.ifaceId) rfl, Except.bind_ok_eq, rowU_u32 (v := r.rxBytes) rfl,
    Except.bind_ok_eq, rowU_u32 (v := r.txBytes) rfl, Except.bind_ok_eq, rowU_u32 (v := r.rxPkts) rfl,
    Except.bind_ok_eq, rowU_u32 (v := r.txPkts) rfl, Except.bind_ok_eq, failIf_neg (u8_in_range _)]
  simp

theorem csvImportRow_firmware (ft : FloatText) (r : Firmware) (index : Nat) :
    csvImportRow ft ((csvCols (.firmware r) index).map CsvCol.text) = .ok (.firmware r) := by
  have hhash : importHash ((((csvCols (.firmware r) index).map CsvCol.text)[5]?).bind fun f =>
      fieldHex f 8) = .ok r.hash := importHash_hexText r.hash
  show csvFirmware _ = _
  rw [csvFirmware, rowU_u16 (v := r.major) rfl, Except.bind_ok_eq, rowU_u16 (v := r.minor) rfl,
    Except.bind_ok_eq, rowU_u16 (v := r.patch) rfl, Except.bind_ok_eq,
    failIf_neg (not_or.mpr ⟨u16_in_range _, not_or.mpr ⟨u16_in_range _, u16_in_range _⟩⟩),
    Except.bind_ok_eq, hhash]
  simp

theorem csvImportRow_sensor (ft : FloatText) {r : Sensor} (index : Nat)
    (hw : (Record.sensor r).WellFormed) (hs : (Record.sensor r).NoSamples) :
    csvImportRow ft ((csvCols (.sensor r) index).map CsvCol.text) = .ok (.sensor r) := by
  obtain ⟨id, count, samples⟩ := r
  have hnil : samples = [] := hs
  subst hnil
  have hcount : count = 0 := by
    rw [← UInt8.toNat_inj]
    exact (show [].length = count.toNat from hw).symm
  subst hcount
  show csvSensor ft _ = _
  rw [csvSensor, rowU_u16 (v := id) rfl, Except.bind_ok_eq, rowU_u8 (v := 0) rfl, Except.bind_ok_eq,
    failIf_neg (not_or.mpr ⟨u16_in_range _, by decide⟩), Except.bind_ok_eq]
  rw [show (UInt8.toUInt32 0).toNat = 0 from rfl, csvSamples, Except.bind_ok_eq, failIf_neg (by simp)]
  simp

theorem csvImportRow_log (ft : FloatText) {r : Log} (index : Nat) (hw : (Record.log r).WellFormed) :
    csvImportRow ft ((csvCols (.log r) index).map CsvCol.text) = .ok (.log r) := by
  obtain ⟨severity, msgLen, msg⟩ := r
  have hlen : msg.length = msgLen.toNat := hw
  have hlt := msgLen.toNat_lt
  have hmsg : ((csvCols (.log ⟨severity, msgLen, msg⟩) index).map CsvCol.text)[3]? = some msg := by
    show some (msg.take msgLen.toNat) = some msg
    rw [← hlen, List.take_length]
  show csvLog _ = _
  rw [csvLog, rowU_u8 (v := severity) rfl, Except.bind_ok_eq, failIf_neg (u8_in_range _),
    Except.bind_ok_eq, hmsg, orBad, Except.bind_ok_eq, failIf_neg (by omega), hlen]
  simp

theorem csvImportRow_keyref (ft : FloatText) {r : Keyref} (index : Nat)
    (hw : (Record.keyref r).WellFormed) (hl : (Record.keyref r).InLimits) :
    csvImportRow ft ((csvCols (.keyref r) index).map CsvCol.text) = .ok (.keyref r) := by
  obtain ⟨slotId, labelLen, label, redacted⟩ := r
  have hlen : label.length = labelLen.toNat := hw
  have hlt := labelLen.toNat_lt
  have hred : redacted = 0 := hl
  subst hred
  have hlabel : ((csvCols (.keyref ⟨slotId, labelLen, label, 0⟩) index).map CsvCol.text)[4]? =
      some label := by
    show some (label.take labelLen.toNat) = some label
    rw [← hlen, List.take_length]
  show csvKeyref _ = _
  rw [csvKeyref, rowU_u8 (v := slotId) rfl, Except.bind_ok_eq, failIf_neg (u8_in_range _),
    Except.bind_ok_eq, hlabel, orBad, Except.bind_ok_eq, failIf_neg (by omega), hlen]
  simp

/-- A field of hexadecimal text is there when the bytes are. -/
theorem rowText?_hexText {row : List Bytes} {ix : Nat} {bs : Bytes} (h : row[ix]? = some (hexText bs)) :
    rowText? row ix = if bs = [] then none else some (hexText bs) := by
  rw [rowText?, h, Option.bind_some, hexText_length]
  cases bs <;> simp

theorem csvPayload_hexText {row : List Bytes} {n : UInt32} {payload : Bytes}
    (h : row[4]? = some (hexText payload)) (hlen : payload.length = n.toNat) :
    csvPayload row n = .ok payload := by
  rw [csvPayload, rowText?_hexText h]
  by_cases hnil : payload = []
  · subst hnil
    have h0 : n = 0 := UInt32.toNat_inj.mp hlen.symm
    rw [if_pos rfl]
    dsimp only
    rw [if_neg (not_ne_iff.mpr h0)]
  · rw [if_neg hnil]
    dsimp only
    rw [fieldHex_hexText (Nat.le_of_eq hlen), orBad, Except.bind_ok_eq,
      failIf_neg (not_ne_iff.mpr hlen)]
    rfl

theorem csvBlob_hexText {row : List Bytes} {n : UInt32} {blob : Bytes}
    (h : row[5]? = some (hexText blob)) (hlen : blob.length = n.toNat) : csvBlob row n = .ok blob := by
  rw [csvBlob, rowText?_hexText h]
  by_cases hnil : blob = []
  · subst hnil
    have h0 : n = 0 := UInt32.toNat_inj.mp hlen.symm
    rw [if_pos rfl]
    dsimp only
    rw [if_neg (not_ne_iff.mpr h0)]
  · rw [if_neg hnil]
    dsimp only
    rw [fieldHex_hexText (by rw [hexText_length]; omega), orBad]

/-- A buffer that is only set when its length is not zero. -/
theorem ite_buffer {n : UInt32} {buf : Bytes} (h : buf.length = n.toNat) :
    (if n ≠ 0 then buf else []) = buf := by
  split
  · rfl
  · rename_i h0
    rw [not_ne_iff] at h0
    rw [h0] at h
    exact (List.eq_nil_of_length_eq_zero h).symm

theorem csvImportRow_event (ft : FloatText) {r : Event} (index : Nat)
    (hw : (Record.event r).WellFormed) :
    csvImportRow ft ((csvCols (.event r) index).map CsvCol.text) = .ok (.event r) := by
  obtain ⟨code, payloadLen, payload⟩ := r
  have hlen : payload.length = payloadLen.toUInt32.toNat := by
    rw [UInt16.toNat_toUInt32]
    exact hw
  have hpayload : ((csvCols (.event ⟨code, payloadLen, payload⟩) index).map CsvCol.text)[4]? =
      some (hexText payload) := by
    show some (hexText (payload.take payloadLen.toNat)) = some (hexText payload)
    rw [← (show payload.length = payloadLen.toNat from hw), List.take_length]
  show csvEvent _ = _
  rw [csvEvent, rowU_u16 (v := code) rfl, Except.bind_ok_eq, rowU_u16 (v := payloadLen) rfl,
    Except.bind_ok_eq, failIf_neg (not_or.mpr ⟨u16_in_range _, u16_in_range _⟩), Except.bind_ok_eq,
    csvPayload_hexText hpayload hlen, Except.bind_ok_eq, ite_buffer hlen]
  simp

theorem csvImportRow_diag (ft : FloatText) {r : Diag} (index : Nat)
    (hw : (Record.diag r).WellFormed) (hl : (Record.diag r).InLimits) :
    csvImportRow ft ((csvCols (.diag r) index).map CsvCol.text) = .ok (.diag r) := by
  obtain ⟨subsystem, blobLen, blob, redacted⟩ := r
  have hred : redacted = 0 := hl
  subst hred
  have hlen : blob.length = blobLen.toUInt32.toNat := by
    rw [UInt16.toNat_toUInt32]
    exact hw
  have hblob : ((csvCols (.diag ⟨subsystem, blobLen, blob, 0⟩) index).map CsvCol.text)[5]? =
      some (hexText blob) := by
    show some (hexText (blob.take blobLen.toNat)) = some (hexText blob)
    rw [← (show blob.length = blobLen.toNat from hw), List.take_length]
  show csvDiag _ = _
  rw [csvDiag, rowU_u16 (v := subsystem) rfl, Except.bind_ok_eq, rowU_u16 (v := blobLen) rfl,
    Except.bind_ok_eq, failIf_neg (not_or.mpr ⟨u16_in_range _, u16_in_range _⟩), Except.bind_ok_eq,
    csvBlob_hexText hblob hlen, Except.bind_ok_eq, ite_buffer hlen]
  simp

/-- The pair loop on the columns of pairs. -/
theorem csvPairs_cols : ∀ ps : List ConfigPair,
    csvPairs ps.length ((ps.flatMap pairCols).map CsvCol.text) = .ok ps
  | [] => rfl
  | p :: ps => by
    rw [List.flatMap_cons, List.map_append, List.length_cons]
    show (⟨cstr p.key.val, cstr p.value.val⟩ :: ·) <$>
      csvPairs ps.length ((ps.flatMap pairCols).map CsvCol.text) = _
    rw [csvPairs_cols ps, cstr_val, cstr_val]
    rfl

theorem csvImportRow_config (ft : FloatText) {r : Config} (index : Nat)
    (hw : (Record.config r).WellFormed) :
    csvImportRow ft ((csvCols (.config r) index).map CsvCol.text) =
      if r.pairCount.toNat ≤ 2 then .ok (.config r) else .error .badRecord := by
  obtain ⟨pairCount, pairs⟩ := r
  have hlen : pairs.length = pairCount.toNat := hw
  have hgt : pairCount.toUInt32 > 2 ↔ ¬ pairCount.toNat ≤ 2 := by
    rw [gt_iff_lt, UInt32.lt_iff_toNat_lt, UInt8.toNat_toUInt32, Nat.not_le]
    rfl
  show csvConfig _ = _
  rw [csvConfig, rowU_u8 (v := pairCount) rfl, Except.bind_ok_eq]
  by_cases hle : pairCount.toNat ≤ 2
  · rw [failIf_neg (mt hgt.mp (not_not_intro hle)), Except.bind_ok_eq, UInt8.toNat_toUInt32, if_pos hle]
    have hdrop : ((csvCols (.config ⟨pairCount, pairs⟩) index).map CsvCol.text).drop 3 =
        (pairs.flatMap pairCols).map CsvCol.text := by
      show (((pairs.take pairCount.toNat).take 2).flatMap pairCols).map CsvCol.text = _
      rw [← hlen, List.take_length, List.take_of_length_le (by omega)]
    rw [hdrop, ← hlen, csvPairs_cols, Except.bind_ok_eq, hlen]
    simp
  · rw [failIf_pos (hgt.mpr hle), if_neg hle]
    rfl

/-- **The columns of a record stand for the record**, unless it is a `CONFIG` record with more pairs
than are exported. -/
theorem csvImportRow_cols (ft : FloatText) {rec : Record} (index : Nat) (hp : rec.Parseable)
    (hs : rec.NoSamples) :
    csvImportRow ft ((csvCols rec index).map CsvCol.text) = .ok rec ∨
      ¬ rec.FewPairs ∧ csvImportRow ft ((csvCols rec index).map CsvCol.text) = .error .badRecord := by
  cases rec with
  | heartbeat r => exact .inl (csvImportRow_heartbeat ft r index)
  | sensor r => exact .inl (csvImportRow_sensor ft index hp.1 hs)
  | event r => exact .inl (csvImportRow_event ft index hp.1)
  | diag r => exact .inl (csvImportRow_diag ft index hp.1 hp.2)
  | geo r => exact .inl (csvImportRow_geo ft r index)
  | battery r => exact .inl (csvImportRow_battery ft r index)
  | net r => exact .inl (csvImportRow_net ft r index)
  | log r => exact .inl (csvImportRow_log ft index hp.1)
  | config r =>
    rw [csvImportRow_config ft index hp.1]
    by_cases hle : r.pairCount.toNat ≤ 2
    · exact .inl (if_pos hle)
    · exact .inr ⟨hle, if_neg hle⟩
  | keyref r => exact .inl (csvImportRow_keyref ft index hp.1 hp.2)
  | firmware r => exact .inl (csvImportRow_firmware ft r index)
  | other t ht => exact hp.1.elim

/-! ## The whole export -/

/-- The strings of a record that are written in quotes. -/
def Record.strings : Record → List Bytes
  | .log r => [r.msg]
  | .keyref r => [r.label]
  | .config r => r.pairs.flatMap fun p => [p.key.val, p.value.val]
  | _ => []

/-- What the importer's limits demand of a record: strings without NUL and newline, at most two pairs,
columns of at most 4095 bytes and a row of at most 8191. -/
structure CsvBounded (ft : FloatText) (rec : Record) (index : Nat) : Prop where
  strings : ∀ s ∈ rec.strings, (0 : UInt8) ∉ s ∧ (10 : UInt8) ∉ s
  pairs : rec.FewPairs
  columns : ∀ col ∈ csvCols rec index, col.text.length ≤ 4095
  row : (exportCsvRow ft rec index).length ≤ 8191

/-- The string of a quoted column. -/
def CsvCol.quoted? : CsvCol → Option Bytes
  | bare _ => none
  | quoted s => some s

/-- What is quoted is a string of the record, over its declared length. -/
theorem csvCols_quoted {rec : Record} {index : Nat} {s : Bytes}
    (h : .quoted s ∈ csvCols rec index) : ∃ t ∈ rec.strings, s <+: t := by
  have hmem : s ∈ (csvCols rec index).filterMap CsvCol.quoted? := List.mem_filterMap.mpr ⟨_, h, rfl⟩
  cases rec with
  | log r =>
    have hs : s = r.msg.take r.msgLen.toNat := List.mem_singleton.mp hmem
    exact ⟨r.msg, by simp [Record.strings], hs ▸ List.take_prefix _ _⟩
  | keyref r =>
    have hs : s = r.label.take (if r.redacted ≠ 0 then 0 else r.labelLen.toNat) :=
      List.mem_singleton.mp hmem
    exact ⟨r.label, by simp [Record.strings], hs ▸ List.take_prefix _ _⟩
  | config r =>
    have hpairs : .quoted s ∈ ((r.pairs.take r.pairCount.toNat).take 2).flatMap pairCols := by
      simpa [csvCols, csvTail, uCol, nameCol] using h
    obtain ⟨p, hp, hs⟩ := List.mem_flatMap.mp hpairs
    have hmem : p ∈ r.pairs := List.mem_of_mem_take (List.mem_of_mem_take hp)
    refine ⟨s, List.mem_flatMap.mpr ⟨p, hmem, ?_⟩, List.prefix_refl s⟩
    simpa [pairCols] using hs
  | _ => cases hmem

/-- The columns of a record whose strings have no NUL and no newline are unbroken. -/
theorem csvCols_unbroken {rec : Record} (index : Nat)
    (h : ∀ s ∈ rec.strings, (0 : UInt8) ∉ s ∧ (10 : UInt8) ∉ s) :
    ∀ col ∈ csvCols rec index, Unbroken col.text := by
  intro col hcol
  cases col with
  | bare s =>
    constructor
    · intro h10
      exact (s.property 10 h10).2.2.1 rfl
    · intro h0
      exact (s.property 0 h0).2.2.2.2 rfl
  | quoted s =>
    obtain ⟨t, ht, hpre⟩ := csvCols_quoted hcol
    exact ⟨fun h10 => (h t ht).2 (hpre.mem h10), fun h0 => (h t ht).1 (hpre.mem h0)⟩

/-- The records that the rows of a text hand over, `k` lines having been read. -/
def csvHanded (ft : FloatText) (k : Nat) (data : Bytes) : Res (List Record) :=
  handed ((csvTexts k data).map (csvConvert ft))

/-- **One exported row**: it is refused, for a bound it exceeds, or hands over its record. -/
theorem csvHanded_record {ft : FloatText} {rec : Record} {index k : Nat} (hk : 0 < k)
    (hp : rec.Parseable) (hs : rec.NoSamples) (rest : Bytes) :
    ((∃ rc, csvHanded ft k (exportCsvRecord ft rec index ++ rest) = .error rc) ∧
        ¬ CsvBounded ft rec index) ∨
      csvHanded ft k (exportCsvRecord ft rec index ++ rest) =
        (rec :: ·) <$> csvHanded ft (k + 1) rest := by
  have hrow := @exportCsvRow_eq ft rec index hs
  have htext : exportCsvRecord ft rec index ++ rest = csvRowText (csvCols rec index) ++ 10 :: rest := by
    rw [exportCsvRecord, hrow, List.append_assoc, List.singleton_append]
  obtain ⟨h2, h8⟩ := csvCols_length rec index
  unfold csvHanded
  rw [htext]
  by_cases hub : ∀ col ∈ csvCols rec index, Unbroken col.text
  · rw [csvTexts_unbroken hk h2 h8 hub]
    by_cases hlong : (csvRowText (csvCols rec index)).length + 1 > IMPORT_LINE_CAP
    · rw [if_pos hlong]
      refine .inl ⟨⟨_, rfl⟩, fun hb => ?_⟩
      have hle := hb.row
      have hcap : IMPORT_LINE_CAP = 8192 := rfl
      rw [hrow] at hle
      omega
    rw [if_neg hlong]
    by_cases hcols : ∀ col ∈ csvCols rec index, col.text.length < IMPORT_FIELD_CAP
    · rw [if_pos hcols, List.map_cons, csvConvert]
      rcases csvImportRow_cols ft index hp hs with himp | ⟨hfew, himp⟩
      · rw [himp]
        exact .inr rfl
      · rw [himp]
        exact .inl ⟨⟨_, rfl⟩, fun hb => hfew hb.pairs⟩
    · rw [if_neg hcols]
      refine .inl ⟨⟨_, rfl⟩, fun hb => hcols fun col hcol => ?_⟩
      have hle := hb.columns col hcol
      have hcap : IMPORT_FIELD_CAP = 4096 := rfl
      omega
  · obtain ⟨tl, htl⟩ := csvTexts_broken hk hub rest
    rw [htl]
    exact .inl ⟨⟨_, rfl⟩, fun hb => hub (csvCols_unbroken index hb.strings)⟩

/-- **The exported rows**: the first that exceeds a bound is refused, and if there is none all records
are handed over. -/
theorem csvHanded_records {ft : FloatText} : ∀ {recs : List Record} {index k : Nat}, 0 < k →
    (∀ rec ∈ recs, rec.Parseable ∧ rec.NoSamples) →
      ((∃ rc, csvHanded ft k (exportRecords ft .csv index recs) = .error rc) ∧
          ¬ ∀ p ∈ recs.zipIdx index, CsvBounded ft p.1 p.2) ∨
        csvHanded ft k (exportRecords ft .csv index recs) = .ok recs
  | [], index, k, _, _ => by
    refine .inr ?_
    rw [exportRecords, csvHanded, csvTexts, dif_pos rfl]
    rfl
  | rec :: recs, index, k, hk, h => by
    rw [List.forall_mem_cons] at h
    obtain ⟨⟨hp, hs⟩, hrest⟩ := h
    have hrow := @csvHanded_record ft rec index k hk hp hs (exportRecords ft .csv (index + 1) recs)
    have ih := @csvHanded_records ft recs (index + 1) (k + 1) (by omega) hrest
    show (_ ∧ ¬ ∀ p ∈ (rec, index) :: recs.zipIdx (index + 1), CsvBounded ft p.1 p.2) ∨ _
    rw [List.forall_mem_cons]
    rw [exportRecords]
    rcases hrow with ⟨herr, hbound⟩ | hrow
    · exact .inl ⟨herr, fun hall => hbound hall.1⟩
    · rw [show exportRecordText ft .csv rec index index = exportCsvRecord ft rec index from rfl, hrow]
      rcases ih with ⟨⟨rc, herr⟩, hbound⟩ | hok
      · rw [herr]
        exact .inl ⟨⟨rc, rfl⟩, fun hall => hbound hall.2⟩
      · rw [hok]
        exact .inr rfl

/-- The header line is skipped. -/
theorem csvHanded_header (ft : FloatText) (rest : Bytes) :
    csvHanded ft 0 (exportCsvHeader ++ rest) = csvHanded ft 1 rest := by
  have hsplit : splitLine (exportCsvHeader ++ rest) = (ascii "index,tag,f0,f1,f2,f3,f4,f5", rest) := rfl
  have hskip : csvTokens (0 + 1) (stripCr (ascii "index,tag,f0,f1,f2,f3,f4,f5")) = .ok none := by
    decide +kernel
  have hne : exportCsvHeader ++ rest ≠ [] := List.cons_ne_nil _ _
  rw [csvHanded, csvTexts_line 0 hne hsplit, if_neg (by decide), hskip]
  rfl

/-- **Importing a CSV export is faithful or refused.** Whatever the records, as a walk delivers them
and with no samples among them: the import returns an error or has handed the writer these very
records; and it succeeds when the records are within the importer's bounds, their section is one the
writer takes and there is memory. -/
theorem exportCsv_import (e : EmitEnv) (a : Arena) (ft : FloatText) (recs : List Record)
    (hwalked : ∀ rec ∈ recs, rec.Walked) (hsamples : ∀ rec ∈ recs, rec.NoSamples) :
    ((∃ rc, importCsvMemory e a ft (exportText ft .csv recs) = .error rc) ∨
      ((∃ bytes, importCsvMemory e a ft (exportText ft .csv recs) = .ok (bytes, recs.length)) ∧
        handed (csvRows ft (exportText ft .csv recs)) = .ok recs)) ∧
    ((∀ p ∈ recs.zipIdx, CsvBounded ft p.1 p.2) →
      (importRaw e.slack recs).length ≤ SECTION_MAX_RAW → a.Roomy →
        ∃ bytes, importCsvMemory e a ft (exportText ft .csv recs) = .ok (bytes, recs.length)) := by
  have htext : handed (csvRows ft (exportText ft .csv recs)) =
      csvHanded ft 1 (exportRecords ft .csv 0 recs) := by
    have hheader := csvHanded_header ft (exportRecords ft .csv 0 recs)
    rw [← hheader]
    show csvHanded ft 0 (exportCsvHeader ++ (exportRecords ft .csv 0 recs ++ [])) = _
    rw [List.append_nil]
  have hrows := @csvHanded_records ft recs 0 1 (by omega)
    (fun rec hrec => ⟨(hwalked rec hrec).parseable, hsamples rec hrec⟩)
  rw [← htext] at hrows
  constructor
  · cases hout : importCsvMemory e a ft (exportText ft .csv recs) with
    | error rc => exact .inl ⟨rc, rfl⟩
    | ok out =>
      obtain ⟨bytes, n⟩ := out
      obtain ⟨recs', w, hrecs', rfl, -⟩ := importRows_eq_ok.mp hout
      rcases hrows with ⟨⟨rc, herr⟩, -⟩ | hok
      · rw [herr] at hrecs'
        cases hrecs'
      · cases hok.symm.trans hrecs'
        exact .inr ⟨⟨bytes, rfl⟩, hok⟩
  · intro hbound hraw hroomy
    rcases hrows with ⟨-, hnot⟩ | hok
    · exact absurd hbound hnot
    · exact importRows_walked hok hroomy hwalked hraw

/-- A message with a comma, a quote and a carriage return in it, and two pairs with equal keys. -/
theorem exportCsv_import_strings : ∃ bytes,
    importCsvMemory ⟨zeroSlack, fun _ _ => ⟨true, 0⟩⟩ ⟨fun _ => false, 0⟩ noFloats
        (exportText noFloats .csv [.log ⟨3, 5, [97, 44, 34, 98, 13]⟩,
          .config ⟨2, [⟨cstr [97], cstr [34]⟩, ⟨cstr [97], cstr []⟩]⟩]) = .ok (bytes, 2) := by
  refine (exportCsv_import _ _ noFloats _ ?_ ?_).2 ?_ (by decide +kernel) (fun _ => rfl)
  · rw [List.forall_mem_cons, List.forall_mem_singleton]
    constructor
    · exact ⟨⟨REC_LOG, [3, 5, 0, 97, 44, 34, 98, 13]⟩, by decide, by decide⟩
    · exact ⟨⟨REC_CONFIG, [2, 1, 97, 1, 34, 1, 97, 0]⟩, by decide, by decide⟩
  · rw [List.forall_mem_cons, List.forall_mem_singleton]
    exact ⟨trivial, trivial⟩
  · show ∀ p ∈ [(_, 0), (_, 1)], _
    rw [List.forall_mem_cons, List.forall_mem_singleton]
    constructor
    · exact ⟨by decide, trivial, by decide +kernel, by decide +kernel⟩
    · exact ⟨by decide, Nat.le_refl 2, by decide +kernel, by decide +kernel⟩

end Dtl
