import TelemetryForge.Lib.Terminated
import TelemetryForge.Query.Lex
import TelemetryForge.Records.Record

/-!
# The query lexer over its text in memory

`Machine.lexNext` follows `dtl_lex_next` on the bytes of the text and the NUL behind them, with the
position as an index: a load past the NUL and an `int64_t` that overflows are faults.

A `RawToken` is `dtl_token`, and `RawToken.token` the token of the list model it stands for.

Principal result: `lexNext_simulates` — the lexer is the one over unread text, and never faults.
-/

set_option autoImplicit false

namespace Dtl

open Checked CText Terminated

/-- `dtl_token_kind`. -/
inductive TokenKind where
  | eof
  | num
  | str
  | ident
  | and
  | or
  | eq
  | ne
  | lt
  | le
  | gt
  | ge
  | not
  | lparen
  | rparen
  | dot
  deriving DecidableEq, Repr

/-- `dtl_token`; `s` is the index its pointer has in the text. -/
structure RawToken where
  kind : TokenKind
  num : Int
  s : Option Nat
  n : Nat
  deriving DecidableEq, Repr

/-- A token without a value. -/
def RawToken.plain (kind : TokenKind) : RawToken := ⟨kind, 0, none, 0⟩

/-- The bytes a token points to. -/
def RawToken.bytes (t : RawToken) (src : Bytes) : Bytes :=
  match t.s with
  | some i => (src.drop i).take t.n
  | none => []

/-- The token of the list model. -/
def RawToken.token (t : RawToken) (src : Bytes) : Token :=
  match t.kind with
  | .eof => .eof
  | .num => .num t.num
  | .str => .str (t.bytes src)
  | .ident => .ident (t.bytes src)
  | .and => .and
  | .or => .or
  | .eq => .eq
  | .ne => .ne
  | .lt => .lt
  | .le => .le
  | .gt => .gt
  | .ge => .ge
  | .not => .not
  | .lparen => .lparen
  | .rparen => .rparen
  | .dot => .dot

/-- The token of the list model for a token without a value. -/
def TokenKind.plainToken (k : TokenKind) : Token := (RawToken.plain k).token []

theorem plain_token (k : TokenKind) (src : Bytes) : (RawToken.plain k).token src = k.plainToken := by
  cases k <;> rfl

namespace Machine

/-- The digit loop of `dtl_lex_number`; `int64_t` values are below `2 ^ 63`. -/
def lexDigits (src : Bytes) (pos val : Nat) : Run Err (Nat × Nat) :=
  if h : pos < src.length then
    if isDigit (src.get ⟨pos, h⟩) then do
      let d ← sub (src.get ⟨pos, h⟩).toNat 48
      let room ← sub INT64_MAX d
      refuse (val > room / 10) .badQuery
      let tens ← mul 63 val 10
      let val ← add 63 tens d
      lexDigits src (pos + 1) val
    else return (val, pos)
  else .error .outside
  termination_by src.length - pos

/-- `dtl_lex_number`. -/
def lexNumber (src : Bytes) (pos : Nat) : Run Err (RawToken × Nat) := do
  let c ← load src pos
  let start := if c = 45 then pos + 1 else pos
  let first ← load src start
  refuse (isDigit first = false) .badQuery
  let (val, pos) ← lexDigits src start 0
  return (⟨.num, if c = 45 then -(val : Int) else val, none, 0⟩, pos)

/-- The loop of `dtl_lex_string`: the position of the closing quote. -/
def lexStringLoop (src : Bytes) (pos : Nat) : Run Err Nat :=
  if h : pos < src.length then
    if src.get ⟨pos, h⟩ = 0 then .error (.err .badQuery)
    else if src.get ⟨pos, h⟩ = 34 then return pos
    else if src.get ⟨pos, h⟩ = 92 then do
      let escaped ← load src (pos + 1)
      refuse (escaped = 0) .badQuery
      lexStringLoop src (pos + 2)
    else lexStringLoop src (pos + 1)
  else .error .outside
  termination_by src.length - pos

/-- `dtl_lex_string`. -/
def lexString (src : Bytes) (pos : Nat) : Run Err (RawToken × Nat) := do
  let close ← lexStringLoop src (pos + 1)
  let n ← sub close (pos + 1)
  return (⟨.str, 0, some (pos + 1), n⟩, close + 1)

/-- `dtl_lex_is_digit(c) || (c == '-' && dtl_lex_is_digit(s[lx->pos + 1]))`. -/
def lexIsNumber (src : Bytes) (pos : Nat) (c : UInt8) : Run Err Bool :=
  if isDigit c then return true
  else if c = 45 then do
    let second ← load src (pos + 1)
    return isDigit second
  else return false

/-- The identifier at the position. -/
def lexIdent (src : Bytes) (pos : Nat) : Run Err (RawToken × Nat) := do
  let stop ← scan lexIsIdent src pos
  let n ← sub stop pos
  return (⟨.ident, 0, some pos, n⟩, stop)

/-- An operator of two characters, the second being `c`; `alt` is the operator without it. -/
def lexPair (src : Bytes) (pos : Nat) (c : UInt8) (both : TokenKind) (alt : Option TokenKind) :
    Run Err (RawToken × Nat) := do
  let second ← load src (pos + 1)
  if second = c then return (.plain both, pos + 2) else
  match alt with
  | some kind => return (.plain kind, pos + 1)
  | none => .error (.err .badQuery)

/-- The operator switch of `dtl_lex_next`. -/
def lexOperator (src : Bytes) (pos : Nat) (c : UInt8) : Run Err (RawToken × Nat) :=
  if c = 38 then lexPair src pos 38 .and none
  else if c = 124 then lexPair src pos 124 .or none
  else if c = 61 then lexPair src pos 61 .eq none
  else if c = 33 then lexPair src pos 61 .ne (some .not)
  else if c = 60 then lexPair src pos 61 .le (some .lt)
  else if c = 62 then lexPair src pos 61 .ge (some .gt)
  else if c = 40 then return (.plain .lparen, pos + 1)
  else if c = 41 then return (.plain .rparen, pos + 1)
  else if c = 46 then return (.plain .dot, pos + 1)
  else .error (.err .badQuery)

/-- `dtl_lex_next` from the first character behind the whitespace on. -/
def lexToken (src : Bytes) (pos : Nat) (c : UInt8) : Run Err (RawToken × Nat) := do
  if c = 0 then return (.plain .eof, pos) else
  let number ← lexIsNumber src pos c
  if number then lexNumber src pos
  else if lexIsIdentStart c then lexIdent src pos
  else if c = 34 then lexString src pos
  else lexOperator src pos c

/-- `dtl_lex_next`: the token, and the position behind it. -/
def lexNext (src : Bytes) (pos : Nat) : Run Err (RawToken × Nat) := do
  let pos ← scan lexIsSpace src pos
  let c ← load src pos
  lexToken src pos c

/-! ## The lexer over unread text -/

/-- The same token, and the unread text behind it. -/
def LexesTo (text : Bytes) (x : RawToken × Nat) (y : Token × Bytes) : Prop :=
  x.1.token (text ++ [0]) = y.1 ∧ y.2 = text.drop x.2 ∧ x.2 ≤ text.length

section Simulation

variable {text : Bytes} {pos : Nat}

theorem isDigit_range {c : UInt8} (h : isDigit c = true) : 48 ≤ c.toNat ∧ c.toNat ≤ 57 := by
  simp only [isDigit, Bool.and_eq_true, decide_eq_true_eq, UInt8.le_iff_toNat_le] at h
  exact h

theorem lexDigits_step {src : Bytes} {c : UInt8} (h : src[pos]? = some c) (val : Nat) :
    lexDigits src pos val =
      if isDigit c then do
        let d ← sub c.toNat 48
        let room ← sub INT64_MAX d
        refuse (val > room / 10) .badQuery
        let tens ← mul 63 val 10
        let val ← add 63 tens d
        lexDigits src (pos + 1) val
      else return (val, pos) := by
  obtain ⟨hlt, rfl⟩ := List.getElem?_eq_some_iff.mp h
  rw [lexDigits, dif_pos hlt]
  rfl

/-- The digit loop: no step overflows, whatever the number of digits. -/
theorem lexDigits_simulates : ∀ (n : Nat) {pos : Nat} (val : Nat), text.length - pos = n →
    pos ≤ text.length → val ≤ INT64_MAX →
    Simulates (fun x y => x.1 = y.1 ∧ y.2 = text.drop x.2 ∧ x.2 ≤ text.length)
      (lexDigits (text ++ [0]) pos val) (Dtl.lexDigits val (text.drop pos)) := by
  intro n
  induction n with
  | zero =>
    intro pos val hn hpos hval
    obtain rfl : pos = text.length := by omega
    rw [lexDigits_step List.getElem?_concat_length, List.drop_length]
    exact Simulates.pure ⟨rfl, List.drop_length.symm, le_refl _⟩
  | succ n ih =>
    intro pos val hn hpos hval
    rcases drop_cases hpos with ⟨rfl, -⟩ | ⟨c, hlt, hc, hdrop⟩
    · omega
    have hat : (text ++ [0])[pos]? = some c := by rw [List.getElem?_append_left hlt, hc]
    rw [lexDigits_step hat, hdrop, Dtl.lexDigits]
    apply Simulates.ite
    · intro hdigit
      obtain ⟨hlo, hhi⟩ := isDigit_range hdigit
      apply Simulates.step (sub_ok hlo)
      apply Simulates.step (sub_ok (by simp only [INT64_MAX]; omega))
      by_cases hguard : val > (INT64_MAX - (c.toNat - 48)) / 10
      · rw [refuse, if_pos hguard, if_pos hguard]
        exact .inr ⟨.badQuery, rfl, rfl⟩
      · rw [refuse, if_neg hguard, if_neg hguard]
        simp only [INT64_MAX] at hguard
        have hnext : val * 10 + (c.toNat - 48) ≤ INT64_MAX := by
          simp only [INT64_MAX]
          omega
        apply Simulates.step (v := ()) rfl
        apply Simulates.step (mul_ok (by omega))
        apply Simulates.step (add_ok (by omega))
        exact ih _ (by omega) hlt hnext
    · intro _
      exact Simulates.pure ⟨rfl, hdrop.symm, hpos⟩

/-- The digits of a number, once its sign is read. -/
theorem lexUnsigned_simulates (hpos : pos ≤ text.length) (sign : Nat → Int) :
    Simulates (LexesTo text)
      (do
        let first ← load (text ++ [0]) pos
        refuse (isDigit first = false) .badQuery
        let (val, pos) ← lexDigits (text ++ [0]) pos 0
        return (⟨.num, sign val, none, 0⟩, pos))
      (if isDigit (peek (text.drop pos)) then do
        let (val, s) ← Dtl.lexDigits 0 (text.drop pos)
        return (.num (sign val), s)
      else .error .badQuery) := by
  apply Simulates.step (load_peek hpos)
  by_cases hdigit : isDigit (peek (text.drop pos)) = true
  · rw [if_pos hdigit, refuse, if_neg (by simpa [peek] using hdigit)]
    apply Simulates.step (v := ()) rfl
    apply Simulates.bind (lexDigits_simulates _ 0 rfl hpos (Nat.zero_le _))
    rintro ⟨v, stop⟩ ⟨v', r⟩ ⟨rfl, rfl, hle⟩
    exact Simulates.pure ⟨rfl, rfl, hle⟩
  · rw [if_neg hdigit, refuse, if_pos (by simpa [peek] using hdigit)]
    exact .inr ⟨.badQuery, rfl, rfl⟩

theorem lexNumber_simulates (hpos : pos < text.length) :
    Simulates (LexesTo text) (lexNumber (text ++ [0]) pos) (Dtl.lexNumber (text.drop pos)) := by
  unfold lexNumber Dtl.lexNumber
  apply Simulates.step (load_peek hpos.le)
  by_cases hneg : peek (text.drop pos) = 45
  · have hc : (text.drop pos).headD 0 = 45 := hneg
    simp only [hneg, hc, if_true, List.tail_drop]
    exact lexUnsigned_simulates hpos (fun v => -(v : Int))
  · have hc : ¬ (text.drop pos).headD 0 = 45 := hneg
    simp only [hneg, hc, if_false]
    exact lexUnsigned_simulates hpos.le (fun v => (v : Int))

theorem lexStringLoop_step {src : Bytes} {c : UInt8} (h : src[pos]? = some c) :
    lexStringLoop src pos =
      if c = 0 then .error (.err .badQuery)
      else if c = 34 then return pos
      else if c = 92 then do
        let escaped ← load src (pos + 1)
        refuse (escaped = 0) .badQuery
        lexStringLoop src (pos + 2)
      else lexStringLoop src (pos + 1) := by
  obtain ⟨hlt, rfl⟩ := List.getElem?_eq_some_iff.mp h
  rw [lexStringLoop, dif_pos hlt]
  rfl

/-- One more character of a span. -/
theorem span_push {start : Nat} {c : UInt8} (hstart : start ≤ pos) (hc : text[pos]? = some c) :
    (text.drop start).take (pos + 1 - start) = (text.drop start).take (pos - start) ++ [c] := by
  have hat : (text.drop start)[pos - start]? = some c := by
    rw [List.getElem?_drop, ← hc]
    congr 1
    omega
  rw [Nat.sub_add_comm hstart, List.take_add_one, hat]
  rfl

/-- The string loop: what it has passed since the opening quote is what the list model has collected. -/
theorem lexStringLoop_simulates (htext : (0 : UInt8) ∉ text) {start : Nat} :
    ∀ (n : Nat) {pos : Nat}, text.length - pos ≤ n → start ≤ pos → pos ≤ text.length →
    Simulates (fun stop y => y.1 = .str ((text.drop start).take (stop - start)) ∧
        y.2 = text.drop (stop + 1) ∧ start ≤ stop ∧ stop < text.length)
      (lexStringLoop (text ++ [0]) pos)
      (Dtl.lexStringLoop ((text.drop start).take (pos - start)) (text.drop pos)) := by
  have hend : ∀ raw, Simulates (fun stop y => y.1 = .str ((text.drop start).take (stop - start)) ∧
        y.2 = text.drop (stop + 1) ∧ start ≤ stop ∧ stop < text.length)
      (lexStringLoop (text ++ [0]) text.length) (Dtl.lexStringLoop raw []) := by
    intro raw
    rw [lexStringLoop_step List.getElem?_concat_length]
    exact .inr ⟨.badQuery, rfl, rfl⟩
  intro n
  induction n with
  | zero =>
    intro pos hn hstart hpos
    obtain rfl : pos = text.length := by omega
    rw [List.drop_length]
    exact hend _
  | succ n ih =>
    intro pos hn hstart hpos
    rcases drop_cases hpos with ⟨rfl, hdrop⟩ | ⟨c, hlt, hc, hdrop⟩
    · rw [hdrop]
      exact hend _
    have hat : (text ++ [0])[pos]? = some c := by rw [List.getElem?_append_left hlt, hc]
    have hne : c ≠ 0 := by
      rintro rfl
      exact htext (List.mem_of_getElem? hc)
    rw [lexStringLoop_step hat, if_neg hne, hdrop]
    by_cases hesc : c = 92
    · subst hesc
      rw [if_neg (by decide), if_pos rfl]
      apply Simulates.step (load_peek hlt)
      rcases drop_cases (hlt : pos + 1 ≤ text.length) with ⟨hlast, hrest⟩ | ⟨e, hlt', he, hrest⟩
      · rw [hrest, refuse, if_pos (by simp)]
        exact .inr ⟨.badQuery, rfl, rfl⟩
      · have hne' : ¬ (text.drop (pos + 1)).headD 0 = 0 := by
          rw [hrest]
          rintro rfl
          exact htext (List.mem_of_getElem? he)
        have hraw : (text.drop start).take (pos - start) ++ [92, e] =
            (text.drop start).take (pos + 2 - start) := by
          rw [span_push (by omega : start ≤ pos + 1) he, span_push hstart hc, List.append_assoc]
          rfl
        rw [refuse, if_neg hne', hrest, Dtl.lexStringLoop, hraw]
        apply Simulates.step (v := ()) rfl
        exact ih (by omega) (by omega) hlt'
    · rw [if_neg hesc, Dtl.lexStringLoop]
      · by_cases hquote : c = 34
        · rw [if_pos hquote, if_pos hquote]
          exact Simulates.pure ⟨rfl, rfl, hstart, hlt⟩
        · rw [if_neg hquote, if_neg hquote, ← span_push hstart hc]
          exact ih (by omega) (by omega) hlt
      · rintro rfl
        exact absurd rfl hesc
      · rintro e s rfl
        exact absurd rfl hesc

/-- A span of the text is the same in memory. -/
theorem memory_span {start n : Nat} (h : start + n ≤ text.length) :
    ((text ++ [0]).drop start).take n = (text.drop start).take n := by
  rw [List.drop_append_of_le_length (by omega),
    List.take_append_of_le_length (by rw [List.length_drop]; omega)]

theorem lexString_simulates (htext : (0 : UInt8) ∉ text) (hpos : pos < text.length) :
    Simulates (LexesTo text) (lexString (text ++ [0]) pos)
      (Dtl.lexStringLoop [] (text.drop (pos + 1))) := by
  have hloop := lexStringLoop_simulates htext _ le_rfl (le_refl (pos + 1)) hpos
  rw [Nat.sub_self, List.take_zero] at hloop
  unfold lexString
  rcases hloop with ⟨close, ⟨t, r⟩, hclose, hd, ht, hr, hlo, hlt⟩ | ⟨e, hclose, hd⟩
  · dsimp only at ht hr
    rw [hd]
    apply Simulates.step hclose
    apply Simulates.step (sub_ok hlo)
    refine Simulates.pure ⟨?_, hr, hlt⟩
    simp only [RawToken.token, RawToken.bytes, ht]
    rw [memory_span (by omega)]
  · rw [hclose, hd]
    exact .inr ⟨e, rfl, rfl⟩

theorem lexIdent_simulates (hpos : pos ≤ text.length) :
    Simulates (LexesTo text) (lexIdent (text ++ [0]) pos)
      (.ok (.ident ((text.drop pos).takeWhile lexIsIdent), (text.drop pos).dropWhile lexIsIdent)) := by
  have hle := takeWhile_le lexIsIdent hpos
  unfold lexIdent
  apply Simulates.step (scan_eq (by rfl) hpos)
  apply Simulates.step (sub_ok (Nat.le_add_right _ _))
  refine Simulates.pure ⟨?_, (drop_takeWhile lexIsIdent pos).symm, hle⟩
  simp only [RawToken.token, RawToken.bytes, Nat.add_sub_cancel_left]
  rw [memory_span hle, ← List.prefix_iff_eq_take.mp (List.takeWhile_prefix lexIsIdent)]

theorem lexPair_simulates (hpos : pos < text.length) {c : UInt8} (both : TokenKind)
    (alt : Option TokenKind) (hc : c ≠ 0) :
    Simulates (LexesTo text) (lexPair (text ++ [0]) pos c both alt)
      (Dtl.lexPair c both.plainToken (alt.map TokenKind.plainToken) (text.drop (pos + 1))) := by
  unfold lexPair Dtl.lexPair
  apply Simulates.step (load_peek hpos)
  apply Simulates.ite
  · intro hsecond
    rcases drop_cases (hpos : pos + 1 ≤ text.length) with ⟨-, hrest⟩ | ⟨e, hlt, -, -⟩
    · rw [hrest] at hsecond
      exact absurd hsecond.symm hc
    · exact Simulates.pure ⟨plain_token _ _, List.tail_drop, hlt⟩
  · intro _
    cases alt with
    | none => exact .inr ⟨.badQuery, rfl, rfl⟩
    | some k => exact Simulates.pure ⟨plain_token _ _, rfl, hpos⟩

/-- The operator switch of the list model. -/
theorem lexOperator_simulates (hpos : pos < text.length) (c : UInt8) :
    Simulates (LexesTo text) (lexOperator (text ++ [0]) pos c)
      (if c = 38 then Dtl.lexPair 38 .and none (text.drop (pos + 1))
      else if c = 124 then Dtl.lexPair 124 .or none (text.drop (pos + 1))
      else if c = 61 then Dtl.lexPair 61 .eq none (text.drop (pos + 1))
      else if c = 33 then Dtl.lexPair 61 .ne (some .not) (text.drop (pos + 1))
      else if c = 60 then Dtl.lexPair 61 .le (some .lt) (text.drop (pos + 1))
      else if c = 62 then Dtl.lexPair 61 .ge (some .gt) (text.drop (pos + 1))
      else if c = 40 then .ok (.lparen, text.drop (pos + 1))
      else if c = 41 then .ok (.rparen, text.drop (pos + 1))
      else if c = 46 then .ok (.dot, text.drop (pos + 1))
      else .error .badQuery) := by
  have one : ∀ k : TokenKind, Simulates (LexesTo text) (.ok (.plain k, pos + 1) : Run Err _)
      (.ok (k.plainToken, text.drop (pos + 1))) := fun k =>
    Simulates.pure ⟨plain_token _ _, rfl, hpos⟩
  unfold lexOperator
  apply Simulates.ite (fun _ => lexPair_simulates hpos .and none (by simp))
  intro _
  apply Simulates.ite (fun _ => lexPair_simulates hpos .or none (by simp))
  intro _
  apply Simulates.ite (fun _ => lexPair_simulates hpos .eq none (by simp))
  intro _
  apply Simulates.ite (fun _ => lexPair_simulates hpos .ne (some .not) (by simp))
  intro _
  apply Simulates.ite (fun _ => lexPair_simulates hpos .le (some .lt) (by simp))
  intro _
  apply Simulates.ite (fun _ => lexPair_simulates hpos .ge (some .gt) (by simp))
  intro _
  apply Simulates.ite (fun _ => one .lparen)
  intro _
  apply Simulates.ite (fun _ => one .rparen)
  intro _
  apply Simulates.ite (fun _ => one .dot)
  intro _
  exact .inr ⟨.badQuery, rfl, rfl⟩

theorem lexIsNumber_eq (hpos : pos < text.length) (c : UInt8) :
    lexIsNumber (text ++ [0]) pos c =
      .ok (isDigit c || (c = 45 && isDigit (peek (text.drop (pos + 1))))) := by
  unfold lexIsNumber
  rw [load_peek hpos]
  by_cases hdigit : isDigit c = true
  · simp [hdigit]
  · by_cases hminus : c = 45
    · simp [hminus, peek, isDigit]
    · simp [hdigit, hminus]

/-- **The lexer on the text in memory is the lexer over unread text**: it never loads past the NUL,
never overflows, and reports the same errors. -/
theorem lexNext_simulates (htext : (0 : UInt8) ∉ text) (hpos : pos ≤ text.length) :
    Simulates (LexesTo text) (lexNext (text ++ [0]) pos) (Dtl.lexNext (text.drop pos)) := by
  have hle := takeWhile_le lexIsSpace hpos
  have hdrop : text.drop (pos + ((text.drop pos).takeWhile lexIsSpace).length) =
      (text.drop pos).dropWhile lexIsSpace := drop_takeWhile lexIsSpace pos
  unfold lexNext Dtl.lexNext
  rw [← hdrop]
  apply Simulates.step (scan_eq (by rfl) hpos)
  apply Simulates.step (load_peek hle)
  generalize pos + ((text.drop pos).takeWhile lexIsSpace).length = start at hle
  rcases drop_cases hle with ⟨rfl, hnil⟩ | ⟨c, hlt, hc, hcons⟩
  · rw [hnil]
    exact Simulates.pure ⟨plain_token _ _, hnil.symm, le_refl _⟩
  · have hne : c ≠ 0 := by
      rintro rfl
      exact htext (List.mem_of_getElem? hc)
    rw [hcons]
    show Simulates (LexesTo text) (lexToken (text ++ [0]) start c) _
    rw [lexToken, if_neg hne]
    apply Simulates.step (lexIsNumber_eq hlt c)
    apply Simulates.ite
    · intro _
      rw [← hcons]
      exact lexNumber_simulates hlt
    intro _
    apply Simulates.ite
    · intro _
      rw [← hcons]
      exact lexIdent_simulates hle
    intro _
    exact Simulates.ite (fun _ => lexString_simulates htext hlt) fun _ => lexOperator_simulates hlt c

end Simulation

end Machine

end Dtl
