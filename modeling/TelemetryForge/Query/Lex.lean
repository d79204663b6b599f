import TelemetryForge.Core.Buf
import TelemetryForge.Lib.CText

/-!
# The query lexer

Model of `query/lex`.  A lexer position is the rest of the source text; a rest that is empty stands at
the terminating NUL.
-/

set_option autoImplicit false

namespace Dtl

open CText

/-- `dtl_token`; identifiers and strings carry their bytes, strings with escapes undecoded. -/
inductive Token where
  | eof
  | num (v : Int)
  | str (raw : Bytes)
  | ident (s : Bytes)
  | and
  | or
  | eq
  | ne
  | lt
  | le
  | gt
  | ge
  | not
  | lparen
  | rparen
  | dot
  deriving DecidableEq, Repr

def INT64_MAX : Nat := 2 ^ 63 - 1

/-- The character at the position; NUL at the end of the text. -/
def peek (s : Bytes) : UInt8 := s.headD 0

/-- `dtl_lex_is_space`. -/
def lexIsSpace (c : UInt8) : Bool := c = 32 || c = 9 || c = 10 || c = 13

/-- `dtl_lex_is_ident_start`. -/
def lexIsIdentStart (c : UInt8) : Bool := (97 ≤ c && c ≤ 122) || (65 ≤ c && c ≤ 90) || c = 95

/-- `dtl_lex_is_ident`. -/
def lexIsIdent (c : UInt8) : Bool := lexIsIdentStart c || isDigit c

/-- The digit loop of `dtl_lex_number`, with its guard against overflow. -/
def lexDigits (val : Nat) : Bytes → Res (Nat × Bytes)
  | [] => .ok (val, [])
  | c :: s =>
    if isDigit c then
      if val > (INT64_MAX - (c.toNat - 48)) / 10 then .error .badQuery
      else lexDigits (val * 10 + (c.toNat - 48)) s
    else .ok (val, c :: s)

/-- `dtl_lex_number`. -/
def lexNumber (s : Bytes) : Res (Token × Bytes) :=
  let negative := peek s = 45
  let s := if negative then s.tail else s
  if isDigit (peek s) then do
    let (val, s) ← lexDigits 0 s
    return (.num (if negative then -(val : Int) else val), s)
  else .error .badQuery

/-- The loop of `dtl_lex_string`, behind the opening quote. -/
def lexStringLoop (raw : Bytes) : Bytes → Res (Token × Bytes)
  | [] => .error .badQuery
  | 92 :: [] => .error .badQuery
  | 92 :: e :: s => lexStringLoop (raw ++ [92, e]) s
  | c :: s => if c = 34 then .ok (.str raw, s) else lexStringLoop (raw ++ [c]) s

/-- An operator of two characters, the second being `c`; `alt` is the operator without it. -/
def lexPair (c : UInt8) (both : Token) (alt : Option Token) (s : Bytes) : Res (Token × Bytes) :=
  if peek s = c then .ok (both, s.tail)
  else match alt with
    | some t => .ok (t, s)
    | none => .error .badQuery

/-- `dtl_lex_next`. -/
def lexNext (s : Bytes) : Res (Token × Bytes) :=
  match s.dropWhile lexIsSpace with
  | [] => .ok (.eof, [])
  | c :: s =>
    if isDigit c || (c = 45 && isDigit (peek s)) then lexNumber (c :: s)
    else if lexIsIdentStart c then
      .ok (.ident ((c :: s).takeWhile lexIsIdent), (c :: s).dropWhile lexIsIdent)
    else if c = 34 then lexStringLoop [] s
    else if c = 38 then lexPair 38 .and none s
    else if c = 124 then lexPair 124 .or none s
    else if c = 61 then lexPair 61 .eq none s
    else if c = 33 then lexPair 61 .ne (some .not) s
    else if c = 60 then lexPair 61 .le (some .lt) s
    else if c = 62 then lexPair 61 .ge (some .gt) s
    else if c = 40 then .ok (.lparen, s)
    else if c = 41 then .ok (.rparen, s)
    else if c = 46 then .ok (.dot, s)
    else .error .badQuery

end Dtl
