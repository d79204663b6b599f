import TelemetryForge.Query.Lex

/-!
# The query parser

Model of `query/ast` and `query/parse`.  The depth parameter of the source counts up to
`DTL_QUERY_MAX_DEPTH`; here it is the number of levels still allowed, so the four parsing functions are
structurally recursive.  The loops over `&&` and `||` carry the length of the text as fuel: every round
reads a token.
-/

set_option autoImplicit false

namespace Dtl

inductive CmpOp where
  | eq
  | ne
  | lt
  | le
  | gt
  | ge
  deriving DecidableEq, Repr

/-- `dtl_ast`. -/
inductive Ast where
  | or (left right : Ast)
  | and (left right : Ast)
  | cmp (op : CmpOp) (left right : Ast)
  | not (child : Ast)
  | field (s1 : Bytes) (s2 : Option Bytes)
  | int (v : Int)
  | str (s : Bytes)
  deriving DecidableEq, Repr

/-- `DTL_QUERY_MAX_DEPTH`. -/
def QUERY_MAX_DEPTH : Nat := 64

/-- `dtl_parser`. -/
structure QueryParser where
  lex : Bytes
  cur : Token
  err : Option Err

/-- `dtl_parse_advance`. -/
def parseAdvance (p : QueryParser) : QueryParser :=
  match lexNext p.lex with
  | .ok (cur, lex) => { p with lex, cur }
  | .error rc => { p with cur := .eof, err := p.err <|> some rc }

/-- `dtl_parse_fail`. -/
def parseFail (p : QueryParser) : Option Ast × QueryParser :=
  (none, { p with err := p.err <|> some .badQuery })

/-- The decoding loop of `dtl_parse_string`. -/
def parseEscapes : Bytes → Option Bytes
  | [] => some []
  | 92 :: [] => none
  | 92 :: e :: s => if e = 34 ∨ e = 92 then (e :: ·) <$> parseEscapes s else none
  | c :: s => (c :: ·) <$> parseEscapes s

/-- `dtl_parse_string`. -/
def parseString (p : QueryParser) (raw : Bytes) : Option Ast × QueryParser :=
  match parseEscapes raw with
  | none => parseFail p
  | some s => (some (.str s), p)

/-- `dtl_parse_cmp_op`. -/
def parseCmpOp : Token → Option CmpOp
  | .eq => some .eq
  | .ne => some .ne
  | .lt => some .lt
  | .le => some .le
  | .gt => some .gt
  | .ge => some .ge
  | _ => none

/-- The `while` loop of `dtl_parse_and` and `dtl_parse_expr`: operator, operand, operator, .. -/
def parseLoop (tok : Token) (mk : Ast → Ast → Ast) (operand : QueryParser → Option Ast × QueryParser) :
    Nat → Ast → QueryParser → Option Ast × QueryParser
  | 0, left, p => (some left, p)
  | fuel + 1, left, p =>
    if p.cur = tok then
      match operand (parseAdvance p) with
      | (none, p) => (none, p)
      | (some right, p) => parseLoop tok mk operand fuel (mk left right) p
    else (some left, p)

/-- The field reference of `dtl_parse_primary`, behind its first identifier `a`. -/
def parseField (a : Bytes) (p : QueryParser) : Option Ast × QueryParser :=
  if p.cur = .dot then
    let p := parseAdvance p
    match p.cur with
    | .ident b => (some (.field a (some b)), parseAdvance p)
    | _ => parseFail p
  else (some (.field a none), p)

mutual

/-- `dtl_parse_primary`. -/
def parsePrimary : Nat → QueryParser → Option Ast × QueryParser
  | 0, p => parseFail p
  | k + 1, p =>
    if p.err ≠ none then parseFail p else
    match p.cur with
    | .num v => (some (.int v), parseAdvance p)
    | .str raw =>
      match parseString p raw with
      | (none, p) => (none, p)
      | (some node, p) => (some node, parseAdvance p)
    | .ident a => parseField a (parseAdvance p)
    | .lparen =>
      match parseExpr k (parseAdvance p) with
      | (none, p) => (none, p)
      | (some inner, p) => if p.cur = .rparen then (some inner, parseAdvance p) else parseFail p
    | .not =>
      match parsePrimary k (parseAdvance p) with
      | (none, p) => (none, p)
      | (some child, p) => (some (.not child), p)
    | _ => parseFail p

/-- `dtl_parse_cmp`. -/
def parseCmp : Nat → QueryParser → Option Ast × QueryParser
  | 0, p => parseFail p
  | k + 1, p =>
    if p.err ≠ none then parseFail p else
    match parsePrimary k p with
    | (none, p) => (none, p)
    | (some left, p) =>
      match parseCmpOp p.cur with
      | none => (some left, p)
      | some op =>
        match parsePrimary k (parseAdvance p) with
        | (none, p) => (none, p)
        | (some right, p) => (some (.cmp op left right), p)

/-- `dtl_parse_and`. -/
def parseAnd : Nat → QueryParser → Option Ast × QueryParser
  | 0, p => parseFail p
  | k + 1, p =>
    if p.err ≠ none then parseFail p else
    match parseCmp k p with
    | (none, p) => (none, p)
    | (some left, p) => parseLoop .and .and (parseCmp k) (p.lex.length + 1) left p

/-- `dtl_parse_expr`. -/
def parseExpr : Nat → QueryParser → Option Ast × QueryParser
  | 0, p => parseFail p
  | k + 1, p =>
    if p.err ≠ none then parseFail p else
    match parseAnd k p with
    | (none, p) => (none, p)
    | (some left, p) => parseLoop .or .or (parseAnd k) (p.lex.length + 1) left p

end

/-- `dtl_parse`. -/
def queryParse (text : Bytes) : Res Ast :=
  match parseExpr (QUERY_MAX_DEPTH + 1) (parseAdvance ⟨text, .eof, none⟩) with
  | (root, p) =>
    match p.err with
    | some rc => .error rc
    | none =>
      match root with
      | none => .error .badQuery
      | some root => if p.cur = .eof then .ok root else .error .badQuery

end Dtl
