import TelemetryForge.Query.Parse

/-!
# The query grammar

The grammar of the filter language, as derivation trees over tokens:

    expr    := and ('||' and)*
    and     := cmp ('&&' cmp)*
    cmp     := primary (relop primary)?
    primary := NUM | STR | IDENT ['.' IDENT] | '(' expr ')' | '!' primary

A tree has the tokens it derives (`tokens`), the syntax tree it stands for (`ast`, `||` and `&&`
associating to the left) and a depth, counted as the parser counts it (`within`).

Principal result: `queryParse_grammar` — `dtl_parse` returns a tree exactly for the texts that lex to
the tokens of a derivation whose depth stays in bounds, returns `DTL_ERR_BADQUERY` for all others,
and a token list has at most one derivation.
-/

set_option autoImplicit false

namespace Dtl

open CText

/-! ## Derivations -/

/-- Decoding of a string token: the only escapes are `\"` and `\\`. -/
inductive Unescaped : Bytes → Bytes → Prop
  | nil : Unescaped [] []
  | plain {c : UInt8} {s t : Bytes} : c ≠ 92 → Unescaped s t → Unescaped (c :: s) (c :: t)
  | quote {s t : Bytes} : Unescaped s t → Unescaped (92 :: 34 :: s) (34 :: t)
  | backslash {s t : Bytes} : Unescaped s t → Unescaped (92 :: 92 :: s) (92 :: t)

mutual

/-- `expr := and ('||' and)*` -/
inductive ExprTree where
  | mk (first : AndTree) (rest : OrTail)

inductive OrTail where
  | nil
  | cons (operand : AndTree) (rest : OrTail)

/-- `and := cmp ('&&' cmp)*` -/
inductive AndTree where
  | mk (first : CmpTree) (rest : AndTail)

inductive AndTail where
  | nil
  | cons (operand : CmpTree) (rest : AndTail)

/-- `cmp := primary (relop primary)?` -/
inductive CmpTree where
  | primary (p : PrimaryTree)
  | relop (op : CmpOp) (left right : PrimaryTree)

/-- `primary := NUM | STR | IDENT ['.' IDENT] | '(' expr ')' | '!' primary` -/
inductive PrimaryTree where
  | num (v : Int)
  | str (raw decoded : Bytes) (h : Unescaped raw decoded)
  | ident (a : Bytes)
  | member (a b : Bytes)
  | paren (e : ExprTree)
  | not (p : PrimaryTree)

end

/-- The token of a comparison operator. -/
def CmpOp.token : CmpOp → Token
  | .eq => .eq
  | .ne => .ne
  | .lt => .lt
  | .le => .le
  | .gt => .gt
  | .ge => .ge

mutual

/-- The tokens a tree derives. -/
def ExprTree.tokens : ExprTree → List Token
  | .mk first rest => first.tokens ++ rest.tokens

def OrTail.tokens : OrTail → List Token
  | .nil => []
  | .cons operand rest => .or :: (operand.tokens ++ rest.tokens)

def AndTree.tokens : AndTree → List Token
  | .mk first rest => first.tokens ++ rest.tokens

def AndTail.tokens : AndTail → List Token
  | .nil => []
  | .cons operand rest => .and :: (operand.tokens ++ rest.tokens)

def CmpTree.tokens : CmpTree → List Token
  | .primary p => p.tokens
  | .relop op left right => left.tokens ++ op.token :: right.tokens

def PrimaryTree.tokens : PrimaryTree → List Token
  | .num v => [.num v]
  | .str raw _ _ => [.str raw]
  | .ident a => [.ident a]
  | .member a b => [.ident a, .dot, .ident b]
  | .paren e => .lparen :: (e.tokens ++ [.rparen])
  | .not p => .not :: p.tokens

end

mutual

/-- The syntax tree a derivation stands for; a tail extends the operand to its left. -/
def ExprTree.ast : ExprTree → Ast
  | .mk first rest => rest.ast first.ast

def OrTail.ast : OrTail → Ast → Ast
  | .nil, left => left
  | .cons operand rest, left => rest.ast (.or left operand.ast)

def AndTree.ast : AndTree → Ast
  | .mk first rest => rest.ast first.ast

def AndTail.ast : AndTail → Ast → Ast
  | .nil, left => left
  | .cons operand rest, left => rest.ast (.and left operand.ast)

def CmpTree.ast : CmpTree → Ast
  | .primary p => p.ast
  | .relop op left right => .cmp op left.ast right.ast

def PrimaryTree.ast : PrimaryTree → Ast
  | .num v => .int v
  | .str _ decoded _ => .str decoded
  | .ident a => .field a none
  | .member a b => .field a (some b)
  | .paren e => e.ast
  | .not p => .not p.ast

end

mutual

/-- The parser's depth counter stays within `DTL_QUERY_MAX_DEPTH` when the tree is parsed from
depth `d`; the operands of a tail are parsed at the tail's depth. -/
def ExprTree.within (d : Nat) : ExprTree → Prop
  | .mk first rest => d ≤ QUERY_MAX_DEPTH ∧ first.within (d + 1) ∧ rest.within (d + 1)

def OrTail.within (d : Nat) : OrTail → Prop
  | .nil => True
  | .cons operand rest => operand.within d ∧ rest.within d

def AndTree.within (d : Nat) : AndTree → Prop
  | .mk first rest => d ≤ QUERY_MAX_DEPTH ∧ first.within (d + 1) ∧ rest.within (d + 1)

def AndTail.within (d : Nat) : AndTail → Prop
  | .nil => True
  | .cons operand rest => operand.within d ∧ rest.within d

def CmpTree.within (d : Nat) : CmpTree → Prop
  | .primary p => d ≤ QUERY_MAX_DEPTH ∧ p.within (d + 1)
  | .relop _ left right => d ≤ QUERY_MAX_DEPTH ∧ left.within (d + 1) ∧ right.within (d + 1)

def PrimaryTree.within (d : Nat) : PrimaryTree → Prop
  | .paren e => d ≤ QUERY_MAX_DEPTH ∧ e.within (d + 1)
  | .not p => d ≤ QUERY_MAX_DEPTH ∧ p.within (d + 1)
  | _ => d ≤ QUERY_MAX_DEPTH

end

/-- A text lexes without error to a token list, the end token left out. -/
inductive Lexes : Bytes → List Token → Prop
  | done {s r : Bytes} : lexNext s = .ok (.eof, r) → Lexes s []
  | more {s r : Bytes} {t : Token} {ts : List Token} : lexNext s = .ok (t, r) → t ≠ .eof →
      Lexes r ts → Lexes s (t :: ts)

/-- A text derives a syntax tree within the depth limit. -/
def Derives (text : Bytes) (t : Ast) : Prop :=
  ∃ e : ExprTree, Lexes text e.tokens ∧ e.ast = t ∧ e.within 0

/-! ## The lexer -/

theorem parseEscapes_iff : ∀ (raw decoded : Bytes),
    parseEscapes raw = some decoded ↔ Unescaped raw decoded := by
  intro raw
  induction raw using parseEscapes.induct with
  | case1 =>
    intro decoded
    rw [parseEscapes]
    constructor
    · rintro ⟨⟩
      exact .nil
    · rintro ⟨⟩
      rfl
  | case2 =>
    intro decoded
    rw [parseEscapes]
    constructor
    · rintro ⟨⟩
    · intro h
      cases h with
      | plain hc _ => exact absurd rfl hc
  | case3 e s he ih =>
    intro decoded
    rw [parseEscapes, if_pos he]
    constructor
    · intro h
      obtain ⟨t, ht, rfl⟩ := Option.map_eq_some_iff.mp h
      rcases he with rfl | rfl
      · exact .quote ((ih t).mp ht)
      · exact .backslash ((ih t).mp ht)
    · intro h
      cases h with
      | plain hc _ => exact absurd rfl hc
      | quote h => exact Option.map_eq_some_iff.mpr ⟨_, (ih _).mpr h, rfl⟩
      | backslash h => exact Option.map_eq_some_iff.mpr ⟨_, (ih _).mpr h, rfl⟩
  | case4 e s he =>
    intro decoded
    rw [parseEscapes, if_neg he]
    constructor
    · rintro ⟨⟩
    · intro h
      cases h with
      | plain hc _ => exact absurd rfl hc
      | quote _ => exact absurd (.inl rfl) he
      | backslash _ => exact absurd (.inr rfl) he
  | case5 c s h1 h2 ih =>
    intro decoded
    have hc : c ≠ 92 := by
      rintro rfl
      cases s with
      | nil => exact h1 rfl rfl
      | cons e s => exact h2 e s rfl rfl
    rw [parseEscapes]
    · constructor
      · intro h
        obtain ⟨t, ht, rfl⟩ := Option.map_eq_some_iff.mp h
        exact .plain hc ((ih t).mp ht)
      · intro h
        cases h with
        | plain _ h => exact Option.map_eq_some_iff.mpr ⟨_, (ih _).mpr h, rfl⟩
        | quote _ => exact absurd rfl hc
        | backslash _ => exact absurd rfl hc
    · exact h1
    · exact h2

/-- A token other than the end whose rest is shorter than `n`, or `DTL_ERR_BADQUERY`. -/
def Lexed (n : Nat) (x : Res (Token × Bytes)) : Prop :=
  (∀ t r, x = .ok (t, r) → r.length < n ∧ t ≠ .eof) ∧ ∀ e, x = .error e → e = .badQuery

theorem Lexed.token {n : Nat} {t : Token} {r : Bytes} (hr : r.length < n) (ht : t ≠ .eof) :
    Lexed n (.ok (t, r)) := by
  refine ⟨fun t' r' h => ?_, fun e h => ?_⟩
  · cases h
    exact ⟨hr, ht⟩
  · cases h

theorem Lexed.error (n : Nat) : Lexed n (.error .badQuery) := by
  refine ⟨fun t r h => ?_, fun e h => ?_⟩
  · cases h
  · cases h
    rfl

theorem Lexed.mono {n m : Nat} {x : Res (Token × Bytes)} (h : Lexed n x) (hnm : n ≤ m) :
    Lexed m x :=
  ⟨fun t r hx => ⟨Nat.lt_of_lt_of_le (h.1 t r hx).1 hnm, (h.1 t r hx).2⟩, h.2⟩

theorem Lexed.ite {n : Nat} {c : Prop} [Decidable c] {x y : Res (Token × Bytes)}
    (hx : c → Lexed n x) (hy : ¬ c → Lexed n y) : Lexed n (if c then x else y) := by
  by_cases h : c
  · rw [if_pos h]
    exact hx h
  · rw [if_neg h]
    exact hy h

theorem lexDigits_spec : ∀ (s : Bytes) (val : Nat),
    (∀ v r, lexDigits val s = .ok (v, r) → r.length ≤ s.length) ∧
      ∀ e, lexDigits val s = .error e → e = .badQuery
  | [], val => by
    refine ⟨fun v r h => ?_, fun e h => ?_⟩
    · cases h
      exact le_refl _
    · cases h
  | c :: s, val => by
    unfold lexDigits
    split
    · split
      · refine ⟨fun v r h => ?_, fun e h => ?_⟩
        · cases h
        · cases h
          rfl
      · obtain ⟨hok, herr⟩ := lexDigits_spec s (val * 10 + (c.toNat - 48))
        exact ⟨fun v r h => Nat.le_succ_of_le (hok v r h), herr⟩
    · refine ⟨fun v r h => ?_, fun e h => ?_⟩
      · cases h
        exact le_refl _
      · cases h

/-- The digits of a number, once its sign is read. -/
theorem lexDigits_lexed (sign : Nat → Int) (s : Bytes) :
    Lexed s.length (if isDigit (peek s) = true then
      lexDigits 0 s >>= fun p => .ok (.num (sign p.1), p.2) else .error .badQuery) := by
  split
  · rename_i hdigit
    match s, hdigit with
    | c :: s, hdigit =>
      have hc : isDigit c = true := hdigit
      obtain ⟨hok, herr⟩ := lexDigits_spec s (0 * 10 + (c.toNat - 48))
      rw [lexDigits, if_pos hc]
      split
      · exact Lexed.error _
      · cases hd : lexDigits (0 * 10 + (c.toNat - 48)) s with
        | error e =>
          rw [herr e hd]
          exact Lexed.error _
        | ok p => exact Lexed.token (Nat.lt_succ_of_le (hok p.1 p.2 hd)) (by simp)
  · exact Lexed.error _

theorem lexNumber_lexed (s : Bytes) : Lexed s.length (lexNumber s) := by
  unfold lexNumber
  by_cases hneg : peek s = 45
  · simp only [hneg, if_true]
    apply (lexDigits_lexed (fun v => -(v : Int)) s.tail).mono
    rw [List.length_tail]
    omega
  · simp only [hneg, if_false]
    exact lexDigits_lexed (fun v => (v : Int)) s

theorem lexStringLoop_lexed (s raw : Bytes) : Lexed s.length (lexStringLoop raw s) := by
  induction raw, s using lexStringLoop.induct with
  | case1 raw => exact Lexed.error _
  | case2 raw => exact Lexed.error _
  | case3 raw e s ih =>
    rw [lexStringLoop]
    exact ih.mono (by simp only [List.length_cons]; omega)
  | case4 raw s h1 h2 =>
    rw [lexStringLoop]
    · rw [if_pos rfl]
      exact Lexed.token (Nat.lt_succ_self _) (by simp)
    · exact h1
    · exact h2
  | case5 raw c s h1 h2 hc ih =>
    rw [lexStringLoop]
    · rw [if_neg hc]
      exact ih.mono (by simp only [List.length_cons]; omega)
    · exact h1
    · exact h2

theorem lexPair_lexed (c : UInt8) {both : Token} {alt : Option Token} (s : Bytes)
    (hboth : both ≠ .eof) (halt : alt ≠ some .eof) :
    Lexed (s.length + 1) (lexPair c both alt s) := by
  unfold lexPair
  split
  · exact Lexed.token (by rw [List.length_tail]; omega) hboth
  · cases alt with
    | none => exact Lexed.error _
    | some t => exact Lexed.token (Nat.lt_succ_self _) fun h => halt (congrArg some h)

/-- Where a character follows the whitespace, the lexer gets past it or reports
`DTL_ERR_BADQUERY`. -/
theorem lexNext_lexed_cons {s rest : Bytes} {c : UInt8} (h : s.dropWhile lexIsSpace = c :: rest) :
    Lexed (rest.length + 1) (lexNext s) := by
  have hpair : ∀ (c : UInt8) (both : Token) (alt : Option Token), both ≠ .eof → alt ≠ some .eof →
      Lexed (rest.length + 1) (lexPair c both alt rest) := fun c both alt =>
    lexPair_lexed c rest
  have hone : ∀ t : Token, t ≠ .eof → Lexed (rest.length + 1) (.ok (t, rest)) := fun t =>
    Lexed.token (Nat.lt_succ_self _)
  rw [lexNext, h]
  apply Lexed.ite (fun _ => lexNumber_lexed (c :: rest))
  intro _
  apply Lexed.ite
  · intro hident
    have hc : lexIsIdent c = true := by simp [lexIsIdent, hident]
    refine Lexed.token ?_ (by simp)
    rw [List.dropWhile_cons_of_pos hc]
    exact Nat.lt_succ_of_le (List.dropWhile_sublist _).length_le
  intro _
  apply Lexed.ite (fun _ => (lexStringLoop_lexed rest []).mono (Nat.le_succ _))
  intro _
  apply Lexed.ite (fun _ => hpair 38 .and none (by simp) (by simp))
  intro _
  apply Lexed.ite (fun _ => hpair 124 .or none (by simp) (by simp))
  intro _
  apply Lexed.ite (fun _ => hpair 61 .eq none (by simp) (by simp))
  intro _
  apply Lexed.ite (fun _ => hpair 61 .ne (some .not) (by simp) (by simp))
  intro _
  apply Lexed.ite (fun _ => hpair 61 .le (some .lt) (by simp) (by simp))
  intro _
  apply Lexed.ite (fun _ => hpair 61 .ge (some .gt) (by simp) (by simp))
  intro _
  apply Lexed.ite (fun _ => hone .lparen (by simp))
  intro _
  apply Lexed.ite (fun _ => hone .rparen (by simp))
  intro _
  apply Lexed.ite (fun _ => hone .dot (by simp))
  intro _
  exact Lexed.error _

/-- What one call of the lexer does: the end token at the end of the text, and elsewhere a token at
least one byte long or `DTL_ERR_BADQUERY`. -/
theorem lexNext_lexed (s : Bytes) : lexNext s = .ok (.eof, []) ∨ Lexed s.length (lexNext s) := by
  have hle : (s.dropWhile lexIsSpace).length ≤ s.length := (List.dropWhile_sublist _).length_le
  cases hrest : s.dropWhile lexIsSpace with
  | nil =>
    left
    rw [lexNext, hrest]
  | cons c rest =>
    rw [hrest] at hle
    exact .inr ((lexNext_lexed_cons hrest).mono hle)

theorem lexNext_error {s : Bytes} {e : Err} (h : lexNext s = .error e) : e = .badQuery := by
  rcases lexNext_lexed s with heof | hlex
  · rw [heof] at h
    cases h
  · exact hlex.2 e h

theorem lexNext_lt {s r : Bytes} {t : Token} (h : lexNext s = .ok (t, r)) (ht : t ≠ .eof) :
    r.length < s.length := by
  rcases lexNext_lexed s with heof | hlex
  · rw [heof] at h
    cases h
    exact absurd rfl ht
  · exact (hlex.1 t r h).1

theorem lexNext_le {s r : Bytes} {t : Token} (h : lexNext s = .ok (t, r)) :
    r.length ≤ s.length := by
  rcases lexNext_lexed s with heof | hlex
  · rw [heof] at h
    cases h
    exact Nat.zero_le _
  · exact (hlex.1 t r h).1.le

/-! ## Reading tokens -/

/-- The parser reads tokens one by one, none of them the end, and gets from one state to another. -/
inductive Scans : QueryParser → List Token → QueryParser → Prop
  | nil (p : QueryParser) : Scans p [] p
  | cons {p p' : QueryParser} {ts : List Token} : p.cur ≠ .eof → Scans (parseAdvance p) ts p' →
      Scans p (p.cur :: ts) p'

theorem Scans.append {p q r : QueryParser} {ts us : List Token} (h : Scans p ts q)
    (h' : Scans q us r) : Scans p (ts ++ us) r := by
  induction h with
  | nil p => exact h'
  | cons hne _ ih => exact .cons hne (ih h')

theorem Scans.split : ∀ {ts us : List Token} {p r : QueryParser}, Scans p (ts ++ us) r →
    ∃ q, Scans p ts q ∧ Scans q us r
  | [], _, p, _, h => ⟨p, .nil p, h⟩
  | _ :: _, _, _, _, h => by
    cases h with
    | cons hne hrest =>
      obtain ⟨q, h1, h2⟩ := Scans.split hrest
      exact ⟨q, .cons hne h1, h2⟩

theorem Scans.cons_inv {p p' : QueryParser} {t : Token} {ts : List Token}
    (h : Scans p (t :: ts) p') : p.cur = t ∧ t ≠ .eof ∧ Scans (parseAdvance p) ts p' := by
  cases h with
  | cons hne hrest => exact ⟨rfl, hne, hrest⟩

theorem Scans.nil_inv {p p' : QueryParser} (h : Scans p [] p') : p = p' := by
  cases h
  rfl

theorem parseAdvance_err {p : QueryParser} (h : (parseAdvance p).err = none) : p.err = none := by
  unfold parseAdvance at h
  split at h
  · exact h
  · cases hp : p.err with
    | none => rfl
    | some e => simp [hp] at h

/-- An error is never forgotten. -/
theorem Scans.err {p p' : QueryParser} {ts : List Token} (h : Scans p ts p')
    (he : p'.err = none) : p.err = none := by
  induction h with
  | nil p => exact he
  | cons _ _ ih => exact parseAdvance_err (ih he)

theorem parseAdvance_ok {p : QueryParser} (h : (parseAdvance p).err = none) :
    lexNext p.lex = .ok ((parseAdvance p).cur, (parseAdvance p).lex) := by
  unfold parseAdvance at h ⊢
  split
  · rename_i hlex
    exact hlex
  · rename_i hlex
    rw [hlex] at h
    cases hp : p.err <;> simp [hp] at h

theorem parseAdvance_of_ok {p : QueryParser} {t : Token} {r : Bytes}
    (h : lexNext p.lex = .ok (t, r)) : parseAdvance p = ⟨r, t, p.err⟩ := by
  rw [parseAdvance, h]

theorem Scans.lex_le {p p' : QueryParser} {ts : List Token} (h : Scans p ts p')
    (he : p'.err = none) : p'.lex.length ≤ p.lex.length := by
  induction h with
  | nil p => exact le_refl _
  | cons _ hrest ih =>
    exact (ih he).trans (lexNext_le (parseAdvance_ok (hrest.err he)))

/-- Past a token that is followed by another one, the text is shorter. -/
theorem Scans.lex_lt {p p' : QueryParser} {t : Token} {ts : List Token} (h : Scans p (t :: ts) p')
    (hts : ts ≠ []) (he : p'.err = none) : p'.lex.length < p.lex.length := by
  obtain ⟨-, -, hrest⟩ := h.cons_inv
  have hlex := parseAdvance_ok (hrest.err he)
  cases ts with
  | nil => exact absurd rfl hts
  | cons u us =>
    obtain ⟨hcur, hne, hus⟩ := hrest.cons_inv
    have hlt := lexNext_lt hlex (hcur ▸ hne)
    exact lt_of_le_of_lt (hrest.lex_le he) hlt

/-- Reading from the start to the end of a text is lexing it. -/
theorem reads_iff_lexes : ∀ (ts : List Token) (s : Bytes) (c : Token),
    (∃ p', Scans (parseAdvance ⟨s, c, none⟩) ts p' ∧ p'.err = none ∧ p'.cur = .eof) ↔ Lexes s ts
  | [], s, c => by
    constructor
    · rintro ⟨p', h, herr, hcur⟩
      cases h.nil_inv
      have hlex := parseAdvance_ok herr
      rw [hcur] at hlex
      exact .done hlex
    · rintro ⟨hlex⟩
      refine ⟨_, .nil _, ?_, ?_⟩ <;> rw [parseAdvance_of_ok hlex]
  | t :: ts, s, c => by
    constructor
    · rintro ⟨p', h, herr, hcur⟩
      obtain ⟨ht, hne, hrest⟩ := h.cons_inv
      obtain ⟨r, hlex⟩ : ∃ r, lexNext s = .ok (t, r) := ⟨_, ht ▸ parseAdvance_ok (h.err herr)⟩
      rw [parseAdvance_of_ok (p := ⟨s, c, none⟩) hlex] at hrest
      exact .more hlex hne ((reads_iff_lexes ts _ t).mp ⟨p', hrest, herr, hcur⟩)
    · intro h
      cases h with
      | more hlex hne hrest =>
        obtain ⟨p', hreads, herr, hcur⟩ := (reads_iff_lexes ts _ t).mpr hrest
        refine ⟨p', ?_, herr, hcur⟩
        rw [parseAdvance_of_ok hlex]
        exact .cons hne hreads

/-! ## Soundness -/

/-- A sub-parser returned a tree, and its state holds no error: the tree derives what was read. -/
def Sound {T : Type} (tokens : T → List Token) (ast : T → Ast) (within : Nat → T → Prop) (d : Nat)
    (parse : QueryParser → Option Ast × QueryParser) : Prop :=
  ∀ p t p', parse p = (some t, p') → p'.err = none →
    ∃ tree, ast tree = t ∧ Scans p (tokens tree) p' ∧ within d tree

theorem CmpOp.token_eq {t : Token} {op : CmpOp} (h : parseCmpOp t = some op) : t = op.token := by
  cases t <;> simp only [parseCmpOp, reduceCtorEq, Option.some.injEq] at h <;> subst h <;> rfl

theorem CmpOp.token_ne_eof (op : CmpOp) : op.token ≠ .eof := by cases op <;> simp [CmpOp.token]

theorem Scans.one {p : QueryParser} {t : Token} (h : p.cur = t) (ht : t ≠ .eof) :
    Scans p [t] (parseAdvance p) := by
  subst h
  exact .cons ht (.nil _)

/-- What both loops read: a chain `nil`, `cons operand rest` of operands behind the token `tok`. -/
structure Chain (T R : Type) (tok : Token) (mk : Ast → Ast → Ast) (tokens : T → List Token)
    (ast : T → Ast) (within : Nat → T → Prop) where
  nil : R
  cons : T → R → R
  tokensOf : R → List Token
  astOf : R → Ast → Ast
  withinOf : Nat → R → Prop
  tokens_nil : tokensOf nil = []
  tokens_cons : ∀ x r, tokensOf (cons x r) = tok :: (tokens x ++ tokensOf r)
  ast_nil : ∀ left, astOf nil left = left
  ast_cons : ∀ x r left, astOf (cons x r) left = astOf r (mk left (ast x))
  within_nil : ∀ d, withinOf d nil
  within_cons : ∀ d x r, within d x → withinOf d r → withinOf d (cons x r)

theorem parseLoop_sound {T R : Type} {tok : Token} {mk : Ast → Ast → Ast} {tokens : T → List Token}
    {ast : T → Ast} {within : Nat → T → Prop} (c : Chain T R tok mk tokens ast within)
    (htok : tok ≠ .eof) {d : Nat} {operand : QueryParser → Option Ast × QueryParser}
    (h : Sound tokens ast within d operand) : ∀ (fuel : Nat) (left : Ast)
      (p : QueryParser) (t : Ast) (p' : QueryParser),
      parseLoop tok mk operand fuel left p = (some t, p') → p'.err = none →
        ∃ rest, c.astOf rest left = t ∧ Scans p (c.tokensOf rest) p' ∧ c.withinOf d rest
  | 0, left, p, _, _, heq, _ => by
    cases heq
    refine ⟨c.nil, c.ast_nil left, ?_, c.within_nil d⟩
    rw [c.tokens_nil]
    exact .nil p
  | fuel + 1, left, p, t, p', heq, herr => by
    rw [parseLoop] at heq
    split at heq
    · rename_i hcur
      split at heq
      · cases heq
      · rename_i right q hright
        obtain ⟨rest, hast, hreads, hdepth⟩ := parseLoop_sound c htok h fuel _ q t p' heq herr
        obtain ⟨tree, rfl, htree, hin⟩ := h _ right q hright (hreads.err herr)
        refine ⟨c.cons tree rest, (c.ast_cons _ _ _).trans hast, ?_, c.within_cons _ _ _ hin hdepth⟩
        rw [c.tokens_cons]
        exact (Scans.one hcur htok).append (htree.append hreads)
    · cases heq
      refine ⟨c.nil, c.ast_nil left, ?_, c.within_nil d⟩
      rw [c.tokens_nil]
      exact .nil p

def orChain : Chain AndTree OrTail .or .or AndTree.tokens AndTree.ast AndTree.within :=
  ⟨.nil, .cons, OrTail.tokens, OrTail.ast, OrTail.within, rfl, fun _ _ => rfl, fun _ => rfl,
    fun _ _ _ => rfl, fun _ => trivial, fun _ _ _ hx hr => ⟨hx, hr⟩⟩

def andChain : Chain CmpTree AndTail .and .and CmpTree.tokens CmpTree.ast CmpTree.within :=
  ⟨.nil, .cons, AndTail.tokens, AndTail.ast, AndTail.within, rfl, fun _ _ => rfl, fun _ => rfl,
    fun _ _ _ => rfl, fun _ => trivial, fun _ _ _ hx hr => ⟨hx, hr⟩⟩

theorem parseField_sound {a : Bytes} {p p' : QueryParser} {t : Ast} {d : Nat}
    (hcur : p.cur = .ident a) (hd : d ≤ QUERY_MAX_DEPTH)
    (h : parseField a (parseAdvance p) = (some t, p')) :
    ∃ tree : PrimaryTree, tree.ast = t ∧ Scans p tree.tokens p' ∧ tree.within d := by
  have hfirst := Scans.one hcur (by simp)
  unfold parseField at h
  dsimp only at h
  split at h
  · rename_i hdot
    have hsecond := Scans.one hdot (by simp)
    split at h
    · rename_i b hb
      cases h
      exact ⟨.member a b, rfl, hfirst.append (hsecond.append (Scans.one hb (by simp))), hd⟩
    · cases h
  · cases h
    exact ⟨.ident a, rfl, hfirst, hd⟩

theorem parseFail_ne {p p' : QueryParser} {t : Ast} : parseFail p ≠ (some t, p') := by
  simp [parseFail]

/-- **Whatever a sub-parser returns derives the tokens it read**, at the depth it was called. -/
theorem parse_sound : ∀ (k d : Nat), d + k = QUERY_MAX_DEPTH + 1 →
    Sound PrimaryTree.tokens PrimaryTree.ast PrimaryTree.within d (parsePrimary k) ∧
      Sound CmpTree.tokens CmpTree.ast CmpTree.within d (parseCmp k) ∧
      Sound AndTree.tokens AndTree.ast AndTree.within d (parseAnd k) ∧
      Sound ExprTree.tokens ExprTree.ast ExprTree.within d (parseExpr k)
  | 0, d, _ => by
    refine ⟨?_, ?_, ?_, ?_⟩ <;> intro p t p' h
    · rw [parsePrimary] at h
      exact absurd h parseFail_ne
    · rw [parseCmp] at h
      exact absurd h parseFail_ne
    · rw [parseAnd] at h
      exact absurd h parseFail_ne
    · rw [parseExpr] at h
      exact absurd h parseFail_ne
  | k + 1, d, hk => by
    have hd : d ≤ QUERY_MAX_DEPTH := by omega
    obtain ⟨hprimary, hcmp, hand, hexpr⟩ := parse_sound k (d + 1) (by omega)
    refine ⟨?_, ?_, ?_, ?_⟩ <;> intro p t p' h herr
    · rw [parsePrimary] at h
      split at h
      · exact absurd h parseFail_ne
      split at h
      · rename_i v hcur
        cases h
        exact ⟨.num v, rfl, Scans.one hcur (by simp), hd⟩
      · rename_i raw hcur
        unfold parseString at h
        cases hraw : parseEscapes raw with
        | none =>
          rw [hraw] at h
          cases h
        | some decoded =>
          rw [hraw] at h
          cases h
          exact ⟨.str raw decoded ((parseEscapes_iff raw decoded).mp hraw), rfl,
            Scans.one hcur (by simp), hd⟩
      · rename_i a hcur
        exact parseField_sound hcur hd h
      · rename_i hcur
        split at h
        · cases h
        · rename_i inner q hq
          split at h
          · rename_i hclose
            cases h
            obtain ⟨e, rfl, hreads, hin⟩ := hexpr _ _ q hq (parseAdvance_err herr)
            exact ⟨.paren e, rfl, (Scans.one hcur (by simp)).append
              (hreads.append (Scans.one hclose (by simp))), hd, hin⟩
          · exact absurd h parseFail_ne
      · rename_i hcur
        split at h
        · cases h
        · rename_i child q hq
          cases h
          obtain ⟨c, rfl, hreads, hin⟩ := hprimary _ child p' hq herr
          exact ⟨.not c, rfl, (Scans.one hcur (by simp)).append hreads, hd, hin⟩
      · exact absurd h parseFail_ne
    · rw [parseCmp] at h
      split at h
      · exact absurd h parseFail_ne
      split at h
      · cases h
      · rename_i left q hq
        split at h
        · cases h
          obtain ⟨tree, rfl, hreads, hin⟩ := hprimary p _ p' hq herr
          exact ⟨.primary tree, rfl, hreads, hd, hin⟩
        · rename_i op hop
          split at h
          · cases h
          · rename_i right r hr
            cases h
            obtain ⟨tr, rfl, hright, hinr⟩ := hprimary _ right p' hr herr
            obtain ⟨tl, rfl, hleft, hinl⟩ := hprimary p left q hq (parseAdvance_err (hright.err herr))
            exact ⟨.relop op tl tr, rfl, hleft.append
              ((Scans.one (CmpOp.token_eq hop) op.token_ne_eof).append hright), hd, hinl, hinr⟩
    · rw [parseAnd] at h
      split at h
      · exact absurd h parseFail_ne
      split at h
      · cases h
      · rename_i left q hq
        obtain ⟨rest, hast, hrest, hin⟩ := parseLoop_sound andChain (by simp) hcmp _ left q t p' h herr
        obtain ⟨first, rfl, hfirst, hinf⟩ := hcmp p left q hq (hrest.err herr)
        exact ⟨.mk first rest, hast, hfirst.append hrest, hd, hinf, hin⟩
    · rw [parseExpr] at h
      split at h
      · exact absurd h parseFail_ne
      split at h
      · cases h
      · rename_i left q hq
        obtain ⟨rest, hast, hrest, hin⟩ := parseLoop_sound orChain (by simp) hand _ left q t p' h herr
        obtain ⟨first, rfl, hfirst, hinf⟩ := hand p left q hq (hrest.err herr)
        exact ⟨.mk first rest, hast, hfirst.append hrest, hd, hinf, hin⟩

/-! ## Completeness -/

/-- What may follow a phrase without being read as part of it. -/
def FollowPrimary (t : Token) : Prop := t ≠ .dot

def FollowCmp (t : Token) : Prop := FollowPrimary t ∧ parseCmpOp t = none

def FollowAnd (t : Token) : Prop := FollowCmp t ∧ t ≠ .and

def FollowExpr (t : Token) : Prop := FollowAnd t ∧ t ≠ .or

theorem followExpr_eof : FollowExpr .eof := by
  simp [FollowExpr, FollowAnd, FollowCmp, FollowPrimary, parseCmpOp]

theorem followExpr_rparen : FollowExpr .rparen := by
  simp [FollowExpr, FollowAnd, FollowCmp, FollowPrimary, parseCmpOp]

theorem PrimaryTree.tokens_ne_nil (p : PrimaryTree) : p.tokens ≠ [] := by
  cases p <;> simp [PrimaryTree.tokens]

theorem CmpTree.tokens_ne_nil (c : CmpTree) : c.tokens ≠ [] := by
  cases c with
  | primary p => exact p.tokens_ne_nil
  | relop op left right => simp [CmpTree.tokens]

theorem AndTree.tokens_ne_nil (a : AndTree) : a.tokens ≠ [] := by
  cases a with
  | mk first rest => simp [AndTree.tokens, first.tokens_ne_nil]

theorem OrTail.follow {rest : OrTail} {p p' : QueryParser} (h : Scans p rest.tokens p')
    (hf : FollowExpr p'.cur) : FollowAnd p.cur := by
  cases rest with
  | nil =>
    rw [h.nil_inv]
    exact hf.1
  | cons operand rest =>
    rw [h.cons_inv.1]
    simp [FollowAnd, FollowCmp, FollowPrimary, parseCmpOp]

theorem AndTail.follow {rest : AndTail} {p p' : QueryParser} (h : Scans p rest.tokens p')
    (hf : FollowAnd p'.cur) : FollowCmp p.cur := by
  cases rest with
  | nil =>
    rw [h.nil_inv]
    exact hf.1
  | cons operand rest =>
    rw [h.cons_inv.1]
    simp [FollowCmp, FollowPrimary, parseCmpOp]

theorem parseCmpOp_token (op : CmpOp) : parseCmpOp op.token = some op := by cases op <;> rfl

theorem CmpOp.token_followPrimary (op : CmpOp) : FollowPrimary op.token := by
  cases op <;> simp [CmpOp.token, FollowPrimary]

mutual

/-- **The tokens of a derivation are parsed to its syntax tree**, provided that what follows is not
read on. -/
theorem ExprTree.complete : ∀ (e : ExprTree) {k d : Nat} {p p' : QueryParser},
    d + k = QUERY_MAX_DEPTH + 1 → e.within d → Scans p e.tokens p' → p'.err = none →
      FollowExpr p'.cur → parseExpr k p = (some e.ast, p')
  | .mk first rest, k, d, p, p', hk, hin, hreads, herr, hf => by
    obtain ⟨hd, hfirst, hrest⟩ := hin
    obtain ⟨j, rfl⟩ : ∃ j, k = j + 1 := ⟨k - 1, by omega⟩
    obtain ⟨q, hq, hq'⟩ := hreads.split
    rw [parseExpr, if_neg (by simp [hreads.err herr]),
      first.complete (by omega) hfirst hq (hq'.err herr) (OrTail.follow hq' hf)]
    exact rest.complete (by omega) hrest hq' herr hf (Nat.lt_succ_self _)

theorem OrTail.complete : ∀ (rest : OrTail) {k d fuel : Nat} {left : Ast} {p p' : QueryParser},
    d + k = QUERY_MAX_DEPTH + 1 → rest.within d → Scans p rest.tokens p' → p'.err = none →
      FollowExpr p'.cur → p.lex.length < fuel →
        parseLoop .or .or (parseAnd k) fuel left p = (some (rest.ast left), p')
  | .nil, k, d, fuel, left, p, p', _, _, hreads, _, hf, hfuel => by
    obtain ⟨f, rfl⟩ : ∃ f, fuel = f + 1 := ⟨fuel - 1, by omega⟩
    rw [← hreads.nil_inv] at hf ⊢
    rw [parseLoop, if_neg hf.2]
    rfl
  | .cons operand rest, k, d, fuel, left, p, p', hk, hin, hreads, herr, hf, hfuel => by
    obtain ⟨f, rfl⟩ : ∃ f, fuel = f + 1 := ⟨fuel - 1, by omega⟩
    obtain ⟨hcur, hne, htail⟩ := hreads.cons_inv
    obtain ⟨q, hq, hq'⟩ := htail.split
    have hlt : q.lex.length < p.lex.length :=
      ((Scans.one hcur hne).append hq).lex_lt operand.tokens_ne_nil (hq'.err herr)
    rw [parseLoop, if_pos hcur,
      operand.complete hk hin.1 hq (hq'.err herr) (OrTail.follow hq' hf)]
    exact rest.complete hk hin.2 hq' herr hf (by omega)

theorem AndTree.complete : ∀ (a : AndTree) {k d : Nat} {p p' : QueryParser},
    d + k = QUERY_MAX_DEPTH + 1 → a.within d → Scans p a.tokens p' → p'.err = none →
      FollowAnd p'.cur → parseAnd k p = (some a.ast, p')
  | .mk first rest, k, d, p, p', hk, hin, hreads, herr, hf => by
    obtain ⟨hd, hfirst, hrest⟩ := hin
    obtain ⟨j, rfl⟩ : ∃ j, k = j + 1 := ⟨k - 1, by omega⟩
    obtain ⟨q, hq, hq'⟩ := hreads.split
    rw [parseAnd, if_neg (by simp [hreads.err herr]),
      first.complete (by omega) hfirst hq (hq'.err herr) (AndTail.follow hq' hf)]
    exact rest.complete (by omega) hrest hq' herr hf (Nat.lt_succ_self _)

theorem AndTail.complete : ∀ (rest : AndTail) {k d fuel : Nat} {left : Ast} {p p' : QueryParser},
    d + k = QUERY_MAX_DEPTH + 1 → rest.within d → Scans p rest.tokens p' → p'.err = none →
      FollowAnd p'.cur → p.lex.length < fuel →
        parseLoop .and .and (parseCmp k) fuel left p = (some (rest.ast left), p')
  | .nil, k, d, fuel, left, p, p', _, _, hreads, _, hf, hfuel => by
    obtain ⟨f, rfl⟩ : ∃ f, fuel = f + 1 := ⟨fuel - 1, by omega⟩
    rw [← hreads.nil_inv] at hf ⊢
    rw [parseLoop, if_neg hf.2]
    rfl
  | .cons operand rest, k, d, fuel, left, p, p', hk, hin, hreads, herr, hf, hfuel => by
    obtain ⟨f, rfl⟩ : ∃ f, fuel = f + 1 := ⟨fuel - 1, by omega⟩
    obtain ⟨hcur, hne, htail⟩ := hreads.cons_inv
    obtain ⟨q, hq, hq'⟩ := htail.split
    have hlt : q.lex.length < p.lex.length :=
      ((Scans.one hcur hne).append hq).lex_lt operand.tokens_ne_nil (hq'.err herr)
    rw [parseLoop, if_pos hcur,
      operand.complete hk hin.1 hq (hq'.err herr) (AndTail.follow hq' hf)]
    exact rest.complete hk hin.2 hq' herr hf (by omega)

theorem CmpTree.complete : ∀ (c : CmpTree) {k d : Nat} {p p' : QueryParser},
    d + k = QUERY_MAX_DEPTH + 1 → c.within d → Scans p c.tokens p' → p'.err = none →
      FollowCmp p'.cur → parseCmp k p = (some c.ast, p')
  | .primary left, k, d, p, p', hk, hin, hreads, herr, hf => by
    obtain ⟨hd, hleft⟩ := hin
    obtain ⟨j, rfl⟩ : ∃ j, k = j + 1 := ⟨k - 1, by omega⟩
    rw [parseCmp, if_neg (by simp [hreads.err herr]),
      left.complete (by omega) hleft hreads herr hf.1]
    simp only [hf.2]
    rfl
  | .relop op left right, k, d, p, p', hk, hin, hreads, herr, hf => by
    obtain ⟨hd, hleft, hright⟩ := hin
    obtain ⟨j, rfl⟩ : ∃ j, k = j + 1 := ⟨k - 1, by omega⟩
    obtain ⟨q, hq, hq'⟩ := hreads.split
    obtain ⟨hcur, -, hr⟩ := hq'.cons_inv
    rw [parseCmp, if_neg (by simp [hreads.err herr]), left.complete (by omega) hleft hq
      (hq'.err herr) (hcur ▸ op.token_followPrimary)]
    simp only [hcur, parseCmpOp_token]
    rw [right.complete (by omega) hright hr herr hf.1]
    rfl

theorem PrimaryTree.complete : ∀ (t : PrimaryTree) {k d : Nat} {p p' : QueryParser},
    d + k = QUERY_MAX_DEPTH + 1 → t.within d → Scans p t.tokens p' → p'.err = none →
      FollowPrimary p'.cur → parsePrimary k p = (some t.ast, p')
  | .num v, k, d, p, p', hk, hin, hreads, herr, _ => by
    have hd : d ≤ QUERY_MAX_DEPTH := hin
    obtain ⟨j, rfl⟩ : ∃ j, k = j + 1 := ⟨k - 1, by omega⟩
    obtain ⟨hcur, -, hend⟩ := hreads.cons_inv
    rw [parsePrimary, if_neg (by simp [hreads.err herr]), hcur, ← hend.nil_inv]
    rfl
  | .str raw decoded h, k, d, p, p', hk, hin, hreads, herr, _ => by
    have hd : d ≤ QUERY_MAX_DEPTH := hin
    obtain ⟨j, rfl⟩ : ∃ j, k = j + 1 := ⟨k - 1, by omega⟩
    obtain ⟨hcur, -, hend⟩ := hreads.cons_inv
    rw [parsePrimary, if_neg (by simp [hreads.err herr]), hcur, ← hend.nil_inv]
    dsimp only
    rw [parseString, (parseEscapes_iff raw decoded).mpr h]
    rfl
  | .ident a, k, d, p, p', hk, hin, hreads, herr, hf => by
    have hd : d ≤ QUERY_MAX_DEPTH := hin
    obtain ⟨j, rfl⟩ : ∃ j, k = j + 1 := ⟨k - 1, by omega⟩
    obtain ⟨hcur, -, hend⟩ := hreads.cons_inv
    rw [← hend.nil_inv] at hf ⊢
    rw [parsePrimary, if_neg (by simp [hreads.err herr]), hcur]
    dsimp only
    rw [parseField, if_neg hf]
    rfl
  | .member a b, k, d, p, p', hk, hin, hreads, herr, _ => by
    have hd : d ≤ QUERY_MAX_DEPTH := hin
    obtain ⟨j, rfl⟩ : ∃ j, k = j + 1 := ⟨k - 1, by omega⟩
    obtain ⟨hcur, -, hdot⟩ := hreads.cons_inv
    obtain ⟨hcur', -, hb⟩ := hdot.cons_inv
    obtain ⟨hcur'', -, hend⟩ := hb.cons_inv
    rw [parsePrimary, if_neg (by simp [hreads.err herr]), hcur, ← hend.nil_inv]
    dsimp only
    rw [parseField, if_pos hcur']
    dsimp only
    rw [hcur'']
    rfl
  | .paren e, k, d, p, p', hk, hin, hreads, herr, _ => by
    obtain ⟨hd, he⟩ := hin
    obtain ⟨j, rfl⟩ : ∃ j, k = j + 1 := ⟨k - 1, by omega⟩
    obtain ⟨hcur, -, htail⟩ := hreads.cons_inv
    obtain ⟨q, hq, hq'⟩ := htail.split
    obtain ⟨hclose, -, hend⟩ := hq'.cons_inv
    have hp' := hend.nil_inv
    rw [parsePrimary, if_neg (by simp [hreads.err herr]), hcur]
    dsimp only
    rw [e.complete (by omega) he hq (hq'.err herr) (hclose ▸ followExpr_rparen)]
    dsimp only
    rw [if_pos hclose, hp']
    rfl
  | .not c, k, d, p, p', hk, hin, hreads, herr, hf => by
    obtain ⟨hd, hc⟩ := hin
    obtain ⟨j, rfl⟩ : ∃ j, k = j + 1 := ⟨k - 1, by omega⟩
    obtain ⟨hcur, -, htail⟩ := hreads.cons_inv
    rw [parsePrimary, if_neg (by simp [hreads.err herr]), hcur]
    dsimp only
    rw [c.complete (by omega) hc htail herr hf]
    rfl

end

/-! ## Unambiguity -/

/-- A phrase ends here: the next token, if there is one, may follow it. -/
def Stops (follow : Token → Prop) (r : List Token) : Prop := ∀ t, r.head? = some t → follow t

theorem OrTail.stops (rest : OrTail) {r : List Token} (h : Stops FollowExpr r) :
    Stops FollowAnd (rest.tokens ++ r) := by
  cases rest with
  | nil => exact fun t ht => (h t ht).1
  | cons operand rest =>
    intro t ht
    cases ht
    simp [FollowAnd, FollowCmp, FollowPrimary, parseCmpOp]

theorem AndTail.stops (rest : AndTail) {r : List Token} (h : Stops FollowAnd r) :
    Stops FollowCmp (rest.tokens ++ r) := by
  cases rest with
  | nil => exact fun t ht => (h t ht).1
  | cons operand rest =>
    intro t ht
    cases ht
    simp [FollowCmp, FollowPrimary, parseCmpOp]

theorem Unescaped.unique {raw a b : Bytes} (ha : Unescaped raw a) (hb : Unescaped raw b) : a = b := by
  have h := ((parseEscapes_iff raw a).mpr ha).symm.trans ((parseEscapes_iff raw b).mpr hb)
  exact Option.some.inj h

theorem stops_relop (op : CmpOp) (r : List Token) : Stops FollowPrimary (op.token :: r) := by
  intro t ht
  cases ht
  exact op.token_followPrimary

mutual

/-- **A token list has at most one derivation**, whatever follows. -/
theorem ExprTree.unique : ∀ (e e' : ExprTree) {r r' : List Token}, e.tokens ++ r = e'.tokens ++ r' →
    Stops FollowExpr r → Stops FollowExpr r' → e = e' ∧ r = r'
  | .mk first rest, .mk first' rest', r, r', h, hf, hf' => by
    simp only [ExprTree.tokens, List.append_assoc] at h
    obtain ⟨rfl, hrest⟩ := first.unique first' h (rest.stops hf) (rest'.stops hf')
    obtain ⟨rfl, hr⟩ := rest.unique rest' hrest hf hf'
    exact ⟨rfl, hr⟩

theorem OrTail.unique : ∀ (t t' : OrTail) {r r' : List Token}, t.tokens ++ r = t'.tokens ++ r' →
    Stops FollowExpr r → Stops FollowExpr r' → t = t' ∧ r = r'
  | .nil, .nil, _, _, h, _, _ => ⟨rfl, h⟩
  | .nil, .cons _ _, r, _, h, hf, _ => by
    cases h
    exact absurd rfl (hf .or rfl).2
  | .cons _ _, .nil, _, r', h, _, hf' => by
    cases h
    exact absurd rfl (hf' .or rfl).2
  | .cons operand rest, .cons operand' rest', r, r', h, hf, hf' => by
    simp only [OrTail.tokens, List.cons_append, List.append_assoc, List.cons.injEq, true_and] at h
    obtain ⟨rfl, hrest⟩ := operand.unique operand' h (rest.stops hf) (rest'.stops hf')
    obtain ⟨rfl, hr⟩ := rest.unique rest' hrest hf hf'
    exact ⟨rfl, hr⟩

theorem AndTree.unique : ∀ (a a' : AndTree) {r r' : List Token}, a.tokens ++ r = a'.tokens ++ r' →
    Stops FollowAnd r → Stops FollowAnd r' → a = a' ∧ r = r'
  | .mk first rest, .mk first' rest', r, r', h, hf, hf' => by
    simp only [AndTree.tokens, List.append_assoc] at h
    obtain ⟨rfl, hrest⟩ := first.unique first' h (rest.stops hf) (rest'.stops hf')
    obtain ⟨rfl, hr⟩ := rest.unique rest' hrest hf hf'
    exact ⟨rfl, hr⟩

theorem AndTail.unique : ∀ (t t' : AndTail) {r r' : List Token}, t.tokens ++ r = t'.tokens ++ r' →
    Stops FollowAnd r → Stops FollowAnd r' → t = t' ∧ r = r'
  | .nil, .nil, _, _, h, _, _ => ⟨rfl, h⟩
  | .nil, .cons _ _, r, _, h, hf, _ => by
    cases h
    exact absurd rfl (hf .and rfl).2
  | .cons _ _, .nil, _, r', h, _, hf' => by
    cases h
    exact absurd rfl (hf' .and rfl).2
  | .cons operand rest, .cons operand' rest', r, r', h, hf, hf' => by
    simp only [AndTail.tokens, List.cons_append, List.append_assoc, List.cons.injEq, true_and] at h
    obtain ⟨rfl, hrest⟩ := operand.unique operand' h (rest.stops hf) (rest'.stops hf')
    obtain ⟨rfl, hr⟩ := rest.unique rest' hrest hf hf'
    exact ⟨rfl, hr⟩

theorem CmpTree.unique : ∀ (c c' : CmpTree) {r r' : List Token}, c.tokens ++ r = c'.tokens ++ r' →
    Stops FollowCmp r → Stops FollowCmp r' → c = c' ∧ r = r'
  | .primary p, .primary p', r, r', h, hf, hf' => by
    obtain ⟨rfl, hr⟩ := p.unique p' h (fun t ht => (hf t ht).1) (fun t ht => (hf' t ht).1)
    exact ⟨rfl, hr⟩
  | .primary p, .relop op' left' right', r, r', h, hf, hf' => by
    simp only [CmpTree.tokens, List.append_assoc, List.cons_append] at h
    obtain ⟨rfl, hr⟩ := p.unique left' h (fun t ht => (hf t ht).1) (stops_relop op' _)
    have hop := (hf op'.token (by rw [hr]; rfl)).2
    rw [parseCmpOp_token] at hop
    cases hop
  | .relop op left right, .primary p', r, r', h, hf, hf' => by
    simp only [CmpTree.tokens, List.append_assoc, List.cons_append] at h
    obtain ⟨rfl, hr⟩ := left.unique p' h (stops_relop op _) (fun t ht => (hf' t ht).1)
    have hop := (hf' op.token (by rw [← hr]; rfl)).2
    rw [parseCmpOp_token] at hop
    cases hop
  | .relop op left right, .relop op' left' right', r, r', h, hf, hf' => by
    simp only [CmpTree.tokens, List.append_assoc, List.cons_append] at h
    obtain ⟨rfl, hrest⟩ := left.unique left' h (stops_relop op _) (stops_relop op' _)
    obtain ⟨hop, hright⟩ := List.cons.inj hrest
    have hop' := congrArg parseCmpOp hop
    rw [parseCmpOp_token, parseCmpOp_token] at hop'
    cases hop'
    obtain ⟨rfl, hr⟩ := right.unique right' hright (fun t ht => (hf t ht).1)
      (fun t ht => (hf' t ht).1)
    exact ⟨rfl, hr⟩

theorem PrimaryTree.unique : ∀ (t t' : PrimaryTree) {r r' : List Token},
    t.tokens ++ r = t'.tokens ++ r' → Stops FollowPrimary r → Stops FollowPrimary r' →
      t = t' ∧ r = r'
  | .num v, t', r, r', h, _, _ => by
    cases t' <;> simp [PrimaryTree.tokens] at h
    obtain ⟨rfl, rfl⟩ := h
    exact ⟨rfl, rfl⟩
  | .str raw decoded hd, t', r, r', h, _, _ => by
    cases t' with
    | str raw' decoded' hd' =>
      simp only [PrimaryTree.tokens, List.cons_append, List.cons.injEq, Token.str.injEq,
        List.nil_append] at h
      obtain ⟨rfl, rfl⟩ := h
      obtain rfl := hd.unique hd'
      exact ⟨rfl, rfl⟩
    | num | ident | member | paren | not => simp [PrimaryTree.tokens] at h
  | .ident a, t', r, r', h, hf, _ => by
    cases t' <;> simp [PrimaryTree.tokens] at h
    · obtain ⟨rfl, rfl⟩ := h
      exact ⟨rfl, rfl⟩
    · obtain ⟨-, rfl⟩ := h
      exact absurd rfl (hf .dot rfl)
  | .member a b, t', r, r', h, _, hf' => by
    cases t' <;> simp [PrimaryTree.tokens] at h
    · obtain ⟨-, rfl⟩ := h
      exact absurd rfl (hf' .dot rfl)
    · obtain ⟨rfl, rfl, rfl⟩ := h
      exact ⟨rfl, rfl⟩
  | .paren e, t', r, r', h, _, _ => by
    cases t' with
    | paren e' =>
      simp only [PrimaryTree.tokens, List.cons_append, List.append_assoc, List.cons.injEq,
        true_and, List.nil_append] at h
      have hstop : ∀ r : List Token, Stops FollowExpr (.rparen :: r) := by
        intro r t ht
        cases ht
        exact followExpr_rparen
      obtain ⟨rfl, hr⟩ := e.unique e' h (hstop r) (hstop r')
      exact ⟨rfl, (List.cons.inj hr).2⟩
    | num | str | ident | member | not => simp [PrimaryTree.tokens] at h
  | .not c, t', r, r', h, hf, hf' => by
    cases t' with
    | not c' =>
      simp only [PrimaryTree.tokens, List.cons_append, List.cons.injEq, true_and] at h
      obtain ⟨rfl, hr⟩ := c.unique c' h hf hf'
      exact ⟨rfl, hr⟩
    | num | str | ident | member | paren => simp [PrimaryTree.tokens] at h

end

/-! ## The error code -/

section Keeps

variable {I : QueryParser → Prop} (hadv : ∀ p, I p → I (parseAdvance p))
  (hfail : ∀ p, I p → I (parseFail p).2)

include hadv

theorem parseLoop_keeps {tok : Token} {mk : Ast → Ast → Ast}
    {operand : QueryParser → Option Ast × QueryParser} (h : ∀ p, I p → I (operand p).2) :
    ∀ (fuel : Nat) (left : Ast) (p : QueryParser), I p →
      I (parseLoop tok mk operand fuel left p).2
  | 0, _, _, hp => hp
  | fuel + 1, left, p, hp => by
    rw [parseLoop]
    split
    · have hop := h _ (hadv p hp)
      split
      · rename_i heq
        rw [heq] at hop
        exact hop
      · rename_i heq
        rw [heq] at hop
        exact parseLoop_keeps h fuel _ _ hop
    · exact hp

include hfail

theorem parseField_keeps (a : Bytes) {p : QueryParser} (hp : I p) : I (parseField a p).2 := by
  unfold parseField
  split
  · dsimp only
    split
    · exact hadv _ (hadv _ hp)
    · exact hfail _ (hadv _ hp)
  · exact hp

/-- A property of parser states that reading a token and failing keep is kept by the sub-parsers. -/
theorem parse_keeps : ∀ (k : Nat),
    (∀ p, I p → I (parsePrimary k p).2) ∧ (∀ p, I p → I (parseCmp k p).2) ∧
      (∀ p, I p → I (parseAnd k p).2) ∧ ∀ p, I p → I (parseExpr k p).2
  | 0 => by
    refine ⟨?_, ?_, ?_, ?_⟩ <;> intro p hp
    · rw [parsePrimary]
      exact hfail p hp
    · rw [parseCmp]
      exact hfail p hp
    · rw [parseAnd]
      exact hfail p hp
    · rw [parseExpr]
      exact hfail p hp
  | k + 1 => by
    obtain ⟨hprimary, hcmp, hand, hexpr⟩ := parse_keeps k
    refine ⟨?_, ?_, ?_, ?_⟩ <;> intro p hp
    · rw [parsePrimary]
      split
      · exact hfail p hp
      split
      · exact hadv p hp
      · rename_i raw _
        unfold parseString
        cases parseEscapes raw with
        | none => exact hfail p hp
        | some decoded => exact hadv p hp
      · exact parseField_keeps hadv hfail _ (hadv p hp)
      · have hin := hexpr _ (hadv p hp)
        split
        · rename_i heq
          rw [heq] at hin
          exact hin
        · rename_i heq
          rw [heq] at hin
          split
          · exact hadv _ hin
          · exact hfail _ hin
      · have hin := hprimary _ (hadv p hp)
        split <;> rename_i heq <;> rw [heq] at hin <;> exact hin
      · exact hfail p hp
    · rw [parseCmp]
      split
      · exact hfail p hp
      have hleft := hprimary p hp
      split
      · rename_i heq
        rw [heq] at hleft
        exact hleft
      · rename_i heq
        rw [heq] at hleft
        split
        · exact hleft
        · have hright := hprimary _ (hadv _ hleft)
          split <;> rename_i heq' <;> rw [heq'] at hright <;> exact hright
    · rw [parseAnd]
      split
      · exact hfail p hp
      have hleft := hcmp p hp
      split
      · rename_i heq
        rw [heq] at hleft
        exact hleft
      · rename_i heq
        rw [heq] at hleft
        exact parseLoop_keeps hadv hcmp _ _ _ hleft
    · rw [parseExpr]
      split
      · exact hfail p hp
      have hleft := hand p hp
      split
      · rename_i heq
        rw [heq] at hleft
        exact hleft
      · rename_i heq
        rw [heq] at hleft
        exact parseLoop_keeps hadv hand _ _ _ hleft

end Keeps

/-- The only error a parser state can hold. -/
def BadQueryOnly (p : QueryParser) : Prop := ∀ e, p.err = some e → e = .badQuery

theorem parseAdvance_badQuery (p : QueryParser) (h : BadQueryOnly p) :
    BadQueryOnly (parseAdvance p) := by
  unfold parseAdvance
  split
  · exact h
  · rename_i rc hlex
    intro e he
    cases hp : p.err with
    | none =>
      simp only [hp] at he
      cases he
      exact lexNext_error hlex
    | some e' =>
      simp only [hp] at he
      cases he
      exact h e hp

theorem parseFail_badQuery (p : QueryParser) (h : BadQueryOnly p) :
    BadQueryOnly (parseFail p).2 := by
  intro e he
  cases hp : p.err with
  | none =>
    simp only [parseFail, hp] at he
    cases he
    rfl
  | some e' =>
    simp only [parseFail, hp] at he
    cases he
    exact h e hp

theorem queryParse_error {text : Bytes} {e : Err} (h : queryParse text = .error e) :
    e = .badQuery := by
  have hkeep := (parse_keeps parseAdvance_badQuery parseFail_badQuery (QUERY_MAX_DEPTH + 1)).2.2.2
    (parseAdvance ⟨text, .eof, none⟩) (parseAdvance_badQuery _ fun e he => by cases he)
  unfold queryParse at h
  split at h
  rename_i root p heq
  rw [heq] at hkeep
  split at h
  · rename_i rc hrc
    cases h
    exact hkeep e hrc
  · split at h
    · cases h
      rfl
    · split at h
      · cases h
      · cases h
        rfl

theorem queryParse_ok_iff (text : Bytes) (t : Ast) : queryParse text = .ok t ↔ Derives text t := by
  constructor
  · intro h
    unfold queryParse at h
    split at h
    rename_i root p heq
    split at h
    · cases h
    · rename_i herr
      split at h
      · cases h
      · split at h
        · rename_i hcur
          cases h
          obtain ⟨e, rfl, hreads, hin⟩ :=
            (parse_sound (QUERY_MAX_DEPTH + 1) 0 (by omega)).2.2.2 _ _ p heq herr
          exact ⟨e, (reads_iff_lexes e.tokens text .eof).mp ⟨p, hreads, herr, hcur⟩, rfl, hin⟩
        · cases h
  · rintro ⟨e, hlex, rfl, hin⟩
    obtain ⟨p, hreads, herr, hcur⟩ := (reads_iff_lexes e.tokens text .eof).mpr hlex
    have hparse := e.complete (k := QUERY_MAX_DEPTH + 1) (by omega) hin hreads herr
      (hcur ▸ followExpr_eof)
    simp only [queryParse, hparse, herr]
    rw [if_pos hcur]

/-- **`dtl_parse` accepts exactly the grammar**, with its depth counter within bounds, and builds the
tree of the only derivation; every other text is `DTL_ERR_BADQUERY`. -/
theorem queryParse_grammar (text : Bytes) :
    (∀ t, queryParse text = .ok t ↔ Derives text t) ∧
      ((¬ ∃ t, Derives text t) → queryParse text = .error .badQuery) ∧
      ∀ e e' : ExprTree, e.tokens = e'.tokens → e = e' := by
  refine ⟨queryParse_ok_iff text, fun hno => ?_, fun e e' h => ?_⟩
  · cases hparse : queryParse text with
    | ok t => exact absurd ⟨t, (queryParse_ok_iff text t).mp hparse⟩ hno
    | error e => rw [queryParse_error hparse]
  · have hend : Stops FollowExpr [] := fun t ht => by cases ht
    exact (e.unique e' (by rw [h]) hend hend).1

example : queryParse (ascii "a || !b.c == 1 || d") =
    .ok (.or (.or (.field (ascii "a") none)
      (.cmp .eq (.not (.field (ascii "b") (some (ascii "c")))) (.int 1)))
        (.field (ascii "d") none)) := by
  decide +kernel

end Dtl
