import TelemetryForge.Query.Height
import TelemetryForge.Query.Eval

/-!
# Queries made of queries

The texts `(a) && (b)`, `(a) || (b)` and `!(a)` for query texts `a` and `b`.  A closing parenthesis ends
every token, so each text between parentheses lexes as it does alone (`Lexes.closed`), and its
derivation becomes a subtree some levels down.

Principal results: `queryParse_conj`, `queryParse_disj`, `queryParse_neg` — such a text is the operator
on the trees of its parts, unless the parts nest too deep for their new level; `queries_compose` — and
it matches accordingly.
-/

set_option autoImplicit false

namespace Dtl

open CText

/-! ## A token before a closing parenthesis -/

section Close

variable (r : Bytes)

theorem dropWhile_close {p : UInt8 → Bool} (hp : p 41 = false) (s : Bytes) :
    (s ++ 41 :: r).dropWhile p = s.dropWhile p ++ 41 :: r := by
  rw [List.dropWhile_append]
  split
  · rename_i hnil
    rw [List.isEmpty_iff] at hnil
    rw [hnil, List.dropWhile_cons_of_neg (by simp [hp]), List.nil_append]
  · rfl

theorem takeWhile_close {p : UInt8 → Bool} (hp : p 41 = false) (s : Bytes) :
    (s ++ 41 :: r).takeWhile p = s.takeWhile p := by
  rw [List.takeWhile_append]
  split
  · rename_i hall
    rw [List.takeWhile_cons_of_neg (by simp [hp]), List.append_nil]
    exact ((List.takeWhile_sublist p).eq_of_length hall).symm
  · rfl

/-- What is tested for being none of the characters looked for sees no difference. -/
theorem peek_close (s : Bytes) {c : UInt8} (h0 : c ≠ 0) (h41 : c ≠ 41) :
    peek (s ++ 41 :: r) = c ↔ peek s = c := by
  cases s with
  | nil => simp [peek, h0.symm, h41.symm]
  | cons d s => rfl

theorem isDigit_peek_close (s : Bytes) : isDigit (peek (s ++ 41 :: r)) = isDigit (peek s) := by
  cases s <;> rfl

theorem lexDigits_close : ∀ (s : Bytes) (val : Nat) {n : Nat} {s' : Bytes},
    lexDigits val s = .ok (n, s') → lexDigits val (s ++ 41 :: r) = .ok (n, s' ++ 41 :: r)
  | [], val, n, s', h => by
    simp only [lexDigits, Except.ok.injEq, Prod.mk.injEq] at h
    obtain ⟨rfl, rfl⟩ := h
    rfl
  | c :: s, val, n, s', h => by
    rw [List.cons_append, lexDigits]
    rw [lexDigits] at h
    split at h
    · rename_i hdigit
      rw [if_pos hdigit]
      split at h
      · cases h
      · rename_i hfit
        rw [if_neg hfit]
        exact lexDigits_close s _ h
    · rename_i hdigit
      rw [if_neg hdigit]
      simp only [Except.ok.injEq, Prod.mk.injEq] at h
      obtain ⟨rfl, rfl⟩ := h
      rfl

theorem lexSigned_close (sign : Nat → Int) {s s' : Bytes} {t : Token}
    (h : (if isDigit (peek s) then do
      let (val, s) ← lexDigits 0 s
      return (Token.num (sign val), s)
      else .error .badQuery) = Except.ok (ε := Err) (t, s')) :
    (if isDigit (peek (s ++ 41 :: r)) then do
      let (val, s) ← lexDigits 0 (s ++ 41 :: r)
      return (Token.num (sign val), s)
      else .error .badQuery) = Except.ok (ε := Err) (t, s' ++ 41 :: r) := by
  rw [isDigit_peek_close]
  by_cases hdigit : isDigit (peek s) = true
  · rw [if_pos hdigit] at h ⊢
    rw [Except.bind_eq_ok] at h
    obtain ⟨⟨n, s₁⟩, hdigits, hret⟩ := h
    rw [lexDigits_close r _ _ hdigits]
    cases hret
    rfl
  · rw [if_neg hdigit] at h
    cases h

theorem lexNumber_close {s s' : Bytes} {t : Token} (h : lexNumber s = .ok (t, s')) :
    lexNumber (s ++ 41 :: r) = .ok (t, s' ++ 41 :: r) := by
  have hneg : peek (s ++ 41 :: r) = 45 ↔ peek s = 45 := peek_close r s (by decide) (by decide)
  unfold lexNumber at h ⊢
  by_cases hn : peek s = 45
  · simp only [hn, if_true] at h
    simp only [hneg.mpr hn, if_true]
    cases s with
    | nil => cases hn
    | cons d s => exact lexSigned_close r (fun n => -(n : Int)) h
  · simp only [hn, if_false] at h
    simp only [mt hneg.mp hn, if_false]
    exact lexSigned_close r (fun n => (n : Int)) h

theorem lexStringLoop_close (s raw : Bytes) {s' : Bytes} {t : Token}
    (h : lexStringLoop raw s = .ok (t, s')) :
    lexStringLoop raw (s ++ 41 :: r) = .ok (t, s' ++ 41 :: r) := by
  induction raw, s using lexStringLoop.induct with
  | case1 raw => cases h
  | case2 raw => cases h
  | case3 raw e s ih =>
    rw [lexStringLoop] at h
    rw [List.cons_append, List.cons_append, lexStringLoop]
    exact ih h
  | case4 raw s h1 h2 =>
    rw [lexStringLoop.eq_4 _ _ _ h1 h2, if_pos rfl] at h
    cases h
    rw [List.cons_append, lexStringLoop.eq_4 _ _ _ (fun h => absurd h (by decide))
      (fun _ _ h => absurd h (by decide)), if_pos rfl]
  | case5 raw c s h1 h2 hc ih =>
    have hne : c ≠ 92 := by
      rintro rfl
      cases s with
      | nil => exact h1 rfl rfl
      | cons e s => exact h2 e s rfl rfl
    rw [lexStringLoop.eq_4 _ _ _ h1 h2, if_neg hc] at h
    rw [List.cons_append, lexStringLoop.eq_4 _ _ _ (fun h => absurd h hne)
      (fun _ _ h => absurd h hne), if_neg hc]
    exact ih h

theorem lexPair_close {c : UInt8} (h0 : c ≠ 0) (h41 : c ≠ 41) {both : Token} {alt : Option Token}
    {s s' : Bytes} {t : Token} (h : lexPair c both alt s = .ok (t, s')) :
    lexPair c both alt (s ++ 41 :: r) = .ok (t, s' ++ 41 :: r) := by
  unfold lexPair at h ⊢
  by_cases hc : peek s = c
  · rw [if_pos hc] at h
    rw [if_pos ((peek_close r s h0 h41).mpr hc)]
    simp only [Except.ok.injEq, Prod.mk.injEq] at h
    obtain ⟨rfl, rfl⟩ := h
    cases s with
    | nil => exact absurd hc.symm h0
    | cons d s => rfl
  · rw [if_neg hc] at h
    rw [if_neg (fun hc' => hc ((peek_close r s h0 h41).mp hc'))]
    cases alt with
    | none => cases h
    | some t' =>
      simp only [Except.ok.injEq, Prod.mk.injEq] at h
      obtain ⟨rfl, rfl⟩ := h
      rfl

/-- Where `x` is a token and the text behind it, `y` is that with a parenthesis and more behind. -/
def Closes (x y : Res (Token × Bytes)) : Prop := ∀ t s', x = .ok (t, s') → y = .ok (t, s' ++ 41 :: r)

theorem Closes.ite {c : Prop} [Decidable c] {x x' y y' : Res (Token × Bytes)} (h : Closes r x y)
    (h' : Closes r x' y') : Closes r (if c then x else x') (if c then y else y') := by
  split
  · exact h
  · exact h'

theorem Closes.token (t : Token) (s : Bytes) : Closes r (.ok (t, s)) (.ok (t, s ++ 41 :: r)) := by
  intro t' s' h
  cases h
  rfl

/-- **A token does not reach over a closing parenthesis.** -/
theorem lexNext_close {s s' : Bytes} {t : Token} (h : lexNext s = .ok (t, s')) (ht : t ≠ .eof) :
    lexNext (s ++ 41 :: r) = .ok (t, s' ++ 41 :: r) := by
  rw [lexNext, dropWhile_close r rfl]
  rw [lexNext] at h
  cases hs : s.dropWhile lexIsSpace with
  | nil =>
    rw [hs] at h
    cases h
    exact absurd rfl ht
  | cons c rest =>
    rw [hs] at h
    rw [List.cons_append]
    dsimp only at h ⊢
    rw [isDigit_peek_close]
    revert h
    generalize t = t'
    revert t' s'
    have hone := fun u => Closes.token r u rest
    have hident : Closes r (.ok (.ident ((c :: rest).takeWhile lexIsIdent), (c :: rest).dropWhile lexIsIdent))
        (.ok (.ident ((c :: (rest ++ 41 :: r)).takeWhile lexIsIdent),
          (c :: (rest ++ 41 :: r)).dropWhile lexIsIdent)) := by
      rw [← List.cons_append, takeWhile_close r rfl, dropWhile_close r rfl]
      exact .token r _ _
    have hpair : ∀ (d : UInt8) (both : Token) (alt : Option Token), d ≠ 0 → d ≠ 41 →
        Closes r (lexPair d both alt rest) (lexPair d both alt (rest ++ 41 :: r)) :=
      fun d both alt h0 h41 _ _ h => lexPair_close r h0 h41 h
    refine fun s' t' => Closes.ite r (fun _ _ h => lexNumber_close r h) ?_ t' s'
    refine .ite r hident (.ite r (fun _ _ h => lexStringLoop_close r rest [] h) ?_)
    refine .ite r (hpair 38 _ _ (by decide) (by decide)) (.ite r (hpair 124 _ _ (by decide) (by decide)) ?_)
    refine .ite r (hpair 61 _ _ (by decide) (by decide)) (.ite r (hpair 61 _ _ (by decide) (by decide)) ?_)
    refine .ite r (hpair 61 _ _ (by decide) (by decide)) (.ite r (hpair 61 _ _ (by decide) (by decide)) ?_)
    refine .ite r (hone .lparen) (.ite r (hone .rparen) (.ite r (hone .dot) ?_))
    exact fun _ _ h => by cases h

theorem Lexes.of_eq {s s' : Bytes} {ts : List Token} (h : Lexes s ts) (heq : lexNext s = lexNext s') :
    Lexes s' ts := by
  cases h with
  | done hs => exact .done (heq ▸ hs)
  | more hs hne hrest => exact .more (heq ▸ hs) hne hrest

/-- **A text in front of a closing parenthesis lexes as it does alone.** -/
theorem Lexes.closed {s : Bytes} {ts us : List Token} (h : Lexes s ts) (h' : Lexes (41 :: r) us) :
    Lexes (s ++ 41 :: r) (ts ++ us) := by
  induction h with
  | @done s s' hs =>
    refine h'.of_eq ?_
    have hnil : s.dropWhile lexIsSpace = [] := by
      rcases hrest : s.dropWhile lexIsSpace with _ | ⟨c, rest⟩
      · rfl
      · exact absurd rfl ((lexNext_lexed_cons hrest).1 _ _ hs).2
    rw [lexNext, lexNext, dropWhile_close r rfl, hnil, List.nil_append,
      List.dropWhile_cons_of_neg (by decide)]
  | more hs hne hrest ih => exact .more (lexNext_close r hs hne) hne ih

end Close

/-! ## Texts with a derivation -/

/-- The text has a derivation that stays within the depth limit when it is parsed from depth `d`. -/
def Nests (d : Nat) (text : Bytes) : Prop := ∃ e : ExprTree, Lexes text e.tokens ∧ e.within d

/-- The derivation of a text is unique. -/
theorem ExprTree.lexes_unique {text : Bytes} {e e' : ExprTree} (h : Lexes text e.tokens)
    (h' : Lexes text e'.tokens) : e = e' := by
  have hend : Stops FollowExpr [] := fun t ht => by cases ht
  exact (e.unique e' (by rw [h.unique h']) hend hend).1

theorem nests_iff {text : Bytes} {e : ExprTree} (h : Lexes text e.tokens) (d : Nat) :
    Nests d text ↔ e.within d := by
  constructor
  · rintro ⟨e', h', hin⟩
    rwa [e.lexes_unique h h']
  · exact fun hin => ⟨e, h, hin⟩

/-- **A text with a derivation is refused for its depth only.** -/
theorem queryParse_derived {text : Bytes} {e : ExprTree} (h : Lexes text e.tokens) :
    (e.within 0 → queryParse text = .ok e.ast) ∧
      (¬ e.within 0 → queryParse text = .error .badQuery) := by
  constructor
  · exact fun hin => (queryParse_ok_iff text e.ast).mpr ⟨e, h, rfl, hin⟩
  · intro hout
    cases hparse : queryParse text with
    | error rc => rw [queryParse_error hparse]
    | ok t =>
      obtain ⟨e', h', -, hin⟩ := (queryParse_ok_iff text t).mp hparse
      exact absurd (e.lexes_unique h h' ▸ hin) hout

/-! ## The texts -/

/-- `(a) op (b)` for an operator of two characters. -/
def joinText (op : UInt8) (a b : Bytes) : Bytes :=
  40 :: (a ++ 41 :: 32 :: op :: op :: 32 :: 40 :: (b ++ [41]))

def conjText (a b : Bytes) : Bytes := joinText 38 a b

def disjText (a b : Bytes) : Bytes := joinText 124 a b

def negText (a : Bytes) : Bytes := 33 :: 40 :: (a ++ [41])

theorem lexes_end : Lexes [41] [.rparen] :=
  .more (t := .rparen) (r := []) rfl (by decide) (.done (r := []) rfl)

/-- A text between parentheses, as the parts of the composed texts are. -/
theorem Lexes.parens {a rest : Bytes} {ts us : List Token} (h : Lexes a ts)
    (h' : Lexes (41 :: rest) (.rparen :: us)) :
    Lexes (40 :: (a ++ 41 :: rest)) (.lparen :: (ts ++ .rparen :: us)) := by
  refine .more (t := .lparen) (r := a ++ 41 :: rest) ?_ (by decide) (h.closed rest h')
  rfl

theorem Lexes.joined {op : UInt8} {tok : Token} (hop : (op = 38 ∧ tok = .and) ∨ (op = 124 ∧ tok = .or))
    {a b : Bytes} {ts us : List Token} (ha : Lexes a ts) (hb : Lexes b us) :
    Lexes (joinText op a b) (.lparen :: (ts ++ .rparen :: tok :: .lparen :: (us ++ [.rparen]))) := by
  have hright := hb.parens lexes_end
  refine ha.parens (.more (t := .rparen) (r := 32 :: op :: op :: 32 :: 40 :: (b ++ [41])) rfl
    (by decide) ?_)
  rcases hop with ⟨rfl, rfl⟩ | ⟨rfl, rfl⟩
  · exact .more (r := 32 :: 40 :: (b ++ [41])) rfl (by decide) (hright.of_eq rfl)
  · exact .more (r := 32 :: 40 :: (b ++ [41])) rfl (by decide) (hright.of_eq rfl)

theorem Lexes.negated {a : Bytes} {ts : List Token} (h : Lexes a ts) :
    Lexes (negText a) (.not :: .lparen :: (ts ++ [.rparen])) :=
  .more (t := .not) (r := 40 :: (a ++ [41])) rfl (by decide) (h.parens lexes_end)

/-! ## Their derivations -/

/-- A text between parentheses as an operand of `&&`. -/
def ExprTree.operand (e : ExprTree) : CmpTree := .primary (.paren e)

section Compose

variable {a b : Bytes} {qa qb : Ast}

/-- **`(a) && (b)` is the conjunction**, if both nest four levels down. -/
theorem queryParse_conj (ha : queryParse a = .ok qa) (hb : queryParse b = .ok qb) :
    (Nests 4 a ∧ Nests 4 b → queryParse (conjText a b) = .ok (.and qa qb)) ∧
      (¬ (Nests 4 a ∧ Nests 4 b) → queryParse (conjText a b) = .error .badQuery) := by
  obtain ⟨ea, hla, rfl, -⟩ := (queryParse_ok_iff a qa).mp ha
  obtain ⟨eb, hlb, rfl, -⟩ := (queryParse_ok_iff b qb).mp hb
  have htree : (ExprTree.mk (.mk ea.operand (.cons eb.operand .nil)) .nil).tokens =
      .lparen :: (ea.tokens ++ .rparen :: .and :: .lparen :: (eb.tokens ++ [.rparen])) := by
    simp [ExprTree.operand, ExprTree.tokens, OrTail.tokens, AndTree.tokens, AndTail.tokens,
      CmpTree.tokens, PrimaryTree.tokens]
  have hlex : Lexes (conjText a b) _ := hla.joined (.inl ⟨rfl, rfl⟩) hlb
  rw [← htree] at hlex
  have hin : (ExprTree.mk (.mk ea.operand (.cons eb.operand .nil)) .nil).within 0 ↔
      Nests 4 a ∧ Nests 4 b := by
    rw [nests_iff hla, nests_iff hlb]
    simp [ExprTree.operand, ExprTree.within, OrTail.within, AndTree.within, AndTail.within,
      CmpTree.within, PrimaryTree.within, QUERY_MAX_DEPTH]
  rw [← hin]
  exact queryParse_derived hlex

/-- **`(a) || (b)` is the disjunction**, if both nest four levels down. -/
theorem queryParse_disj (ha : queryParse a = .ok qa) (hb : queryParse b = .ok qb) :
    (Nests 4 a ∧ Nests 4 b → queryParse (disjText a b) = .ok (.or qa qb)) ∧
      (¬ (Nests 4 a ∧ Nests 4 b) → queryParse (disjText a b) = .error .badQuery) := by
  obtain ⟨ea, hla, rfl, -⟩ := (queryParse_ok_iff a qa).mp ha
  obtain ⟨eb, hlb, rfl, -⟩ := (queryParse_ok_iff b qb).mp hb
  have htree : (ExprTree.mk (.mk ea.operand .nil) (.cons (.mk eb.operand .nil) .nil)).tokens =
      .lparen :: (ea.tokens ++ .rparen :: .or :: .lparen :: (eb.tokens ++ [.rparen])) := by
    simp [ExprTree.operand, ExprTree.tokens, OrTail.tokens, AndTree.tokens, AndTail.tokens,
      CmpTree.tokens, PrimaryTree.tokens]
  have hlex : Lexes (disjText a b) _ := hla.joined (.inr ⟨rfl, rfl⟩) hlb
  rw [← htree] at hlex
  have hin : (ExprTree.mk (.mk ea.operand .nil) (.cons (.mk eb.operand .nil) .nil)).within 0 ↔
      Nests 4 a ∧ Nests 4 b := by
    rw [nests_iff hla, nests_iff hlb]
    simp [ExprTree.operand, ExprTree.within, OrTail.within, AndTree.within, AndTail.within,
      CmpTree.within, PrimaryTree.within, QUERY_MAX_DEPTH]
  rw [← hin]
  exact queryParse_derived hlex

/-- **`!(a)` is the negation**, if `a` nests five levels down. -/
theorem queryParse_neg (ha : queryParse a = .ok qa) :
    (Nests 5 a → queryParse (negText a) = .ok (.not qa)) ∧
      (¬ Nests 5 a → queryParse (negText a) = .error .badQuery) := by
  obtain ⟨ea, hla, rfl, -⟩ := (queryParse_ok_iff a qa).mp ha
  have htree : (ExprTree.mk (.mk (.primary (.not (.paren ea))) .nil) .nil).tokens =
      .not :: .lparen :: (ea.tokens ++ [.rparen]) := by
    simp [ExprTree.tokens, OrTail.tokens, AndTree.tokens, AndTail.tokens, CmpTree.tokens,
      PrimaryTree.tokens]
  have hlex : Lexes (negText a) _ := hla.negated
  rw [← htree] at hlex
  have hin : (ExprTree.mk (.mk (.primary (.not (.paren ea))) .nil) .nil).within 0 ↔ Nests 5 a := by
    rw [nests_iff hla]
    simp [ExprTree.within, OrTail.within, AndTree.within, AndTail.within, CmpTree.within,
      PrimaryTree.within, QUERY_MAX_DEPTH]
  rw [← hin]
  exact queryParse_derived hlex

end Compose

/-! ## What they match -/

@[simp] theorem truthy_boolValue (b : Bool) : truthy (boolValue b) = b := by
  cases b <;> rfl

@[simp] theorem queryMatch_and (l r : Ast) (rec : Record) :
    queryMatch (.and l r) rec = (queryMatch l rec && queryMatch r rec) := by
  unfold queryMatch
  rw [evalValue]
  cases h : truthy (evalValue rec l) <;> simp

@[simp] theorem queryMatch_or (l r : Ast) (rec : Record) :
    queryMatch (.or l r) rec = (queryMatch l rec || queryMatch r rec) := by
  unfold queryMatch
  rw [evalValue]
  cases h : truthy (evalValue rec l) <;> simp

@[simp] theorem queryMatch_not (q : Ast) (rec : Record) :
    queryMatch (.not q) rec = !queryMatch q rec := by
  unfold queryMatch
  rw [evalValue, truthy_boolValue]

/-- The text matches by `m` if its parts do not nest too deep, and is refused if they do. -/
def Composes (text : Bytes) (shallow : Prop) (m : Record → Bool) : Prop :=
  (shallow → ∃ q, queryParse text = .ok q ∧ ∀ rec, queryMatch q rec = m rec) ∧
    (¬ shallow → queryParse text = .error .badQuery)

/-- **Query texts compose.** For any two texts that the parser accepts, the texts `(a) && (b)`,
`(a) || (b)` and `!(a)` are accepted exactly when their parts nest within what the depth limit leaves
below them, and match the records that both match, that one of them matches, and that `a` does not. -/
theorem queries_compose {a b : Bytes} {qa qb : Ast} (ha : queryParse a = .ok qa)
    (hb : queryParse b = .ok qb) :
    Composes (conjText a b) (Nests 4 a ∧ Nests 4 b)
        (fun rec => queryMatch qa rec && queryMatch qb rec) ∧
      Composes (disjText a b) (Nests 4 a ∧ Nests 4 b)
        (fun rec => queryMatch qa rec || queryMatch qb rec) ∧
      Composes (negText a) (Nests 5 a) fun rec => !queryMatch qa rec := by
  obtain ⟨hconj, hconj'⟩ := queryParse_conj ha hb
  obtain ⟨hdisj, hdisj'⟩ := queryParse_disj ha hb
  obtain ⟨hneg, hneg'⟩ := queryParse_neg ha
  refine ⟨⟨fun h => ?_, hconj'⟩, ⟨fun h => ?_, hdisj'⟩, ⟨fun h => ?_, hneg'⟩⟩
  · exact ⟨_, hconj h, queryMatch_and qa qb⟩
  · exact ⟨_, hdisj h, queryMatch_or qa qb⟩
  · exact ⟨_, hneg h, queryMatch_not qa⟩

/-- Two comparisons. -/
theorem queries_compose_two : ∃ qa qb,
    Composes (conjText (ascii "seq > 1") (ascii "uptime < 9"))
      (Nests 4 (ascii "seq > 1") ∧ Nests 4 (ascii "uptime < 9"))
      fun rec => queryMatch qa rec && queryMatch qb rec := by
  obtain ⟨qa, ha⟩ := Except.exists_ok (show (queryParse (ascii "seq > 1")).toOption.isSome = true by
    decide +kernel)
  obtain ⟨qb, hb⟩ := Except.exists_ok (show (queryParse (ascii "uptime < 9")).toOption.isSome = true by
    decide +kernel)
  exact ⟨qa, qb, (queries_compose ha hb).1⟩

end Dtl
