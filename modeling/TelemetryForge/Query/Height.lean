import TelemetryForge.Query.Eval
import TelemetryForge.Query.Grammar

/-!
# How deep a query is evaluated

`dtl_eval_value` recurses over the tree that `dtl_parse` built.  The parser's depth counter bounds its
own recursion, but a chain of operators is parsed in a loop and nested to the left, one level for each
operator.

Principal results: `queryParse_height_iff` — the tree of an accepted text stays within the depth limit
exactly when the chains of the text do, each operand counted with the operators behind it;
`chainText_accepted` — a flat chain of any length is accepted, and evaluated one level deeper for
each operator.
-/

set_option autoImplicit false

namespace Dtl

/-- The height of a tree, a leaf being one high: the nesting of `dtl_eval_value` when both operands of
every operator are evaluated. -/
def Ast.height : Ast → Nat
  | .or left right => max left.height right.height + 1
  | .and left right => max left.height right.height + 1
  | .cmp _ left right => max left.height right.height + 1
  | .not child => child.height + 1
  | _ => 1

/-- The nesting of the calls that `dtl_eval_value` makes on a record. -/
def evalDepth (rec : Record) : Ast → Nat
  | .or left right =>
    (if truthy (evalValue rec left) then evalDepth rec left
      else max (evalDepth rec left) (evalDepth rec right)) + 1
  | .and left right =>
    (if !truthy (evalValue rec left) then evalDepth rec left
      else max (evalDepth rec left) (evalDepth rec right)) + 1
  | .cmp _ left right => max (evalDepth rec left) (evalDepth rec right) + 1
  | .not child => evalDepth rec child + 1
  | _ => 1

/-- Short-circuiting only ever saves calls. -/
theorem evalDepth_le (rec : Record) (t : Ast) : evalDepth rec t ≤ t.height := by
  induction t with
  | or left right ihl ihr =>
    simp only [evalDepth, Ast.height]
    split <;> omega
  | and left right ihl ihr =>
    simp only [evalDepth, Ast.height]
    split <;> omega
  | cmp op left right ihl ihr =>
    simp only [evalDepth, Ast.height]
    omega
  | not child ih =>
    simp only [evalDepth, Ast.height]
    omega
  | _ => exact le_rfl

/-! ## The chains of a text -/

/-- The operators of a chain. -/
def OrTail.operators : OrTail → Nat
  | .nil => 0
  | .cons _ rest => rest.operators + 1

def AndTail.operators : AndTail → Nat
  | .nil => 0
  | .cons _ rest => rest.operators + 1

mutual

/-- Every leaf lies at most `k` calls deep: a chain costs its first operand one call for each of its
operators, every other operand one for its own operator and each later one; a comparison and a `!`
cost one call. -/
def ExprTree.fits (k : Nat) : ExprTree → Prop
  | .mk first rest => first.fits (k - rest.operators) ∧ rest.fits k

def OrTail.fits (k : Nat) : OrTail → Prop
  | .nil => True
  | .cons operand rest => operand.fits (k - (rest.operators + 1)) ∧ rest.fits k

def AndTree.fits (k : Nat) : AndTree → Prop
  | .mk first rest => first.fits (k - rest.operators) ∧ rest.fits k

def AndTail.fits (k : Nat) : AndTail → Prop
  | .nil => True
  | .cons operand rest => operand.fits (k - (rest.operators + 1)) ∧ rest.fits k

def CmpTree.fits (k : Nat) : CmpTree → Prop
  | .primary p => p.fits k
  | .relop _ left right => left.fits (k - 1) ∧ right.fits (k - 1)

def PrimaryTree.fits (k : Nat) : PrimaryTree → Prop
  | .paren e => e.fits k
  | .not p => p.fits (k - 1)
  | _ => 1 ≤ k

end

theorem Ast.height_pos (t : Ast) : 1 ≤ t.height := by
  cases t <;> simp [Ast.height]

/-- One operator of a chain, whose left operand is the chain before it. -/
theorem height_operator {l r h m k : Nat} (hh : h = max l r + 1) (hr : 1 ≤ r) :
    h + m ≤ k ↔ l + (m + 1) ≤ k ∧ r ≤ k - (m + 1) := by
  omega

mutual

theorem ExprTree.height_le : ∀ (e : ExprTree) (k : Nat), e.ast.height ≤ k ↔ e.fits k
  | .mk first rest, k => by
    have hpos := first.ast.height_pos
    rw [ExprTree.ast, ExprTree.fits, OrTail.height_le rest first.ast k, ← AndTree.height_le]
    have hsub : first.ast.height + rest.operators ≤ k ↔
        first.ast.height ≤ k - rest.operators := by omega
    rw [hsub]

/-- A tail puts one level above the operand to its left for each of its operators. -/
theorem OrTail.height_le : ∀ (rest : OrTail) (left : Ast) (k : Nat),
    (rest.ast left).height ≤ k ↔ left.height + rest.operators ≤ k ∧ rest.fits k
  | .nil, left, k => by simp [OrTail.ast, OrTail.operators, OrTail.fits]
  | .cons operand rest, left, k => by
    have hop : (Ast.or left operand.ast).height = max left.height operand.ast.height + 1 := rfl
    rw [OrTail.ast, OrTail.height_le rest, OrTail.operators, OrTail.fits, ← AndTree.height_le,
      height_operator hop operand.ast.height_pos, and_assoc]

theorem AndTree.height_le : ∀ (a : AndTree) (k : Nat), a.ast.height ≤ k ↔ a.fits k
  | .mk first rest, k => by
    have hpos := first.ast.height_pos
    rw [AndTree.ast, AndTree.fits, AndTail.height_le rest first.ast k, ← CmpTree.height_le]
    have hsub : first.ast.height + rest.operators ≤ k ↔
        first.ast.height ≤ k - rest.operators := by omega
    rw [hsub]

theorem AndTail.height_le : ∀ (rest : AndTail) (left : Ast) (k : Nat),
    (rest.ast left).height ≤ k ↔ left.height + rest.operators ≤ k ∧ rest.fits k
  | .nil, left, k => by simp [AndTail.ast, AndTail.operators, AndTail.fits]
  | .cons operand rest, left, k => by
    have hop : (Ast.and left operand.ast).height = max left.height operand.ast.height + 1 := rfl
    rw [AndTail.ast, AndTail.height_le rest, AndTail.operators, AndTail.fits, ← CmpTree.height_le,
      height_operator hop operand.ast.height_pos, and_assoc]

theorem CmpTree.height_le : ∀ (c : CmpTree) (k : Nat), c.ast.height ≤ k ↔ c.fits k
  | .primary p, k => by rw [CmpTree.ast, CmpTree.fits, PrimaryTree.height_le]
  | .relop op left right, k => by
    have hl := left.ast.height_pos
    have hr := right.ast.height_pos
    rw [CmpTree.ast, CmpTree.fits, ← PrimaryTree.height_le, ← PrimaryTree.height_le, Ast.height]
    omega

theorem PrimaryTree.height_le : ∀ (p : PrimaryTree) (k : Nat), p.ast.height ≤ k ↔ p.fits k
  | .paren e, k => by rw [PrimaryTree.ast, PrimaryTree.fits, ExprTree.height_le]
  | .not p, k => by
    have hpos := p.ast.height_pos
    rw [PrimaryTree.ast, PrimaryTree.fits, ← PrimaryTree.height_le, Ast.height]
    omega
  | .num _, _ | .str _ _ _, _ | .ident _, _ | .member _ _, _ => Iff.rfl

end

theorem Lexes.unique {s : Bytes} {ts us : List Token} (h : Lexes s ts) (h' : Lexes s us) :
    ts = us := by
  induction h generalizing us with
  | done hs =>
    cases h' with
    | done _ => rfl
    | more hs' hne _ =>
      rw [hs] at hs'
      cases hs'
      exact absurd rfl hne
  | more hs hne _ ih =>
    cases h' with
    | done hs' =>
      rw [hs] at hs'
      cases hs'
      exact absurd rfl hne
    | more hs' _ hrest =>
      rw [hs] at hs'
      cases hs'
      rw [ih hrest]

/-- The chains of a text stay within `k` calls. -/
def Shallow (k : Nat) (text : Bytes) : Prop := ∃ e : ExprTree, Lexes text e.tokens ∧ e.fits k

/-- **The tree of an accepted text is at most as high as the limit exactly when its chains stay within
it.** -/
theorem queryParse_height_iff (text : Bytes) (t : Ast) (h : queryParse text = .ok t) :
    t.height ≤ QUERY_MAX_DEPTH ↔ Shallow QUERY_MAX_DEPTH text := by
  obtain ⟨e, hlex, rfl, -⟩ := (queryParse_ok_iff text t).mp h
  rw [e.height_le]
  constructor
  · intro hfits
    exact ⟨e, hlex, hfits⟩
  · rintro ⟨e', hlex', hfits⟩
    have hend : Stops FollowExpr [] := fun t ht => by cases ht
    obtain ⟨rfl, -⟩ := e.unique e' (by rw [hlex.unique hlex']) hend hend
    exact hfits

/-! ## A flat chain -/

/-- `1||1||..||1` with `n` operators. -/
def chainText : Nat → Bytes
  | 0 => [49]
  | n + 1 => 49 :: 124 :: 124 :: chainText n

def chainTail : Nat → OrTail
  | 0 => .nil
  | n + 1 => .cons (.mk (.primary (.num 1)) .nil) (chainTail n)

/-- The derivation of a chain. -/
def chainTree (n : Nat) : ExprTree := .mk (.mk (.primary (.num 1)) .nil) (chainTail n)

theorem chainText_lexes : ∀ n, Lexes (chainText n) (chainTree n).tokens
  | 0 => .more rfl (by simp) (.done rfl)
  | n + 1 => .more rfl (by simp) (.more rfl (by simp) (chainText_lexes n))

theorem chainTail_within {d : Nat} (hd : d + 2 ≤ QUERY_MAX_DEPTH) : ∀ n, (chainTail n).within d
  | 0 => trivial
  | n + 1 => by
    refine ⟨⟨by omega, ⟨by omega, ?_⟩, trivial⟩, chainTail_within hd n⟩
    show d + 1 + 1 ≤ QUERY_MAX_DEPTH
    omega

theorem chainTree_within (n : Nat) : (chainTree n).within 0 := by
  refine ⟨by decide, ⟨by decide, ⟨by decide, ?_⟩, trivial⟩, chainTail_within (by decide) n⟩
  show 3 ≤ QUERY_MAX_DEPTH
  decide

/-- The left operand of a chain is evaluated first, whatever the record. -/
theorem chainTail_evalDepth (rec : Record) : ∀ (n : Nat) (left : Ast),
    evalDepth rec left + n ≤ evalDepth rec ((chainTail n).ast left)
  | 0, _ => le_rfl
  | n + 1, left => by
    have hrest := chainTail_evalDepth rec n (.or left (.int 1))
    have hleft : evalDepth rec left + 1 ≤ evalDepth rec (.or left (.int 1)) := by
      rw [evalDepth]
      split <;> omega
    show _ ≤ evalDepth rec ((chainTail n).ast (.or left (.int 1)))
    omega

/-- **A chain of any length is accepted, and evaluated one level deeper for each operator.** -/
theorem chainText_accepted (n : Nat) : ∃ t, queryParse (chainText n) = .ok t ∧ n < t.height ∧
    ∀ rec, n < evalDepth rec t := by
  have hdepth : ∀ rec, n < evalDepth rec (chainTree n).ast := by
    intro rec
    have hchain := chainTail_evalDepth rec n (.int 1)
    exact Nat.lt_of_lt_of_le (Nat.lt_add_of_pos_left Nat.one_pos) hchain
  refine ⟨(chainTree n).ast, ?_, ?_, hdepth⟩
  · exact (queryParse_ok_iff _ _).mpr ⟨chainTree n, chainText_lexes n, rfl, chainTree_within n⟩
  · exact (hdepth (.heartbeat ⟨0, 0⟩)).trans_le (evalDepth_le _ _)

/-- `1||1||..||1` with 64 operators is accepted, and higher than the limit. -/
theorem chainText_too_high : ¬ ∀ text t, queryParse text = .ok t → t.height ≤ QUERY_MAX_DEPTH := by
  intro h
  obtain ⟨t, hparse, hheight, -⟩ := chainText_accepted 64
  exact absurd (h (chainText 64) t hparse) (Nat.not_le.mpr hheight)

/-- A short query stays within the limit. -/
theorem queryParse_height_pair : Shallow QUERY_MAX_DEPTH (ascii "1||1") := by
  have hparse : queryParse (ascii "1||1") = .ok (.or (.int 1) (.int 1)) := by decide +kernel
  exact (queryParse_height_iff (ascii "1||1") (.or (.int 1) (.int 1)) hparse).mp (by decide)

end Dtl
