import Mathlib.Data.Nat.Digits.Defs
import TelemetryForge.Query.Grammar
import TelemetryForge.Query.LexMachine

/-!
# The tokens of a text and their spans

* `Lexing` — calls of `dtl_lex_next` one after another, with the span of each token.
* `NumeralAt` — digits, with or without a minus sign, as far as they go.

Principal result: `lex_exact` — from position 0 the spans follow each other with nothing but whitespace
between them up to the end or the first error, and a number is the integer its digits write.
-/

set_option autoImplicit false

namespace Dtl

open Checked CText Terminated

namespace Machine

/-! ## The spans of the tokens -/

/-- A token and the part of the text it was read from. -/
structure LexSpan where
  start : Nat
  stop : Nat
  token : Token

/-- The part of the text a span covers. -/
def LexSpan.bytes (s : LexSpan) (text : Bytes) : Bytes := (text.drop s.start).take (s.stop - s.start)

/-- Nothing but whitespace from one position up to another. -/
def Blank (text : Bytes) (i j : Nat) : Prop :=
  ∀ k, i ≤ k → k < j → ∃ c, text[k]? = some c ∧ lexIsSpace c = true

/-- A call that returns a token other than `DTL_TOK_END`: whitespace, then the token, at least one
character long. -/
structure LexCall (text : Bytes) (pos : Nat) (s : LexSpan) : Prop where
  call : ∃ raw, lexNext (text ++ [0]) pos = .ok (raw, s.stop) ∧ raw.token (text ++ [0]) = s.token
  more : s.token ≠ .eof
  after : pos ≤ s.start
  blank : Blank text pos s.start
  starts : ∃ c, text[s.start]? = some c ∧ lexIsSpace c = false
  nonempty : s.start < s.stop
  stop_le : s.stop ≤ text.length

/-- Calls one after another, each from where the one before left the position. -/
inductive Lexing (text : Bytes) : Nat → List LexSpan → Nat → Prop where
  | nil (pos : Nat) : Lexing text pos [] pos
  | cons {pos last : Nat} {s : LexSpan} {spans : List LexSpan} (first : LexCall text pos s)
      (rest : Lexing text s.stop spans last) : Lexing text pos (s :: spans) last

/-- How the iteration ends: with `DTL_TOK_END` at the NUL, nothing but whitespace before it, or with
`DTL_ERR_BADQUERY`.  The text is covered up to `upto`. -/
inductive LexStop (text : Bytes) (last : Nat) : (upto : Nat) → Prop where
  | eof (raw : RawToken) (call : lexNext (text ++ [0]) last = .ok (raw, text.length))
      (kind : raw.kind = .eof) (blank : Blank text last text.length) : LexStop text last text.length
  | error (call : lexNext (text ++ [0]) last = .error (.err .badQuery)) : LexStop text last last

section Spans

variable {text : Bytes} {pos last : Nat}

theorem token_eof {t : RawToken} {src : Bytes} (h : t.token src = .eof) : t.kind = .eof := by
  obtain ⟨kind, num, s, n⟩ := t
  cases kind <;> simp_all [RawToken.token]

/-- **What one call does.** -/
theorem lexNext_call (htext : (0 : UInt8) ∉ text) (hpos : pos ≤ text.length) :
    (∃ s, LexCall text pos s) ∨ ∃ upto, LexStop text pos upto := by
  have hle := takeWhile_le lexIsSpace hpos
  have hdrop : text.drop (pos + ((text.drop pos).takeWhile lexIsSpace).length) =
      (text.drop pos).dropWhile lexIsSpace := drop_takeWhile lexIsSpace pos
  have hblank : Blank text pos (pos + ((text.drop pos).takeWhile lexIsSpace).length) :=
    fun k hk hlt => takeWhile_at lexIsSpace hk hlt
  have hhead := List.head?_dropWhile_not lexIsSpace (text.drop pos)
  rw [← hdrop] at hhead
  generalize hstart : pos + ((text.drop pos).takeWhile lexIsSpace).length = start at *
  have hsim := lexNext_simulates htext hpos
  rcases drop_cases hle with ⟨rfl, hnil⟩ | ⟨c, hlt, hc, hcons⟩
  · -- nothing but whitespace is left
    have heof : Dtl.lexNext (text.drop pos) = .ok (.eof, []) := by
      rw [Dtl.lexNext, ← hdrop, hnil]
    rw [heof] at hsim
    rcases hsim with ⟨⟨raw, stop⟩, b, hcall, hb, htoken, hrest, hstop⟩ | ⟨e, -, he⟩
    · cases hb
      obtain rfl : stop = text.length := by
        have := List.drop_eq_nil_iff.mp hrest.symm
        dsimp only at hstop this
        omega
      exact .inr ⟨_, .eof raw hcall (token_eof htoken) hblank⟩
    · cases he
  · rw [hcons] at hdrop hhead
    have hlexed := lexNext_lexed_cons hdrop.symm
    rcases hsim with ⟨⟨raw, stop⟩, ⟨t, r⟩, hcall, hd, htoken, rfl, hstop⟩ | ⟨e, hcall, hd⟩
    · obtain ⟨hshort, hne⟩ := hlexed.1 t _ hd
      simp only [List.length_drop] at hshort
      exact .inl ⟨⟨start, stop, t⟩, ⟨raw, hcall, htoken⟩, hne, by show pos ≤ start; omega, hblank,
        ⟨c, hc, hhead⟩, by show start < stop; omega, hstop⟩
    · rw [hlexed.2 e hd] at hcall
      exact .inr ⟨_, .error hcall⟩

/-- The iteration ends. -/
theorem lexing_exists (htext : (0 : UInt8) ∉ text) : ∀ (n : Nat) {pos : Nat}, pos ≤ text.length →
    text.length - pos ≤ n → ∃ spans last upto, Lexing text pos spans last ∧ LexStop text last upto := by
  intro n
  induction n with
  | zero =>
    intro pos hpos hn
    rcases lexNext_call htext hpos with ⟨s, hs⟩ | ⟨upto, hstop⟩
    · have := hs.after
      have := hs.nonempty
      have := hs.stop_le
      omega
    · exact ⟨[], pos, upto, .nil pos, hstop⟩
  | succ n ih =>
    intro pos hpos hn
    rcases lexNext_call htext hpos with ⟨s, hs⟩ | ⟨upto, hstop⟩
    · have := hs.after
      have := hs.nonempty
      obtain ⟨spans, last, upto, hspans, hstop⟩ := ih hs.stop_le (by omega)
      exact ⟨s :: spans, last, upto, .cons hs hspans, hstop⟩
    · exact ⟨[], pos, upto, .nil pos, hstop⟩

theorem Lexing.le {spans : List LexSpan} (h : Lexing text pos spans last) : pos ≤ last := by
  induction h with
  | nil => exact le_refl _
  | cons first _ ih =>
    have := first.after
    have := first.nonempty
    omega

theorem Lexing.last_le {spans : List LexSpan} (h : Lexing text pos spans last)
    (hpos : pos ≤ text.length) : last ≤ text.length := by
  induction h with
  | nil => exact hpos
  | cons first _ ih => exact ih first.stop_le

theorem Lexing.within {spans : List LexSpan} (h : Lexing text pos spans last) :
    ∀ s ∈ spans, pos ≤ s.start ∧ s.start < s.stop ∧ s.stop ≤ last := by
  induction h with
  | nil => simp
  | cons first rest ih =>
    rintro s hs
    have hafter := first.after
    have hnonempty := first.nonempty
    rcases List.mem_cons.mp hs with rfl | hs
    · exact ⟨hafter, hnonempty, rest.le⟩
    · obtain ⟨h1, h2⟩ := ih s hs
      exact ⟨by omega, h2⟩

/-- The spans are in order and disjoint. -/
theorem Lexing.ordered {spans : List LexSpan} (h : Lexing text pos spans last) :
    spans.Pairwise fun s s' => s.stop ≤ s'.start := by
  induction h with
  | nil => exact .nil
  | cons _ rest ih => exact .cons (fun s' hs' => (rest.within s' hs').1) ih

/-- Every character belongs to a span or is whitespace. -/
theorem Lexing.covers {spans : List LexSpan} (h : Lexing text pos spans last) :
    ∀ i, pos ≤ i → i < last → (∃ s ∈ spans, s.start ≤ i ∧ i < s.stop) ∨ Blank text i (i + 1) := by
  induction h with
  | nil => intro i h1 h2; omega
  | @cons pos last s spans first rest ih =>
    intro i hi hlast
    rcases Nat.lt_or_ge i s.start with hlt | hge
    · right
      intro k hk hk'
      exact first.blank k (by omega) (by omega)
    · rcases Nat.lt_or_ge i s.stop with hlt | hge'
      · exact .inl ⟨s, List.mem_cons_self, hge, hlt⟩
      · rcases ih i hge' hlast with ⟨s', hs', hin⟩ | hblank
        · exact .inl ⟨s', List.mem_cons_of_mem _ hs', hin⟩
        · exact .inr hblank

theorem LexStop.le {upto : Nat} (h : LexStop text last upto) (hlast : last ≤ text.length) :
    last ≤ upto := by
  cases h with
  | eof => exact hlast
  | error => exact le_refl _

/-- Past the last token there is nothing but whitespace to cover. -/
theorem LexStop.blank_above {upto i : Nat} (h : LexStop text last upto) (hi : last ≤ i)
    (hupto : i < upto) : Blank text i (i + 1) := by
  cases h with
  | eof raw call kind blank => exact fun k hk hk' => blank k (by omega) (by omega)
  | error => omega

/-- What holds of every call holds of every span. -/
theorem Lexing.all {spans : List LexSpan} (h : Lexing text pos spans last) {P : LexSpan → Prop}
    (hP : ∀ pos s, LexCall text pos s → P s) : ∀ s ∈ spans, P s := by
  induction h with
  | nil => simp
  | cons first _ ih => exact List.forall_mem_cons.mpr ⟨hP _ _ first, ih⟩

end Spans

/-! ## Numbers -/

/-- The number that decimal digits write. -/
def digitsValue (ds : Bytes) : Nat := Nat.ofDigits 10 (ds.map fun c => c.toNat - 48).reverse

/-- Digits with their sign, and the integer they write. -/
def numeral (neg : Bool) (ds : Bytes) : Bytes := if neg then 45 :: ds else ds

def numeralValue (neg : Bool) (ds : Bytes) : Int := if neg then -(digitsValue ds : Int) else digitsValue ds

/-- A numeral at the start of a text, with all its digits. -/
structure NumeralAt (s : Bytes) (neg : Bool) (ds r : Bytes) : Prop where
  text : s = numeral neg ds ++ r
  nonempty : ds ≠ []
  digits : ∀ c ∈ ds, isDigit c = true
  last : NoDigit r

theorem digitsValue_cons (c : UInt8) (ds : Bytes) :
    digitsValue (c :: ds) = (c.toNat - 48) * 10 ^ ds.length + digitsValue ds := by
  simp only [digitsValue, List.map_cons, List.reverse_cons, Nat.ofDigits_append, Nat.ofDigits_singleton,
    List.length_reverse, List.length_map]
  ring

/-- **The digit loop computes the number its digits write**, and fails exactly when that exceeds
`INT64_MAX`. -/
theorem lexDigits_value : ∀ (ds : Bytes) (val : Nat) {r : Bytes}, (∀ c ∈ ds, isDigit c = true) →
    NoDigit r → val ≤ INT64_MAX →
    Dtl.lexDigits val (ds ++ r) =
      if val * 10 ^ ds.length + digitsValue ds ≤ INT64_MAX then
        .ok (val * 10 ^ ds.length + digitsValue ds, r)
      else .error .badQuery
  | [], val, r, _, hr, hval => by
    have hvalue : val * 10 ^ ([] : Bytes).length + digitsValue [] = val := by
      simp [digitsValue]
    rw [hvalue, if_pos hval, List.nil_append]
    cases r with
    | nil => rfl
    | cons c r =>
      have hc : isDigit c = false := hr
      rw [Dtl.lexDigits, if_neg (by simp [hc])]
  | c :: ds, val, r, hds, hr, hval => by
    obtain ⟨hlo, hhi⟩ := isDigit_range (hds c (by simp))
    have hvalue : val * 10 ^ (c :: ds).length + digitsValue (c :: ds) =
        (val * 10 + (c.toNat - 48)) * 10 ^ ds.length + digitsValue ds := by
      rw [digitsValue_cons, List.length_cons, Nat.pow_succ]
      ring
    rw [hvalue, List.cons_append, Dtl.lexDigits, if_pos (hds c (by simp))]
    by_cases hguard : val > (INT64_MAX - (c.toNat - 48)) / 10
    · have hbig : INT64_MAX < val * 10 + (c.toNat - 48) := by
        simp only [INT64_MAX] at hguard ⊢
        omega
      have hpow : val * 10 + (c.toNat - 48) ≤ (val * 10 + (c.toNat - 48)) * 10 ^ ds.length :=
        Nat.le_mul_of_pos_right _ (Nat.pow_pos (by omega))
      rw [if_pos hguard, if_neg (by omega)]
    · have hnext : val * 10 + (c.toNat - 48) ≤ INT64_MAX := by
        simp only [INT64_MAX] at hguard ⊢
        omega
      rw [if_neg hguard, lexDigits_value ds _ (fun c' hc' => hds c' (by simp [hc'])) hr hnext]

/-- A numeral starts with a digit, or with a minus sign before one. -/
theorem NumeralAt.head {s ds r : Bytes} {neg : Bool} (h : NumeralAt s neg ds r) :
    ∃ c rest, s = c :: rest ∧ (isDigit c || (c = 45 && isDigit (peek rest))) = true := by
  obtain ⟨rfl, hne, hds, -⟩ := h
  cases ds with
  | nil => exact absurd rfl hne
  | cons d ds =>
    have hd := hds d (by simp)
    cases neg with
    | false => exact ⟨d, ds ++ r, rfl, by simp [hd]⟩
    | true => exact ⟨45, d :: ds ++ r, rfl, by simp [peek, hd]⟩

/-- Where a digit stands, or a minus sign before one, there is a numeral. -/
theorem numeralAt_exists {c : UInt8} {rest : Bytes}
    (h : (isDigit c || (c = 45 && isDigit (peek rest))) = true) :
    ∃ neg ds r, NumeralAt (c :: rest) neg ds r := by
  have hlast : ∀ s : Bytes, NoDigit (s.dropWhile isDigit) := by
    intro s
    have hhead := List.head?_dropWhile_not isDigit s
    cases hs : s.dropWhile isDigit with
    | nil => trivial
    | cons c s' =>
      rw [hs] at hhead
      exact hhead
  have hsplit : ∀ s : Bytes, isDigit (peek s) = true →
      NumeralAt s false (s.takeWhile isDigit) (s.dropWhile isDigit) := by
    intro s hs
    refine ⟨List.takeWhile_append_dropWhile.symm, ?_, fun c hc => ?_, hlast s⟩
    · cases s with
      | nil => exact absurd hs (by simp [peek, isDigit])
      | cons c s =>
        have hc : isDigit c = true := hs
        simp [List.takeWhile_cons_of_pos hc]
    · exact List.all_eq_true.mp List.all_takeWhile c hc
  rcases Bool.or_eq_true_iff.mp h with hdigit | hminus
  · exact ⟨false, _, _, hsplit (c :: rest) hdigit⟩
  · simp only [Bool.and_eq_true, decide_eq_true_eq] at hminus
    obtain ⟨rfl, hpeek⟩ := hminus
    obtain ⟨htext, hne, hds, hr⟩ := hsplit rest hpeek
    exact ⟨true, _, _, congrArg (45 :: ·) htext, hne, hds, hr⟩

/-- **A numeral is lexed to its value, or refused when its magnitude exceeds `INT64_MAX`.** -/
theorem lexNumber_value {s ds r : Bytes} {neg : Bool} (h : NumeralAt s neg ds r) :
    Dtl.lexNumber s =
      if digitsValue ds ≤ INT64_MAX then .ok (.num (numeralValue neg ds), r)
      else .error .badQuery := by
  obtain ⟨rfl, hne, hds, hr⟩ := h
  have hvalue := lexDigits_value ds 0 hds hr (Nat.zero_le _)
  rw [Nat.zero_mul, Nat.zero_add] at hvalue
  obtain ⟨d, ds', rfl⟩ := List.exists_cons_of_ne_nil hne
  have hd := hds d (by simp)
  have hne45 : ¬ d = 45 := (isDigit_ne hd).2.1
  rw [List.cons_append] at hvalue
  cases neg with
  | false =>
    simp only [Dtl.lexNumber, numeral, numeralValue, Bool.false_eq_true, List.cons_append, peek,
      List.headD_cons, hne45, hd, hvalue, if_false, if_true]
    split <;> rfl
  | true =>
    simp only [Dtl.lexNumber, numeral, numeralValue, List.cons_append, peek, List.headD_cons,
      List.tail_cons, hd, hvalue, if_true]
    split <;> rfl

/-- The lexer where a numeral follows the whitespace. -/
theorem lexNext_value {s t ds r : Bytes} {neg : Bool} (hs : s.dropWhile lexIsSpace = t)
    (h : NumeralAt t neg ds r) :
    Dtl.lexNext s =
      if digitsValue ds ≤ INT64_MAX then .ok (.num (numeralValue neg ds), r)
      else .error .badQuery := by
  obtain ⟨c, rest, rfl, hhead⟩ := h.head
  rw [Dtl.lexNext, hs]
  dsimp only
  rw [if_pos hhead, lexNumber_value h]

/-- Anything but a number token. -/
def NotNum (x : Res (Token × Bytes)) : Prop := ∀ v r, x ≠ .ok (.num v, r)

theorem NotNum.ite {c : Prop} [Decidable c] {x y : Res (Token × Bytes)} (hx : NotNum x)
    (hy : NotNum y) : NotNum (if c then x else y) := by
  split
  · exact hx
  · exact hy

theorem lexStringLoop_notNum (raw s : Bytes) : NotNum (Dtl.lexStringLoop raw s) := by
  induction raw, s using Dtl.lexStringLoop.induct with
  | case1 raw => rintro v r ⟨⟩
  | case2 raw => rintro v r ⟨⟩
  | case3 raw e s ih =>
    rw [Dtl.lexStringLoop]
    exact ih
  | case4 raw s h1 h2 =>
    rw [Dtl.lexStringLoop, if_pos rfl]
    · rintro v r ⟨⟩
    · exact h1
    · exact h2
  | case5 raw c s h1 h2 hc ih =>
    rw [Dtl.lexStringLoop, if_neg hc]
    · exact ih
    · exact h1
    · exact h2

theorem lexPair_notNum (c : UInt8) {both : Token} {alt : Option Token} (s : Bytes)
    (hboth : ∀ v, both ≠ .num v) (halt : ∀ v, alt ≠ some (.num v)) :
    NotNum (Dtl.lexPair c both alt s) := by
  intro v r h
  unfold Dtl.lexPair at h
  split at h
  · cases h
    exact hboth v rfl
  · cases alt with
    | none => cases h
    | some t =>
      cases h
      exact halt v rfl

/-- A number token comes from a numeral. -/
theorem lexNext_num {s rest r : Bytes} {c : UInt8} {v : Int} (hs : s.dropWhile lexIsSpace = c :: rest)
    (h : Dtl.lexNext s = .ok (.num v, r)) :
    (isDigit c || (c = 45 && isDigit (peek rest))) = true := by
  by_contra hno
  have hpair : ∀ (c : UInt8) (both : Token) (alt : Option Token), (∀ v, both ≠ .num v) →
      (∀ v, alt ≠ some (.num v)) → NotNum (Dtl.lexPair c both alt rest) := fun c both alt =>
    lexPair_notNum c rest
  have hone : ∀ (t : Token) (s : Bytes), (∀ v, t ≠ .num v) → NotNum (.ok (t, s)) := by
    rintro t s ht v r ⟨⟩
    exact ht v rfl
  have hnot : NotNum (Dtl.lexNext s) := by
    rw [Dtl.lexNext, hs]
    dsimp only
    rw [if_neg hno]
    refine .ite (hone _ _ (by simp)) (.ite (lexStringLoop_notNum [] rest) ?_)
    refine .ite (hpair 38 .and none (by simp) (by simp)) ?_
    refine .ite (hpair 124 .or none (by simp) (by simp)) ?_
    refine .ite (hpair 61 .eq none (by simp) (by simp)) ?_
    refine .ite (hpair 61 .ne (some .not) (by simp) (by simp)) ?_
    refine .ite (hpair 61 .le (some .lt) (by simp) (by simp)) ?_
    refine .ite (hpair 61 .ge (some .gt) (by simp) (by simp)) ?_
    refine .ite (hone _ _ (by simp)) (.ite (hone _ _ (by simp)) (.ite (hone _ _ (by simp)) ?_))
    rintro v r ⟨⟩
  exact hnot v r h

section Numbers

variable {text : Bytes} {pos start : Nat}

/-- The whitespace skipped up to a character that is none. -/
theorem dropWhile_blank {c : UInt8} {rest : Bytes} (hle : pos ≤ start) (hblank : Blank text pos start)
    (hcons : text.drop start = c :: rest) (hc : lexIsSpace c = false) :
    (text.drop pos).dropWhile lexIsSpace = c :: rest := by
  induction hn : start - pos generalizing pos with
  | zero =>
    obtain rfl : pos = start := by omega
    rw [hcons, List.dropWhile_cons_of_neg (by simp [hc])]
  | succ n ih =>
    obtain ⟨c', hc', hspace⟩ := hblank pos (le_refl _) (by omega)
    have hlt : pos < text.length := (List.getElem?_eq_some_iff.mp hc').1
    have hdrop : text.drop pos = c' :: text.drop (pos + 1) := by
      rw [List.drop_eq_getElem_cons hlt, (List.getElem?_eq_some_iff.mp hc').2]
    rw [hdrop, List.dropWhile_cons_of_pos hspace]
    exact ih (by omega) (fun k hk hk' => hblank k (by omega) hk') (by omega)

theorem isDigit_not_space {c : UInt8} (h : isDigit c = true) : lexIsSpace c = false := by
  have hrange := isDigit_range h
  have hne : ∀ k : UInt8, k.toNat < 48 → c ≠ k := by
    rintro k hk rfl
    omega
  simp [lexIsSpace, hne 32 (by decide), hne 9 (by decide), hne 10 (by decide), hne 13 (by decide)]

/-- **A numeral is lexed to the integer it writes, or refused when its magnitude exceeds
`INT64_MAX`**, wherever it follows whitespace. -/
theorem lexNext_numeral (htext : (0 : UInt8) ∉ text) (hle : pos ≤ start)
    (hblank : Blank text pos start) {neg : Bool} {ds r : Bytes}
    (h : NumeralAt (text.drop start) neg ds r) :
    (digitsValue ds ≤ INT64_MAX → ∃ raw,
      lexNext (text ++ [0]) pos = .ok (raw, start + (numeral neg ds).length) ∧ raw.kind = .num ∧
        raw.num = numeralValue neg ds) ∧
    (INT64_MAX < digitsValue ds → lexNext (text ++ [0]) pos = .error (.err .badQuery)) := by
  obtain ⟨c, rest, hcons, hhead⟩ := h.head
  have hc : lexIsSpace c = false := by
    rcases Bool.or_eq_true_iff.mp hhead with hdigit | hminus
    · exact isDigit_not_space hdigit
    · simp only [Bool.and_eq_true, decide_eq_true_eq] at hminus
      rw [hminus.1]
      rfl
  have hstart : start < text.length := by
    by_contra hge
    rw [List.drop_eq_nil_of_le (by omega)] at hcons
    cases hcons
  have hvalue := lexNext_value (dropWhile_blank hle hblank hcons hc) (hcons ▸ h)
  have hsim := lexNext_simulates htext (by omega : pos ≤ text.length)
  rw [hvalue] at hsim
  constructor
  · intro hfit
    rw [if_pos hfit] at hsim
    rcases hsim with ⟨⟨raw, stop⟩, b, hcall, hb, htoken, hrest, hstop⟩ | ⟨e, -, he⟩
    · cases hb
      have hlen := congrArg List.length h.text
      rw [List.length_append, List.length_drop] at hlen
      have hr := congrArg List.length hrest
      rw [List.length_drop] at hr
      dsimp only at hlen hr hstop htoken
      obtain rfl : stop = start + (numeral neg ds).length := by omega
      refine ⟨raw, hcall, ?_⟩
      obtain ⟨kind, num, s, n⟩ := raw
      cases kind <;> simp_all [RawToken.token]
    · cases he
  · intro hbig
    rw [if_neg (by omega)] at hsim
    rcases hsim with ⟨a, b, -, hb, -⟩ | ⟨e, hcall, he⟩
    · cases hb
    · cases he
      exact hcall

/-- A number token is the integer that its span writes. -/
theorem LexCall.num (htext : (0 : UInt8) ∉ text) {s : LexSpan} (h : LexCall text pos s) {v : Int}
    (hv : s.token = .num v) :
    ∃ neg ds, s.bytes text = numeral neg ds ∧ v = numeralValue neg ds ∧ digitsValue ds ≤ INT64_MAX ∧
      NumeralAt (text.drop s.start) neg ds (text.drop s.stop) := by
  obtain ⟨c, hat, hc⟩ := h.starts
  have hlt : s.start < text.length := (List.getElem?_eq_some_iff.mp hat).1
  have hcons : text.drop s.start = c :: text.drop (s.start + 1) := by
    rw [List.drop_eq_getElem_cons hlt, (List.getElem?_eq_some_iff.mp hat).2]
  have hskip := dropWhile_blank h.after h.blank hcons hc
  have hpos : pos ≤ text.length := by
    have := h.after
    omega
  obtain ⟨raw, hcall, htoken⟩ := h.call
  have hlex : Dtl.lexNext (text.drop pos) = .ok (.num v, text.drop s.stop) := by
    rcases lexNext_simulates htext hpos with ⟨a, ⟨t, r⟩, ha, hb, hto, hr, -⟩ | ⟨e, he, -⟩
    · rw [ha] at hcall
      cases hcall
      rw [hb, ← hv, ← htoken, hto]
      dsimp only at hr
      rw [hr]
    · rw [he] at hcall
      cases hcall
  obtain ⟨neg, ds, r, hn⟩ := numeralAt_exists (lexNext_num hskip hlex)
  have hvalue := lexNext_value hskip hn
  rw [hlex] at hvalue
  split at hvalue
  · rename_i hfit
    cases hvalue
    rw [← hcons] at hn
    refine ⟨neg, ds, ?_, rfl, hfit, hn⟩
    have hlen := congrArg List.length hn.text
    simp only [List.length_append, List.length_drop] at hlen
    have hstop := h.stop_le
    have hnonempty := h.nonempty
    have hn' : (numeral neg ds).length = s.stop - s.start := by omega
    rw [LexSpan.bytes, hn.text, ← hn', List.take_left]
  · cases hvalue

end Numbers

/-- **The lexer is exact and bounded.**  From position 0 the calls of `dtl_lex_next` return tokens whose
spans are in order and disjoint, each behind the position it was called at, and end at the NUL or with
an error; up to there everything outside the spans is whitespace.  No call loads past the NUL or
overflows.  A number token is the integer its span writes, and digits are refused exactly when their
magnitude exceeds `INT64_MAX`. -/
theorem lex_exact (text : CStr) :
    (∃ spans last upto, Lexing text.val 0 spans last ∧ LexStop text.val last upto ∧
      (∀ s ∈ spans, s.start < s.stop ∧ s.stop ≤ upto) ∧
      spans.Pairwise (fun s s' => s.stop ≤ s'.start) ∧
      (∀ i < upto, (∃ s ∈ spans, s.start ≤ i ∧ i < s.stop) ∨ Blank text.val i (i + 1)) ∧
      ∀ s ∈ spans, ∀ v, s.token = .num v → ∃ neg ds, s.bytes text.val = numeral neg ds ∧
        v = numeralValue neg ds ∧ digitsValue ds ≤ INT64_MAX ∧
        NumeralAt (text.val.drop s.start) neg ds (text.val.drop s.stop)) ∧
    ∀ pos start, pos ≤ start → Blank text.val pos start → ∀ neg ds r,
      NumeralAt (text.val.drop start) neg ds r →
      (digitsValue ds ≤ INT64_MAX → ∃ raw,
        lexNext (text.val ++ [0]) pos = .ok (raw, start + (numeral neg ds).length) ∧
          raw.kind = .num ∧ raw.num = numeralValue neg ds) ∧
      (INT64_MAX < digitsValue ds → lexNext (text.val ++ [0]) pos = .error (.err .badQuery)) := by
  obtain ⟨text, htext⟩ := text
  refine ⟨?_, fun pos start hle hblank neg ds r h => lexNext_numeral htext hle hblank h⟩
  obtain ⟨spans, last, upto, hspans, hstop⟩ := lexing_exists htext _ (Nat.zero_le _) (le_refl _)
  have hnum := hspans.all (P := fun s => ∀ v, s.token = .num v → _) fun pos s hs v hv => hs.num htext hv
  refine ⟨spans, last, upto, hspans, hstop, ?_, hspans.ordered, ?_, hnum⟩
  · intro s hs
    obtain ⟨-, hne, hle⟩ := hspans.within s hs
    exact ⟨hne, hle.trans (hstop.le (hspans.last_le (Nat.zero_le _)))⟩
  · intro i hi
    rcases Nat.lt_or_ge i last with hlt | hge
    · exact hspans.covers i (Nat.zero_le _) hlt
    · exact .inr (hstop.blank_above hge hi)

end Machine

end Dtl
