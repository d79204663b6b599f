import Mathlib.Data.List.Forall2
import Mathlib.Data.List.Induction

/-!
# Greedy first occurrences

A list is scanned from the left, and an element is kept unless an element kept before compares equal
to it.  The comparator is any Boolean function: it need not be reflexive, symmetric or transitive, and
the earlier element is always its first argument.

Principal results: `marks_iff` — an element is kept exactly when no kept element before it compares
equal; `kept_pairwise` — no two kept elements compare equal; `marks_of_pairwise` — a list of such
elements is kept as a whole; `dropped_kept_iff` — when every dropped element is one that is kept.
-/

set_option autoImplicit false

namespace Greedy

variable {α : Type} {eq : α → α → Bool}

/-- The kept elements after one more element. -/
def keepStep (eq : α → α → Bool) (kept : List α) (a : α) : List α :=
  if kept.any (eq · a) then kept else kept ++ [a]

/-- The elements kept. -/
def kept (eq : α → α → Bool) (xs : List α) : List α := xs.foldl (keepStep eq) []

/-- Which elements are kept after those of `before`. -/
def marksFrom (eq : α → α → Bool) (before : List α) : List α → List Bool
  | [] => []
  | a :: rest => (!before.any (eq · a)) :: marksFrom eq (keepStep eq before a) rest

/-- Which elements are kept. -/
def marks (eq : α → α → Bool) (xs : List α) : List Bool := marksFrom eq [] xs

theorem keepStep_seen {before : List α} {a : α} (h : before.any (eq · a) = true) :
    keepStep eq before a = before := if_pos h

theorem keepStep_new {before : List α} {a : α} (h : before.any (eq · a) = false) :
    keepStep eq before a = before ++ [a] := if_neg (by simp [h])

theorem kept_snoc (xs : List α) (a : α) : kept eq (xs ++ [a]) = keepStep eq (kept eq xs) a := by
  rw [kept, List.foldl_append]
  rfl

theorem marksFrom_snoc (xs : List α) (a : α) : ∀ before : List α,
    marksFrom eq before (xs ++ [a]) =
      marksFrom eq before xs ++ [!(xs.foldl (keepStep eq) before).any (eq · a)] := by
  induction xs with
  | nil =>
    intro before
    rfl
  | cons b xs ih =>
    intro before
    rw [List.cons_append, marksFrom, marksFrom, ih, List.cons_append, List.foldl_cons]

theorem marks_snoc (xs : List α) (a : α) :
    marks eq (xs ++ [a]) = marks eq xs ++ [!(kept eq xs).any (eq · a)] := marksFrom_snoc xs a []

@[simp] theorem marks_length (xs : List α) : (marks eq xs).length = xs.length := by
  induction xs using List.reverseRecOn with
  | nil => rfl
  | append_singleton xs a ih => rw [marks_snoc, List.length_append, List.length_append, ih]; rfl

/-- The kept elements are the marked ones. -/
theorem kept_eq (xs : List α) :
    kept eq xs = ((xs.zip (marks eq xs)).filter (·.2)).map (·.1) := by
  induction xs using List.reverseRecOn with
  | nil => rfl
  | append_singleton xs a ih =>
    rw [kept_snoc, marks_snoc, List.zip_append (marks_length xs).symm, List.filter_append,
      List.map_append, ← ih]
    cases h : (kept eq xs).any (eq · a) with
    | true => simp [keepStep_seen h]
    | false => simp [keepStep_new h]

theorem mem_kept {xs : List α} {b : α} :
    b ∈ kept eq xs ↔ ∃ j : Nat, xs[j]? = some b ∧ (marks eq xs)[j]? = some true := by
  rw [kept_eq, List.mem_map]
  constructor
  · rintro ⟨⟨b, m⟩, hmem, rfl⟩
    obtain ⟨hmem, hm⟩ := List.mem_filter.mp hmem
    obtain ⟨j, hj⟩ := List.mem_iff_getElem?.mp hmem
    rw [List.getElem?_zip_eq_some] at hj
    cases hm
    exact ⟨j, hj.1, hj.2⟩
  · rintro ⟨j, hb, hm⟩
    refine ⟨(b, true), List.mem_filter.mpr ⟨?_, rfl⟩, rfl⟩
    exact List.mem_iff_getElem?.mpr ⟨j, List.getElem?_zip_eq_some.mpr ⟨hb, hm⟩⟩

/-- **An element is kept exactly when no kept element before it compares equal.** -/
theorem marks_iff {xs : List α} {i : Nat} {a : α} (ha : xs[i]? = some a) :
    (marks eq xs)[i]? = some true ↔
      ∀ j < i, ∀ b, xs[j]? = some b → (marks eq xs)[j]? = some true → eq b a = false := by
  induction xs using List.reverseRecOn with
  | nil => simp at ha
  | append_singleton xs c ih =>
    have hlen : i < xs.length + 1 := by simpa using (List.getElem?_eq_some_iff.mp ha).1
    rw [marks_snoc]
    rcases Nat.lt_succ_iff_lt_or_eq.mp hlen with hi | rfl
    · rw [List.getElem?_append_left hi] at ha
      rw [List.getElem?_append_left (by simpa using hi), ih ha]
      refine forall₂_congr fun j hj => ?_
      rw [List.getElem?_append_left (Nat.lt_trans hj hi),
        List.getElem?_append_left (by simpa using Nat.lt_trans hj hi)]
    · have hlast : (marks eq xs ++ [!(kept eq xs).any (eq · c)])[xs.length]? =
          some (!(kept eq xs).any (eq · c)) := by
        rw [List.getElem?_append_right (by simp)]
        simp
      rw [List.getElem?_concat_length] at ha
      cases ha
      rw [hlast, Option.some.injEq, Bool.not_eq_true', List.any_eq_false]
      constructor
      · intro h j hj b hb hm
        rw [List.getElem?_append_left hj] at hb
        rw [List.getElem?_append_left (by simpa using hj)] at hm
        simpa using h b (mem_kept.mpr ⟨j, hb, hm⟩)
      · intro h b hb
        obtain ⟨j, hb, hm⟩ := mem_kept.mp hb
        have hj := (List.getElem?_eq_some_iff.mp hb).1
        have := h j hj b (by rwa [List.getElem?_append_left hj])
          (by rwa [List.getElem?_append_left (by simpa using hj)])
        simpa using this

/-- A dropped element has a kept one before it that compares equal. -/
theorem marks_dropped {xs : List α} {i : Nat} {a : α} (ha : xs[i]? = some a)
    (h : (marks eq xs)[i]? = some false) :
    ∃ j < i, ∃ b, xs[j]? = some b ∧ (marks eq xs)[j]? = some true ∧ eq b a = true := by
  by_contra hno
  have hkept : (marks eq xs)[i]? = some true := by
    refine (marks_iff ha).mpr fun j hj b hb hm => ?_
    by_contra hba
    exact hno ⟨j, hj, b, hb, hm, by simpa using hba⟩
  cases h.symm.trans hkept

theorem keepStep_pairwise {before : List α} (h : before.Pairwise fun a b => eq a b = false) (a : α) :
    (keepStep eq before a).Pairwise fun a b => eq a b = false := by
  cases hany : before.any (eq · a) with
  | true => rwa [keepStep_seen hany]
  | false =>
    rw [keepStep_new hany]
    refine List.pairwise_append.mpr ⟨h, List.pairwise_singleton _ _, ?_⟩
    intro b hb c hc
    rw [List.mem_singleton.mp hc]
    simpa using List.any_eq_false.mp hany b hb

/-- **No two kept elements compare equal.** -/
theorem kept_pairwise (xs : List α) : (kept eq xs).Pairwise fun a b => eq a b = false := by
  induction xs using List.reverseRecOn with
  | nil => exact List.Pairwise.nil
  | append_singleton xs a ih =>
    rw [kept_snoc]
    exact keepStep_pairwise ih a

/-- **A list in which no two elements compare equal is kept as a whole.** -/
theorem marks_of_pairwise {xs : List α} (h : xs.Pairwise fun a b => eq a b = false) :
    kept eq xs = xs ∧ marks eq xs = List.replicate xs.length true := by
  induction xs using List.reverseRecOn with
  | nil => exact ⟨rfl, rfl⟩
  | append_singleton xs a ih =>
    obtain ⟨hxs, -, ha⟩ := List.pairwise_append.mp h
    obtain ⟨hkept, hmarks⟩ := ih hxs
    have hany : (kept eq xs).any (eq · a) = false := by
      rw [hkept, List.any_eq_false]
      intro b hb
      simp [ha b hb a (List.mem_singleton_self a)]
    rw [kept_snoc, keepStep_new hany, marks_snoc, hany, hkept, hmarks]
    exact ⟨rfl, by simp [List.replicate_succ']⟩

/-- Under a symmetric comparator two kept elements that compare equal are one. -/
theorem marks_unique {xs : List α} (hsymm : ∀ a ∈ xs, ∀ b ∈ xs, eq a b = true → eq b a = true)
    {i j : Nat} {a b : α} (ha : xs[i]? = some a) (hb : xs[j]? = some b)
    (hi : (marks eq xs)[i]? = some true) (hj : (marks eq xs)[j]? = some true)
    (h : eq a b = true) : i = j := by
  rcases Nat.lt_trichotomy i j with hlt | heq | hlt
  · rw [(marks_iff hb).mp hj i hlt a ha hi] at h
    cases h
  · exact heq
  · have h' := hsymm a (List.mem_of_getElem? ha) b (List.mem_of_getElem? hb) h
    rw [(marks_iff ha).mp hi j hlt b hb hj] at h'
    cases h'

/-- **Every dropped element is one that is kept, exactly when elements that compare equal are equal**,
for a symmetric comparator. -/
theorem dropped_kept_iff {xs : List α}
    (hsymm : ∀ a ∈ xs, ∀ b ∈ xs, eq a b = true → eq b a = true) :
    (∀ (i : Nat) (a : α), xs[i]? = some a → (marks eq xs)[i]? = some false →
      ∃ j < i, (marks eq xs)[j]? = some true ∧ xs[j]? = some a) ↔
        xs.Pairwise fun a b => eq a b = true → a = b := by
  have hmark : ∀ {i : Nat} {a : α}, xs[i]? = some a →
      (marks eq xs)[i]? = some true ∨ (marks eq xs)[i]? = some false := by
    intro i a ha
    have hlt := (List.getElem?_eq_some_iff.mp ha).1
    rw [← @marks_length α eq xs] at hlt
    rw [List.getElem?_eq_getElem hlt, Option.some.injEq, Option.some.injEq]
    exact Bool.eq_false_or_eq_true _
  constructor
  · intro h
    -- every element is a kept one
    have hkept : ∀ (i : Nat) (a : α), xs[i]? = some a →
        ∃ j : Nat, (marks eq xs)[j]? = some true ∧ xs[j]? = some a := by
      intro i a ha
      rcases hmark ha with hm | hm
      · exact ⟨i, hm, ha⟩
      · obtain ⟨j, -, hj⟩ := h i a ha hm
        exact ⟨j, hj⟩
    rw [List.pairwise_iff_getElem]
    intro i j hi hj _ heq
    obtain ⟨i', hi', ha⟩ := hkept i xs[i] (List.getElem?_eq_getElem hi)
    obtain ⟨j', hj', hb⟩ := hkept j xs[j] (List.getElem?_eq_getElem hj)
    cases marks_unique hsymm ha hb hi' hj' heq
    exact Option.some.inj (ha.symm.trans hb)
  · intro h i a ha hm
    obtain ⟨j, hj, b, hb, hmb, heq⟩ := marks_dropped ha hm
    obtain ⟨hi, rfl⟩ := List.getElem?_eq_some_iff.mp ha
    obtain ⟨hj', rfl⟩ := List.getElem?_eq_some_iff.mp hb
    have heq' := List.pairwise_iff_getElem.mp h j i hj' hi hj heq
    exact ⟨j, hj, hmb, heq' ▸ hb⟩

/-- The marks depend only on what the comparator answers. -/
theorem marks_congr {β : Type} {eq' : β → β → Bool} {R : α → β → Prop}
    (h : ∀ a b a' b', R a a' → R b b' → eq a b = eq' a' b') {xs : List α} {ys : List β}
    (hxs : List.Forall₂ R xs ys) : marks eq xs = marks eq' ys := by
  have hany : ∀ {before : List α} {before' : List β}, List.Forall₂ R before before' →
      ∀ {a : α} {a' : β}, R a a' → before.any (eq · a) = before'.any (eq' · a') := by
    intro before before' hb a a' ha
    induction hb with
    | nil => rfl
    | cons hc _ ih => rw [List.any_cons, List.any_cons, ih, h _ _ _ _ hc ha]
  have hfrom : ∀ {before : List α} {before' : List β}, List.Forall₂ R before before' →
      marksFrom eq before xs = marksFrom eq' before' ys := by
    induction hxs with
    | nil =>
      intro before before' _
      rfl
    | cons ha _ ih =>
      intro before before' hb
      rw [marksFrom, marksFrom, hany hb ha]
      congr 1
      apply ih
      rw [keepStep, keepStep, hany hb ha]
      split
      · exact hb
      · exact List.rel_append hb (.cons ha .nil)
  exact hfrom .nil

end Greedy
