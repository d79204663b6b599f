import Mathlib.Algebra.GroupWithZero.Nat
import Mathlib.Data.List.Basic
import Mathlib.Data.List.Induction

/-!
# Segments

A list is cut before each marked element.  What comes before the first of them is the lead; each marked
element starts a segment, whose body is what follows up to the next one.

Principal results: `segments_mark`, `segments_lead` and `segments_body` — one more element at the end;
`segments_length` and `segments_heads` — nothing is left out.
-/

set_option autoImplicit false

namespace Segments

variable {α β : Type}

/-- A marked element, at position `start`, and what follows it. -/
structure Segment (α β : Type) where
  start : Nat
  head : β
  body : List α

/-- The lead and the segments of a list whose first element has position `k`. -/
def segments (mark : α → Option β) (k : Nat) : List α → List α × List (Segment α β)
  | [] => ([], [])
  | a :: rest =>
    let (lead, segs) := segments mark (k + 1) rest
    match mark a with
    | some b => ([], ⟨k, b, lead⟩ :: segs)
    | none => (a :: lead, segs)

/-- The segment with one more element. -/
def Segment.add (s : Segment α β) (a : α) : Segment α β := { s with body := s.body ++ [a] }

variable {mark : α → Option β}

theorem segments_cons_mark {a : α} {b : β} (h : mark a = some b) (k : Nat) (rest : List α) :
    segments mark k (a :: rest) =
      ([], ⟨k, b, (segments mark (k + 1) rest).1⟩ :: (segments mark (k + 1) rest).2) := by
  rw [segments, h]

theorem segments_cons_none {a : α} (h : mark a = none) (k : Nat) (rest : List α) :
    segments mark k (a :: rest) =
      (a :: (segments mark (k + 1) rest).1, (segments mark (k + 1) rest).2) := by
  rw [segments, h]

/-- The heads are the marks. -/
theorem segments_heads (k : Nat) (xs : List α) :
    (segments mark k xs).2.map (·.head) = xs.filterMap mark := by
  induction xs generalizing k with
  | nil => rfl
  | cons a xs ih =>
    cases h : mark a with
    | none => rw [segments_cons_none h, List.filterMap_cons_none h, ih]
    | some b => rw [segments_cons_mark h, List.filterMap_cons_some h, List.map_cons, ih]

/-- Every element is in the lead or in one segment. -/
theorem segments_length (k : Nat) (xs : List α) :
    ((segments mark k xs).2.map fun s => 1 + s.body.length).sum + (segments mark k xs).1.length =
      xs.length := by
  induction xs generalizing k with
  | nil => rfl
  | cons a xs ih =>
    have hrest := ih (k + 1)
    cases h : mark a with
    | none =>
      rw [segments_cons_none h, List.length_cons, List.length_cons]
      dsimp only
      omega
    | some b =>
      rw [segments_cons_mark h, List.map_cons, List.sum_cons, List.length_nil, List.length_cons]
      dsimp only
      omega

/-! ## One more element -/

/-- A marked element starts a segment. -/
theorem segments_mark {a : α} {b : β} (h : mark a = some b) (k : Nat) (xs : List α) :
    segments mark k (xs ++ [a]) =
      ((segments mark k xs).1, (segments mark k xs).2 ++ [⟨k + xs.length, b, []⟩]) := by
  induction xs generalizing k with
  | nil =>
    rw [List.nil_append, segments_cons_mark h]
    rfl
  | cons c xs ih =>
    have hlen : k + 1 + xs.length = k + (c :: xs).length := by
      rw [List.length_cons]
      omega
    rw [List.cons_append]
    cases hc : mark c with
    | none => rw [segments_cons_none hc, segments_cons_none hc, ih, hlen]
    | some d => rw [segments_cons_mark hc, segments_cons_mark hc, ih, hlen, List.cons_append]

/-- Another element joins the lead while there is no segment. -/
theorem segments_lead {a : α} (h : mark a = none) {k : Nat} {xs : List α}
    (hno : (segments mark k xs).2 = []) :
    segments mark k (xs ++ [a]) = ((segments mark k xs).1 ++ [a], []) := by
  induction xs generalizing k with
  | nil =>
    rw [List.nil_append, segments_cons_none h]
    rfl
  | cons c xs ih =>
    rw [List.cons_append]
    cases hc : mark c with
    | none =>
      rw [segments_cons_none hc] at hno ⊢
      rw [segments_cons_none hc, ih hno, List.cons_append]
    | some d =>
      rw [segments_cons_mark hc] at hno
      cases hno

/-- And the last segment when there is one. -/
theorem segments_body {a : α} (h : mark a = none) {k : Nat} {xs : List α}
    {init : List (Segment α β)} {s : Segment α β} (hlast : (segments mark k xs).2 = init ++ [s]) :
    segments mark k (xs ++ [a]) = ((segments mark k xs).1, init ++ [s.add a]) := by
  induction xs generalizing k init with
  | nil => exact absurd hlast.symm (by simp [segments])
  | cons c xs ih =>
    rw [List.cons_append]
    cases hc : mark c with
    | none =>
      rw [segments_cons_none hc] at hlast ⊢
      rw [segments_cons_none hc, ih hlast]
    | some d =>
      rw [segments_cons_mark hc] at hlast ⊢
      rw [segments_cons_mark hc]
      cases init with
      | nil =>
        obtain ⟨rfl, hno⟩ := List.cons.inj hlast
        rw [segments_lead h hno]
        rfl
      | cons s' init =>
        obtain ⟨rfl, htail⟩ := List.cons.inj hlast
        rw [ih htail, List.cons_append]

/-! ## Neighbours -/

/-- Each two neighbours. -/
def adjacent (xs : List α) : List (α × α) := xs.zip xs.tail

theorem adjacent_snoc (init : List α) (a b : α) :
    adjacent (init ++ [a] ++ [b]) = adjacent (init ++ [a]) ++ [(a, b)] := by
  induction init with
  | nil => rfl
  | cons c init ih =>
    cases init with
    | nil => rfl
    | cons d init =>
      unfold adjacent at ih ⊢
      simp only [List.cons_append, List.tail_cons, List.zip_cons_cons] at ih ⊢
      rw [ih]

end Segments
