import Mathlib.Data.List.Basic

/-!
# Masks

A mask says for each position of a list whether the element there is taken; what lies past the end of
the mask is not.

Principal results: `sel_append` — a mask runs on across an append, so that a list cut into blocks is
masked block by block; `sel_filter`, `sel_zip` — filters are masks, and masks are filters on pairs;
`sel_comp` — masks compose.
-/

set_option autoImplicit false

namespace Mask

variable {α β : Type}

/-- The elements taken. -/
def sel : List Bool → List α → List α
  | true :: m, x :: xs => x :: sel m xs
  | false :: m, _ :: xs => sel m xs
  | _, _ => []

@[simp] theorem sel_nil (m : List Bool) : sel m ([] : List α) = [] := by
  cases m with
  | nil => rfl
  | cons b m => cases b <;> rfl

@[simp] theorem nil_sel (xs : List α) : sel [] xs = [] := rfl

@[simp] theorem sel_true (m : List Bool) (x : α) (xs : List α) :
    sel (true :: m) (x :: xs) = x :: sel m xs := rfl

@[simp] theorem sel_false (m : List Bool) (x : α) (xs : List α) :
    sel (false :: m) (x :: xs) = sel m xs := rfl

theorem sel_sublist : ∀ (m : List Bool) (xs : List α), (sel m xs).Sublist xs
  | _, [] => by simp
  | [], _ :: _ => List.nil_sublist _
  | true :: m, x :: xs => (sel_sublist m xs).cons_cons x
  | false :: m, x :: xs => (sel_sublist m xs).cons x

theorem sel_map (f : α → β) : ∀ (m : List Bool) (xs : List α),
    sel m (xs.map f) = (sel m xs).map f
  | _, [] => by simp
  | [], _ :: _ => rfl
  | true :: m, x :: xs => by simp [sel_map f m xs]
  | false :: m, x :: xs => by simp [sel_map f m xs]

/-- **A mask runs on across an append.** -/
theorem sel_append : ∀ (m : List Bool) (xs ys : List α),
    sel m (xs ++ ys) = sel m xs ++ sel (m.drop xs.length) ys
  | _, [], _ => by simp
  | [], _ :: _, _ => by simp
  | true :: m, x :: xs, ys => by simp [sel_append m xs ys]
  | false :: m, x :: xs, ys => by simp [sel_append m xs ys]

/-- What lies past the end of the list does not count. -/
theorem sel_append_left : ∀ (m m' : List Bool) {xs : List α}, xs.length ≤ m.length →
    sel (m ++ m') xs = sel m xs
  | _, _, [], _ => by simp
  | true :: m, m', x :: xs, h => by
    simpa using sel_append_left m m' (Nat.le_of_succ_le_succ h)
  | false :: m, m', x :: xs, h => by
    simpa using sel_append_left m m' (Nat.le_of_succ_le_succ h)

/-- Masks of two lists, each as long as its own, make up one of both. -/
theorem sel_append_append {m m' : List Bool} {xs ys : List α} (h : m.length = xs.length) :
    sel (m ++ m') (xs ++ ys) = sel m xs ++ sel m' ys := by
  rw [sel_append, sel_append_left m m' (Nat.le_of_eq h.symm), List.drop_left' h]

@[simp] theorem sel_replicate_false : ∀ (n : Nat) (xs : List α), sel (List.replicate n false) xs = []
  | 0, _ => rfl
  | _ + 1, [] => rfl
  | n + 1, _ :: xs => sel_replicate_false n xs

/-- Filtering is masking with the answers of the test. -/
theorem sel_filter (p : α → Bool) : ∀ xs : List α, sel (xs.map p) xs = xs.filter p
  | [] => rfl
  | x :: xs => by
    cases h : p x <;> simp [h, sel_filter p xs]

/-- Masking is pairing with the mask and filtering by it. -/
theorem sel_zip : ∀ (m : List Bool) (xs : List α),
    ((xs.zip m).filter (·.2)).map (·.1) = sel m xs
  | _, [] => by simp
  | [], _ :: _ => rfl
  | true :: m, x :: xs => by simp [sel_zip m xs]
  | false :: m, x :: xs => by simp [sel_zip m xs]

/-- A mask followed by a mask of what it takes. -/
def comp : List Bool → List Bool → List Bool
  | [], _ => []
  | false :: m, m' => false :: comp m m'
  | true :: m, [] => false :: comp m []
  | true :: m, b :: m' => b :: comp m m'

/-- **Taking from what was taken is taking once.** -/
theorem sel_comp : ∀ (m m' : List Bool) (xs : List α), sel (comp m m') xs = sel m' (sel m xs)
  | _, _, [] => by simp
  | [], _, _ :: _ => by simp [comp]
  | false :: m, m', x :: xs => sel_comp m m' xs
  | true :: m, [], x :: xs => (sel_comp m [] xs).trans (nil_sel _)
  | true :: m, true :: m', x :: xs => congrArg (x :: ·) (sel_comp m m' xs)
  | true :: m, false :: m', x :: xs => sel_comp m m' xs

theorem drop_comp : ∀ (m m' : List Bool) (xs : List α),
    (comp m m').drop xs.length = comp (m.drop xs.length) (m'.drop (sel m xs).length)
  | _, _, [] => by simp
  | [], _, _ :: _ => by simp [comp]
  | false :: m, m', x :: xs => drop_comp m m' xs
  | true :: m, [], x :: xs => by
    have ih := drop_comp m [] xs
    rw [List.drop_nil] at ih ⊢
    exact ih
  | true :: m, b :: m', x :: xs => drop_comp m m' xs

end Mask
