import Mathlib.Data.List.Sort

/-!
# Arrays as cells

An array is the function from its indices to what its cells hold, of which the first `n` are looked at.
Its sort in place moves the next element down past the neighbours it must not follow: `r a b` says that
`a` may stay after `b`, so read from its end the sorted array is the library's sort of the array read
from its end.

Principal results: `cells_store` — a store behind the cells appends; `sortCells_perm` and
`sortCells_pairwise` — the sort rearranges the cells, and the result is sorted by any order that agrees
with `r` on the array as it stands, which is what makes the sort stable.
-/

set_option autoImplicit false

namespace Cells

open Function (update)

variable {α : Type}

/-! ## The cells -/

/-- The first `n` cells. -/
def cells (e : Nat → α) (n : Nat) : List α := (List.range n).map e

@[simp] theorem cells_length (e : Nat → α) (n : Nat) : (cells e n).length = n := by
  rw [cells, List.length_map, List.length_range]

theorem cells_succ (e : Nat → α) (n : Nat) : cells e (n + 1) = cells e n ++ [e n] := by
  rw [cells, List.range_succ, List.map_append]
  rfl

theorem cells_congr {e e' : Nat → α} {n : Nat} (h : ∀ i < n, e i = e' i) : cells e n = cells e' n :=
  List.map_congr_left fun i hi => h i (List.mem_range.mp hi)

/-- A store past the cells leaves them as they are. -/
theorem cells_update (e : Nat → α) {n i : Nat} (h : n ≤ i) (a : α) :
    cells (update e i a) n = cells e n :=
  cells_congr fun k hk => Function.update_of_ne (by omega) _ _

/-- A store to the cell after them appends. -/
theorem cells_store (e : Nat → α) (n : Nat) (a : α) : cells (update e n a) (n + 1) = cells e n ++ [a] := by
  rw [cells_succ, cells_update e (Nat.le_refl n), Function.update_self]

theorem cells_take (e : Nat → α) {m n : Nat} (h : m ≤ n) : (cells e n).take m = cells e m := by
  rw [cells, ← List.map_take, List.take_range, Nat.min_eq_left h]
  rfl

/-! ## The order a sort can see -/

variable {r s : α → α → Prop} [DecidableRel r] [DecidableRel s]

/-- An insertion sees how the new element compares with the others, and nothing else. -/
theorem orderedInsert_congr {a : α} {l : List α} (h : ∀ b ∈ l, r a b ↔ s a b) :
    l.orderedInsert r a = l.orderedInsert s a := by
  induction l with
  | nil => rfl
  | cons b l ih =>
    have hb := h b List.mem_cons_self
    have hl := ih fun c hc => h c (List.mem_cons_of_mem b hc)
    rw [List.orderedInsert_cons, List.orderedInsert_cons, hl]
    simp only [hb]

/-- A sort sees how each element compares with those that follow it. -/
theorem insertionSort_congr {l : List α} (h : l.Pairwise fun a b => r a b ↔ s a b) :
    l.insertionSort r = l.insertionSort s := by
  induction l with
  | nil => rfl
  | cons a l ih =>
    rw [List.pairwise_cons] at h
    rw [List.insertionSort_cons, List.insertionSort_cons, ih h.2]
    exact orderedInsert_congr fun b hb => h.1 b ((List.mem_insertionSort s).mp hb)

/-! ## The loops of a sort -/

/-- Move a hole down from cell `j` and store `key` into it. -/
def insertCell (r : α → α → Prop) [DecidableRel r] (key : α) (e : Nat → α) : Nat → Nat → α
  | 0 => update e 0 key
  | j + 1 =>
    if r key (e j) then update e (j + 1) key
    else insertCell r key (update e (j + 1) (e j)) j

/-- Sort the first `n` cells. -/
def sortCells (r : α → α → Prop) [DecidableRel r] (e : Nat → α) (n : Nat) : Nat → α :=
  (List.range' 1 (n - 1)).foldl (fun e i => insertCell r (e i) e i) e

theorem insertCell_above (key : α) : ∀ (j : Nat) (e : Nat → α) {i : Nat}, j < i →
    insertCell r key e j i = e i
  | 0, e, i, h => Function.update_of_ne (by omega) _ _
  | j + 1, e, i, h => by
    rw [insertCell]
    split
    · exact Function.update_of_ne (by omega) _ _
    · rw [insertCell_above key j _ (by omega)]
      exact Function.update_of_ne (by omega) _ _

/-- The hole stops where an ordered insertion into the cells, read from the last, puts the element. -/
theorem insertCell_cells (key : α) : ∀ (j : Nat) (e : Nat → α),
    (cells (insertCell r key e j) (j + 1)).reverse = (cells e j).reverse.orderedInsert r key
  | 0, e => by
    rw [insertCell, cells_store]
    rfl
  | j + 1, e => by
    rw [cells_succ e j, List.reverse_append, List.reverse_singleton, List.singleton_append,
      List.orderedInsert_cons, insertCell]
    by_cases h : r key (e j)
    · rw [if_pos h, if_pos h, cells_store, cells_succ, List.reverse_append, List.reverse_append]
      rfl
    · rw [if_neg h, if_neg h, cells_succ, List.reverse_append, insertCell_cells key j,
        cells_update e (Nat.le_succ j), insertCell_above key j _ (Nat.lt_succ_self j),
        Function.update_self]
      rfl

/-- What the loop has done when it comes to cell `n + 1`: the cells before it are sorted, and the rest
are as they were. -/
theorem sortCells_eq (e : Nat → α) : ∀ n : Nat,
    (cells (sortCells r e n) n).reverse = (cells e n).reverse.insertionSort r ∧
      ∀ i, n ≤ i → sortCells r e n i = e i
  | 0 => ⟨rfl, fun _ _ => rfl⟩
  | 1 => ⟨rfl, fun _ _ => rfl⟩
  | n + 2 => by
    obtain ⟨hsorted, hrest⟩ := sortCells_eq e (n + 1)
    have hstep : sortCells r e (n + 2) =
        insertCell r (sortCells r e (n + 1) (n + 1)) (sortCells r e (n + 1)) (n + 1) := by
      rw [sortCells, Nat.add_sub_cancel (n + 1) 1, List.range'_1_concat, List.foldl_append,
        Nat.add_comm 1 n]
      rfl
    constructor
    · rw [hstep, insertCell_cells, hsorted, hrest (n + 1) (Nat.le_refl _), cells_succ e (n + 1),
        List.reverse_append, List.reverse_singleton, List.singleton_append, List.insertionSort_cons]
    · intro i hi
      rw [hstep, insertCell_above _ _ _ hi, hrest i (by omega)]

/-! ## What the sort makes of the cells -/

variable (e : Nat → α) (n : Nat)

/-- **The sort rearranges the cells.** -/
theorem sortCells_perm : (cells (sortCells r e n) n).Perm (cells e n) := by
  have h := List.perm_insertionSort r (cells e n).reverse
  rw [← (sortCells_eq e n).1] at h
  exact (List.reverse_perm _).symm.trans (h.trans (List.reverse_perm _))

/-- **The sort is stable**: where two cells are ordered by `s` as they stand, the result is. -/
theorem sortCells_pairwise [Std.Total s] [IsTrans α s]
    (h : (cells e n).Pairwise fun b a => r a b ↔ s a b) :
    (cells (sortCells r e n) n).Pairwise fun b a => s a b := by
  rw [← List.pairwise_reverse] at h ⊢
  rw [(sortCells_eq e n).1, insertionSort_congr h]
  exact List.pairwise_insertionSort s _

end Cells
