import Mathlib.Data.List.Basic
import Mathlib.Data.Finset.Card

/-!
# Interning a list

A table of the distinct elements of a list, in order of first occurrence, and the index of each
element in that table.  The table is `List.eraseDups` and the index `List.idxOf`; the lemmas here
say what one more element does to both, which is how a loop builds them.

Principal results: `intern_seen` and `intern_new` — one more element; `eraseDups_nodup` and
`eraseDups_order` — the table lists every element once, by first occurrence.
-/

set_option autoImplicit false

namespace Intern

variable {α : Type} [BEq α]

/-- The index of each element in the table. -/
def ids (xs : List α) : List Nat := xs.map fun a => xs.eraseDups.idxOf a

@[simp] theorem ids_nil : ids ([] : List α) = [] := rfl

@[simp] theorem ids_length (xs : List α) : (ids xs).length = xs.length := List.length_map _

variable [LawfulBEq α]

theorem eraseDups_snoc_mem {xs : List α} {a : α} (h : a ∈ xs) :
    (xs ++ [a]).eraseDups = xs.eraseDups := by
  rw [List.eraseDups_append]
  simp [List.removeAll, h]

theorem eraseDups_snoc_new {xs : List α} {a : α} (h : a ∉ xs) :
    (xs ++ [a]).eraseDups = xs.eraseDups ++ [a] := by
  rw [List.eraseDups_append]
  simp [List.removeAll, h, List.eraseDups_cons]

/-- An element that occurred adds its index and leaves the table alone. -/
theorem intern_seen {xs : List α} {a : α} (h : a ∈ xs) :
    ids (xs ++ [a]) = ids xs ++ [xs.eraseDups.idxOf a] := by
  rw [ids, eraseDups_snoc_mem h, List.map_append, List.map_singleton, ids]

/-- An element that did not occur gets the next index; the earlier indices stay. -/
theorem intern_new {xs : List α} {a : α} (h : a ∉ xs) :
    ids (xs ++ [a]) = ids xs ++ [xs.eraseDups.length] := by
  have hold : ∀ b ∈ xs, (xs.eraseDups ++ [a]).idxOf b = xs.eraseDups.idxOf b := fun b hb =>
    List.idxOf_append_of_mem (List.mem_eraseDups.mpr hb)
  have hnew : (xs.eraseDups ++ [a]).idxOf a = xs.eraseDups.length := by
    rw [List.idxOf_append_of_notMem (fun ha => h (List.mem_eraseDups.mp ha))]
    simp
  rw [ids, eraseDups_snoc_new h, List.map_append, List.map_singleton, hnew,
    List.map_congr_left hold, ids]

theorem ids_lt {xs : List α} {i : Nat} (h : i ∈ ids xs) : i < xs.eraseDups.length := by
  obtain ⟨a, ha, rfl⟩ := List.mem_map.mp h
  exact List.idxOf_lt_length_of_mem (List.mem_eraseDups.mpr ha)

theorem eraseDups_nodup (xs : List α) : xs.eraseDups.Nodup := by
  induction xs using List.reverseRecOn with
  | nil => exact List.nodup_nil
  | append_singleton xs a ih =>
    by_cases h : a ∈ xs
    · rwa [eraseDups_snoc_mem h]
    · rw [eraseDups_snoc_new h]
      refine List.nodup_append.mpr ⟨ih, List.nodup_singleton a, ?_⟩
      intro b hb c hc
      rw [List.mem_singleton.mp hc]
      rintro rfl
      exact h (List.mem_eraseDups.mp hb)

/-- The table is ordered by first occurrence. -/
theorem eraseDups_order (xs : List α) :
    xs.eraseDups.Pairwise fun a b => xs.idxOf a < xs.idxOf b := by
  induction xs using List.reverseRecOn with
  | nil => exact List.Pairwise.nil
  | append_singleton xs a ih =>
    have hold : xs.eraseDups.Pairwise fun b c => (xs ++ [a]).idxOf b < (xs ++ [a]).idxOf c := by
      refine ih.imp_of_mem fun {b c} hb hc hlt => ?_
      rwa [List.idxOf_append_of_mem (List.mem_eraseDups.mp hb),
        List.idxOf_append_of_mem (List.mem_eraseDups.mp hc)]
    by_cases h : a ∈ xs
    · rwa [eraseDups_snoc_mem h]
    · rw [eraseDups_snoc_new h]
      refine List.pairwise_append.mpr ⟨hold, List.pairwise_singleton _ _, ?_⟩
      intro b hb c hc
      have hb' := List.mem_eraseDups.mp hb
      rw [List.mem_singleton.mp hc, List.idxOf_append_of_mem hb', List.idxOf_append_of_notMem h]
      exact Nat.lt_of_lt_of_le (List.idxOf_lt_length_of_mem hb') (Nat.le_add_right _ _)

/-- The table has as many entries as there are distinct elements. -/
theorem eraseDups_card [DecidableEq α] (xs : List α) : xs.eraseDups.length = xs.toFinset.card := by
  have hset : xs.eraseDups.toFinset = xs.toFinset := by
    ext a
    rw [List.mem_toFinset, List.mem_toFinset, List.mem_eraseDups]
  rw [← hset, List.toFinset_card_of_nodup (eraseDups_nodup xs)]

/-- The table only grows along the list. -/
theorem eraseDups_length_mono (xs ys : List α) :
    xs.eraseDups.length ≤ (xs ++ ys).eraseDups.length := by
  rw [List.eraseDups_append, List.length_append]
  exact Nat.le_add_right _ _

theorem eraseDups_length_le (xs : List α) : xs.eraseDups.length ≤ xs.length := by
  induction xs using List.reverseRecOn with
  | nil => exact Nat.le_refl _
  | append_singleton xs a ih =>
    rw [List.length_append, List.length_singleton]
    by_cases h : a ∈ xs
    · rw [eraseDups_snoc_mem h]
      omega
    · rw [eraseDups_snoc_new h, List.length_append, List.length_singleton]
      omega

end Intern
