import Mathlib.Algebra.BigOperators.Fin
import Mathlib.Algebra.BigOperators.Ring.Finset
import Mathlib.Algebra.Order.BigOperators.Group.Finset
import Mathlib.Data.Fin.Tuple.Basic
import Mathlib.Data.Fintype.BigOperators
import Mathlib.Data.List.Nodup
import Mathlib.Logic.Equiv.Fin.Basic

/-!
# Reservoir sampling

Algorithm R with `n` slots.  The slots start with the first `n` indices; draw `j` for index `i` puts `i`
into slot `j`, and changes nothing when there is no slot `j`.

Principal results: `run_nodup` and `run_lt` — the slots hold distinct indices of those seen;
`run_uniform` — over all vectors of draws, every index is held equally often.
-/

set_option autoImplicit false

namespace Reservoir

/-- The slots after the draws for the indices from `n` on. -/
def run (n : Nat) (draws : List Nat) : List Nat :=
  (draws.zipIdx n).foldl (fun slots p => slots.set p.1 p.2) (List.range n)

@[simp] theorem run_nil (n : Nat) : run n [] = List.range n := rfl

theorem run_snoc (n : Nat) (draws : List Nat) (j : Nat) :
    run n (draws ++ [j]) = (run n draws).set j (n + draws.length) := by
  rw [run, List.zipIdx_append, List.foldl_append]
  rfl

@[simp] theorem run_length (n : Nat) (draws : List Nat) : (run n draws).length = n := by
  induction draws using List.reverseRecOn with
  | nil => exact List.length_range
  | append_singleton draws j ih => rw [run_snoc, List.length_set, ih]

theorem run_lt {n : Nat} (draws : List Nat) : ∀ k ∈ run n draws, k < n + draws.length := by
  induction draws using List.reverseRecOn with
  | nil =>
    intro k hk
    exact List.mem_range.mp hk
  | append_singleton draws j ih =>
    intro k hk
    rw [run_snoc] at hk
    rw [List.length_append, List.length_singleton]
    rcases List.mem_or_eq_of_mem_set hk with hk | rfl
    · have := ih k hk
      omega
    · omega

/-- **The slots hold distinct indices.** -/
theorem run_nodup (n : Nat) (draws : List Nat) : (run n draws).Nodup := by
  induction draws using List.reverseRecOn with
  | nil => exact List.nodup_range
  | append_singleton draws j ih =>
    rw [run_snoc]
    exact ih.set fun hmem => Nat.lt_irrefl _ (run_lt draws _ hmem)

/-! ## One more draw -/

section Step

variable {n : Nat} {draws : List Nat}

/-- The new index is held when the draw is a slot. -/
theorem mem_set_new (j : Nat) :
    n + draws.length ∈ (run n draws).set j (n + draws.length) ↔ j < n := by
  have hfresh : n + draws.length ∉ run n draws := fun hmem => Nat.lt_irrefl _ (run_lt draws _ hmem)
  constructor
  · intro h
    by_contra hj
    rw [List.set_eq_of_length_le (by simpa using Nat.not_lt.mp hj)] at h
    exact hfresh h
  · intro h
    exact List.mem_set (by simpa using h) _

/-- An index held before is held until its slot is drawn. -/
theorem mem_set_old {k j : Nat} (hk : k ≠ n + draws.length) :
    k ∈ (run n draws).set j (n + draws.length) ↔ k ∈ run n draws ∧ (run n draws)[j]? ≠ some k := by
  rw [List.mem_iff_getElem?, List.mem_iff_getElem?]
  constructor
  · rintro ⟨p, hp⟩
    rw [List.getElem?_set] at hp
    by_cases hjp : j = p
    · rw [if_pos hjp] at hp
      split at hp
      · exact absurd (Option.some.inj hp).symm hk
      · cases hp
    · rw [if_neg hjp] at hp
      refine ⟨⟨p, hp⟩, fun hj => hjp ?_⟩
      have hlt : j < (run n draws).length := (List.getElem?_eq_some_iff.mp hj).1
      exact (List.getElem?_inj hlt (run_nodup n draws)).mp (hj.trans hp.symm)
  · rintro ⟨⟨p, hp⟩, hj⟩
    have hjp : j ≠ p := by
      rintro rfl
      exact hj hp
    exact ⟨p, by rw [List.getElem?_set_ne hjp, hp]⟩

/-- How many draws keep an index held before: all but its slot. -/
theorem card_old {k : Nat} (hk : k ≠ n + draws.length) :
    (Finset.univ.filter fun j : Fin (n + draws.length + 1) =>
      k ∈ (run n draws).set j (n + draws.length)).card =
        if k ∈ run n draws then n + draws.length else 0 := by
  simp only [mem_set_old hk]
  by_cases hmem : k ∈ run n draws
  · obtain ⟨p, hp⟩ := List.mem_iff_getElem?.mp hmem
    have hpn : p < n := by simpa using (List.getElem?_eq_some_iff.mp hp).1
    have hslot : (Finset.univ.filter fun j : Fin (n + draws.length + 1) =>
        k ∈ run n draws ∧ (run n draws)[(j : Nat)]? ≠ some k) =
          Finset.univ.erase ⟨p, by omega⟩ := by
      ext j
      rw [Finset.mem_filter, Finset.mem_erase]
      constructor
      · rintro ⟨hj, -, hne⟩
        refine ⟨?_, hj⟩
        rintro rfl
        exact hne hp
      · rintro ⟨hjp, hj⟩
        refine ⟨hj, hmem, fun hsame => hjp (Fin.ext ?_)⟩
        have hlt := (List.getElem?_eq_some_iff.mp hsame).1
        exact (List.getElem?_inj hlt (run_nodup n draws)).mp (hsame.trans hp.symm)
    rw [hslot, Finset.card_erase_of_mem (Finset.mem_univ _), Finset.card_univ, Fintype.card_fin,
      if_pos hmem, Nat.add_sub_cancel]
  · simp [hmem]

/-- How many draws take the new index in: one for each slot. -/
theorem card_new : (Finset.univ.filter fun j : Fin (n + draws.length + 1) =>
    n + draws.length ∈ (run n draws).set j (n + draws.length)).card = n := by
  simp only [mem_set_new]
  rw [Fin.card_filter_val_lt]
  omega

end Step

/-! ## All draws -/

/-- Vectors of draws for `m` indices from `n` on: the draw for index `i` is one of `0, …, i`. -/
abbrev Draws (n m : Nat) : Type := (i : Fin m) → Fin (n + i + 1)

def drawList {n m : Nat} (d : Draws n m) : List Nat := List.ofFn fun i => (d i : Nat)

@[simp] theorem drawList_length {n m : Nat} (d : Draws n m) : (drawList d).length = m :=
  List.length_ofFn

/-- A vector with one more draw. -/
def snocDraws (n m : Nat) : Fin (n + m + 1) × Draws n m ≃ Draws n (m + 1) :=
  Fin.snocEquiv fun i : Fin (m + 1) => Fin (n + i + 1)

theorem drawList_snoc {n m : Nat} (p : Fin (n + m + 1) × Draws n m) :
    drawList (snocDraws n m p) = drawList p.2 ++ [(p.1 : Nat)] := by
  have hinit : ∀ i : Fin m, snocDraws n m p i.castSucc = p.2 i := fun i =>
    @Fin.snoc_castSucc m (fun i => Fin (n + i + 1)) p.1 p.2 i
  have hlast : snocDraws n m p (Fin.last m) = p.1 :=
    @Fin.snoc_last m (fun i => Fin (n + i + 1)) p.1 p.2
  rw [drawList, List.ofFn_succ', List.concat_eq_append, hlast]
  simp only [hinit]
  rfl

theorem card_draws_succ (n m : Nat) :
    Fintype.card (Draws n (m + 1)) = (n + m + 1) * Fintype.card (Draws n m) := by
  rw [← Fintype.card_congr (snocDraws n m), Fintype.card_prod, Fintype.card_fin]

/-- The vectors after which an index is held. -/
def holding (n m k : Nat) : Finset (Draws n m) :=
  Finset.univ.filter fun d => k ∈ run n (drawList d)

/-- The vectors with one more draw, counted by the last draw. -/
theorem card_holding_succ (n m k : Nat) : (holding n (m + 1) k).card =
    ∑ d : Draws n m, (Finset.univ.filter fun j : Fin (n + m + 1) =>
      k ∈ (run n (drawList d)).set j (n + m)).card := by
  rw [holding, Finset.card_filter, ← Equiv.sum_comp (snocDraws n m), Fintype.sum_prod_type_right]
  refine Finset.sum_congr rfl fun d _ => ?_
  rw [Finset.card_filter]
  refine Finset.sum_congr rfl fun j _ => ?_
  rw [drawList_snoc, run_snoc, drawList_length]

/-- **Every index is held equally often**: in `n` of `n + m` parts of all vectors of draws. -/
theorem run_uniform (n : Nat) : ∀ (m k : Nat), k < n + m →
    (holding n m k).card * (n + m) = n * Fintype.card (Draws n m)
  | 0, k, hk => by
    have hall : holding n 0 k = Finset.univ :=
      Finset.filter_true_of_mem fun d _ => List.mem_range.mpr hk
    rw [hall, Finset.card_univ, Nat.add_zero, Nat.mul_comm]
  | m + 1, k, hk => by
    rw [card_holding_succ, card_draws_succ]
    by_cases hnew : k = n + m
    · -- the index just seen is taken in by one draw for each slot
      have hcard : ∀ d : Draws n m, (Finset.univ.filter fun j : Fin (n + m + 1) =>
          k ∈ (run n (drawList d)).set j (n + m)).card = n := by
        intro d
        have h := @card_new n (drawList d)
        rw [drawList_length] at h
        rwa [hnew]
      rw [Finset.sum_congr rfl fun d _ => hcard d, Finset.sum_const, Finset.card_univ, smul_eq_mul,
        Nat.mul_comm _ n, Nat.mul_assoc, Nat.mul_comm (Fintype.card _), Nat.add_assoc]
    · -- an older one stays for all draws but one
      have hcard : ∀ d : Draws n m, (Finset.univ.filter fun j : Fin (n + m + 1) =>
          k ∈ (run n (drawList d)).set j (n + m)).card =
            if k ∈ run n (drawList d) then n + m else 0 := by
        intro d
        have h := @card_old n (drawList d) k (by rwa [drawList_length])
        rwa [drawList_length] at h
      have ih := run_uniform n m k (by omega)
      rw [Finset.sum_congr rfl fun d _ => hcard d, ← Finset.sum_filter, Finset.sum_const,
        smul_eq_mul]
      calc (holding n m k).card * (n + m) * (n + (m + 1))
          = n * Fintype.card (Draws n m) * (n + (m + 1)) := by rw [ih]
        _ = n * ((n + m + 1) * Fintype.card (Draws n m)) := by
          rw [Nat.mul_assoc, Nat.mul_comm (Fintype.card _), Nat.add_assoc]

end Reservoir
