import TelemetryForge.Lib.Checked

/-!
# Arrays filled from the front

An array of a fixed length of which the first cells are in use, as a stack of fill count and array or as
a queue that moves down when its first cell leaves.  A store or a move outside the array is a fault.

`Filled cap a l` — the array `a` of `cap` cells starts with the elements of `l`.  `Filled.push` stores
behind them, `Filled.pop` moves them down over the first.
-/

set_option autoImplicit false

namespace Slots

open Checked

variable {ε α : Type}

/-- Store to a cell. -/
def store (a : List α) (i : Nat) (x : α) : Run ε (List α) :=
  if i < a.length then .ok (a.set i x) else .error .outside

/-- `memmove` of `n` cells. -/
def move (a : List α) (dst src n : Nat) : Run ε (List α) :=
  if dst + n ≤ a.length ∧ src + n ≤ a.length then
    .ok (a.take dst ++ ((a.drop src).take n ++ a.drop (dst + n)))
  else .error .outside

theorem load_some {a : List α} {i : Nat} {x : α} (h : a[i]? = some x) :
    load a i = (.ok x : Run ε α) := by
  rw [load, h]

theorem store_some {a : List α} {i : Nat} {y : α} (h : a[i]? = some y) (x : α) :
    store a i x = (.ok (a.set i x) : Run ε (List α)) :=
  if_pos (List.getElem?_eq_some_iff.mp h).1

/-- An array of `cap` cells that starts with the elements of `l`. -/
structure Filled (cap : Nat) (a l : List α) : Prop where
  length : a.length = cap
  fits : l.length ≤ cap
  front : a.take l.length = l

theorem Filled.nil {cap : Nat} {a : List α} (h : a.length = cap) : Filled cap a [] :=
  ⟨h, Nat.zero_le _, rfl⟩

/-- The array is its used cells and the others. -/
theorem Filled.split {cap : Nat} {a l : List α} (h : Filled cap a l) :
    a = l ++ a.drop l.length := by
  have hsplit := (List.take_append_drop l.length a).symm
  rwa [h.front] at hsplit

theorem Filled.load_head {cap : Nat} {a l : List α} {x : α} (h : Filled cap a (x :: l)) :
    load a 0 = (.ok x : Run ε α) := by
  rw [h.split]
  rfl

/-- **The first element leaves and the others move down.** -/
theorem Filled.pop {cap : Nat} {a l : List α} {x : α} (h : Filled cap a (x :: l)) :
    ∃ a', move a 0 1 l.length = (.ok a' : Run ε (List α)) ∧ Filled cap a' l := by
  have hlen := h.length
  have hfits : l.length + 1 ≤ cap := h.fits
  have hfront : (a.drop 1).take l.length = l := by
    rw [h.split]
    simp
  refine ⟨_, if_pos ⟨by omega, by omega⟩, ?_, by omega, ?_⟩
  · rw [hfront]
    simp
    omega
  · rw [hfront]
    simp

/-- **A store behind the last element appends.** -/
theorem Filled.push {cap : Nat} {a l : List α} (h : Filled cap a l) (x : α) (hroom : l.length < cap) :
    ∃ a', store a l.length x = (.ok a' : Run ε (List α)) ∧ Filled cap a' (l ++ [x]) := by
  have hlen := h.length
  refine ⟨_, if_pos (by omega), ?_, ?_, ?_⟩
  · rw [List.length_set, hlen]
  · rw [List.length_append, List.length_singleton]
    omega
  · rw [List.length_append, List.length_singleton, List.take_add_one,
      List.take_set_of_le (Nat.le_refl _), h.front, List.getElem?_set_self (by omega)]
    rfl

end Slots
