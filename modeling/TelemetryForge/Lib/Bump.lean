import Mathlib.Data.Set.Lattice
import Mathlib.Order.CompletePartialOrder
import Mathlib.Algebra.Order.Group.Nat
import Mathlib.Data.List.Pairwise

/-!
# Bump allocation in named regions

Regions of memory, each with a cursor below which everything was handed out.

* `Span` — a run of bytes inside one region, `Span.cells` the bytes it covers.
* `Live align top live` — the spans of `live` lie below the cursors `top`, start at multiples of
  `align` and share no byte.
* `Live.carve` — moving one cursor and handing out what it passed keeps this; `Live.rewind` starts
  over with every cursor at zero.
* `roundUp` — the least multiple of `align` that is not smaller.
-/

set_option autoImplicit false

namespace Bump

variable {ι : Type}

/-- `len` bytes of a region from offset `off` on. -/
structure Span (ι : Type) where
  region : ι
  off : Nat
  len : Nat
  deriving DecidableEq, Repr

/-- The bytes a span covers. -/
def Span.cells (s : Span ι) : Set (ι × Nat) :=
  {p | p.1 = s.region ∧ s.off ≤ p.2 ∧ p.2 < s.off + s.len}

theorem cells_disjoint_of_region {s t : Span ι} (h : s.region ≠ t.region) :
    Disjoint s.cells t.cells := by
  rw [Set.disjoint_left]
  rintro p ⟨hs, -⟩ ⟨ht, -⟩
  exact h (hs.symm.trans ht)

theorem cells_disjoint_of_le {s t : Span ι} (h : t.off + t.len ≤ s.off) :
    Disjoint s.cells t.cells := by
  rw [Set.disjoint_left]
  rintro p ⟨-, hs, -⟩ ⟨-, -, ht⟩
  omega

/-- What the spans handed out so far promise, given the cursor of every region. -/
structure Live (align : Nat) (top : ι → Nat) (live : List (Span ι)) : Prop where
  cursor : ∀ i, align ∣ top i
  below : ∀ s ∈ live, s.off + s.len ≤ top s.region
  aligned : ∀ s ∈ live, align ∣ s.off
  disjoint : live.Pairwise fun s t => Disjoint s.cells t.cells

theorem Live.rewind (align : Nat) : Live align (fun _ : ι => 0) [] where
  cursor := fun _ => Nat.dvd_zero _
  below := by simp
  aligned := by simp
  disjoint := .nil

variable [DecidableEq ι]

/-- The cursors after `need` bytes of region `i` were passed. -/
def advance (top : ι → Nat) (i : ι) (need : Nat) : ι → Nat := Function.update top i (top i + need)

@[simp] theorem advance_same (top : ι → Nat) (i : ι) (need : Nat) :
    advance top i need i = top i + need := Function.update_self ..

theorem advance_other {top : ι → Nat} {i j : ι} (need : Nat) (h : j ≠ i) :
    advance top i need j = top j := Function.update_of_ne h ..

theorem le_advance (top : ι → Nat) (i j : ι) (need : Nat) : top j ≤ advance top i need j := by
  rcases eq_or_ne j i with rfl | h
  · simp
  · rw [advance_other need h]

/-- **Handing out the bytes a cursor passes keeps every span below its cursor and apart from the
others.** -/
theorem Live.carve {align : Nat} {top : ι → Nat} {live : List (Span ι)} (h : Live align top live)
    (i : ι) {n need : Nat} (hneed : align ∣ need) (hn : n ≤ need) :
    Live align (advance top i need) (⟨i, top i, n⟩ :: live) where
  cursor j := by
    rcases eq_or_ne j i with rfl | hj
    · rw [advance_same]
      exact Nat.dvd_add (h.cursor j) hneed
    · rw [advance_other need hj]
      exact h.cursor j
  below s hs := by
    rcases List.mem_cons.mp hs with rfl | hs
    · rw [advance_same]
      exact Nat.add_le_add_left hn _
    · exact (h.below s hs).trans (le_advance top i s.region need)
  aligned s hs := by
    rcases List.mem_cons.mp hs with rfl | hs
    · exact h.cursor i
    · exact h.aligned s hs
  disjoint := by
    refine List.pairwise_cons.mpr ⟨fun t ht => ?_, h.disjoint⟩
    rcases eq_or_ne i t.region with hr | hr
    · refine cells_disjoint_of_le ?_
      rw [hr]
      exact h.below t ht
    · exact cells_disjoint_of_region hr

/-! ## Rounding up -/

/-- The least multiple of `align` that is at least `n`. -/
def roundUp (align n : Nat) : Nat := if n % align = 0 then n else n + (align - n % align)

theorem le_roundUp (align n : Nat) : n ≤ roundUp align n := by
  unfold roundUp
  split <;> omega

theorem roundUp_le (align n : Nat) : roundUp align n ≤ n + (align - 1) := by
  unfold roundUp
  split <;> omega

theorem dvd_roundUp {align : Nat} (h : 0 < align) (n : Nat) : align ∣ roundUp align n := by
  unfold roundUp
  split
  · exact Nat.dvd_of_mod_eq_zero ‹_›
  · have hlt := Nat.mod_lt n h
    have hsum : n + (align - n % align) = align * (n / align + 1) := by
      have hdiv := Nat.div_add_mod n align
      rw [Nat.mul_add, Nat.mul_one]
      omega
    rw [hsum]
    exact Nat.dvd_mul_right _ _

end Bump
