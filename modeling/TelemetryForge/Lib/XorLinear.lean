import Mathlib.Data.BitVec
import Mathlib.Logic.Function.Iterate

/-!
# Maps linear in exclusive or

A generator whose step is linear in exclusive or obeys a recurrence: the exclusive or of its states
after certain numbers of steps is zero.  Whether it does is decided on the words with one bit.

Principal results: `Linear.eq_zero_of_basis` — a linear map is zero when it is on the words with one
bit; `exists_clear` — when the recurrence has an odd number of terms, no bit is set in all of them;
`ne_zero_of_recurrence` — when it starts at the state itself, a step does not reach zero from elsewhere.
-/

set_option autoImplicit false

namespace XorLinear

variable {w : Nat}

/-- The map commutes with exclusive or. -/
def Linear (f : BitVec w → BitVec w) : Prop := ∀ x y, f (x ^^^ y) = f x ^^^ f y

theorem xor_exchange (a b c d : BitVec w) : (a ^^^ b) ^^^ (c ^^^ d) = (a ^^^ c) ^^^ (b ^^^ d) := by
  rw [BitVec.xor_assoc, ← BitVec.xor_assoc b, BitVec.xor_comm b, BitVec.xor_assoc c,
    BitVec.xor_assoc]

theorem linear_id : Linear (id : BitVec w → BitVec w) := fun _ _ => rfl

theorem linear_zero : Linear fun _ : BitVec w => 0#w := fun _ _ => (BitVec.xor_self).symm

theorem linear_shiftLeft (n : Nat) : Linear fun x : BitVec w => x <<< n :=
  fun _ _ => BitVec.shiftLeft_xor_distrib _ _ _

theorem linear_ushiftRight (n : Nat) : Linear fun x : BitVec w => x >>> n :=
  fun _ _ => BitVec.ushiftRight_xor_distrib _ _ _

namespace Linear

variable {f g : BitVec w → BitVec w}

theorem map_zero (hf : Linear f) : f 0#w = 0#w := by
  have h := hf 0#w 0#w
  rw [BitVec.xor_self, BitVec.xor_self] at h
  exact h

theorem comp (hf : Linear f) (hg : Linear g) : Linear fun x => f (g x) := fun x y =>
  (congrArg f (hg x y)).trans (hf (g x) (g y))

theorem xor (hf : Linear f) (hg : Linear g) : Linear fun x => f x ^^^ g x := fun x y => by
  dsimp only
  rw [hf, hg, xor_exchange]

theorem iterate (hf : Linear f) : ∀ n, Linear f^[n]
  | 0 => linear_id
  | n + 1 => (iterate hf n).comp hf

/-- A linear map that is zero on the words with one bit is zero. -/
theorem eq_zero_of_basis (hf : Linear f) (hbasis : ∀ i < w, f (BitVec.twoPow w i) = 0#w)
    (x : BitVec w) : f x = 0#w := by
  -- by induction on a bound of the bits that are set
  have hlow : ∀ n ≤ w, ∀ x : BitVec w, (∀ i, n ≤ i → x.getLsbD i = false) → f x = 0#w := by
    intro n
    induction n with
    | zero =>
      intro _ x hx
      have hzero : x = 0#w := BitVec.eq_of_getLsbD_eq fun i _ => by
        rw [hx i (Nat.zero_le i), BitVec.getLsbD_zero]
      rw [hzero]
      exact hf.map_zero
    | succ n ih =>
      intro hn x hx
      cases hbit : x.getLsbD n with
      | false =>
        refine ih (Nat.le_of_succ_le hn) x fun i hi => ?_
        rcases Nat.eq_or_lt_of_le hi with rfl | hlt
        · exact hbit
        · exact hx i hlt
      | true =>
        have hrest : f (x ^^^ BitVec.twoPow w n) = 0#w := by
          refine ih (Nat.le_of_succ_le hn) _ fun i hi => ?_
          rw [BitVec.getLsbD_xor, BitVec.getLsbD_twoPow]
          rcases Nat.eq_or_lt_of_le hi with rfl | hlt
          · rw [hbit, decide_eq_true (Nat.lt_of_succ_le hn), decide_eq_true rfl]
            rfl
          · rw [hx i hlt, decide_eq_false (Nat.ne_of_lt hlt), Bool.and_false]
            rfl
        rw [hf, hbasis n hn, BitVec.xor_zero] at hrest
        exact hrest
  exact hlow w (Nat.le_refl w) x fun i hi => BitVec.getLsbD_of_ge x i hi

end Linear

/-! ## Recurrences -/

variable (f : BitVec w → BitVec w)

/-- The exclusive or of the states after the numbers `ks` of steps. -/
def combine : List Nat → BitVec w → BitVec w
  | [], _ => 0#w
  | k :: ks, x => f^[k] x ^^^ combine ks x

variable {f}

theorem linear_combine (hf : Linear f) : ∀ ks : List Nat, Linear (combine f ks)
  | [] => linear_zero
  | k :: ks => (hf.iterate k).xor (linear_combine hf ks)

/-- A bit that is set in all the states. -/
theorem combine_getLsbD {i : Nat} {x : BitVec w} : ∀ {ks : List Nat},
    (∀ k ∈ ks, (f^[k] x).getLsbD i = true) →
      (combine f ks x).getLsbD i = decide (ks.length % 2 = 1)
  | [], _ => by simp [combine]
  | k :: ks, h => by
    rw [List.forall_mem_cons] at h
    rw [combine, BitVec.getLsbD_xor, h.1, combine_getLsbD h.2, List.length_cons, Bool.true_xor,
      ← decide_not]
    exact decide_eq_decide.mpr (by omega)

/-- **A recurrence with an odd number of terms clears every bit now and then.** -/
theorem exists_clear {ks : List Nat} {x : BitVec w} (hzero : combine f ks x = 0#w)
    (hodd : ks.length % 2 = 1) (i : Nat) : ∃ k ∈ ks, (f^[k] x).getLsbD i = false := by
  by_contra hno
  have hset : ∀ k ∈ ks, (f^[k] x).getLsbD i = true := fun k hk => by
    by_contra hbit
    exact hno ⟨k, hk, by simpa using hbit⟩
  have h := combine_getLsbD hset
  rw [hzero, BitVec.getLsbD_zero, decide_eq_true hodd] at h
  cases h

/-- **A recurrence that starts at the state itself forbids a step to zero.** -/
theorem ne_zero_of_recurrence (hf : Linear f) {ks : List Nat} (hpos : ∀ k ∈ ks, 0 < k)
    {x : BitVec w} (hzero : combine f (0 :: ks) x = 0#w) (hx : x ≠ 0#w) : f x ≠ 0#w := by
  intro hstep
  have hall : ∀ {ls : List Nat}, (∀ k ∈ ls, 0 < k) → combine f ls x = 0#w := by
    intro ls
    induction ls with
    | nil =>
      intro _
      rfl
    | cons k ls ih =>
      intro hls
      rw [List.forall_mem_cons] at hls
      obtain ⟨n, rfl⟩ := Nat.exists_eq_add_one.mpr hls.1
      rw [combine, ih hls.2, Function.iterate_succ_apply, hstep, (hf.iterate n).map_zero,
        BitVec.xor_zero]
  rw [combine, hall hpos, BitVec.xor_zero] at hzero
  exact hx hzero

end XorLinear
