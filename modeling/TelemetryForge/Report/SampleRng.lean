import TelemetryForge.Core.Buf
import TelemetryForge.Lib.XorLinear

/-!
# The generator of `report/sample`

Model of the seeded xorshift32 generator and of the rejection loop over it.  The step is linear in
exclusive or and obeys a recurrence with eleven terms, so in any 33 consecutive states some state has
its top bit clear; it is below every limit.

Principal results: `sampleRngLoop_isSome` — the rejection loop ends; `sampleRngBelow_lt` — a draw is
below its bound; `sampleRngBelow_ends` — from every nonzero state, every state stays nonzero, the
limit is a multiple of the bound with the top bit set, and the draw is the first state below it.
-/

set_option autoImplicit false

namespace Dtl

open XorLinear

/-- `dtl_sample_rng_seed`: the state. -/
def sampleRngSeed (seed : UInt32) : UInt32 := if seed ≠ 0 then seed else 0x9E3779B9

/-- `dtl_sample_rng_next`: the value, which is also the new state. -/
def sampleRngNext (x : UInt32) : UInt32 :=
  let x := x ^^^ (x <<< 13)
  let x := x ^^^ (x >>> 17)
  x ^^^ (x <<< 5)

/-- The greatest multiple of `bound` in 32 bits. -/
def sampleLimit (bound : UInt32) : UInt32 := 0xFFFFFFFF - 0xFFFFFFFF % bound

/-- The rejection loop, with a bound on its rounds. -/
def sampleRngLoop (limit : UInt32) : Nat → UInt32 → Option UInt32
  | 0, _ => none
  | n + 1, x =>
    let v := sampleRngNext x
    if v ≥ limit then sampleRngLoop limit n v else some v

/-! ## The orbit of a state -/

/-- The step on bit vectors. -/
def xorshift (x : BitVec 32) : BitVec 32 :=
  let x := x ^^^ x <<< 13
  let x := x ^^^ x >>> 17
  x ^^^ x <<< 5

theorem xorshift_linear : Linear xorshift :=
  (linear_id.xor (linear_shiftLeft 5)).comp
    ((linear_id.xor (linear_ushiftRight 17)).comp (linear_id.xor (linear_shiftLeft 13)))

/-- The numbers of steps whose states combine to zero: an odd number of them. -/
def xorshiftTerms : List Nat := [6, 9, 14, 15, 17, 18, 19, 20, 21, 32]

theorem xorshift_recurrence (x : BitVec 32) : combine xorshift (0 :: xorshiftTerms) x = 0#32 := by
  refine (linear_combine xorshift_linear _).eq_zero_of_basis ?_ x
  decide +kernel

theorem sampleRngNext_toBitVec (x : UInt32) : (sampleRngNext x).toBitVec = xorshift x.toBitVec := rfl

theorem iterate_toBitVec (x : UInt32) (k : Nat) :
    (sampleRngNext^[k] x).toBitVec = xorshift^[k] x.toBitVec :=
  Function.Semiconj.iterate_right (f := UInt32.toBitVec) sampleRngNext_toBitVec k x

/-- **The step takes no other state to zero.** -/
theorem sampleRngNext_ne_zero {x : UInt32} (hx : x ≠ 0) : sampleRngNext x ≠ 0 := by
  intro h
  refine ne_zero_of_recurrence xorshift_linear (by decide) (xorshift_recurrence x.toBitVec)
    (fun hzero => hx (UInt32.toBitVec_inj.mp hzero)) ?_
  rw [← sampleRngNext_toBitVec, h]
  rfl

/-- **No orbit keeps its top bit set for 33 states.** -/
theorem exists_small (x : UInt32) : ∃ k ≤ 32, (sampleRngNext^[k] x).toNat < 2 ^ 31 := by
  obtain ⟨k, hk, hbit⟩ := exists_clear (xorshift_recurrence x.toBitVec) (by decide) 31
  refine ⟨k, ?_, ?_⟩
  · have hall : ∀ k ∈ 0 :: xorshiftTerms, k ≤ 32 := by decide
    exact hall k hk
  · rw [← iterate_toBitVec] at hbit
    have hmsb : (sampleRngNext^[k] x).toBitVec.msb = false := by
      rw [BitVec.msb_eq_getLsbD_last]
      exact hbit
    exact BitVec.toNat_lt_of_msb_false hmsb

/-! ## The rejection loop -/

theorem sampleRngLoop_some {limit : UInt32} : ∀ {n : Nat} {x : UInt32},
    (∃ k < n, (sampleRngNext^[k + 1] x) < limit) → (sampleRngLoop limit n x).isSome = true
  | 0, _, h => by
    obtain ⟨k, hk, -⟩ := h
    exact absurd hk (Nat.not_lt_zero k)
  | n + 1, x, h => by
    rw [sampleRngLoop]
    by_cases hv : sampleRngNext x ≥ limit
    · rw [if_pos hv]
      obtain ⟨k, hk, hlt⟩ := h
      cases k with
      | zero => exact absurd hlt (UInt32.not_lt.mpr hv)
      | succ k => exact sampleRngLoop_some ⟨k, Nat.lt_of_succ_lt_succ hk, hlt⟩
    · rw [if_neg hv]
      rfl

/-- More rounds do not change where the loop ends. -/
theorem sampleRngLoop_mono {limit v : UInt32} : ∀ {n n' : Nat} {x : UInt32}, n ≤ n' →
    sampleRngLoop limit n x = some v → sampleRngLoop limit n' x = some v
  | 0, _, _, _, h => by cases h
  | n + 1, 0, _, hle, _ => absurd hle (Nat.not_succ_le_zero n)
  | n + 1, n' + 1, x, hle, h => by
    rw [sampleRngLoop] at h ⊢
    by_cases hv : sampleRngNext x ≥ limit
    · rw [if_pos hv] at h ⊢
      exact sampleRngLoop_mono (Nat.le_of_succ_le_succ hle) h
    · rw [if_neg hv] at h ⊢
      exact h

theorem sampleLimit_toNat (bound : UInt32) :
    (sampleLimit bound).toNat = 4294967295 - 4294967295 % bound.toNat := by
  rw [sampleLimit, UInt32.toNat_sub_of_le, UInt32.toNat_mod]
  · rfl
  · rw [UInt32.le_iff_toNat_le, UInt32.toNat_mod]
    exact Nat.mod_le _ _

theorem sampleLimit_dvd (bound : UInt32) : bound.toNat ∣ (sampleLimit bound).toNat := by
  rw [sampleLimit_toNat]
  exact Nat.dvd_sub_mod 4294967295

theorem sampleLimit_ge {bound : UInt32} (h : ¬ bound ≤ 1) : 2 ^ 31 ≤ (sampleLimit bound).toNat := by
  have hb : 1 < bound.toNat := by
    rw [UInt32.le_iff_toNat_le] at h
    exact Nat.not_le.mp h
  have hlt := Nat.mod_lt 4294967295 (Nat.zero_lt_of_lt hb)
  have hdiv := Nat.div_add_mod 4294967295 bound.toNat
  rw [sampleLimit_toNat]
  by_cases hbig : bound.toNat ≤ 2 ^ 31
  · omega
  · have hbound : bound.toNat < 2 ^ 32 := bound.toNat_lt
    have hone : 4294967295 / bound.toNat = 1 := by
      rw [Nat.div_eq_iff (by omega)]
      omega
    rw [hone] at hdiv
    omega

/-- **The rejection loop ends within 33 rounds**, for every bound that reaches it and every state. -/
theorem sampleRngLoop_isSome {bound : UInt32} (h : ¬ bound ≤ 1) (x : UInt32) :
    (sampleRngLoop (sampleLimit bound) 33 x).isSome = true := by
  obtain ⟨k, hk, hsmall⟩ := exists_small (sampleRngNext x)
  refine sampleRngLoop_some ⟨k, by omega, ?_⟩
  rw [UInt32.lt_iff_toNat_lt]
  exact Nat.lt_of_lt_of_le hsmall (sampleLimit_ge h)

/-- `dtl_sample_rng_below`: the draw and the state after it. -/
def sampleRngBelow (state bound : UInt32) : UInt32 × UInt32 :=
  if h : bound ≤ 1 then (0, state)
  else
    let v := (sampleRngLoop (sampleLimit bound) 33 state).get (sampleRngLoop_isSome h state)
    (v % bound, v)

theorem sampleRngBelow_lt {bound : UInt32} (h : bound ≠ 0) (state : UInt32) :
    (sampleRngBelow state bound).1 < bound := by
  have hpos : 0 < bound := UInt32.pos_iff_ne_zero.mpr h
  unfold sampleRngBelow
  split
  · exact hpos
  · exact UInt32.mod_lt _ hpos

theorem sampleRngSeed_ne_zero (seed : UInt32) : sampleRngSeed seed ≠ 0 := by
  unfold sampleRngSeed
  split
  · assumption
  · decide

theorem iterate_ne_zero {state : UInt32} (h : state ≠ 0) (k : Nat) :
    sampleRngNext^[k] state ≠ 0 := by
  induction k with
  | zero => exact h
  | succ k ih =>
    rw [Function.iterate_succ_apply']
    exact sampleRngNext_ne_zero ih

/-- The loop stops at the first state below the limit. -/
theorem sampleRngLoop_first {limit v : UInt32} : ∀ {n : Nat} {x : UInt32},
    sampleRngLoop limit n x = some v →
    ∃ k, (∀ j < k, limit ≤ sampleRngNext^[j + 1] x) ∧ sampleRngNext^[k + 1] x < limit ∧
      v = sampleRngNext^[k + 1] x
  | 0, _, h => by cases h
  | n + 1, x, h => by
    rw [sampleRngLoop] at h
    by_cases hv : sampleRngNext x ≥ limit
    · rw [if_pos hv] at h
      obtain ⟨k, hbefore, hbelow, hval⟩ := sampleRngLoop_first h
      refine ⟨k + 1, ?_, hbelow, hval⟩
      intro j hj
      rcases Nat.eq_zero_or_eq_succ_pred j with rfl | hj'
      · exact hv
      · rw [hj'] at hj ⊢
        exact hbefore _ (Nat.lt_of_succ_lt_succ hj)
    · rw [if_neg hv] at h
      obtain rfl := Option.some.inj h
      exact ⟨0, by simp, UInt32.not_le.mp hv, rfl⟩

/-- What a draw below a bound of two or more promises. -/
structure RejectionEnds (state bound : UInt32) : Prop where
  pos : 0 < sampleLimit bound
  multiple : bound.toNat ∣ (sampleLimit bound).toNat
  half : 2 ^ 31 ≤ (sampleLimit bound).toNat
  /-- Every state before round `k` is rejected, the one of round `k` is accepted. -/
  ends : ∃ k, (∀ j < k, sampleLimit bound ≤ sampleRngNext^[j + 1] state) ∧
    sampleRngNext^[k + 1] state < sampleLimit bound ∧
    sampleRngBelow state bound =
      (sampleRngNext^[k + 1] state % bound, sampleRngNext^[k + 1] state)
  below : (sampleRngBelow state bound).1 < bound

theorem rejectionEnds {bound : UInt32} (h : ¬ bound ≤ 1) (state : UInt32) :
    RejectionEnds state bound := by
  have hhalf := sampleLimit_ge h
  have hsome := sampleRngLoop_isSome h state
  obtain ⟨k, hbefore, hbelow, hval⟩ := sampleRngLoop_first (Option.some_get hsome).symm
  refine ⟨?_, sampleLimit_dvd bound, hhalf, ⟨k, hbefore, hbelow, ?_⟩, sampleRngBelow_lt ?_ state⟩
  · rw [UInt32.lt_iff_toNat_lt, UInt32.toNat_zero]
    omega
  · rw [← hval, sampleRngBelow, dif_neg h]
  · rintro rfl
    exact h (by decide)

/-- **The rejection loop ends for every bound and every nonzero state**, and no seeded generator ever
reaches the state zero. -/
theorem sampleRngBelow_ends (state bound : UInt32) (hstate : state ≠ 0) :
    (∀ seed, sampleRngSeed seed ≠ 0) ∧ (∀ k, sampleRngNext^[k] state ≠ 0) ∧
    (bound ≤ 1 → sampleRngBelow state bound = (0, state)) ∧
    (2 ≤ bound → RejectionEnds state bound) := by
  refine ⟨sampleRngSeed_ne_zero, iterate_ne_zero hstate, ?_, ?_⟩
  · intro h
    rw [sampleRngBelow, dif_pos h]
  · intro h
    apply rejectionEnds
    rw [UInt32.le_iff_toNat_le] at h ⊢
    exact Nat.not_le.mpr h

theorem sampleRngBelow_ends_six : RejectionEnds 1 6 :=
  (sampleRngBelow_ends 1 6 (by decide)).2.2.2 (by decide)

end Dtl
