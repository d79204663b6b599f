import Mathlib.Data.Nat.Bitwise

/-!
# Digits as strings of bits

`msb w n` are the `w` low bits of a number, the most significant first; `pack w ds` is the number
whose digits of `w` bits are `ds`.  A string of bits can be cut into digits of one width and read in
digits of another, which is what base-2^w text encodings do.

Principal results: `flatMap_msb` — the bits of the digits are the bits of the number they pack;
`digits_msb` — the digits of a number spell its leading bits.
-/

set_option autoImplicit false

namespace BitDigits

/-- The `w` low bits of `n`, the most significant first. -/
def msb (w n : Nat) : List Bool := (List.range w).map fun i => n.testBit (w - 1 - i)

@[simp] theorem msb_length (w n : Nat) : (msb w n).length = w := by simp [msb]

@[simp] theorem msb_zero (n : Nat) : msb 0 n = [] := rfl

theorem msb_getElem {w n i : Nat} (h : i < (msb w n).length) :
    (msb w n)[i] = n.testBit (w - 1 - i) := by simp [msb]

/-- The bits split anywhere. -/
theorem msb_append (a b n : Nat) : msb (a + b) n = msb a (n / 2 ^ b) ++ msb b n := by
  refine List.ext_getElem (by simp) fun i hi _ => ?_
  rw [msb_length] at hi
  rw [msb_getElem]
  by_cases ha : i < a
  · rw [List.getElem_append_left (by simpa using ha), msb_getElem, Nat.testBit_div_two_pow]
    congr 1
    omega
  · rw [List.getElem_append_right (by simpa using ha), msb_getElem, msb_length]
    congr 1
    omega

theorem msb_mod (w n : Nat) : msb w (n % 2 ^ w) = msb w n := by
  refine List.map_congr_left fun i hi => ?_
  have hlt : w - 1 - i < w := by
    rw [List.mem_range] at hi
    omega
  rw [Nat.testBit_mod_two_pow]
  simp [hlt]

theorem msb_take (a b n : Nat) : (msb (a + b) n).take a = msb a (n / 2 ^ b) := by
  rw [msb_append, List.take_left' (msb_length _ _)]

/-- The number whose digits of `w` bits are `ds`, the most significant first. -/
def pack (w : Nat) : List Nat → Nat
  | [] => 0
  | d :: ds => d * 2 ^ (w * ds.length) + pack w ds

theorem pack_lt {w : Nat} : ∀ {ds : List Nat}, (∀ d ∈ ds, d < 2 ^ w) →
    pack w ds < 2 ^ (w * ds.length)
  | [], _ => by simp [pack]
  | d :: ds, h => by
    obtain ⟨hd, hds⟩ := List.forall_mem_cons.mp h
    have ih := pack_lt hds
    have hle : (d + 1) * 2 ^ (w * ds.length) ≤ 2 ^ w * 2 ^ (w * ds.length) :=
      Nat.mul_le_mul_right _ hd
    rw [pack, List.length_cons, Nat.mul_succ, Nat.add_comm (w * _), Nat.pow_add]
    rw [Nat.succ_mul] at hle
    omega

/-- **The bits of the digits are the bits of the number they pack.** -/
theorem flatMap_msb {w : Nat} : ∀ {ds : List Nat}, (∀ d ∈ ds, d < 2 ^ w) →
    ds.flatMap (msb w) = msb (w * ds.length) (pack w ds)
  | [], _ => by simp
  | d :: ds, h => by
    obtain ⟨-, hds⟩ := List.forall_mem_cons.mp h
    have hlt := pack_lt hds
    have hhigh : pack w (d :: ds) / 2 ^ (w * ds.length) = d := by
      rw [pack, Nat.mul_comm, Nat.mul_add_div (Nat.two_pow_pos _), Nat.div_eq_of_lt hlt, Nat.add_zero]
    have hlow : msb (w * ds.length) (pack w (d :: ds)) = msb (w * ds.length) (pack w ds) := by
      rw [← msb_mod, pack, Nat.mul_comm d, Nat.mul_add_mod, msb_mod]
    rw [List.flatMap_cons, flatMap_msb hds, List.length_cons, Nat.mul_succ, Nat.add_comm (w * _),
      msb_append, hhigh, hlow]

/-- **The digits of a number spell its leading bits.** -/
theorem digits_msb (w n : Nat) : ∀ k : Nat,
    ((List.range k).flatMap fun i => msb w (n / 2 ^ (w * (k - 1 - i)))) = msb (w * k) n
  | 0 => by simp
  | k + 1 => by
    have ih := digits_msb w (n / 2 ^ w) k
    have hinit : ((List.range k).flatMap fun i => msb w (n / 2 ^ (w * (k + 1 - 1 - i)))) =
        (List.range k).flatMap fun i => msb w (n / 2 ^ w / 2 ^ (w * (k - 1 - i))) := by
      rw [List.flatMap_def, List.flatMap_def]
      congr 1
      refine List.map_congr_left fun i hi => ?_
      rw [List.mem_range] at hi
      rw [Nat.div_div_eq_div_mul, ← Nat.pow_add, show k + 1 - 1 - i = 1 + (k - 1 - i) by omega,
        Nat.mul_add, Nat.mul_one]
    rw [List.range_succ, List.flatMap_append, hinit, ih, List.flatMap_singleton, Nat.add_sub_cancel,
      Nat.sub_self, Nat.mul_zero, Nat.pow_zero, Nat.div_one, Nat.mul_succ, msb_append]

end BitDigits
