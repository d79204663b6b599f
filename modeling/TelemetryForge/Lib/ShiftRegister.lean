import Mathlib.Data.List.GetD
import Mathlib.Data.BitVec

/-!
# Linear feedback shift registers

A register of `w` bits that moves down one place a step and, when the bit that leaves is set, is
combined with a feedback word `poly`.  Input bits enter at the low end.

* `shift_xor`, `feeds_xor` — the register is linear in exclusive or.
* `shifts_eq_zero` — a step loses nothing when the top bit of `poly` is set.
* `feeds_eq_shifts` — up to `w` input bits may be combined with the register at once and then
  shifted through.

Principal result: `feeds_ne_of_burst` — two streams of one length that differ, but only inside a
window of `w` consecutive positions, never leave the register in the same state.
-/

set_option autoImplicit false

namespace ShiftRegister

variable {w : Nat} (poly : BitVec w)

/-- One step of the register. -/
def shift (c : BitVec w) : BitVec w := if c.getLsbD 0 then poly ^^^ (c >>> 1) else c >>> 1

/-- `n` steps of the register. -/
def shifts : Nat → BitVec w → BitVec w
  | 0, c => c
  | n + 1, c => shifts n (shift poly c)

/-- A bit as a word. -/
def bitWord (b : Bool) : BitVec w := if b then 1#w else 0#w

/-- An input bit is combined with the low end, then the register steps. -/
def feed (c : BitVec w) (b : Bool) : BitVec w := shift poly (c ^^^ bitWord b)

/-- A stream of input bits. -/
def feeds (c : BitVec w) (bits : List Bool) : BitVec w := bits.foldl (feed poly) c

/-- The word whose bit `i` is the `i`-th bit of a stream. -/
def streamWord : List Bool → BitVec w
  | [] => 0#w
  | b :: bits => bitWord b ^^^ (streamWord bits <<< 1)

/-! ## Linearity -/

theorem xor_cancel (a b p : BitVec w) : (p ^^^ a) ^^^ (p ^^^ b) = a ^^^ b := by
  rw [BitVec.xor_comm p a, BitVec.xor_assoc, ← BitVec.xor_assoc p p b, BitVec.xor_self,
    BitVec.zero_xor]

theorem shift_xor (a b : BitVec w) : shift poly (a ^^^ b) = shift poly a ^^^ shift poly b := by
  unfold shift
  simp only [BitVec.getLsbD_xor, BitVec.ushiftRight_xor_distrib]
  cases a.getLsbD 0 <;> cases b.getLsbD 0
  · rfl
  · simp only [Bool.false_xor, Bool.false_eq_true, if_true, if_false]
    rw [← BitVec.xor_assoc, BitVec.xor_comm poly, BitVec.xor_assoc]
  · simp only [Bool.xor_false, Bool.false_eq_true, if_true, if_false]
    rw [BitVec.xor_assoc]
  · simp only [Bool.xor_self, Bool.false_eq_true, if_true, if_false, xor_cancel]

@[simp] theorem shift_zero : shift poly 0#w = 0#w := by simp [shift]

theorem shifts_xor : ∀ (n : Nat) (a b : BitVec w),
    shifts poly n (a ^^^ b) = shifts poly n a ^^^ shifts poly n b
  | 0, _, _ => rfl
  | n + 1, a, b => by
    simp only [shifts, shift_xor]
    exact shifts_xor n _ _

@[simp] theorem shifts_zero : ∀ n : Nat, shifts poly n 0#w = 0#w
  | 0 => rfl
  | n + 1 => by rw [shifts, shift_zero, shifts_zero n]

theorem bitWord_xor (a b : Bool) : (bitWord (a ^^ b) : BitVec w) = bitWord a ^^^ bitWord b := by
  cases a <;> cases b <;> simp [bitWord]

theorem feed_xor (c d : BitVec w) (a b : Bool) :
    feed poly (c ^^^ d) (a ^^ b) = feed poly c a ^^^ feed poly d b := by
  unfold feed
  rw [bitWord_xor, ← shift_xor]
  congr 1
  rw [BitVec.xor_assoc, BitVec.xor_assoc, ← BitVec.xor_assoc d, BitVec.xor_comm d,
    BitVec.xor_assoc (bitWord a) d]

/-- The difference of two runs is the run of the difference. -/
theorem feeds_xor : ∀ (xs ys : List Bool) (c d : BitVec w), xs.length = ys.length →
    feeds poly (c ^^^ d) (List.zipWith xor xs ys) = feeds poly c xs ^^^ feeds poly d ys
  | [], [], _, _, _ => rfl
  | x :: xs, y :: ys, c, d, h => by
    have hlen : xs.length = ys.length := by simpa using h
    show feeds poly (feed poly (c ^^^ d) (x ^^ y)) (List.zipWith xor xs ys) = _
    rw [feed_xor]
    exact feeds_xor xs ys _ _ hlen
  | [], _ :: _, _, _, h => by simp at h
  | _ :: _, [], _, _, h => by simp at h

theorem feeds_append (c : BitVec w) (xs ys : List Bool) :
    feeds poly c (xs ++ ys) = feeds poly (feeds poly c xs) ys := List.foldl_append

theorem feeds_zeros : ∀ (n : Nat) (c : BitVec w),
    feeds poly c (List.replicate n false) = shifts poly n c
  | 0, _ => rfl
  | n + 1, c => by
    show feeds poly (feed poly c false) (List.replicate n false) = _
    rw [feeds_zeros n, feed, bitWord]
    simp [shifts]

/-- While the low bits are clear the register only moves down. -/
theorem shifts_clear : ∀ (n : Nat) (c : BitVec w), (∀ i, i < n → c.getLsbD i = false) →
    shifts poly n c = c >>> n
  | 0, c, _ => by simp [shifts]
  | n + 1, c, h => by
    have hlow : shift poly c = c >>> 1 := by
      rw [shift, h 0 (by omega)]
      simp
    rw [shifts, hlow, shifts_clear n (c >>> 1), ← BitVec.shiftRight_add, Nat.add_comm]
    intro i hi
    rw [BitVec.getLsbD_ushiftRight]
    exact h (1 + i) (by omega)

/-! ## No information is lost -/

theorem shift_eq_zero (htop : poly.getLsbD (w - 1) = true) {c : BitVec w}
    (h : shift poly c = 0#w) : c = 0#w := by
  have hw : 0 < w := by
    rcases Nat.eq_zero_or_pos w with rfl | hw
    · simp at htop
    · exact hw
  unfold shift at h
  split at h
  · -- the top bit of `c >>> 1` is clear, so the feedback word shows there
    have htop' := congrArg (fun x => BitVec.getLsbD x (w - 1)) h
    simp only [BitVec.getLsbD_xor, BitVec.getLsbD_ushiftRight, htop, BitVec.getLsbD_zero] at htop'
    rw [BitVec.getLsbD_of_ge c (1 + (w - 1)) (by omega)] at htop'
    simp at htop'
  · rename_i hlow
    apply BitVec.eq_of_getLsbD_eq
    intro i _
    cases i with
    | zero => simpa using hlow
    | succ i =>
      have hi := congrArg (fun x => BitVec.getLsbD x i) h
      simpa [BitVec.getLsbD_ushiftRight, Nat.add_comm] using hi

theorem shifts_eq_zero (htop : poly.getLsbD (w - 1) = true) :
    ∀ (n : Nat) {c : BitVec w}, shifts poly n c = 0#w → c = 0#w
  | 0, _, h => h
  | n + 1, _, h => shift_eq_zero poly htop (shifts_eq_zero htop n h)

/-! ## A window of the stream at once -/

theorem streamWord_getLsbD : ∀ (bits : List Bool) (i : Nat), i < w →
    (streamWord bits : BitVec w).getLsbD i = bits.getD i false
  | [], i, _ => by simp [streamWord]
  | b :: bits, i, hi => by
    simp only [streamWord, BitVec.getLsbD_xor, BitVec.getLsbD_shiftLeft]
    cases i with
    | zero => cases b <;> simp [bitWord, hi]
    | succ i =>
      have ih := streamWord_getLsbD bits i (by omega)
      cases b <;> simp [bitWord, hi, ih]

theorem shift_streamWord {bits : List Bool} (h : bits.length < w) :
    shift poly (streamWord bits <<< 1) = streamWord bits := by
  have hlow : ((streamWord bits : BitVec w) <<< 1).getLsbD 0 = false := by simp
  simp only [shift, hlow, Bool.false_eq_true, if_false]
  apply BitVec.eq_of_getLsbD_eq
  intro i hi
  simp only [BitVec.getLsbD_ushiftRight, BitVec.getLsbD_shiftLeft]
  by_cases hlast : 1 + i < w
  · simp [hlast]
  · -- the one bit that the shift pushes out lies past the stream
    rw [streamWord_getLsbD bits i hi, List.getD_eq_default _ _ (by omega)]
    simp [hlast]

/-- Up to `w` input bits are combined with the register at once and shifted through. -/
theorem feeds_eq_shifts : ∀ (bits : List Bool) (c : BitVec w), bits.length ≤ w →
    feeds poly c bits = shifts poly bits.length (c ^^^ streamWord bits)
  | [], c, _ => by simp [feeds, shifts, streamWord]
  | b :: bits, c, h => by
    have hlen : bits.length < w := h
    show feeds poly (feed poly c b) bits = _
    rw [feeds_eq_shifts bits _ hlen.le, List.length_cons, shifts, streamWord,
      ← BitVec.xor_assoc, shift_xor, shift_streamWord poly hlen, feed]

theorem feeds_window_ne_zero (htop : poly.getLsbD (w - 1) = true) {bits : List Bool}
    (hlen : bits.length ≤ w) (hset : true ∈ bits) : feeds poly 0#w bits ≠ 0#w := by
  intro h
  rw [feeds_eq_shifts poly bits 0#w hlen, BitVec.zero_xor] at h
  have hzero := shifts_eq_zero poly htop _ h
  obtain ⟨i, hi, hbit⟩ := List.mem_iff_getElem.mp hset
  have hb := streamWord_getLsbD bits i (w := w) (by omega)
  rw [hzero, List.getD_eq_getElem _ _ hi, hbit] at hb
  simp at hb

/-! ## Bursts -/

/-- A stream whose set bits lie in a window is that window between zeros. -/
theorem window_split (bits : List Bool) (s len : Nat)
    (hwin : ∀ i, bits.getD i false = true → s ≤ i ∧ i < s + len) :
    ∃ n, bits = List.replicate (min s bits.length) false ++
      ((bits.drop s).take len ++ List.replicate n false) := by
  refine ⟨bits.length - (s + len), ?_⟩
  have hhead : bits.take s = List.replicate (min s bits.length) false := by
    apply List.eq_replicate_iff.mpr
    refine ⟨List.length_take, fun b hb => ?_⟩
    obtain ⟨i, hi, rfl⟩ := List.mem_iff_getElem.mp hb
    rw [List.length_take] at hi
    rw [List.getElem_take]
    by_contra hne
    have hset : bits.getD i false = true := by
      rw [List.getD_eq_getElem _ _ (by omega)]
      simpa using hne
    have := hwin i hset
    omega
  have htail : (bits.drop s).drop len = List.replicate (bits.length - (s + len)) false := by
    rw [List.drop_drop]
    apply List.eq_replicate_iff.mpr
    refine ⟨by rw [List.length_drop], fun b hb => ?_⟩
    obtain ⟨i, hi, rfl⟩ := List.mem_iff_getElem.mp hb
    rw [List.length_drop] at hi
    rw [List.getElem_drop]
    by_contra hne
    have hset : bits.getD (s + len + i) false = true := by
      rw [List.getD_eq_getElem _ _ (by omega)]
      simpa using hne
    have := hwin _ hset
    omega
  rw [← hhead, ← htail, List.take_append_drop, List.take_append_drop]

/-- **A burst no longer than the register always shows in the register.** -/
theorem feeds_ne_of_burst (htop : poly.getLsbD (w - 1) = true) {xs ys : List Bool} (c : BitVec w)
    (hlen : xs.length = ys.length) (hne : xs ≠ ys) (s : Nat)
    (hwin : ∀ i, xs.getD i false ≠ ys.getD i false → s ≤ i ∧ i < s + w) :
    feeds poly c xs ≠ feeds poly c ys := by
  intro heq
  have hdiff : feeds poly 0#w (List.zipWith xor xs ys) = 0#w := by
    have hrun := feeds_xor poly xs ys c c hlen
    rwa [heq, BitVec.xor_self, BitVec.xor_self] at hrun
  have hbit : ∀ i, (List.zipWith xor xs ys).getD i false =
      (xs.getD i false ^^ ys.getD i false) := by
    intro i
    by_cases hi : i < xs.length
    · rw [List.getD_eq_getElem _ _ (by simp; omega), List.getElem_zipWith,
        List.getD_eq_getElem _ _ hi, List.getD_eq_getElem _ _ (by omega)]
    · rw [List.getD_eq_default _ _ (by simp; omega), List.getD_eq_default _ _ (by omega),
        List.getD_eq_default _ _ (by omega)]
      rfl
  obtain ⟨n, hsplit⟩ := window_split (List.zipWith xor xs ys) s w fun i hi => by
    apply hwin i
    rw [hbit] at hi
    simpa using hi
  have hset : true ∈ List.zipWith xor xs ys := by
    by_contra hno
    apply hne
    apply List.ext_getElem hlen
    intro i hx hy
    have hi : (List.zipWith xor xs ys).getD i false = false := by
      rw [List.getD_eq_getElem _ _ (by simp; omega)]
      by_contra hset
      apply hno
      rw [← Bool.eq_true_of_not_eq_false hset]
      exact List.getElem_mem _
    rw [hbit, List.getD_eq_getElem _ _ hx, List.getD_eq_getElem _ _ hy] at hi
    simpa using hi
  have hin : true ∈ ((List.zipWith xor xs ys).drop s).take w := by
    rw [hsplit] at hset
    simpa using hset
  rw [hsplit, feeds_append, feeds_append, feeds_zeros, feeds_zeros, shifts_zero] at hdiff
  have hwindow := shifts_eq_zero poly htop _ hdiff
  exact feeds_window_ne_zero poly htop (by rw [List.length_take]; omega) hin hwindow

end ShiftRegister
