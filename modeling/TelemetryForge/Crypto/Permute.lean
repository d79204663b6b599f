import TelemetryForge.Crypto.Hash
import Mathlib.Logic.Function.Basic
import Mathlib.Data.Fintype.Basic
import Mathlib.Tactic.FinCases

/-!
# The state permutation of the MAC

A round of `dtl_hash_permute` mixes the lanes one after the other and then diffuses them.  Mixing
can be undone lane by lane, so that layer is a bijection.  Diffusion cannot: it takes the same value
on two states whose difference is carried onto itself by the diffusion rotation, and the difference
of a state and its complement is.

Principal results: `hashMixAll_bijective` — the mixing layer; `hashDiffuse_eq_iff` — what the
diffusion layer merges; `hashPermute_merges` — no state is the only one with its image.
-/

set_option autoImplicit false

namespace Dtl

/-! ## Rotation -/

/-- The rotation that undoes `hashRotl`. -/
def hashRotr (x r : UInt32) : UInt32 := ⟨x.toBitVec.rotateRight r.toNat⟩

theorem hashRotl_toBitVec {x r : UInt32} (h0 : 0 < r.toNat) (h : r.toNat < 32) :
    (hashRotl x r).toBitVec = x.toBitVec.rotateLeft r.toNat := by
  have hleft : (r.toBitVec % 32).toNat = r.toNat := Nat.mod_eq_of_lt h
  have hsub : (32 - r).toNat = 32 - r.toNat :=
    UInt32.toNat_sub_of_le _ _ (UInt32.le_iff_toNat_le.mpr (Nat.le_of_lt h))
  have hright : ((32 - r).toBitVec % 32).toNat = 32 - r.toNat := by
    rw [BitVec.toNat_umod, UInt32.toNat_toBitVec, hsub]
    exact Nat.mod_eq_of_lt (Nat.sub_lt (by decide) h0)
  rw [hashRotl, UInt32.toBitVec_or, UInt32.toBitVec_shiftLeft, UInt32.toBitVec_shiftRight,
    BitVec.shiftLeft_eq', BitVec.ushiftRight_eq', hleft, hright, BitVec.rotateLeft_def,
    Nat.mod_eq_of_lt h]

theorem hashRotl_rotr {x r : UInt32} (h0 : 0 < r.toNat) (h : r.toNat < 32) :
    hashRotl (hashRotr x r) r = x := by
  refine UInt32.toBitVec_inj.mp (BitVec.eq_of_getLsbD_eq fun i hi => ?_)
  rw [hashRotl_toBitVec h0 h, hashRotr, BitVec.getLsbD_rotateLeft, Nat.mod_eq_of_lt h]
  by_cases hlow : i < r.toNat
  · rw [decide_eq_true hlow, cond_true, BitVec.getLsbD_rotateRight, Nat.mod_eq_of_lt h,
      decide_eq_false (by omega), cond_false, decide_eq_true (by omega), Bool.true_and]
    congr 1
    omega
  · rw [decide_eq_false hlow, cond_false, decide_eq_true hi, Bool.true_and,
      BitVec.getLsbD_rotateRight, Nat.mod_eq_of_lt h, decide_eq_true (by omega), cond_true]
    congr 1
    omega

theorem hashRotr_rotl {x r : UInt32} (h0 : 0 < r.toNat) (h : r.toNat < 32) :
    hashRotr (hashRotl x r) r = x := by
  refine UInt32.toBitVec_inj.mp (BitVec.eq_of_getLsbD_eq fun i hi => ?_)
  rw [hashRotr, hashRotl_toBitVec h0 h, BitVec.getLsbD_rotateRight, Nat.mod_eq_of_lt h]
  by_cases hlow : i < 32 - r.toNat
  · rw [decide_eq_true hlow, cond_true, BitVec.getLsbD_rotateLeft, Nat.mod_eq_of_lt h,
      decide_eq_false (by omega), cond_false, decide_eq_true (by omega), Bool.true_and]
    congr 1
    omega
  · rw [decide_eq_false hlow, cond_false, decide_eq_true hi, Bool.true_and,
      BitVec.getLsbD_rotateLeft, Nat.mod_eq_of_lt h, decide_eq_true (by omega), cond_true]
    congr 1
    omega

/-- Rotation commutes with exclusive or. -/
theorem hashRotl_xor {x y r : UInt32} (h0 : 0 < r.toNat) (h : r.toNat < 32) :
    hashRotl (x ^^^ y) r = hashRotl x r ^^^ hashRotl y r := by
  refine UInt32.toBitVec_inj.mp (BitVec.eq_of_getLsbD_eq fun i hi => ?_)
  rw [UInt32.toBitVec_xor, BitVec.getLsbD_xor, hashRotl_toBitVec h0 h, hashRotl_toBitVec h0 h,
    hashRotl_toBitVec h0 h, UInt32.toBitVec_xor]
  simp only [BitVec.getLsbD_rotateLeft, BitVec.getLsbD_xor]
  cases decide (i < r.toNat % 32)
  · cases decide (i < 32) <;> rfl
  · rfl

/-- `DTL_HASH_ROT` holds amounts in `1 … 31`. -/
theorem HASH_ROT_range (i : Fin 8) :
    0 < (HASH_ROT.get i).toNat ∧ (HASH_ROT.get i).toNat < 32 := by
  revert i
  decide

/-! ## The mixing layer -/

/-- Store lane `i`. -/
def hashSetLane (s : HashState) (i : Fin 8) (v : UInt32) : HashState := s.setIfInBounds i v

theorem hashSetLane_eq (s : HashState) {k : Nat} (h : k < 8) (v : UInt32) :
    hashSetLane s ⟨k, h⟩ v = s.set k v h := by
  refine Vector.ext fun j hj => ?_
  rw [hashSetLane, Vector.getElem_setIfInBounds, Vector.getElem_set]

theorem hashSetLane_next (s : HashState) (i : Fin 8) (v : UInt32) :
    (hashSetLane s i v).get (i + 1) = s.get (i + 1) := by
  have hne : (i : Nat) ≠ (i + 1 : Fin 8) := by
    revert i
    decide
  exact Vector.getElem_setIfInBounds_ne _ hne

theorem hashSetLane_same (s : HashState) (i : Fin 8) (v : UInt32) : (hashSetLane s i v).get i = v :=
  Vector.getElem_setIfInBounds_self _

/-- Storing a lane's own value last undoes the stores before. -/
theorem hashSetLane_back (s : HashState) (i : Fin 8) (v : UInt32) :
    hashSetLane (hashSetLane s i v) i (s.get i) = s := by
  have hown : hashSetLane s i (s.get i) = s :=
    (hashSetLane_eq s i.isLt _).trans (Vector.set_getElem_self _)
  rwa [hashSetLane, hashSetLane, Vector.setIfInBounds_setIfInBounds]

/-- What the mixing loop stores in a lane that holds `v`, in front of a lane that holds `next`. -/
def hashMixLane (rc rot next v : UInt32) : UInt32 := hashRotl ((v + next) ^^^ rc) rot

/-- What undoes `hashMixLane`. -/
def hashUnmixLane (rc rot next v : UInt32) : UInt32 := (hashRotr v rot ^^^ rc) - next

theorem hashMixLane_unmix {rot : UInt32} (h0 : 0 < rot.toNat) (h : rot.toNat < 32)
    (rc next v : UInt32) : hashMixLane rc rot next (hashUnmixLane rc rot next v) = v := by
  rw [hashMixLane, hashUnmixLane, UInt32.sub_add_cancel, UInt32.xor_assoc, UInt32.xor_self,
    UInt32.xor_zero, hashRotl_rotr h0 h]

theorem hashUnmixLane_mix {rot : UInt32} (h0 : 0 < rot.toNat) (h : rot.toNat < 32)
    (rc next v : UInt32) : hashUnmixLane rc rot next (hashMixLane rc rot next v) = v := by
  rw [hashMixLane, hashUnmixLane, hashRotr_rotl h0 h, UInt32.xor_assoc, UInt32.xor_self,
    UInt32.xor_zero, UInt32.add_sub_cancel]

theorem hashMix_eq (round : Nat) (s : HashState) (i : Fin 8) : hashMix round s i =
    hashSetLane s i (hashMixLane (HASH_RC.get (Fin.ofNat 8 (round + i))) (HASH_ROT.get i)
      (s.get (i + 1)) (s.get i)) := (hashSetLane_eq s i.isLt _).symm

theorem hashMix_bijective (round : Nat) (i : Fin 8) :
    Function.Bijective fun s => hashMix round s i := by
  obtain ⟨h0, h⟩ := HASH_ROT_range i
  refine Function.bijective_iff_has_inverse.mpr ⟨fun s => hashSetLane s i
    (hashUnmixLane (HASH_RC.get (Fin.ofNat 8 (round + i))) (HASH_ROT.get i) (s.get (i + 1))
      (s.get i)), fun s => ?_, fun s => ?_⟩
  · dsimp only
    rw [hashMix_eq, hashSetLane_next, hashSetLane_same, hashUnmixLane_mix h0 h, hashSetLane_back]
  · dsimp only
    rw [hashMix_eq, hashSetLane_next, hashSetLane_same, hashMixLane_unmix h0 h, hashSetLane_back]

/-- Steps that are bijections run one after the other are one. -/
theorem foldl_bijective {ι σ : Type} {f : σ → ι → σ} (hf : ∀ i, Function.Bijective fun s => f s i) :
    ∀ l : List ι, Function.Bijective fun s => l.foldl f s
  | [] => Function.bijective_id
  | i :: l => (foldl_bijective hf l).comp (hf i)

/-- The mixing loop of one round. -/
def hashMixAll (round : Nat) (s : HashState) : HashState := (List.finRange 8).foldl (hashMix round) s

/-- **The mixing layer is a bijection.** -/
theorem hashMixAll_bijective (round : Nat) : Function.Bijective (hashMixAll round) :=
  foldl_bijective (hashMix_bijective round) (List.finRange 8)

/-! ## The diffusion layer -/

theorem hashDiffuse_get (s : HashState) (i : Fin 8) :
    (hashDiffuse s).get i = s.get i ^^^ hashRotl (s.get (i + 1)) 7 := by
  -- the old value of lane 0 is saved first; lane `i + 1` is still old when lane `i` reads it
  have hlanes : List.finRange 7 = [0, 1, 2, 3, 4, 5, 6] := by decide
  unfold hashDiffuse
  rw [hlanes]
  simp only [List.foldl_cons, List.foldl_nil]
  have hget : ∀ (u : HashState) (j : Fin 8), u.get j = u[j] := fun _ _ => rfl
  simp only [hget]
  fin_cases i <;> simp

theorem xor_eq_xor_swap {a b c d : UInt32} : a ^^^ c = b ^^^ d ↔ a ^^^ b = c ^^^ d := by
  have hswap : ∀ {a b c d : UInt32}, a ^^^ c = b ^^^ d → a ^^^ b = c ^^^ d := by
    intro a b c d h
    have hb : b = a ^^^ c ^^^ d := by
      rw [h, UInt32.xor_assoc, UInt32.xor_self, UInt32.xor_zero]
    rw [hb, UInt32.xor_assoc, ← UInt32.xor_assoc, UInt32.xor_self, UInt32.zero_xor]
  exact ⟨hswap, hswap⟩

/-- **What diffusion merges**: states whose difference is, lane by lane, the rotated difference of
the next lane. -/
theorem hashDiffuse_eq_iff (s t : HashState) : hashDiffuse s = hashDiffuse t ↔
    ∀ i : Fin 8, s.get i ^^^ t.get i = hashRotl (s.get (i + 1) ^^^ t.get (i + 1)) 7 := by
  have hlane : ∀ i : Fin 8, (hashDiffuse s).get i = (hashDiffuse t).get i ↔
      s.get i ^^^ t.get i = hashRotl (s.get (i + 1) ^^^ t.get (i + 1)) 7 := by
    intro i
    rw [hashDiffuse_get, hashDiffuse_get, hashRotl_xor (by decide) (by decide),
      xor_eq_xor_swap]
  constructor
  · intro h i
    rw [← hlane, h]
  · intro h
    refine Vector.ext fun i hi => ?_
    exact (hlane ⟨i, hi⟩).mpr (h ⟨i, hi⟩)

/-- The state with every bit of every lane flipped. -/
def hashFlip (s : HashState) : HashState := s.map fun x => x ^^^ 0xFFFFFFFF

theorem hashFlip_xor (s : HashState) (i : Fin 8) :
    s.get i ^^^ (hashFlip s).get i = 0xFFFFFFFF := by
  have hget : (hashFlip s).get i = s.get i ^^^ 0xFFFFFFFF := Vector.getElem_map _ _
  rw [hget, ← UInt32.xor_assoc, UInt32.xor_self, UInt32.zero_xor]

theorem hashFlip_ne (s : HashState) : hashFlip s ≠ s := by
  intro h
  have hxor := hashFlip_xor s 0
  rw [h, UInt32.xor_self] at hxor
  exact absurd hxor (by decide)

/-- A state and its complement have the same image. -/
theorem hashDiffuse_flip (s : HashState) : hashDiffuse (hashFlip s) = hashDiffuse s := by
  refine ((hashDiffuse_eq_iff s (hashFlip s)).mpr fun i => ?_).symm
  rw [hashFlip_xor, hashFlip_xor]
  decide

/-! ## The whole permutation -/

/-- The rounds after the first. -/
theorem hashPermute_eq (s : HashState) : hashPermute s = ((List.range 11).map Nat.succ).foldl
    (fun s round => hashDiffuse (hashMixAll round s)) (hashDiffuse (hashMixAll 0 s)) := by
  have hrounds : List.range HASH_ROUNDS = 0 :: (List.range 11).map Nat.succ :=
    List.range_succ_eq_map
  unfold hashPermute hashMixAll
  rw [hrounds, List.foldl_cons]

theorem hashPermute_pair (s : HashState) : ∃ t, t ≠ s ∧ hashPermute t = hashPermute s := by
  obtain ⟨t, ht⟩ := (hashMixAll_bijective 0).surjective (hashFlip (hashMixAll 0 s))
  refine ⟨t, ?_, ?_⟩
  · rintro rfl
    exact hashFlip_ne _ ht.symm
  · rw [hashPermute_eq, hashPermute_eq, ht, hashDiffuse_flip]

/-- Folding word `j` of a block into its lane. -/
def hashFoldWord (block : Bytes) (s : HashState) (j : Fin 4) : HashState :=
  hashSetLane s (j.castLE (by decide)) (s.get (j.castLE (by decide)) ^^^ hashBlockWord block j)

/-- Folding a block into the rate lanes of the state. -/
def hashFoldBlock (block : Bytes) (s : HashState) : HashState :=
  (List.finRange 4).foldl (hashFoldWord block) s

theorem hashAbsorbBlock_eq (s : HashState) (block : Bytes) :
    hashAbsorbBlock s block = hashPermute (hashFoldBlock block s) := by
  have hword : (fun (s : HashState) (j : Fin 4) => s.set j (s[j] ^^^ hashBlockWord block j)) =
      hashFoldWord block := by
    funext s j
    exact (hashSetLane_eq s (Nat.lt_trans j.isLt (by decide)) _).symm
  rw [hashAbsorbBlock, hword, hashFoldBlock]

theorem hashFoldWord_involutive (block : Bytes) (j : Fin 4) :
    Function.Involutive fun s => hashFoldWord block s j := by
  intro s
  dsimp only [hashFoldWord]
  rw [hashSetLane_same, UInt32.xor_assoc, UInt32.xor_self, UInt32.xor_zero, hashSetLane_back]

theorem hashFoldBlock_bijective (block : Bytes) : Function.Bijective (hashFoldBlock block) :=
  foldl_bijective (fun j => (hashFoldWord_involutive block j).bijective) (List.finRange 4)

/-- **The state permutation is not injective, at any state**: some other state has the same image,
and absorbing a block merges every state with another one. -/
theorem hashPermute_merges (s : HashState) : (∃ t, t ≠ s ∧ hashPermute t = hashPermute s) ∧
    ∀ block, ∃ t, t ≠ s ∧ hashAbsorbBlock t block = hashAbsorbBlock s block := by
  refine ⟨hashPermute_pair s, fun block => ?_⟩
  obtain ⟨u, hne, hu⟩ := hashPermute_pair (hashFoldBlock block s)
  obtain ⟨t, rfl⟩ := (hashFoldBlock_bijective block).surjective u
  refine ⟨t, ?_, ?_⟩
  · rintro rfl
    exact hne rfl
  · rw [hashAbsorbBlock_eq, hashAbsorbBlock_eq, hu]

/-- The zero state and a state with every other lane full have the same image. -/
theorem hashPermute_merges_zero :
    hashPermute #v[0xFFFFFFFF, 0, 0xFFFFFFFF, 0, 0xFFFFFFFF, 0, 0xFFFFFFFF, 0] =
        hashPermute #v[0, 0, 0, 0, 0, 0, 0, 0] ∧
      ¬ Function.Injective hashPermute := by
  have heq : hashPermute #v[0xFFFFFFFF, 0, 0xFFFFFFFF, 0, 0xFFFFFFFF, 0, 0xFFFFFFFF, 0] =
      hashPermute #v[0, 0, 0, 0, 0, 0, 0, 0] := by decide +kernel
  exact ⟨heq, fun hinj => absurd (hinj heq) (by decide)⟩

end Dtl
