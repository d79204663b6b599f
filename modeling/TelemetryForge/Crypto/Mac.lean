import TelemetryForge.Crypto.Hash
import TelemetryForge.Lib.Sponge

/-!
# The MAC over blocks

`dtl_hash_mac` absorbs the key length, the key and the message byte by byte.  `hashSponge` is the
same computation over whole blocks, and `hashBlocks` the blocks that a key and a message stand for:
those of the padded frame.

Principal result: `hashMac_sponge` — the MAC is the sponge over the blocks of its frame, and no two
pairs of key and message have the same blocks.
-/

set_option autoImplicit false

namespace Dtl

/-! ## The frame -/

/-- `len64(key) || key || msg`. -/
def hashFrame (key msg : Bytes) : Bytes := hashLen64 key.length ++ (key ++ msg)

/-- The frame, padded with `0x01` and zeros, in blocks of the rate. -/
def hashBlocks (key msg : Bytes) : List Bytes :=
  Sponge.blocks HASH_RATE (Sponge.pad 1 0 HASH_RATE (hashFrame key msg))

theorem hashLen64_length (n : Nat) : (hashLen64 n).length = 8 := by
  rw [hashLen64, List.length_map, List.length_range]

/-- Bit `j` of a number is bit `j % 8` of length byte `j / 8`. -/
theorem hashLen64_testBit (n : Nat) {j : Nat} (hj : j < 64) :
    ((hashLen64 n).getD (j / 8) 0).toNat.testBit (j % 8) = n.testBit j := by
  have hlt : j / 8 < (hashLen64 n).length := by
    rw [hashLen64_length]
    omega
  have hbit : 8 * (j / 8) + j % 8 = j := Nat.div_add_mod j 8
  rw [List.getD_eq_getElem _ _ hlt]
  simp only [hashLen64, List.getElem_map, List.getElem_range, UInt8.toNat_ofNat']
  rw [Nat.testBit_mod_two_pow, Nat.testBit_shiftRight, hbit, decide_eq_true (by omega),
    Bool.true_and]

theorem hashLen64_injective {n m : Nat} (hn : n < 2 ^ 64) (hm : m < 2 ^ 64)
    (h : hashLen64 n = hashLen64 m) : n = m := by
  refine Nat.eq_of_testBit_eq fun j => ?_
  by_cases hj : j < 64
  · rw [← hashLen64_testBit n hj, h, hashLen64_testBit m hj]
  · have hpow : 2 ^ 64 ≤ 2 ^ j := Nat.pow_le_pow_right (by decide) (by omega)
    rw [Nat.testBit_lt_two_pow (hn.trans_le hpow), Nat.testBit_lt_two_pow (hm.trans_le hpow)]

/-- The length in front of the key says where the key ends. -/
theorem hashFrame_injective {key key' msg msg' : Bytes} (hkey : key.length < 2 ^ 64)
    (hkey' : key'.length < 2 ^ 64) (h : hashFrame key msg = hashFrame key' msg') :
    key = key' ∧ msg = msg' := by
  obtain ⟨hlen, hrest⟩ := List.append_inj h (by rw [hashLen64_length, hashLen64_length])
  exact List.append_inj hrest (hashLen64_injective hkey hkey' hlen)

/-! ## The sponge -/

/-- Absorb whole blocks from the initial state, and squeeze two blocks. -/
def hashSponge (bs : List Bytes) : Bytes :=
  let s := bs.foldl hashAbsorbBlock HASH_IV
  hashSqueeze s ++ hashSqueeze (hashPermute s)

/-- `dtl_hash_absorb` is the streaming form of `dtl_hash_absorb_block`. -/
theorem foldl_hashAbsorb : ∀ (l : Bytes) (c : HashCtx),
    l.foldl hashAbsorb c =
      ⟨(l.foldl (Sponge.absorb hashAbsorbBlock HASH_RATE) (c.s, c.block)).1,
        (l.foldl (Sponge.absorb hashAbsorbBlock HASH_RATE) (c.s, c.block)).2⟩
  | [], _ => rfl
  | b :: l, c => by
    have hstep : Sponge.absorb hashAbsorbBlock HASH_RATE (c.s, c.block) b =
        ((hashAbsorb c b).s, (hashAbsorb c b).block) := by
      unfold Sponge.absorb hashAbsorb
      dsimp only
      split <;> rfl
    rw [List.foldl_cons, List.foldl_cons, hstep, foldl_hashAbsorb l]

/-- **Byte by byte is block by block.** -/
theorem hashMac_eq (key msg : Bytes) : hashMac key msg = hashSponge (hashBlocks key msg) := by
  have hfinish := Sponge.foldl_blocks_pad hashAbsorbBlock 1 0 (show 0 < HASH_RATE by decide) HASH_IV
    (hashFrame key msg)
  dsimp only at hfinish
  rw [hashMac, ← hashFrame, foldl_hashAbsorb, hashFinish, hashSponge, hashBlocks, ← hfinish]
  rfl

/-- **The MAC refines the sponge over its blocks, and the framing is unambiguous**: the blocks have
16 bytes and spell the padded frame, the MAC is their sponge, and keys (of less than `2 ^ 64` bytes)
and messages with the same blocks are the same. -/
theorem hashMac_sponge :
    (∀ key msg : Bytes, (∀ b ∈ hashBlocks key msg, b.length = 16) ∧
      (∃ zeros, (hashBlocks key msg).flatten =
          hashFrame key msg ++ 1 :: List.replicate zeros 0 ∧ zeros < 16) ∧
      hashMac key msg = hashSponge (hashBlocks key msg)) ∧
    Set.InjOn (fun p : Bytes × Bytes => hashBlocks p.1 p.2) {p | p.1.length < 2 ^ 64} := by
  have hrate : 0 < HASH_RATE := by decide
  constructor
  · intro key msg
    refine ⟨Sponge.blocks_pad_whole hrate _, ⟨_, Sponge.flatten_blocks hrate _, ?_⟩,
      hashMac_eq key msg⟩
    rw [HASH_RATE]
    omega
  · rintro ⟨key, msg⟩ hkey ⟨key', msg'⟩ hkey' h
    have hframe := Sponge.blocks_pad_injective (by decide) hrate h
    obtain ⟨rfl, rfl⟩ := hashFrame_injective hkey hkey' hframe
    rfl

end Dtl
