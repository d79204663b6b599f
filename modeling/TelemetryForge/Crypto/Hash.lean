import TelemetryForge.Core.Buf

/-!
# The keyed MAC

Model of `crypto/hash`: a 16-byte-rate sponge over eight 32-bit words, absorbing the key length, the
key and the message.  The context keeps the bytes of the current block; the cells past `bpos`
are never read before they are written.
-/

set_option autoImplicit false

namespace Dtl

/-- `DTL_HASH_ROUNDS`. -/
def HASH_ROUNDS : Nat := 12

/-- `DTL_HASH_RATE`. -/
def HASH_RATE : Nat := 16

/-- The eight state words. -/
abbrev HashState := Vector UInt32 8

/-- `DTL_HASH_IV`. -/
def HASH_IV : HashState :=
  #v[0xA3C59AC1, 0x1B36E2D7, 0x5F0B4E13, 0xE7C6A882, 0x3D9F71C4, 0x8A2B5E6F, 0x60D1F0A5, 0xC4E7B3D2]

/-- `DTL_HASH_RC`. -/
def HASH_RC : Vector UInt32 8 :=
  #v[0x9E3779B9, 0x243F6A88, 0xB7E15162, 0x85EBCA6B, 0xC2B2AE35, 0x27D4EB2F, 0x165667B1, 0xD3A2646C]

/-- `DTL_HASH_ROT`. -/
def HASH_ROT : Vector UInt32 8 := #v[7, 11, 13, 17, 19, 23, 29, 31]

/-- `dtl_hash_rotl`. -/
def hashRotl (x r : UInt32) : UInt32 := (x <<< r) ||| (x >>> (32 - r))

/-- One lane of the mixing loop. -/
def hashMix (round : Nat) (s : HashState) (i : Fin 8) : HashState :=
  s.set i (hashRotl ((s[i] + s[i + 1]) ^^^ HASH_RC[Fin.ofNat 8 (round + i)]) HASH_ROT[i])

/-- The lane-diffusion step: each lane takes in its neighbour, the last one the old first. -/
def hashDiffuse (s : HashState) : HashState :=
  let t0 := s[0]
  let s := (List.finRange 7).foldl
    (fun s i => s.set i.castSucc (s[i.castSucc] ^^^ hashRotl s[i.succ] 7)) s
  s.set 7 (s[7] ^^^ hashRotl t0 7)

/-- `dtl_hash_permute`. -/
def hashPermute (s : HashState) : HashState :=
  (List.range HASH_ROUNDS).foldl
    (fun s round => hashDiffuse ((List.finRange 8).foldl (hashMix round) s)) s

/-- `dtl_hash_ctx`: the state and the bytes `block[0 .. bpos)`. -/
structure HashCtx where
  s : HashState
  block : Bytes

/-- `dtl_hash_init`. -/
def hashInit : HashCtx := ⟨HASH_IV, []⟩

/-- Word `j` of a full block. -/
def hashBlockWord (block : Bytes) (j : Nat) : UInt32 :=
  endianReadU32le (block.getD (4 * j) 0) (block.getD (4 * j + 1) 0) (block.getD (4 * j + 2) 0)
    (block.getD (4 * j + 3) 0)

/-- `dtl_hash_absorb_block`, on a full block. -/
def hashAbsorbBlock (s : HashState) (block : Bytes) : HashState :=
  hashPermute ((List.finRange 4).foldl
    (fun (s : HashState) (j : Fin 4) => s.set j (s[j] ^^^ hashBlockWord block j)) s)

/-- `dtl_hash_absorb`. -/
def hashAbsorb (c : HashCtx) (b : UInt8) : HashCtx :=
  if (c.block ++ [b]).length = HASH_RATE then ⟨hashAbsorbBlock c.s (c.block ++ [b]), []⟩
  else ⟨c.s, c.block ++ [b]⟩

/-- The four rate words, little endian. -/
def hashSqueeze (s : HashState) : Bytes :=
  endianWriteU32le s[0] ++ (endianWriteU32le s[1] ++ (endianWriteU32le s[2] ++ endianWriteU32le s[3]))

/-- `dtl_hash_finish`. -/
def hashFinish (c : HashCtx) : Bytes :=
  let block := c.block ++ [1]
  let s := hashAbsorbBlock c.s (block ++ List.replicate (HASH_RATE - block.length) 0)
  hashSqueeze s ++ hashSqueeze (hashPermute s)

/-- The eight length bytes `dtl_hash_mac` absorbs first. -/
def hashLen64 (n : Nat) : Bytes := (List.range 8).map fun i => UInt8.ofNat (n >>> (8 * i))

/-- `dtl_hash_mac`. -/
def hashMac (key msg : Bytes) : Bytes :=
  hashFinish ((hashLen64 key.length ++ (key ++ msg)).foldl hashAbsorb hashInit)

@[simp] theorem hashSqueeze_length (s : HashState) : (hashSqueeze s).length = 16 := rfl

theorem hashMac_length (key msg : Bytes) : (hashMac key msg).length = 32 := by
  simp [hashMac, hashFinish]

end Dtl
