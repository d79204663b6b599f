import TelemetryForge.Core.Buf
import TelemetryForge.Lib.ShiftRegister

/-!
# CRC-32

Model of `format/crc`: the 256-entry table of the reflected polynomial, built once, and the
byte-at-a-time loop over it.

Principal results: `crc32_toBitVec` — the table-driven loop is the linear feedback shift register of
the polynomial, fed with the bits of the input low bit first; `crc32_bitwise` — it computes the
bit-at-a-time reflected CRC-32.
-/

set_option autoImplicit false

namespace Dtl

/-- `DTL_CRC32_POLY`. -/
def CRC32_POLY : UInt32 := 0xEDB88320

/-- One of the eight shift steps that build a table entry. -/
def crc32Shift (c : UInt32) : UInt32 :=
  if c &&& 1 ≠ 0 then CRC32_POLY ^^^ (c >>> 1) else c >>> 1

/-- The inner loop of `dtl_crc32_build_table`: `k` shift steps. -/
def crc32Shifts : Nat → UInt32 → UInt32
  | 0, c => c
  | k + 1, c => crc32Shifts k (crc32Shift c)

/-- `dtl_crc32_build_table`. -/
def crc32BuildTable : List UInt32 :=
  (List.range 256).map fun n => crc32Shifts 8 (UInt32.ofNat n)

/-- One iteration of the loop in `dtl_crc32`. -/
def crc32Step (crc : UInt32) (b : UInt8) : UInt32 :=
  crc32BuildTable.getD ((crc ^^^ b.toUInt32) &&& 0xFF).toNat 0 ^^^ (crc >>> 8)

/-- `dtl_crc32`. -/
def crc32 (data : Bytes) : UInt32 := data.foldl crc32Step 0xFFFFFFFF ^^^ 0xFFFFFFFF

example : crc32 [0x31, 0x32, 0x33, 0x34, 0x35, 0x36, 0x37, 0x38, 0x39] = 0xCBF43926 := by
  decide +kernel

/-! ## The table-driven loop is a shift register -/

open ShiftRegister

/-- The feedback word of the register. -/
def crcFeedback : BitVec 32 := CRC32_POLY.toBitVec

/-- The bits of a byte in the order they enter the register. -/
def byteBits (b : UInt8) : List Bool := (List.range 8).map b.toBitVec.getLsbD

/-- The bits of a byte string, numbered `8 * byte + bit`. -/
def bytesBits (data : Bytes) : List Bool := data.flatMap byteBits

@[simp] theorem byteBits_length (b : UInt8) : (byteBits b).length = 8 := by simp [byteBits]

theorem bytesBits_length (data : Bytes) : (bytesBits data).length = 8 * data.length := by
  induction data with
  | nil => rfl
  | cons b data ih =>
    rw [bytesBits, List.flatMap_cons, List.length_append, byteBits_length, List.length_cons]
    rw [bytesBits] at ih
    omega

theorem low_bit_ne_zero (c : UInt32) : c &&& 1 ≠ 0 ↔ c.toBitVec.getLsbD 0 = true := by
  have h : (c &&& 1).toBitVec = BitVec.setWidth 32 (BitVec.ofBool (c.toBitVec.getLsbD 0)) := by
    rw [UInt32.toBitVec_and]
    exact BitVec.and_one_eq_setWidth_ofBool_getLsbD
  rw [Ne, ← UInt32.toBitVec_inj, h]
  cases c.toBitVec.getLsbD 0 <;> decide

theorem crc32Shift_toBitVec (c : UInt32) :
    (crc32Shift c).toBitVec = shift crcFeedback c.toBitVec := by
  unfold crc32Shift shift
  by_cases h : c.toBitVec.getLsbD 0 = true
  · rw [if_pos ((low_bit_ne_zero c).mpr h), if_pos h]
    rfl
  · rw [if_neg (mt (low_bit_ne_zero c).mp h), if_neg h]
    rfl

theorem crc32Shifts_toBitVec : ∀ (k : Nat) (c : UInt32),
    (crc32Shifts k c).toBitVec = shifts crcFeedback k c.toBitVec
  | 0, _ => rfl
  | k + 1, c => by rw [crc32Shifts, crc32Shifts_toBitVec k, crc32Shift_toBitVec, shifts]

theorem crc32BuildTable_getD (n : Nat) (h : n < 256) :
    crc32BuildTable.getD n 0 = crc32Shifts 8 (UInt32.ofNat n) := by
  rw [crc32BuildTable, List.getD_eq_getElem _ _ (by simpa using h)]
  simp

theorem low_octet (x : BitVec 32) (i : Nat) :
    (x &&& 0xFF#32).getLsbD i = (decide (i < 8) && x.getLsbD i) := by
  have h255 : (0xFF#32).getLsbD i = decide (i < 8) := by
    rw [BitVec.getLsbD_ofNat, show (0xFF : Nat) = 2 ^ 8 - 1 by rfl, Nat.testBit_two_pow_sub_one]
    by_cases hi : i < 8
    · simp [hi]; omega
    · simp [hi]
  rw [BitVec.getLsbD_and, h255, Bool.and_comm]

/-- A word is its low octet and the rest; eight shifts only move the rest down. -/
theorem shifts_eight (x : BitVec 32) :
    shifts crcFeedback 8 x = shifts crcFeedback 8 (x &&& 0xFF#32) ^^^ (x >>> 8) := by
  have hsplit : x = (x &&& 0xFF#32) ^^^ ((x >>> 8) <<< 8) := by
    apply BitVec.eq_of_getLsbD_eq
    intro i hi
    rw [BitVec.getLsbD_xor, low_octet, BitVec.getLsbD_shiftLeft, BitVec.getLsbD_ushiftRight]
    by_cases h : i < 8
    · simp [h]
    · simp [h, hi, show 8 + (i - 8) = i by omega]
  have hrest : shifts crcFeedback 8 ((x >>> 8) <<< 8) = x >>> 8 := by
    rw [shifts_clear crcFeedback 8 _ fun i hi => by simp [hi]]
    apply BitVec.eq_of_getLsbD_eq
    intro i hi
    simp only [BitVec.getLsbD_ushiftRight, BitVec.getLsbD_shiftLeft]
    by_cases h : 8 + i < 32
    · simp [h]
    · simp [h, BitVec.getLsbD_of_ge x (8 + i) (by omega)]
  conv => lhs; rw [hsplit]
  rw [shifts_xor, hrest]

theorem streamWord_byteBits (b : UInt8) :
    (streamWord (byteBits b) : BitVec 32) = b.toUInt32.toBitVec := by
  apply BitVec.eq_of_getLsbD_eq
  intro i hi
  rw [streamWord_getLsbD _ i hi, UInt8.toBitVec_toUInt32, BitVec.getLsbD_setWidth]
  by_cases h : i < 8
  · rw [List.getD_eq_getElem _ _ (by simpa using h)]
    simp [byteBits, hi]
  · rw [List.getD_eq_default _ _ (by simp; omega), BitVec.getLsbD_of_ge _ _ (by omega)]
    simp

/-- One table step feeds the eight bits of the byte, low bit first. -/
theorem crc32Step_toBitVec (crc : UInt32) (b : UInt8) :
    (crc32Step crc b).toBitVec = feeds crcFeedback crc.toBitVec (byteBits b) := by
  have hlow : ((crc ^^^ b.toUInt32) &&& 0xFF).toNat < 256 := by
    rw [UInt32.toNat_and]
    exact lt_of_le_of_lt Nat.and_le_right (by decide)
  have hb : b.toUInt32.toBitVec >>> 8 = 0#32 := by
    apply BitVec.eq_of_getLsbD_eq
    intro i _
    rw [BitVec.getLsbD_ushiftRight, UInt8.toBitVec_toUInt32, BitVec.getLsbD_setWidth,
      BitVec.getLsbD_of_ge _ _ (by omega)]
    simp
  rw [feeds_eq_shifts crcFeedback _ _ (by simp), byteBits_length, streamWord_byteBits,
    shifts_eight, BitVec.ushiftRight_xor_distrib, hb, BitVec.xor_zero]
  rw [crc32Step, crc32BuildTable_getD _ hlow, UInt32.ofNat_toNat, UInt32.toBitVec_xor,
    crc32Shifts_toBitVec, UInt32.toBitVec_and, UInt32.toBitVec_xor]
  rfl

theorem foldl_crc32Step_toBitVec : ∀ (data : Bytes) (crc : UInt32),
    (data.foldl crc32Step crc).toBitVec = feeds crcFeedback crc.toBitVec (bytesBits data)
  | [], _ => rfl
  | b :: data, crc => by
    rw [List.foldl_cons, foldl_crc32Step_toBitVec data, crc32Step_toBitVec, ← feeds_append]
    rfl

/-- **`dtl_crc32` is the complemented state of the register fed with all bits of its input.** -/
theorem crc32_toBitVec (data : Bytes) : (crc32 data).toBitVec =
    feeds crcFeedback (BitVec.allOnes 32) (bytesBits data) ^^^ BitVec.allOnes 32 := by
  rw [crc32, UInt32.toBitVec_xor, foldl_crc32Step_toBitVec]
  rfl

/-! ## The bit-at-a-time definition -/

/-- One bit step of the reflected CRC: the low bit leaves the register, and if it was set the
polynomial is combined with what remains. -/
def crcBitStep (crc : UInt32) : UInt32 :=
  if crc % 2 = 1 then (crc >>> 1) ^^^ 0xEDB88320 else crc >>> 1

/-- A byte is combined with the low end of the register, then eight bits leave it. -/
def crcBitwiseByte (crc : UInt32) (b : UInt8) : UInt32 := crcBitStep^[8] (crc ^^^ b.toUInt32)

/-- **The reflected CRC-32, bit at a time**: initial value and final exclusive or all ones. -/
def crc32Bitwise (data : Bytes) : UInt32 := data.foldl crcBitwiseByte 0xFFFFFFFF ^^^ 0xFFFFFFFF

theorem crcBitStep_toBitVec (c : UInt32) :
    (crcBitStep c).toBitVec = shift crcFeedback c.toBitVec := by
  have hlow : c % 2 = 1 ↔ c.toBitVec.getLsbD 0 = true := by
    rw [← UInt32.toNat_inj, UInt32.toNat_mod, BitVec.getLsbD, Nat.testBit_zero]
    simp
  unfold crcBitStep shift
  by_cases h : c.toBitVec.getLsbD 0 = true
  · rw [if_pos (hlow.mpr h), if_pos h, UInt32.toBitVec_xor, BitVec.xor_comm]
    rfl
  · rw [if_neg (mt hlow.mp h), if_neg h]
    rfl

theorem crcBitSteps_toBitVec (k : Nat) (c : UInt32) :
    (crcBitStep^[k] c).toBitVec = shifts crcFeedback k c.toBitVec := by
  induction k generalizing c with
  | zero => rfl
  | succ k ih => rw [Function.iterate_succ_apply, ih, crcBitStep_toBitVec, shifts]

/-- **The byte step through the table is eight bit steps**, for every register and byte. -/
theorem crc32Step_bitwise (crc : UInt32) (b : UInt8) : crc32Step crc b = crcBitwiseByte crc b := by
  apply UInt32.toBitVec_inj.mp
  rw [crc32Step_toBitVec, feeds_eq_shifts crcFeedback _ _ (by simp), byteBits_length,
    streamWord_byteBits, crcBitwiseByte, crcBitSteps_toBitVec, UInt32.toBitVec_xor]

/-- **`dtl_crc32` computes the bit-at-a-time reflected CRC-32.** -/
theorem crc32_bitwise (data : Bytes) : crc32 data = crc32Bitwise data := by
  have hstep : crc32Step = crcBitwiseByte := by
    funext crc b
    exact crc32Step_bitwise crc b
  rw [crc32, crc32Bitwise, hstep]

end Dtl
