import Mathlib.Data.Nat.Bitwise
import TelemetryForge.Lib.PrefixCode

/-!
# Error codes, little-endian words and the bounded reader

Model of `core/err`, `core/endian` and `core/buf`.

* `Err` — the error enumerators of `dtl_err`; a fallible function returns `Res`, whose `.ok` is
  `DTL_OK`.
* `endianReadU16le` … `endianWriteU32le` — loads and stores by shifts and masks, as in
  `core/endian.c`.  `endianReadU16le_write` and its siblings say that a load inverts a store,
  `endianWriteU16le_read` and its siblings the converse.
* `bufReadU8` … `bufReadBytes` — the reader.  A `dtl_buf` is represented by its unread bytes
  `p[pos .. len)`, so `dtl_buf_remaining` is the length; a failed read consumes nothing.
  `bufReadU16_inverts` / `bufReadU16_exact` and their siblings make each read an exact
  self-delimiting decoder of the corresponding store.
-/

set_option autoImplicit false

namespace Dtl

open PrefixCode

abbrev Bytes := List UInt8

/-- The bytes of a C string literal. -/
def ascii (s : String) : Bytes := s.toUTF8.data.toList

/-- `dtl_err` without `DTL_OK` and the count sentinel. -/
inductive Err where
  | truncated
  | badMagic
  | badVersion
  | badHeader
  | badRecord
  | range
  | oom
  | inval
  | io
  | badQuery
  deriving DecidableEq, Repr

abbrev Res := Except Err

/-- `dtl_strerror` on the error enumerators. -/
def strerror : Err → String
  | .truncated => "input truncated"
  | .badMagic => "bad magic"
  | .badVersion => "unsupported version"
  | .badHeader => "malformed header"
  | .badRecord => "malformed record"
  | .range => "value out of range"
  | .oom => "out of memory"
  | .inval => "invalid argument"
  | .io => "i/o error"
  | .badQuery => "malformed query"

/-- An early `return e` taken when `c` holds. -/
def failIf (c : Prop) [Decidable c] (e : Err) : Res Unit := if c then .error e else .ok ()

theorem failIf_eq_ok {c : Prop} [Decidable c] {e : Err} {u : Unit} :
    failIf c e = .ok u ↔ ¬ c := by
  unfold failIf; split <;> simp [*]

theorem failIf_neg {c : Prop} [Decidable c] {e : Err} (h : ¬ c) : failIf c e = .ok () := if_neg h

theorem failIf_pos {c : Prop} [Decidable c] {e : Err} (h : c) : failIf c e = .error e := if_pos h

/-- The branch by which a switch succeeded. -/
theorem branch_ok {α : Type} {c P : Prop} [Decidable c] {x y : Res α} {a : α}
    (h : (if c then x else y) = .ok a) (hx : c → x = .ok a → P) (hy : y = .ok a → P) : P := by
  by_cases hc : c
  · exact hx hc (by rwa [if_pos hc] at h)
  · exact hy (by rwa [if_neg hc] at h)

/-! ## Little-endian words -/

def endianReadU16le (p0 p1 : UInt8) : UInt16 := p0.toUInt16 ||| (p1.toUInt16 <<< 8)

def endianReadU32le (p0 p1 p2 p3 : UInt8) : UInt32 :=
  p0.toUInt32 ||| (p1.toUInt32 <<< 8) ||| (p2.toUInt32 <<< 16) ||| (p3.toUInt32 <<< 24)

def endianWriteU16le (v : UInt16) : Bytes :=
  [(v &&& 0xff).toUInt8, ((v >>> 8) &&& 0xff).toUInt8]

def endianWriteU32le (v : UInt32) : Bytes :=
  [(v &&& 0xff).toUInt8, ((v >>> 8) &&& 0xff).toUInt8, ((v >>> 16) &&& 0xff).toUInt8,
    ((v >>> 24) &&& 0xff).toUInt8]

@[simp] theorem endianWriteU16le_length (v : UInt16) : (endianWriteU16le v).length = 2 := rfl

@[simp] theorem endianWriteU32le_length (v : UInt32) : (endianWriteU32le v).length = 4 := rfl

/-- Bytes at distinct 8-bit positions: the bitwise or of the shifted bytes is their sum. -/
theorem or_shift_eq_add {a b k : Nat} (h : a < 2 ^ k) : a ||| b <<< k = a + b * 2 ^ k := by
  rw [Nat.or_comm, ← Nat.shiftLeft_add_eq_or_of_lt h, Nat.shiftLeft_eq]; omega

theorem endianReadU16le_toNat (p0 p1 : UInt8) :
    (endianReadU16le p0 p1).toNat = p0.toNat + 256 * p1.toNat := by
  have h0 := p0.toNat_lt
  have h1 := p1.toNat_lt
  simp only [endianReadU16le, UInt16.toNat_or, UInt8.toNat_toUInt16, UInt16.toNat_shiftLeft,
    UInt16.reduceToNat, Nat.reduceMod]
  rw [Nat.mod_eq_of_lt (by rw [Nat.shiftLeft_eq]; omega), or_shift_eq_add (by omega)]
  omega

theorem endianReadU32le_toNat (p0 p1 p2 p3 : UInt8) :
    (endianReadU32le p0 p1 p2 p3).toNat =
      p0.toNat + 256 * p1.toNat + 65536 * p2.toNat + 16777216 * p3.toNat := by
  have h0 := p0.toNat_lt
  have h1 := p1.toNat_lt
  have h2 := p2.toNat_lt
  have h3 := p3.toNat_lt
  simp only [endianReadU32le, UInt32.toNat_or, UInt8.toNat_toUInt32, UInt32.toNat_shiftLeft,
    UInt32.reduceToNat, Nat.reduceMod]
  rw [Nat.mod_eq_of_lt (b := 2 ^ 32) (by rw [Nat.shiftLeft_eq]; omega),
    Nat.mod_eq_of_lt (b := 2 ^ 32) (by rw [Nat.shiftLeft_eq]; omega),
    Nat.mod_eq_of_lt (b := 2 ^ 32) (by rw [Nat.shiftLeft_eq]; omega),
    or_shift_eq_add (a := p0.toNat) (by omega),
    or_shift_eq_add (a := p0.toNat + p1.toNat * 2 ^ 8) (by omega), or_shift_eq_add (by omega)]
  omega

theorem endianWriteU16le_eq (v : UInt16) :
    endianWriteU16le v = [UInt8.ofNat (v.toNat % 256), UInt8.ofNat (v.toNat / 256)] := by
  have h := v.toNat_lt
  have hm : ∀ n : Nat, n &&& 255 = n % 256 := fun n => Nat.and_two_pow_sub_one_eq_mod n 8
  simp only [endianWriteU16le, List.cons.injEq, and_true, ← UInt8.toNat_inj]
  refine ⟨?_, ?_⟩ <;>
    simp [UInt16.toNat_toUInt8, hm, Nat.shiftRight_eq_div_pow]

theorem endianWriteU32le_eq (v : UInt32) :
    endianWriteU32le v = [UInt8.ofNat (v.toNat % 256), UInt8.ofNat (v.toNat / 256 % 256),
      UInt8.ofNat (v.toNat / 65536 % 256), UInt8.ofNat (v.toNat / 16777216)] := by
  have h := v.toNat_lt
  have hm : ∀ n : Nat, n &&& 255 = n % 256 := fun n => Nat.and_two_pow_sub_one_eq_mod n 8
  simp only [endianWriteU32le, List.cons.injEq, and_true, ← UInt8.toNat_inj]
  refine ⟨?_, ?_, ?_, ?_⟩ <;>
    simp [UInt32.toNat_toUInt8, hm, Nat.shiftRight_eq_div_pow]

theorem endianReadU16le_write (v : UInt16) :
    endianReadU16le (v &&& 0xff).toUInt8 ((v >>> 8) &&& 0xff).toUInt8 = v := by
  have h := endianWriteU16le_eq v
  have hv := v.toNat_lt
  simp only [endianWriteU16le, List.cons.injEq, and_true] at h
  rw [h.1, h.2, ← UInt16.toNat_inj, endianReadU16le_toNat]
  simp only [UInt8.toNat_ofNat']
  omega

theorem endianReadU32le_write (v : UInt32) :
    endianReadU32le (v &&& 0xff).toUInt8 ((v >>> 8) &&& 0xff).toUInt8
      ((v >>> 16) &&& 0xff).toUInt8 ((v >>> 24) &&& 0xff).toUInt8 = v := by
  have h := endianWriteU32le_eq v
  have hv := v.toNat_lt
  simp only [endianWriteU32le, List.cons.injEq, and_true] at h
  rw [h.1, h.2.1, h.2.2.1, h.2.2.2, ← UInt32.toNat_inj, endianReadU32le_toNat]
  simp only [UInt8.toNat_ofNat']
  omega

theorem endianWriteU16le_read (p0 p1 : UInt8) :
    endianWriteU16le (endianReadU16le p0 p1) = [p0, p1] := by
  have h0 := p0.toNat_lt
  have h1 := p1.toNat_lt
  rw [endianWriteU16le_eq, endianReadU16le_toNat]
  simp only [List.cons.injEq, and_true, ← UInt8.toNat_inj, UInt8.toNat_ofNat']
  omega

theorem endianWriteU32le_read (p0 p1 p2 p3 : UInt8) :
    endianWriteU32le (endianReadU32le p0 p1 p2 p3) = [p0, p1, p2, p3] := by
  have h0 := p0.toNat_lt
  have h1 := p1.toNat_lt
  have h2 := p2.toNat_lt
  have h3 := p3.toNat_lt
  rw [endianWriteU32le_eq, endianReadU32le_toNat]
  simp only [List.cons.injEq, and_true, ← UInt8.toNat_inj, UInt8.toNat_ofNat']
  omega

/-! ## The bounded reader -/

/-- `dtl_buf_read_bytes`: the next `n` bytes. -/
def bufReadBytes (n : Nat) (b : Bytes) : Res (Bytes × Bytes) :=
  if n > b.length then .error .truncated else .ok (b.take n, b.drop n)

/-- `dtl_buf_read_u8`. -/
def bufReadU8 : Bytes → Res (UInt8 × Bytes)
  | p0 :: r => .ok (p0, r)
  | _ => .error .truncated

/-- `dtl_buf_read_u16`. -/
def bufReadU16 : Bytes → Res (UInt16 × Bytes)
  | p0 :: p1 :: r => .ok (endianReadU16le p0 p1, r)
  | _ => .error .truncated

/-- `dtl_buf_read_u32`. -/
def bufReadU32 : Bytes → Res (UInt32 × Bytes)
  | p0 :: p1 :: p2 :: p3 :: r => .ok (endianReadU32le p0 p1 p2 p3, r)
  | _ => .error .truncated

theorem bufReadU16_inverts : Inverts bufReadU16 endianWriteU16le (fun _ => True) :=
  fun v r _ => by
    simp only [endianWriteU16le, List.cons_append, List.nil_append, bufReadU16,
      endianReadU16le_write]

theorem bufReadU32_inverts : Inverts bufReadU32 endianWriteU32le (fun _ => True) :=
  fun v r _ => by
    simp only [endianWriteU32le, List.cons_append, List.nil_append, bufReadU32,
      endianReadU32le_write]

@[simp] theorem bufReadU8_cons (v : UInt8) (r : Bytes) : bufReadU8 (v :: r) = .ok (v, r) := rfl

@[simp] theorem bufReadU16_write (v : UInt16) (r : Bytes) :
    bufReadU16 (endianWriteU16le v ++ r) = .ok (v, r) := bufReadU16_inverts v r trivial

@[simp] theorem bufReadU32_write (v : UInt32) (r : Bytes) :
    bufReadU32 (endianWriteU32le v ++ r) = .ok (v, r) := bufReadU32_inverts v r trivial

theorem bufReadBytes_append (a r : Bytes) : bufReadBytes a.length (a ++ r) = .ok (a, r) := by
  simp [bufReadBytes]

theorem bufReadU8_exact : Exact bufReadU8 (fun v => [v]) := by
  intro s v r h
  cases s with
  | nil => cases h
  | cons p0 t => cases h; rfl

theorem bufReadU16_exact : Exact bufReadU16 endianWriteU16le := by
  intro s v r h
  unfold bufReadU16 at h
  split at h
  · cases h; rw [endianWriteU16le_read]; rfl
  · cases h

theorem bufReadU32_exact : Exact bufReadU32 endianWriteU32le := by
  intro s v r h
  unfold bufReadU32 at h
  split at h
  · cases h; rw [endianWriteU32le_read]; rfl
  · cases h

theorem bufReadBytes_ok {n : Nat} {b v r : Bytes} (h : bufReadBytes n b = .ok (v, r)) :
    b = v ++ r ∧ v.length = n := by
  unfold bufReadBytes at h
  split at h
  · cases h
  · cases h
    exact ⟨(List.take_append_drop n b).symm, by rw [List.length_take]; omega⟩

end Dtl
