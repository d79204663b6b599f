import Mathlib.Data.Nat.Bitwise
import Mathlib.Tactic.Push

/-!
# Numbers as C text

The decimal and hexadecimal text of the `printf` conversions `%u`, `%d` and `%0wx`; `strtoul`,
`strtol` in base 10 and the `%u` conversion of `sscanf`, with a 64-bit `long`; and pairs of
hexadecimal digits.

Principal results: `strtoul_decimal`, `strtol_decimalInt` — scanning a printed number reads back the
number and stops where its digits stop; `strtoul_eq`, `strtol_eq` — what either makes of the integer
that a text denotes; `unhex_hexText` — printed hexadecimal bytes read back.
-/

set_option autoImplicit false

namespace CText

/-! ## Characters -/

/-- `isdigit`. -/
def isDigit (c : UInt8) : Bool := 48 ≤ c && c ≤ 57

/-- `isspace` in the C locale. -/
def isSpace (c : UInt8) : Bool := c = 32 || (9 ≤ c && c ≤ 13)

/-- The character of a decimal digit. -/
def decDigit (d : Nat) : UInt8 := UInt8.ofNat (48 + d)

/-- The character of a hexadecimal digit, in lower case. -/
def hexDigit (d : Nat) : UInt8 := if d < 10 then UInt8.ofNat (48 + d) else UInt8.ofNat (87 + d)

/-- The value of a hexadecimal digit of either case. -/
def hexVal (c : UInt8) : Option Nat :=
  if 48 ≤ c ∧ c ≤ 57 then some (c.toNat - 48)
  else if 97 ≤ c ∧ c ≤ 102 then some (c.toNat - 97 + 10)
  else if 65 ≤ c ∧ c ≤ 70 then some (c.toNat - 65 + 10)
  else none

theorem isDigit_decDigit {d : Nat} (h : d < 10) : isDigit (decDigit d) = true := by
  revert h
  revert d
  decide

theorem decDigit_toNat {d : Nat} (h : d < 10) : (decDigit d).toNat = 48 + d := by
  revert h
  revert d
  decide

theorem hexVal_hexDigit {d : Nat} (h : d < 16) : hexVal (hexDigit d) = some d := by
  revert h
  revert d
  decide

/-! ## Printing -/

/-- `%u` and `%llu`. -/
def decimal (n : Nat) : List UInt8 :=
  if n < 10 then [decDigit n] else decimal (n / 10) ++ [decDigit (n % 10)]

/-- `%d`. -/
def decimalInt (i : Int) : List UInt8 :=
  if i < 0 then 45 :: decimal i.natAbs else decimal i.natAbs

/-- `%x`. -/
def hexadecimal (n : Nat) : List UInt8 :=
  if n < 16 then [hexDigit n] else hexadecimal (n / 16) ++ [hexDigit (n % 16)]

/-- `%0wx`. -/
def hexPad (w n : Nat) : List UInt8 :=
  List.replicate (w - (hexadecimal n).length) 48 ++ hexadecimal n

/-- The text padded on the left to a field width. -/
def padLeft (w : Nat) (s : List UInt8) : List UInt8 := List.replicate (w - s.length) 32 ++ s

/-- The text padded on the right to a field width, as the flag `-` asks. -/
def padRight (w : Nat) (s : List UInt8) : List UInt8 := s ++ List.replicate (w - s.length) 32

/-! ## Scanning -/

/-- Read digits into an accumulator, as far as they go. -/
def scanDec (acc : Nat) : List UInt8 → Nat × List UInt8
  | [] => (acc, [])
  | c :: s => if isDigit c then scanDec (acc * 10 + (c.toNat - 48)) s else (acc, c :: s)

/-- The text does not go on with a digit. -/
def NoDigit : List UInt8 → Prop
  | [] => True
  | c :: _ => isDigit c = false

theorem scanDec_end {acc : Nat} {s : List UInt8} (h : NoDigit s) : scanDec acc s = (acc, s) := by
  cases s with
  | nil => rfl
  | cons c s => rw [scanDec, if_neg (by rw [show isDigit c = false from h]; decide)]

theorem decimal_ne_nil (n : Nat) : decimal n ≠ [] := by
  rw [decimal]
  split <;> simp

/-- Scanning behind an accumulator shifts it by the digits read. -/
theorem scanDec_decimal_acc (n : Nat) : ∀ (acc : Nat) (s : List UInt8),
    ∃ k, scanDec acc (decimal n ++ s) = scanDec (acc * 10 ^ k + n) s := by
  induction n using Nat.strongRecOn with
  | ind n ih =>
    intro acc s
    rw [decimal]
    split
    · rename_i hn
      refine ⟨1, ?_⟩
      rw [List.singleton_append, scanDec, if_pos (isDigit_decDigit hn), decDigit_toNat hn, Nat.pow_one,
        Nat.add_sub_cancel_left]
    · rename_i hn
      obtain ⟨k, hk⟩ := ih (n / 10) (by omega) acc (decDigit (n % 10) :: s)
      have hlt : n % 10 < 10 := Nat.mod_lt _ (by decide)
      refine ⟨k + 1, ?_⟩
      rw [List.append_assoc, List.singleton_append, hk, scanDec, if_pos (isDigit_decDigit hlt),
        decDigit_toNat hlt, Nat.add_sub_cancel_left, Nat.pow_succ, ← Nat.mul_assoc, Nat.add_mul]
      congr 1
      omega

/-- **Scanning a printed number.** -/
theorem scanDec_decimal (n : Nat) {s : List UInt8} (h : NoDigit s) :
    scanDec 0 (decimal n ++ s) = (n, s) := by
  obtain ⟨k, hk⟩ := scanDec_decimal_acc n 0 s
  rw [hk, Nat.zero_mul, Nat.zero_add, scanDec_end h]

theorem decimal_isDigit (n : Nat) : ∀ c ∈ decimal n, isDigit c = true := by
  induction n using Nat.strongRecOn with
  | ind n ih =>
    rw [decimal]
    split
    · rename_i hn
      intro c hc
      rw [List.mem_singleton.mp hc]
      exact isDigit_decDigit hn
    · rename_i hn
      intro c hc
      rcases List.mem_append.mp hc with hc | hc
      · exact ih (n / 10) (by omega) c hc
      · rw [List.mem_singleton.mp hc]
        exact isDigit_decDigit (Nat.mod_lt _ (by decide))

/-! ## `strtoul`, `strtol` and `sscanf` -/

def ULONG_MAX : Nat := 2 ^ 64 - 1
def LONG_MAX : Nat := 2 ^ 63 - 1

/-- The optional sign: whether it is a minus, and what follows. -/
def scanSign : List UInt8 → Bool × List UInt8
  | [] => (false, [])
  | c :: s => if c = 45 then (true, s) else if c = 43 then (false, s) else (false, c :: s)

/-- White space, sign and digits, as `strtoul` and `strtol` read them: the sign, the magnitude and
the rest; `none` when there are no digits. -/
def scanInt (s : List UInt8) : Option (Bool × Nat × List UInt8) :=
  match scanSign (s.dropWhile isSpace) with
  | (_, []) => none
  | (neg, c :: s) => if isDigit c then some (neg, scanDec 0 (c :: s)) else none

/-- `strtoul(s, &end, 10)`: the value and the text at `end`; `none` when `end == s`. -/
def strtoul (s : List UInt8) : Option (Nat × List UInt8) :=
  (scanInt s).map fun (neg, v, rest) =>
    (if v > ULONG_MAX then ULONG_MAX else if neg then (2 ^ 64 - v) % 2 ^ 64 else v, rest)

/-- `strtol(s, &end, 10)`. -/
def strtol (s : List UInt8) : Option (Int × List UInt8) :=
  (scanInt s).map fun (neg, v, rest) =>
    (if neg then (if v > LONG_MAX + 1 then -(LONG_MAX + 1 : Int) else -(v : Int))
      else if v > LONG_MAX then (LONG_MAX : Int) else (v : Int), rest)

/-- `%u` of `sscanf`, which stores an `unsigned int`. -/
def scanfU (s : List UInt8) : Option (Nat × List UInt8) :=
  (strtoul s).map fun (v, rest) => (v % 2 ^ 32, rest)

/-- What a digit is not. -/
theorem isDigit_ne {c : UInt8} (h : isDigit c = true) :
    isSpace c = false ∧ c ≠ 45 ∧ c ≠ 43 := by
  simp only [isDigit, Bool.and_eq_true, decide_eq_true_eq] at h
  refine ⟨?_, ?_, ?_⟩
  · have h1 : ¬ c ≤ 13 := fun h13 => absurd (UInt8.le_trans h.1 h13) (by decide)
    have h2 : c ≠ 32 := by rintro rfl; exact absurd h.1 (by decide)
    simp [isSpace, h1, h2]
  · rintro rfl
    exact absurd h.1 (by decide)
  · rintro rfl
    exact absurd h.1 (by decide)

theorem scanInt_decimal (n : Nat) {s : List UInt8} (h : NoDigit s) :
    scanInt (decimal n ++ s) = some (false, n, s) := by
  have hscan := scanDec_decimal n h
  have hall := decimal_isDigit n
  cases hd : decimal n with
  | nil => exact absurd hd (decimal_ne_nil n)
  | cons c cs =>
    rw [hd] at hscan hall
    have hc := hall c (by simp)
    obtain ⟨h1, h2, h3⟩ := isDigit_ne hc
    rw [List.cons_append] at hscan ⊢
    rw [scanInt, List.dropWhile_cons_of_neg (by simp [h1]), scanSign, if_neg h2, if_neg h3]
    dsimp only
    rw [if_pos hc, hscan]

theorem scanInt_minus (n : Nat) {s : List UInt8} (h : NoDigit s) :
    scanInt (45 :: (decimal n ++ s)) = some (true, n, s) := by
  have hscan := scanDec_decimal n h
  have hall := decimal_isDigit n
  cases hd : decimal n with
  | nil => exact absurd hd (decimal_ne_nil n)
  | cons c cs =>
    rw [hd] at hscan hall
    rw [List.cons_append] at hscan ⊢
    rw [scanInt, List.dropWhile_cons_of_neg (by decide), scanSign, if_pos rfl]
    dsimp only
    rw [if_pos (hall c (by simp)), hscan]

/-- **Reading back `%u`.** -/
theorem strtoul_decimal {n : Nat} (hn : n < 2 ^ 64) {s : List UInt8} (h : NoDigit s) :
    strtoul (decimal n ++ s) = some (n, s) := by
  rw [strtoul, scanInt_decimal n h, Option.map_some]
  dsimp only
  rw [if_neg (by unfold ULONG_MAX; omega), if_neg (by decide)]

theorem scanfU_decimal {n : Nat} (hn : n < 2 ^ 32) {s : List UInt8} (h : NoDigit s) :
    scanfU (decimal n ++ s) = some (n, s) := by
  rw [scanfU, strtoul_decimal (by omega) h, Option.map_some]
  dsimp only
  rw [Nat.mod_eq_of_lt hn]

/-- **Reading back `%d`.** -/
theorem strtol_decimalInt {i : Int} (hi : i.natAbs < 2 ^ 63) {s : List UInt8} (h : NoDigit s) :
    strtol (decimalInt i ++ s) = some (i, s) := by
  unfold decimalInt
  by_cases hneg : i < 0
  · rw [if_pos hneg, List.cons_append, strtol, scanInt_minus _ h, Option.map_some]
    dsimp only
    rw [if_pos rfl, if_neg (by unfold LONG_MAX; omega)]
    congr 2
    omega
  · rw [if_neg hneg, strtol, scanInt_decimal _ h, Option.map_some]
    dsimp only
    rw [if_neg (by decide), if_neg (by unfold LONG_MAX; omega)]
    congr 2
    omega

/-! ## The integers that texts denote -/

/-- The integer that the text starts with, however large, and what follows it. -/
def scanDenoted (s : List UInt8) : Option (Int × List UInt8) :=
  (scanInt s).map fun (neg, v, rest) => (if neg then -(v : Int) else v, rest)

/-- The integer that is the whole text. -/
def denoted (s : List UInt8) : Option Int :=
  (scanDenoted s).bind fun (i, rest) => if rest = [] then some i else none

/-- What `strtoul` makes of an integer. -/
def ulongOf (i : Int) : Nat := if i.natAbs > ULONG_MAX then ULONG_MAX else (i % 2 ^ 64).toNat

/-- What `strtol` makes of an integer. -/
def longOf (i : Int) : Int := max (-(LONG_MAX + 1)) (min i LONG_MAX)

theorem strtoul_eq (s : List UInt8) :
    strtoul s = (scanDenoted s).map fun (i, rest) => (ulongOf i, rest) := by
  unfold strtoul scanDenoted
  rw [Option.map_map]
  congr 1
  funext ⟨neg, v, rest⟩
  have hmax : ULONG_MAX = 2 ^ 64 - 1 := rfl
  cases neg <;> simp only [ulongOf, Function.comp_apply, Prod.mk.injEq, and_true] <;> grind

theorem strtol_eq (s : List UInt8) :
    strtol s = (scanDenoted s).map fun (i, rest) => (longOf i, rest) := by
  unfold strtol scanDenoted
  rw [Option.map_map]
  congr 1
  funext ⟨neg, v, rest⟩
  have hmax : LONG_MAX = 2 ^ 63 - 1 := rfl
  cases neg <;> simp only [longOf, Function.comp_apply, Prod.mk.injEq, and_true] <;> grind

/-- An integer that `strtoul` does not saturate is kept if and only if it is not negative. -/
theorem ulongOf_eq_iff {i : Int} (h : ulongOf i < ULONG_MAX) : (ulongOf i : Int) = i ↔ 0 ≤ i := by
  unfold ulongOf at h ⊢
  split at h
  · omega
  · rename_i hle
    rw [if_neg hle]
    have hmax : ULONG_MAX = 2 ^ 64 - 1 := rfl
    omega

/-- `%u` keeps an integer if and only if it is one of 32 bits. -/
theorem scanfU_eq_iff (i : Int) : ((ulongOf i % 2 ^ 32 : Nat) : Int) = i ↔ 0 ≤ i ∧ i < 2 ^ 32 := by
  unfold ulongOf
  have hmax : ULONG_MAX = 2 ^ 64 - 1 := rfl
  split <;> omega

theorem longOf_eq {i : Int} (h : -2 ^ 63 ≤ i ∧ i < 2 ^ 63) : longOf i = i := by
  have hmax : LONG_MAX = 2 ^ 63 - 1 := rfl
  unfold longOf
  omega

/-! ## Hexadecimal bytes -/

/-- `%02x` of each byte. -/
def hexText (bs : List UInt8) : List UInt8 := bs.flatMap fun b => hexPad 2 b.toNat

/-- The bytes that pairs of hexadecimal digits stand for. -/
def unhex : List UInt8 → Option (List UInt8)
  | [] => some []
  | [_] => none
  | hi :: lo :: s => do
    let h ← hexVal hi
    let l ← hexVal lo
    let bs ← unhex s
    return UInt8.ofNat (h * 16 + l) :: bs

theorem hexPad_byte (b : UInt8) :
    hexPad 2 b.toNat = [hexDigit (b.toNat / 16), hexDigit (b.toNat % 16)] := by
  have hlt := b.toNat_lt
  rw [hexPad, hexadecimal]
  split
  · rename_i h
    simp [Nat.div_eq_of_lt h, Nat.mod_eq_of_lt h, hexDigit]
  · rw [hexadecimal, if_pos (by omega)]
    simp

theorem hexText_cons (b : UInt8) (bs : List UInt8) :
    hexText (b :: bs) = hexDigit (b.toNat / 16) :: hexDigit (b.toNat % 16) :: hexText bs := by
  rw [hexText, List.flatMap_cons, hexPad_byte]
  rfl

@[simp] theorem hexText_length (bs : List UInt8) : (hexText bs).length = 2 * bs.length := by
  induction bs with
  | nil => rfl
  | cons b bs ih =>
    rw [hexText_cons, List.length_cons, List.length_cons, List.length_cons, ih]
    omega

/-- **Reading back `%02x`.** -/
theorem unhex_hexText (bs : List UInt8) : unhex (hexText bs) = some bs := by
  induction bs with
  | nil => rfl
  | cons b bs ih =>
    have hlt := b.toNat_lt
    rw [hexText_cons, unhex, hexVal_hexDigit (by omega), hexVal_hexDigit (by omega), ih]
    have hval : UInt8.ofNat (b.toNat / 16 * 16 + b.toNat % 16) = b := by
      rw [show b.toNat / 16 * 16 + b.toNat % 16 = b.toNat by omega]
      exact UInt8.ofNat_toNat
    show some (UInt8.ofNat (b.toNat / 16 * 16 + b.toNat % 16) :: bs) = some (b :: bs)
    rw [hval]

theorem unhex_length : ∀ {s bs : List UInt8}, unhex s = some bs → s.length = 2 * bs.length
  | [], _, h => by
    cases h
    rfl
  | [_], _, h => by cases h
  | hi :: lo :: s, bs, h => by
    simp only [unhex, Option.bind_eq_bind, Option.bind_eq_some_iff, Option.pure_def,
      Option.some.injEq] at h
    obtain ⟨a, -, b, -, bs', hbs, rfl⟩ := h
    have ih := unhex_length hbs
    rw [List.length_cons, List.length_cons, List.length_cons, ih]
    omega

end CText
