import TelemetryForge.Codec.Rle

/-!
# The LEB128 codecs: varint and delta

Model of `codec/varint` and `codec/delta`.  Both read LEB128 groups with the same inner loop
(`lebRead`, with the shift of the fifth group as parameter) and write them with the same `do … while`
(`lebWrite`); `lebBytes` is what the latter writes.

Principal results: `lebRead_lebBytes` — reading a written group gives the value back, whatever
follows; `deltaUnzigzag_zigzag`; and the round trips `varintDecodePlan_encode` and
`deltaDecodePlan_encode` on inputs that consist of whole words.
-/

set_option autoImplicit false

namespace Dtl

open Sink

/-! ## One LEB128 group -/

/-- The group-reading loop shared by `dtl_varint_decode` and `dtl_delta_decode`. -/
def lebRead (lastShift : Nat) : Bytes → Nat → UInt32 → Res (UInt32 × Bytes)
  | [], _, _ => .error .truncated
  | byte :: bs, shift, value =>
    if shift > lastShift then .error .range else
    let payload := (byte &&& 0x7f).toUInt32
    if shift = lastShift ∧ payload > 0x0f then .error .range else
    let value := value ||| (payload <<< UInt32.ofNat shift)
    if byte &&& 0x80 = 0 then .ok (value, bs) else lebRead lastShift bs (shift + 7) value

theorem lebRead_lt {lastShift : Nat} : ∀ {bs : Bytes} {shift : Nat} {value v : UInt32} {r : Bytes},
    lebRead lastShift bs shift value = .ok (v, r) → r.length < bs.length
  | [], _, _, _, _, h => by cases h
  | b :: bs, shift, value, v, r, h => by
    simp only [lebRead] at h
    split at h
    · cases h
    split at h
    · cases h
    split at h
    · cases h; simp
    · have := lebRead_lt h
      rw [List.length_cons]; omega

theorem shiftRight7_toNat (v : UInt32) : (v >>> 7).toNat = v.toNat / 128 := by
  simp [UInt32.toNat_shiftRight, Nat.shiftRight_eq_div_pow]

theorem shiftRight7_lt {v : UInt32} (h : v >>> 7 ≠ 0) : (v >>> 7).toNat < v.toNat := by
  have h0 : (v >>> 7).toNat ≠ 0 := fun h1 => h (UInt32.toNat_inj.mp (by simpa using h1))
  rw [shiftRight7_toNat] at h0 ⊢
  omega

/-- The `do … while` that writes one value, seven bits at a time. -/
def lebWrite (cap : Nat) (value : UInt32) (out : Bytes) : Res Bytes :=
  let byte := (value &&& 0x7f).toUInt8
  if value >>> 7 ≠ 0 then do
    let out ← emit cap out [byte ||| 0x80]
    lebWrite cap (value >>> 7) out
  else emit cap out [byte]
termination_by value.toNat
decreasing_by exact shiftRight7_lt (by assumption)

/-- The bytes `lebWrite` writes. -/
def lebBytes (value : UInt32) : Bytes :=
  let byte := (value &&& 0x7f).toUInt8
  if value >>> 7 ≠ 0 then (byte ||| 0x80) :: lebBytes (value >>> 7) else [byte]
termination_by value.toNat
decreasing_by exact shiftRight7_lt (by assumption)

/-- One chunk for each byte, as the loop writes them. -/
def lebChunks (value : UInt32) : List Bytes := (lebBytes value).map ([·])

theorem lebChunks_flatten (value : UInt32) : (lebChunks value).flatten = lebBytes value := by
  unfold lebChunks
  induction lebBytes value with
  | nil => rfl
  | cons b bs ih => simp [ih]

theorem lebWrite_eq (cap : Nat) (value : UInt32) (out : Bytes) :
    lebWrite cap value out = putAll .range cap (lebChunks value) out := by
  induction hn : value.toNat using Nat.strongRecOn generalizing value out with
  | ind n ih =>
    rw [lebWrite, lebChunks, lebBytes]
    by_cases h : value >>> 7 ≠ 0
    · simp only [if_pos h, List.map_cons, putAll_cons]
      congr 1
      funext o
      exact ih _ (hn ▸ shiftRight7_lt h) _ o rfl
    · simp only [if_neg h, List.map_cons, List.map_nil, putAll_singleton]

theorem low7_toNat (v : UInt32) : ((v &&& 0x7f).toUInt8).toNat = v.toNat % 128 := by
  have hm : v.toNat &&& 127 = v.toNat % 128 := Nat.and_two_pow_sub_one_eq_mod v.toNat 7
  simp only [UInt32.toNat_toUInt8, UInt32.toNat_and, UInt32.reduceToNat, hm]
  omega

theorem or80_toNat {b : UInt8} (h : b.toNat < 128) : (b ||| 0x80).toNat = b.toNat + 128 := by
  have h80 : (0x80 : UInt8).toNat = 1 <<< 7 := rfl
  rw [UInt8.toNat_or, h80, or_shift_eq_add (by omega)]
  rfl

theorem and7f_toNat (b : UInt8) : ((b &&& 0x7f).toUInt32).toNat = b.toNat % 128 := by
  have hm : b.toNat &&& 127 = b.toNat % 128 := Nat.and_two_pow_sub_one_eq_mod b.toNat 7
  simp only [UInt8.toNat_toUInt32, UInt8.toNat_and, UInt8.reduceToNat, hm]

theorem and80_eq_zero (b : UInt8) : b &&& 0x80 = 0 ↔ b.toNat < 128 := by
  have hall : ∀ n : Fin 256, ((n : Nat) &&& 128 = 0 ↔ (n : Nat) < 128) := by decide +kernel
  rw [← UInt8.toNat_inj, UInt8.toNat_and]
  exact hall ⟨b.toNat, b.toNat_lt⟩

theorem lebBytes_eq (v : UInt32) :
    lebBytes v = if v.toNat < 128 then [UInt8.ofNat v.toNat]
      else UInt8.ofNat (v.toNat % 128 + 128) :: lebBytes (v >>> 7) := by
  have hlow := low7_toNat v
  rw [lebBytes]
  by_cases h : v.toNat < 128
  · have h0 : ¬ v >>> 7 ≠ 0 := by
      intro hne; apply hne; rw [← UInt32.toNat_inj, shiftRight7_toNat]; simp; omega
    rw [if_neg h0, if_pos h, List.cons.injEq, ← UInt8.toNat_inj, UInt8.toNat_ofNat', hlow]
    exact ⟨by omega, rfl⟩
  · have h0 : v >>> 7 ≠ 0 := by
      intro he
      have := congrArg UInt32.toNat he
      rw [shiftRight7_toNat] at this
      simp at this
      omega
    rw [if_pos h0, if_neg h, List.cons.injEq, ← UInt8.toNat_inj, UInt8.toNat_ofNat',
      or80_toNat (by omega), hlow]
    exact ⟨by omega, rfl⟩

/-- Oring the payload of a group in at its shift adds it there. -/
theorem or_payload_toNat {a p : UInt32} {k : Nat} (hs : k ≤ 28) (ha : a.toNat < 2 ^ k)
    (hp : p.toNat * 2 ^ k < 2 ^ 32) :
    (a ||| (p <<< UInt32.ofNat k)).toNat = a.toNat + p.toNat * 2 ^ k := by
  have hsh : (UInt32.ofNat k).toNat % 32 = k := by
    rw [UInt32.toNat_ofNat']; omega
  rw [UInt32.toNat_or, UInt32.toNat_shiftLeft, hsh, Nat.mod_eq_of_lt (by rwa [Nat.shiftLeft_eq]),
    or_shift_eq_add ha]

/-- A number below `2 ^ k` fits under a multiple of `2 ^ k` that is below `2 ^ 32`. -/
theorem add_mul_lt_two_pow {a v k : Nat} (hk : k ≤ 32) (ha : a < 2 ^ k)
    (hv : v * 2 ^ k < 2 ^ 32) : a + v * 2 ^ k < 2 ^ 32 := by
  have hsplit : 2 ^ (32 - k) * 2 ^ k = 2 ^ 32 := by rw [← Nat.pow_add]; congr 1; omega
  have hlt : v < 2 ^ (32 - k) := Nat.lt_of_mul_lt_mul_right (hsplit ▸ hv)
  have hle : (v + 1) * 2 ^ k ≤ 2 ^ 32 := hsplit ▸ Nat.mul_le_mul_right (2 ^ k) hlt
  rw [Nat.succ_mul] at hle
  omega

/-- The last group, reached when the remaining value fits seven bits. -/
theorem lebRead_last (b : UInt8) (r : Bytes) (k : Nat) (a : UInt32) (hk : k ≤ 4)
    (hb : b.toNat < 128) (ha : a.toNat < 2 ^ (7 * k)) (hv : b.toNat * 2 ^ (7 * k) < 2 ^ 32) :
    lebRead 28 (b :: r) (7 * k) a = .ok (UInt32.ofNat (a.toNat + b.toNat * 2 ^ (7 * k)), r) := by
  have hp := and7f_toNat b
  rw [Nat.mod_eq_of_lt hb] at hp
  have hlast : ¬ (7 * k = 28 ∧ (b &&& 0x7f).toUInt32 > 0x0f) := by
    rintro ⟨h1, h2⟩
    rw [gt_iff_lt, UInt32.lt_iff_toNat_lt, hp] at h2
    have h15 : (0x0f : UInt32).toNat = 15 := rfl
    rw [h15] at h2
    rw [h1] at hv
    omega
  simp only [lebRead, if_neg (show ¬ 7 * k > 28 by omega), if_neg hlast,
    if_pos ((and80_eq_zero b).mpr hb), Except.ok.injEq, Prod.mk.injEq, and_true]
  rw [← UInt32.toNat_inj, or_payload_toNat (by omega) ha (by rw [hp]; exact hv), hp,
    UInt32.toNat_ofNat', Nat.mod_eq_of_lt (add_mul_lt_two_pow (by omega) ha hv)]

/-- A group with its continuation bit set adds its seven bits and goes on at the next shift. -/
theorem lebRead_more (b : UInt8) (r : Bytes) (k : Nat) (a : UInt32) (hk : k ≤ 3)
    (hb : 128 ≤ b.toNat) (ha : a.toNat < 2 ^ (7 * k)) :
    ∃ a', lebRead 28 (b :: r) (7 * k) a = lebRead 28 r (7 * (k + 1)) a' ∧
      a'.toNat = a.toNat + b.toNat % 128 * 2 ^ (7 * k) := by
  have hp := and7f_toNat b
  have hpow : 2 ^ (7 * k) ≤ 2 ^ 21 := Nat.pow_le_pow_right (by decide) (by omega)
  have hpay : b.toNat % 128 * 2 ^ (7 * k) < 2 ^ 32 :=
    calc b.toNat % 128 * 2 ^ (7 * k) ≤ 127 * 2 ^ 21 := Nat.mul_le_mul (by omega) hpow
      _ < 2 ^ 32 := by decide
  refine ⟨_, ?_, (or_payload_toNat (by omega) ha (by rw [hp]; exact hpay)).trans (by rw [hp])⟩
  have hlast : ¬ (7 * k = 28 ∧ (b &&& 0x7f).toUInt32 > 0x0f) := by
    rintro ⟨h1, _⟩; omega
  have hcont : ¬ b &&& 0x80 = 0 := by rw [and80_eq_zero]; omega
  simp only [lebRead, if_neg (show ¬ 7 * k > 28 by omega), if_neg hlast, if_neg hcont]
  rfl

/-- **A written group reads back**, whatever follows, from any of the five group positions. -/
theorem lebRead_lebBytes (v : UInt32) (r : Bytes) (k : Nat) (a : UInt32) (hk : k ≤ 4)
    (ha : a.toNat < 2 ^ (7 * k)) (hv : v.toNat * 2 ^ (7 * k) < 2 ^ 32) :
    lebRead 28 (lebBytes v ++ r) (7 * k) a =
      .ok (UInt32.ofNat (a.toNat + v.toNat * 2 ^ (7 * k)), r) := by
  induction hn : v.toNat using Nat.strongRecOn generalizing v k a with
  | ind n ih =>
    rw [← hn, lebBytes_eq]
    by_cases hsmall : v.toNat < 128
    · have hb : (UInt8.ofNat v.toNat).toNat = v.toNat := by rw [UInt8.toNat_ofNat']; omega
      rw [if_pos hsmall, List.cons_append, List.nil_append,
        lebRead_last _ r k a hk (by omega) ha (by rw [hb]; exact hv), hb]
    · have hb : (UInt8.ofNat (v.toNat % 128 + 128)).toNat = v.toNat % 128 + 128 := by
        rw [UInt8.toNat_ofNat']; omega
      have hk3 : k ≤ 3 := by
        by_contra hgt
        have h4 : k = 4 := by omega
        subst h4
        omega
      have hsh := shiftRight7_toNat v
      have hpow : 2 ^ (7 * (k + 1)) = 128 * 2 ^ (7 * k) := by
        rw [Nat.mul_add, Nat.pow_add, Nat.mul_comm]
      -- the value split at its seventh bit, scaled by the position of the group
      have hsplit : v.toNat % 128 * 2 ^ (7 * k) + v.toNat / 128 * (128 * 2 ^ (7 * k)) =
          v.toNat * 2 ^ (7 * k) := by
        rw [← Nat.mul_assoc, ← Nat.add_mul, Nat.mul_comm _ 128, Nat.mod_add_div]
      have hmod : v.toNat % 128 * 2 ^ (7 * k) ≤ 127 * 2 ^ (7 * k) :=
        Nat.mul_le_mul_right _ (by omega)
      obtain ⟨a', hread, ha'⟩ := lebRead_more (UInt8.ofNat (v.toNat % 128 + 128))
        (lebBytes (v >>> 7) ++ r) k a hk3 (by omega) ha
      rw [hb, show (v.toNat % 128 + 128) % 128 = v.toNat % 128 by omega] at ha'
      rw [if_neg hsmall, List.cons_append, hread,
        ih _ (by rw [← hn, hsh]; omega) (v >>> 7) (k + 1) a' (by omega)
          (by rw [ha', hpow]; omega) (by rw [hsh, hpow]; omega) rfl,
        ha', hsh, hpow, Nat.add_assoc, hsplit]

theorem lebRead_zero (v : UInt32) (r : Bytes) :
    lebRead 28 (lebBytes v ++ r) 0 0 = .ok (v, r) := by
  have h := lebRead_lebBytes v r 0 0 (by decide) (by decide) (by have := v.toNat_lt; omega)
  rw [h]
  congr 2
  rw [← UInt32.toNat_inj, UInt32.toNat_ofNat']
  have := v.toNat_lt
  simp only [UInt32.toNat_zero, Nat.mul_zero, Nat.pow_zero, Nat.mul_one, Nat.zero_add]
  omega

theorem lebBytes_ne_nil (v : UInt32) : ∃ b bs, lebBytes v = b :: bs := by
  rw [lebBytes_eq]
  split <;> exact ⟨_, _, rfl⟩

/-! ## VARINT -/

/-- `DTL_VARINT_LAST_SHIFT`. -/
def VARINT_LAST_SHIFT : Nat := 28

/-- The loop of `dtl_varint_decode`. -/
def varintDecodeLoop (cap : Nat) (inp out : Bytes) : Res Bytes :=
  if inp = [] then .ok out else
  match _h : lebRead VARINT_LAST_SHIFT inp 0 0 with
  | .error e => .error e
  | .ok (value, rest) => do
    let out ← emit cap out (endianWriteU32le value)
    varintDecodeLoop cap rest out
termination_by inp.length
decreasing_by exact lebRead_lt _h

/-- `dtl_varint_decode`. -/
def varintDecode (inp : Bytes) (cap : Nat) : Res Bytes := varintDecodeLoop cap inp []

/-- The loop of `dtl_varint_encode`. -/
def varintEncodeLoop (cap : Nat) : Bytes → Bytes → Res Bytes
  | [], out => .ok out
  | p0 :: p1 :: p2 :: p3 :: bs, out => do
    let out ← lebWrite cap (endianReadU32le p0 p1 p2 p3) out
    varintEncodeLoop cap bs out
  | _, _ => .error .truncated

/-- `dtl_varint_encode`. -/
def varintEncode (inp : Bytes) (cap : Nat) : Res Bytes := varintEncodeLoop cap inp []

def varintDecodePlan (inp : Bytes) : CodecPlan :=
  if inp = [] then Plan.done else
  match _h : lebRead VARINT_LAST_SHIFT inp 0 0 with
  | .error e => Plan.fail e
  | .ok (value, rest) => Plan.cons (endianWriteU32le value) (varintDecodePlan rest)
termination_by inp.length
decreasing_by exact lebRead_lt _h

def varintEncodePlan : Bytes → CodecPlan
  | [] => Plan.done
  | p0 :: p1 :: p2 :: p3 :: bs =>
    Plan.append (lebChunks (endianReadU32le p0 p1 p2 p3)) (varintEncodePlan bs)
  | _ => Plan.fail .truncated

theorem varintDecodePlan_nil : varintDecodePlan [] = Plan.done := by
  rw [varintDecodePlan, if_pos rfl]

theorem varintDecodePlan_ok {inp rest : Bytes} {v : UInt32} (hne : inp ≠ [])
    (h : lebRead VARINT_LAST_SHIFT inp 0 0 = .ok (v, rest)) :
    varintDecodePlan inp = Plan.cons (endianWriteU32le v) (varintDecodePlan rest) := by
  rw [varintDecodePlan, if_neg hne]
  split
  · rename_i h'; rw [h] at h'; cases h'
  · rename_i h'; rw [h] at h'; cases h'; rfl

theorem varintDecodeLoop_eq (cap : Nat) (inp out : Bytes) :
    varintDecodeLoop cap inp out = (varintDecodePlan inp).from .range cap out := by
  induction hn : inp.length using Nat.strongRecOn generalizing inp out with
  | ind n ih =>
    rw [varintDecodeLoop, varintDecodePlan]
    by_cases hne : inp = []
    · rw [if_pos hne, if_pos hne, Plan.from_done]
    · rw [if_neg hne, if_neg hne]
      split
      · rw [Plan.from_fail]
      · rename_i hread
        rw [Plan.from_cons]
        congr 1
        funext o
        exact ih _ (hn ▸ lebRead_lt hread) _ o rfl

theorem varintDecode_eq (inp : Bytes) (cap : Nat) :
    varintDecode inp cap = (varintDecodePlan inp).run .range cap := varintDecodeLoop_eq cap inp []

theorem varintEncodeLoop_eq (cap : Nat) : ∀ (inp out : Bytes),
    varintEncodeLoop cap inp out = (varintEncodePlan inp).from .range cap out
  | [], _ => rfl
  | [_], _ => rfl
  | [_, _], _ => rfl
  | [_, _, _], _ => rfl
  | p0 :: p1 :: p2 :: p3 :: bs, out => by
    rw [varintEncodeLoop, varintEncodePlan, Plan.from_append, lebWrite_eq]
    congr 1
    funext o
    exact varintEncodeLoop_eq cap bs o

theorem varintEncode_eq (inp : Bytes) (cap : Nat) :
    varintEncode inp cap = (varintEncodePlan inp).run .range cap := varintEncodeLoop_eq cap inp []

/-- **VARINT round trip** on what the encoder accepts: whole words. -/
theorem varintDecodePlan_encode : ∀ (inp : Bytes), (varintEncodePlan inp).stop = none →
    (varintDecodePlan (varintEncodePlan inp).output).stop = none ∧
      (varintDecodePlan (varintEncodePlan inp).output).output = inp
  | [], _ => by
    rw [varintEncodePlan, Plan.output_done, varintDecodePlan_nil]
    exact ⟨rfl, rfl⟩
  | [_], h => by cases h
  | [_, _], h => by cases h
  | [_, _, _], h => by cases h
  | p0 :: p1 :: p2 :: p3 :: bs, h => by
    rw [varintEncodePlan, Plan.stop_append] at h
    obtain ⟨ih1, ih2⟩ := varintDecodePlan_encode bs h
    obtain ⟨b, t, hb⟩ := lebBytes_ne_nil (endianReadU32le p0 p1 p2 p3)
    have hread := lebRead_zero (endianReadU32le p0 p1 p2 p3) (varintEncodePlan bs).output
    rw [varintEncodePlan, Plan.output_append, lebChunks_flatten,
      varintDecodePlan_ok (by rw [hb]; simp) hread]
    simp only [Plan.stop_cons, Plan.output_cons, ih1, ih2, endianWriteU32le_read, true_and]
    rfl

/-! ## DELTA -/

/-- `DTL_DELTA_LAST_SHIFT`. -/
def DELTA_LAST_SHIFT : Nat := 28

/-- `dtl_delta_zigzag`. -/
def deltaZigzag (d : UInt32) : UInt32 := (d <<< 1) ^^^ ((0 : UInt32) - (d >>> 31))

/-- `dtl_delta_unzigzag`. -/
def deltaUnzigzag (z : UInt32) : UInt32 := (z >>> 1) ^^^ ((0 : UInt32) - (z &&& 1))

/-- The loop of `dtl_delta_encode` over the words after the first; the length is a multiple of 4. -/
def deltaEncodeLoop (cap : Nat) (prev : UInt32) : Bytes → Bytes → Res Bytes
  | p0 :: p1 :: p2 :: p3 :: bs, out => do
    let cur := endianReadU32le p0 p1 p2 p3
    let out ← lebWrite cap (deltaZigzag (cur - prev)) out
    deltaEncodeLoop cap cur bs out
  | _, out => .ok out

/-- `dtl_delta_encode`. -/
def deltaEncode (inp : Bytes) (cap : Nat) : Res Bytes :=
  if inp.length = 0 then .ok [] else
  if inp.length % 4 ≠ 0 then .error .truncated else
  match inp with
  | p0 :: p1 :: p2 :: p3 :: bs => do
    let prev := endianReadU32le p0 p1 p2 p3
    let out ← emit cap [] (endianWriteU32le prev)
    deltaEncodeLoop cap prev bs out
  | _ => .error .truncated

/-- The loop of `dtl_delta_decode`. -/
def deltaDecodeLoop (cap : Nat) (prev : UInt32) (inp out : Bytes) : Res Bytes :=
  if inp = [] then .ok out else
  match _h : lebRead DELTA_LAST_SHIFT inp 0 0 with
  | .error e => .error e
  | .ok (zz, rest) => do
    let cur := prev + deltaUnzigzag zz
    let out ← emit cap out (endianWriteU32le cur)
    deltaDecodeLoop cap cur rest out
termination_by inp.length
decreasing_by exact lebRead_lt _h

/-- `dtl_delta_decode`. -/
def deltaDecode (inp : Bytes) (cap : Nat) : Res Bytes :=
  match inp with
  | [] => .ok []
  | p0 :: p1 :: p2 :: p3 :: bs => do
    let prev := endianReadU32le p0 p1 p2 p3
    let out ← emit cap [] (endianWriteU32le prev)
    deltaDecodeLoop cap prev bs out
  | _ => .error .truncated

def deltaEncodeRest (prev : UInt32) : Bytes → CodecPlan
  | p0 :: p1 :: p2 :: p3 :: bs =>
    let cur := endianReadU32le p0 p1 p2 p3
    Plan.append (lebChunks (deltaZigzag (cur - prev))) (deltaEncodeRest cur bs)
  | _ => Plan.done

def deltaEncodePlan (inp : Bytes) : CodecPlan :=
  if inp.length = 0 then Plan.done else
  if inp.length % 4 ≠ 0 then Plan.fail .truncated else
  match inp with
  | p0 :: p1 :: p2 :: p3 :: bs =>
    let prev := endianReadU32le p0 p1 p2 p3
    Plan.cons (endianWriteU32le prev) (deltaEncodeRest prev bs)
  | _ => Plan.fail .truncated

def deltaDecodeRest (prev : UInt32) (inp : Bytes) : CodecPlan :=
  if inp = [] then Plan.done else
  match _h : lebRead DELTA_LAST_SHIFT inp 0 0 with
  | .error e => Plan.fail e
  | .ok (zz, rest) =>
    let cur := prev + deltaUnzigzag zz
    Plan.cons (endianWriteU32le cur) (deltaDecodeRest cur rest)
termination_by inp.length
decreasing_by exact lebRead_lt _h

def deltaDecodePlan : Bytes → CodecPlan
  | [] => Plan.done
  | p0 :: p1 :: p2 :: p3 :: bs =>
    let prev := endianReadU32le p0 p1 p2 p3
    Plan.cons (endianWriteU32le prev) (deltaDecodeRest prev bs)
  | _ => Plan.fail .truncated

theorem deltaEncodeLoop_eq (cap : Nat) : ∀ (prev : UInt32) (inp out : Bytes),
    deltaEncodeLoop cap prev inp out = (deltaEncodeRest prev inp).from .range cap out
  | _, [], _ => rfl
  | _, [_], _ => rfl
  | _, [_, _], _ => rfl
  | _, [_, _, _], _ => rfl
  | prev, p0 :: p1 :: p2 :: p3 :: bs, out => by
    rw [deltaEncodeLoop, deltaEncodeRest, Plan.from_append, lebWrite_eq]
    congr 1
    funext o
    exact deltaEncodeLoop_eq cap _ bs o

theorem deltaEncode_eq (inp : Bytes) (cap : Nat) :
    deltaEncode inp cap = (deltaEncodePlan inp).run .range cap := by
  unfold deltaEncode deltaEncodePlan
  split
  · rfl
  split
  · rfl
  split
  · refine Eq.trans ?_ (Plan.from_cons Err.range cap _ _ []).symm
    dsimp only
    congr 1
    funext o
    exact deltaEncodeLoop_eq cap _ _ o
  · rfl

theorem deltaDecodeLoop_eq (cap : Nat) (prev : UInt32) (inp out : Bytes) :
    deltaDecodeLoop cap prev inp out = (deltaDecodeRest prev inp).from .range cap out := by
  induction hn : inp.length using Nat.strongRecOn generalizing prev inp out with
  | ind n ih =>
    rw [deltaDecodeLoop, deltaDecodeRest]
    by_cases hne : inp = []
    · rw [if_pos hne, if_pos hne, Plan.from_done]
    · rw [if_neg hne, if_neg hne]
      split
      · rw [Plan.from_fail]
      · rename_i hread
        rw [Plan.from_cons]
        dsimp only
        congr 1
        funext o
        exact ih _ (hn ▸ lebRead_lt hread) _ _ o rfl

theorem deltaDecode_eq (inp : Bytes) (cap : Nat) :
    deltaDecode inp cap = (deltaDecodePlan inp).run .range cap := by
  unfold deltaDecode deltaDecodePlan
  split
  · rfl
  · refine Eq.trans ?_ (Plan.from_cons Err.range cap _ _ []).symm
    dsimp only
    congr 1
    funext o
    exact deltaDecodeLoop_eq cap _ _ o
  · rfl

/-- A non-negative delta is doubled, a negative one doubled and complemented. -/
theorem deltaZigzag_eq (d : UInt32) :
    deltaZigzag d = if d.toNat < 2 ^ 31 then d <<< 1 else ~~~(d <<< 1) := by
  have hd := d.toNat_lt
  have hsign : (d >>> 31).toNat = d.toNat / 2 ^ 31 := by
    simp [UInt32.toNat_shiftRight, Nat.shiftRight_eq_div_pow]
  unfold deltaZigzag
  split
  · have h0 : d >>> 31 = 0 := by rw [← UInt32.toNat_inj, hsign]; simp; omega
    rw [h0]; simp
  · have h1 : d >>> 31 = 1 := by rw [← UInt32.toNat_inj, hsign]; simp; omega
    rw [h1, show (0 : UInt32) - 1 = -1 from rfl, UInt32.xor_neg_one]

/-- An even code is halved, an odd one halved and complemented. -/
theorem deltaUnzigzag_eq (z : UInt32) :
    deltaUnzigzag z = if z.toNat % 2 = 0 then z >>> 1 else ~~~(z >>> 1) := by
  have hlow : (z &&& 1).toNat = z.toNat % 2 := by
    rw [UInt32.toNat_and]; exact Nat.and_one_is_mod _
  unfold deltaUnzigzag
  split
  · have h0 : z &&& 1 = 0 := by rw [← UInt32.toNat_inj, hlow]; simpa
    rw [h0]; simp
  · have h1 : z &&& 1 = 1 := by rw [← UInt32.toNat_inj, hlow]; simp; omega
    rw [h1, show (0 : UInt32) - 1 = -1 from rfl, UInt32.xor_neg_one]

/-- The zig-zag map is undone. -/
theorem deltaUnzigzag_zigzag (d : UInt32) : deltaUnzigzag (deltaZigzag d) = d := by
  have hd := d.toNat_lt
  have hshl : (d <<< 1).toNat = 2 * d.toNat % 2 ^ 32 := by
    simp [UInt32.toNat_shiftLeft, Nat.shiftLeft_eq, Nat.mul_comm]
  have hnot : (~~~(d <<< 1)).toNat = 2 ^ 32 - 1 - 2 * d.toNat % 2 ^ 32 := by
    rw [UInt32.toNat_not, hshl]; rfl
  have hshr : ∀ z : UInt32, (z >>> 1).toNat = z.toNat / 2 := by
    intro z; simp [UInt32.toNat_shiftRight, Nat.shiftRight_eq_div_pow]
  rw [deltaUnzigzag_eq, deltaZigzag_eq]
  by_cases hsign : d.toNat < 2 ^ 31
  · rw [if_pos hsign, if_pos (by rw [hshl]; omega), ← UInt32.toNat_inj, hshr, hshl]
    omega
  · rw [if_neg hsign, if_neg (by rw [hnot]; omega), ← UInt32.toNat_inj, UInt32.toNat_not, hshr,
      hnot, UInt32.size]
    omega

theorem deltaDecodeRest_nil (prev : UInt32) : deltaDecodeRest prev [] = Plan.done := by
  rw [deltaDecodeRest, if_pos rfl]

theorem deltaDecodeRest_ok {prev : UInt32} {inp rest : Bytes} {z : UInt32} (hne : inp ≠ [])
    (h : lebRead DELTA_LAST_SHIFT inp 0 0 = .ok (z, rest)) :
    deltaDecodeRest prev inp = Plan.cons (endianWriteU32le (prev + deltaUnzigzag z))
      (deltaDecodeRest (prev + deltaUnzigzag z) rest) := by
  rw [deltaDecodeRest, if_neg hne]
  split
  · rename_i h'; rw [h] at h'; cases h'
  · rename_i h'; rw [h] at h'; cases h'; rfl

theorem deltaDecodeRest_encode : ∀ (prev : UInt32) (inp : Bytes), inp.length % 4 = 0 →
    (deltaEncodeRest prev inp).stop = none ∧
      (deltaDecodeRest prev (deltaEncodeRest prev inp).output).stop = none ∧
      (deltaDecodeRest prev (deltaEncodeRest prev inp).output).output = inp
  | prev, [], _ => by
    rw [deltaEncodeRest, Plan.output_done, deltaDecodeRest_nil]
    · exact ⟨rfl, rfl, rfl⟩
    · simp
  | _, [_], h => by cases h
  | _, [_, _], h => by cases h
  | _, [_, _, _], h => by cases h
  | prev, p0 :: p1 :: p2 :: p3 :: bs, h => by
    have hbs : bs.length % 4 = 0 := by simp only [List.length_cons] at h; omega
    obtain ⟨ih0, ih1, ih2⟩ := deltaDecodeRest_encode (endianReadU32le p0 p1 p2 p3) bs hbs
    have hback : prev + deltaUnzigzag (deltaZigzag (endianReadU32le p0 p1 p2 p3 - prev)) =
        endianReadU32le p0 p1 p2 p3 := by
      rw [deltaUnzigzag_zigzag, UInt32.add_comm, UInt32.sub_add_cancel]
    obtain ⟨b, t, hb⟩ := lebBytes_ne_nil (deltaZigzag (endianReadU32le p0 p1 p2 p3 - prev))
    have hread := lebRead_zero (deltaZigzag (endianReadU32le p0 p1 p2 p3 - prev))
      (deltaEncodeRest (endianReadU32le p0 p1 p2 p3) bs).output
    simp only [deltaEncodeRest, Plan.output_append, Plan.stop_append, lebChunks_flatten]
    rw [deltaDecodeRest_ok (by rw [hb]; simp) hread, hback]
    simp only [Plan.stop_cons, Plan.output_cons, ih0, ih1, ih2, endianWriteU32le_read, true_and]
    rfl

/-- **DELTA round trip** on what the encoder accepts: whole words. -/
theorem deltaDecodePlan_encode (inp : Bytes) (h : (deltaEncodePlan inp).stop = none) :
    (deltaDecodePlan (deltaEncodePlan inp).output).stop = none ∧
      (deltaDecodePlan (deltaEncodePlan inp).output).output = inp := by
  unfold deltaEncodePlan at h ⊢
  split at h
  · rename_i h0
    rw [if_pos h0, List.length_eq_zero_iff.mp h0]
    exact ⟨rfl, rfl⟩
  rename_i h0
  split at h
  · cases h
  rename_i h4
  rw [if_neg h0, if_neg h4]
  split at h
  · rename_i p0 p1 p2 p3 bs
    have hbs : bs.length % 4 = 0 := by simp only [List.length_cons] at h4; omega
    obtain ⟨-, h1, h2⟩ := deltaDecodeRest_encode (endianReadU32le p0 p1 p2 p3) bs hbs
    simp only [Plan.output_cons, endianWriteU32le_read, List.cons_append, List.nil_append,
      deltaDecodePlan, Plan.stop_cons, h1, h2, true_and]
  · cases h

end Dtl
