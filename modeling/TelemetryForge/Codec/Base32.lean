import TelemetryForge.Codec.Rle

/-!
# The BASE32 codec

Model of `codec/base32`: RFC 4648 alphabet, groups of five bytes to eight characters, the last
group padded with `=`.  The accumulator is the source's `uint64_t`, as a `Nat` below `2^40`.

`base32DecodePlan_encode` — the round trip.
-/

set_option autoImplicit false

namespace Dtl

open Sink

/-- `dtl_base32_alphabet`. -/
def base32Alphabet : Bytes := ascii "ABCDEFGHIJKLMNOPQRSTUVWXYZ234567"

/-- `dtl_base32_rev`: the alphabet index of a character, `none` for `-1`. -/
def base32Rev (c : UInt8) : Option Nat := base32Alphabet.findIdx? (· = c)

/-- `'='`. -/
def BASE32_PAD : UInt8 := 61

/-- `dtl_base32_chars_for_bytes`. -/
def base32CharsForBytes (b : Nat) : Nat := [0, 2, 4, 5, 7, 8].getD b 0

/-! ## Encoder -/

/-- The accumulator of a group: byte `k` at bit position `8 * (4 - k)`. -/
def base32Gather : Nat → Bytes → Nat
  | _, [] => 0
  | k, b :: bs => (b.toNat <<< (8 * (4 - k))) ||| base32Gather (k + 1) bs

/-- Character `j` of a group with accumulator `acc`. -/
def base32Char (acc j : Nat) : UInt8 := base32Alphabet.getD ((acc >>> (5 * (7 - j))) &&& 0x1f) 0

/-- The eight characters of a group of at most five bytes. -/
def base32Group (group : Bytes) : Bytes :=
  let acc := base32Gather 0 group
  let chars := base32CharsForBytes group.length
  (List.range 8).map fun j => if j < chars then base32Char acc j else BASE32_PAD

/-- The loop of `dtl_base32_encode`. -/
def base32EncodeLoop (cap : Nat) (inp out : Bytes) : Res Bytes :=
  if inp.length = 0 then .ok out else do
  let out ← emit cap out (base32Group (inp.take 5))
  base32EncodeLoop cap (inp.drop 5) out
termination_by inp.length
decreasing_by simp only [List.length_drop]; omega

/-- `dtl_base32_encode`. -/
def base32Encode (inp : Bytes) (cap : Nat) : Res Bytes := base32EncodeLoop cap inp []

/-! ## Decoder -/

/-- The padding count: trailing `=` of a group. -/
def base32Pad (grp : Bytes) : Nat := (grp.reverse.takeWhile (· = BASE32_PAD)).length

/-- The data bytes of a group with `pad` padding characters. -/
def base32DataBytes : Nat → Option Nat
  | 0 => some 5
  | 1 => some 4
  | 3 => some 3
  | 4 => some 2
  | 6 => some 1
  | _ => none

/-- The character loop: character `j` at bit position `5 * (7 - j)`. -/
def base32Scatter : Nat → Bytes → Option Nat
  | _, [] => some 0
  | j, c :: cs =>
    match base32Rev c with
    | none => none
    | some v =>
      match base32Scatter (j + 1) cs with
      | none => none
      | some acc => some ((v <<< (5 * (7 - j))) ||| acc)

/-- One group of `dtl_base32_decode`: the bytes it writes. -/
def base32Ungroup (last : Bool) (grp : Bytes) : Res Bytes :=
  let pad := base32Pad grp
  if last = false ∧ pad ≠ 0 then .error .badRecord else
  match base32DataBytes pad with
  | none => .error .badRecord
  | some databytes =>
    match base32Scatter 0 (grp.take (8 - pad)) with
    | none => .error .badRecord
    | some acc =>
      .ok ((List.range databytes).map fun k => UInt8.ofNat ((acc >>> (8 * (4 - k))) &&& 0xff))

/-- The group loop of `dtl_base32_decode`. -/
def base32DecodeLoop (cap : Nat) (inp out : Bytes) : Res Bytes :=
  if inp.length = 0 then .ok out else do
  let bytes ← base32Ungroup (decide ((inp.drop 8).length = 0)) (inp.take 8)
  let out ← emit cap out bytes
  base32DecodeLoop cap (inp.drop 8) out
termination_by inp.length
decreasing_by simp only [List.length_drop]; omega

/-- `dtl_base32_decode`. -/
def base32Decode (inp : Bytes) (cap : Nat) : Res Bytes :=
  if inp.length = 0 then .ok [] else do
  failIf (inp.length % 8 ≠ 0) .truncated
  base32DecodeLoop cap inp []

/-! ## Plans -/

def base32EncodePlan (inp : Bytes) : CodecPlan :=
  if inp.length = 0 then Plan.done
  else Plan.cons (base32Group (inp.take 5)) (base32EncodePlan (inp.drop 5))
termination_by inp.length
decreasing_by simp only [List.length_drop]; omega

def base32DecodeGroups (inp : Bytes) : CodecPlan :=
  if inp.length = 0 then Plan.done
  else
    match base32Ungroup (decide ((inp.drop 8).length = 0)) (inp.take 8) with
    | .error e => Plan.fail e
    | .ok bytes => Plan.cons bytes (base32DecodeGroups (inp.drop 8))
termination_by inp.length
decreasing_by simp only [List.length_drop]; omega

def base32DecodePlan (inp : Bytes) : CodecPlan :=
  if inp.length = 0 then Plan.done
  else if inp.length % 8 ≠ 0 then Plan.fail .truncated
  else base32DecodeGroups inp

theorem base32EncodeLoop_eq (cap : Nat) (inp out : Bytes) :
    base32EncodeLoop cap inp out = (base32EncodePlan inp).from .range cap out := by
  induction hn : inp.length using Nat.strongRecOn generalizing inp out with
  | ind n ih =>
    rw [base32EncodeLoop, base32EncodePlan]
    by_cases h : inp.length = 0
    · rw [if_pos h, if_pos h]; rfl
    · rw [if_neg h, if_neg h, Plan.from_cons]
      congr 1
      funext o
      exact ih _ (by rw [← hn, List.length_drop]; omega) _ o rfl

theorem base32Encode_eq (inp : Bytes) (cap : Nat) :
    base32Encode inp cap = (base32EncodePlan inp).run .range cap := base32EncodeLoop_eq cap inp []

theorem base32DecodeLoop_eq (cap : Nat) (inp out : Bytes) :
    base32DecodeLoop cap inp out = (base32DecodeGroups inp).from .range cap out := by
  induction hn : inp.length using Nat.strongRecOn generalizing inp out with
  | ind n ih =>
    rw [base32DecodeLoop, base32DecodeGroups]
    by_cases h : inp.length = 0
    · rw [if_pos h, if_pos h]; rfl
    · rw [if_neg h, if_neg h]
      cases base32Ungroup (decide ((inp.drop 8).length = 0)) (inp.take 8) with
      | error e => rfl
      | ok bytes =>
        rw [Except.bind_ok_eq, Plan.from_cons]
        congr 1
        funext o
        exact ih _ (by rw [← hn, List.length_drop]; omega) _ o rfl

theorem base32Decode_eq (inp : Bytes) (cap : Nat) :
    base32Decode inp cap = (base32DecodePlan inp).run .range cap := by
  unfold base32Decode base32DecodePlan
  split
  · rfl
  by_cases h : inp.length % 8 ≠ 0
  · rw [failIf_pos h, if_pos h]; rfl
  · rw [failIf_neg h, if_neg h]
    exact base32DecodeLoop_eq cap inp []

/-! ## One group -/

/-- The alphabet is inverted by the reverse map and does not contain the padding character. -/
theorem base32Rev_alphabet {v : Nat} (hv : v < 32) :
    base32Rev (base32Alphabet.getD v 0) = some v ∧ base32Alphabet.getD v 0 ≠ BASE32_PAD := by
  have hall : ∀ v : Fin 32, base32Rev (base32Alphabet.getD v.val 0) = some v.val ∧
      base32Alphabet.getD v.val 0 ≠ BASE32_PAD := by decide +kernel
  exact hall ⟨v, hv⟩

theorem base32Char_eq (acc j : Nat) :
    base32Char acc j = base32Alphabet.getD (acc / 2 ^ (5 * (7 - j)) % 32) 0 := by
  have hm : ∀ n : Nat, n &&& 31 = n % 32 := fun n => Nat.and_two_pow_sub_one_eq_mod n 5
  rw [base32Char, Nat.shiftRight_eq_div_pow, hm]

theorem base32Rev_char (acc j : Nat) :
    base32Rev (base32Char acc j) = some (acc / 2 ^ (5 * (7 - j)) % 32) ∧
      base32Char acc j ≠ BASE32_PAD := by
  rw [base32Char_eq]
  exact base32Rev_alphabet (Nat.mod_lt _ (by decide))

/-- Gathering the characters `j .. j + m` recovers those five-bit digits of the accumulator. -/
theorem base32Scatter_chars (acc : Nat) : ∀ (m j : Nat), j + m ≤ 8 →
    base32Scatter j ((List.range' j m).map (base32Char acc)) =
      some (acc % 2 ^ (5 * (8 - j)) - acc % 2 ^ (5 * (8 - j - m)))
  | 0, j, _ => by simp [base32Scatter]
  | m + 1, j, h => by
    have ih := base32Scatter_chars acc m (j + 1) (by omega)
    rw [show 8 - (j + 1) = 7 - j by omega, show 7 - j - m = 8 - j - (m + 1) by omega] at ih
    obtain ⟨M, hM⟩ : ∃ M, M = 2 ^ (5 * (7 - j)) := ⟨_, rfl⟩
    have hpow : 2 ^ (5 * (8 - j)) = M * 32 := by
      rw [hM, show 5 * (8 - j) = 5 * (7 - j) + 5 by omega, Nat.pow_add]
    have hlow : acc % 2 ^ (5 * (8 - j - (m + 1))) ≤ acc % M := by
      rw [hM, ← Nat.mod_mod_of_dvd acc (Nat.pow_dvd_pow 2
        (show 5 * (8 - j - (m + 1)) ≤ 5 * (7 - j) by omega))]
      exact Nat.mod_le _ _
    have hlt : acc % M < M := Nat.mod_lt _ (by rw [hM]; exact Nat.two_pow_pos _)
    rw [List.range'_succ, List.map_cons, base32Scatter, (base32Rev_char acc j).1, ih]
    dsimp only
    rw [Nat.or_comm, or_shift_eq_add (by rw [← hM]; omega), ← hM, hpow, Nat.mod_mul,
      Nat.mul_comm M]
    congr 1
    omega

/-- What a group's accumulator holds: its bytes as base-256 digits from the top. -/
theorem base32Gather_spec : ∀ (bs : Bytes) (k : Nat), k + bs.length ≤ 5 →
    base32Gather k bs < 2 ^ (8 * (5 - k)) ∧
      base32Gather k bs % 2 ^ (8 * (5 - k - bs.length)) = 0 ∧
      ∀ i (hi : i < bs.length), base32Gather k bs / 2 ^ (8 * (4 - k - i)) % 256 =
        (bs.get ⟨i, hi⟩).toNat
  | [], k, _ => by
    refine ⟨Nat.two_pow_pos _, by simp [base32Gather], fun i hi => absurd hi (by simp)⟩
  | b :: bs, k, h => by
    rw [List.length_cons] at h
    obtain ⟨h1, h2, h3⟩ := base32Gather_spec bs (k + 1) (by omega)
    rw [show 5 - (k + 1) = 4 - k by omega] at h1 h2
    have hb := b.toNat_lt
    have hsum : base32Gather k (b :: bs) = base32Gather (k + 1) bs + b.toNat * 2 ^ (8 * (4 - k)) := by
      rw [base32Gather, Nat.or_comm, or_shift_eq_add h1]
    have hpow : 2 ^ (8 * (5 - k)) = 256 * 2 ^ (8 * (4 - k)) := by
      rw [show 8 * (5 - k) = 8 + 8 * (4 - k) by omega, Nat.pow_add]
    have hle : b.toNat * 2 ^ (8 * (4 - k)) ≤ 255 * 2 ^ (8 * (4 - k)) :=
      Nat.mul_le_mul_right _ (by omega)
    rw [hsum]
    refine ⟨by rw [hpow]; omega, ?_, ?_⟩
    · rw [List.length_cons, show 5 - k - (bs.length + 1) = 4 - k - bs.length by omega]
      have hdvd : 2 ^ (8 * (4 - k - bs.length)) ∣ b.toNat * 2 ^ (8 * (4 - k)) :=
        Dvd.dvd.mul_left (Nat.pow_dvd_pow 2 (by omega)) _
      rw [Nat.add_mod, h2, Nat.mod_eq_zero_of_dvd hdvd]
      simp
    · intro i hi
      cases i with
      | zero =>
        rw [Nat.sub_zero, Nat.add_mul_div_right _ _ (Nat.two_pow_pos _), Nat.div_eq_of_lt h1,
          Nat.zero_add, Nat.mod_eq_of_lt hb]
        rfl
      | succ i =>
        rw [List.length_cons] at hi
        have hi' : i < bs.length := by omega
        have hval := h3 i hi'
        rw [show 4 - (k + 1) - i = 4 - k - (i + 1) by omega] at hval
        -- the new byte lies 8 bits above the digits of the others
        have hfac : b.toNat * 2 ^ (8 * (4 - k)) =
            b.toNat * 2 ^ (8 * i) * 256 * 2 ^ (8 * (4 - k - (i + 1))) := by
          rw [show (256 : Nat) = 2 ^ 8 from rfl, Nat.mul_assoc, Nat.mul_assoc, ← Nat.pow_add,
            ← Nat.pow_add]
          congr 2; omega
        rw [hfac, Nat.add_mul_div_right _ _ (Nat.two_pow_pos _), Nat.add_mul_mod_self_right, hval]
        rfl

/-- A group of `n` bytes has enough characters for its bits, and its padding names `n` again. -/
theorem base32_counts {n : Nat} (h1 : 1 ≤ n) (h5 : n ≤ 5) :
    1 ≤ base32CharsForBytes n ∧ base32CharsForBytes n ≤ 8 ∧ 8 * n ≤ 5 * base32CharsForBytes n ∧
      base32DataBytes (8 - base32CharsForBytes n) = some n ∧
      (n = 5 → base32CharsForBytes n = 8) := by
  have hall : ∀ n : Fin 6, 1 ≤ n.val → 1 ≤ base32CharsForBytes n ∧ base32CharsForBytes n ≤ 8 ∧
      8 * n.val ≤ 5 * base32CharsForBytes n ∧
      base32DataBytes (8 - base32CharsForBytes n) = some n.val ∧
      (n.val = 5 → base32CharsForBytes n = 8) := by decide +kernel
  exact hall ⟨n, by omega⟩ h1

theorem base32Group_eq (group : Bytes) (h : base32CharsForBytes group.length ≤ 8) :
    base32Group group =
      (List.range' 0 (base32CharsForBytes group.length)).map (base32Char (base32Gather 0 group)) ++
        List.replicate (8 - base32CharsForBytes group.length) BASE32_PAD := by
  refine List.ext_getElem (by simp [base32Group]; omega) fun i hi _ => ?_
  have hi8 : i < 8 := by simpa [base32Group] using hi
  by_cases hc : i < base32CharsForBytes group.length
  · rw [List.getElem_append_left (by simpa using hc)]
    simp [base32Group, hc]
  · rw [List.getElem_append_right (by simp; omega)]
    simp [base32Group, hc]

theorem base32Pad_group (group : Bytes) (h1 : 1 ≤ base32CharsForBytes group.length)
    (h8 : base32CharsForBytes group.length ≤ 8) :
    base32Pad (base32Group group) = 8 - base32CharsForBytes group.length := by
  obtain ⟨c, hc⟩ : ∃ c, base32CharsForBytes group.length = c + 1 :=
    ⟨base32CharsForBytes group.length - 1, by omega⟩
  have hne := (base32Rev_char (base32Gather 0 group) c).2
  rw [base32Pad, base32Group_eq group h8, List.reverse_append, List.reverse_replicate,
    List.takeWhile_append_of_pos (by simp), hc, List.range'_concat, List.map_append,
    List.reverse_append]
  simp [hne]

/-- **A group decodes to its bytes.** -/
theorem base32Ungroup_group (last : Bool) (group : Bytes) (h1 : 1 ≤ group.length)
    (h5 : group.length ≤ 5) (hlast : last = false → group.length = 5) :
    base32Ungroup last (base32Group group) = .ok group := by
  obtain ⟨hc1, hc8, hbits, hdata, hfull⟩ := base32_counts h1 h5
  obtain ⟨hlt, hzero, hdigit⟩ := base32Gather_spec group 0 (by omega)
  have hscatter := base32Scatter_chars (base32Gather 0 group) (base32CharsForBytes group.length) 0
    (by omega)
  -- the bits below the last character are below the last byte, hence zero
  have hlow : base32Gather 0 group % 2 ^ (5 * (8 - 0 - base32CharsForBytes group.length)) = 0 := by
    rw [← Nat.mod_mod_of_dvd _ (Nat.pow_dvd_pow 2
      (show 5 * (8 - 0 - base32CharsForBytes group.length) ≤ 8 * (5 - 0 - group.length) by omega)),
      hzero, Nat.zero_mod]
  rw [hlow, Nat.sub_zero, Nat.mod_eq_of_lt hlt] at hscatter
  have hpad := base32Pad_group group hc1 hc8
  have hguard : ¬ (last = false ∧ 8 - base32CharsForBytes group.length ≠ 0) := by
    rintro ⟨hl, hne⟩
    have := hfull (hlast hl)
    omega
  have htake : (base32Group group).take (base32CharsForBytes group.length) =
      (List.range' 0 (base32CharsForBytes group.length)).map (base32Char (base32Gather 0 group)) := by
    rw [base32Group_eq group hc8, List.take_append_of_le_length (by simp),
      List.take_of_length_le (by simp)]
  have hm : ∀ n : Nat, n &&& 255 = n % 256 := fun n => Nat.and_two_pow_sub_one_eq_mod n 8
  unfold base32Ungroup
  dsimp only
  rw [hpad, if_neg hguard, hdata, show 8 - (8 - base32CharsForBytes group.length) =
    base32CharsForBytes group.length by omega, htake, hscatter]
  dsimp only
  congr 1
  refine List.ext_getElem (by simp) fun i hi hi' => ?_
  have hd := hdigit i hi'
  rw [Nat.sub_zero] at hd
  rw [List.getElem_map, List.getElem_range, hm, Nat.shiftRight_eq_div_pow, hd]
  exact UInt8.ofNat_toNat

/-! ## Round trip -/

theorem base32EncodePlan_stop (inp : Bytes) : (base32EncodePlan inp).stop = none := by
  induction hn : inp.length using Nat.strongRecOn generalizing inp with
  | ind n ih =>
    rw [base32EncodePlan]
    split
    · rfl
    · exact ih _ (by rw [← hn, List.length_drop]; omega) _ rfl

@[simp] theorem base32Group_length (group : Bytes) : (base32Group group).length = 8 := by
  simp [base32Group]

theorem base32EncodePlan_output (inp : Bytes) (h : inp.length ≠ 0) :
    (base32EncodePlan inp).output =
      base32Group (inp.take 5) ++ (base32EncodePlan (inp.drop 5)).output := by
  rw [base32EncodePlan, if_neg h, Plan.output_cons]

/-- The encoder writes whole groups, and nothing for an empty input only. -/
theorem base32EncodePlan_length (inp : Bytes) :
    (base32EncodePlan inp).output.length % 8 = 0 ∧
      ((base32EncodePlan inp).output.length = 0 ↔ inp.length = 0) := by
  induction hn : inp.length using Nat.strongRecOn generalizing inp with
  | ind n ih =>
    by_cases h : inp.length = 0
    · rw [base32EncodePlan, if_pos h]; simp; omega
    · have := (ih _ (by rw [← hn, List.length_drop]; omega) (inp.drop 5) rfl).1
      rw [base32EncodePlan_output inp h, List.length_append, base32Group_length]
      omega

theorem base32DecodeGroups_encode (inp : Bytes) :
    (base32DecodeGroups (base32EncodePlan inp).output).stop = none ∧
      (base32DecodeGroups (base32EncodePlan inp).output).output = inp := by
  induction hn : inp.length using Nat.strongRecOn generalizing inp with
  | ind n ih =>
    by_cases h : inp.length = 0
    · rw [base32EncodePlan, if_pos h, base32DecodeGroups, List.length_eq_zero_iff.mp h]
      exact ⟨rfl, rfl⟩
    · obtain ⟨ih1, ih2⟩ := ih _ (by rw [← hn, List.length_drop]; omega) (inp.drop 5) rfl
      have hlen5 : (inp.take 5).length = min 5 inp.length := List.length_take
      have hempty := (base32EncodePlan_length (inp.drop 5)).2
      rw [List.length_drop] at hempty
      have hgroup := base32Ungroup_group
        (decide ((base32EncodePlan (inp.drop 5)).output.length = 0)) (inp.take 5) (by omega) (by omega)
        (by intro hl; have := of_decide_eq_false hl; omega)
      have h8 : (base32Group (inp.take 5) ++ (base32EncodePlan (inp.drop 5)).output).take 8 =
          base32Group (inp.take 5) := List.take_left' (base32Group_length _)
      have h8' : (base32Group (inp.take 5) ++ (base32EncodePlan (inp.drop 5)).output).drop 8 =
          (base32EncodePlan (inp.drop 5)).output := List.drop_left' (base32Group_length _)
      rw [base32EncodePlan_output inp h, base32DecodeGroups, if_neg (by simp), h8, h8', hgroup]
      simp only [Plan.stop_cons, Plan.output_cons, ih1, ih2, List.take_append_drop, and_self]

/-- **BASE32 round trip.** -/
theorem base32DecodePlan_encode (inp : Bytes) :
    (base32DecodePlan (base32EncodePlan inp).output).stop = none ∧
      (base32DecodePlan (base32EncodePlan inp).output).output = inp := by
  obtain ⟨h8, h0⟩ := base32EncodePlan_length inp
  unfold base32DecodePlan
  split
  · rename_i hz
    rw [List.length_eq_zero_iff.mp (h0.mp hz)]
    exact ⟨rfl, rfl⟩
  · rw [if_neg (by simpa using h8)]
    exact base32DecodeGroups_encode inp

end Dtl
