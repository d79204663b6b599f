import Mathlib.Data.List.TakeWhile
import TelemetryForge.Codec.Leb

/-!
# What the LEB128 readers accept

A `LebGroup` is one number on the wire: up to five bytes, all but the last with the high bit set, the
fifth holding at most the four bits that are left of a 32-bit word.  A byte string is a sequence of
groups, up to a rest that is empty, overflows (`LebOverflow`) or ends inside a group (`LebCut`).

Principal results: `varint_spec` — the varint decoder accepts the sequences of groups and reports
which way the first ill-formed group fails; `delta_roundtrip`; `delta_agrees_varint` — the two copies
of the reader agree on every input.
-/

set_option autoImplicit false

namespace Dtl

open Sink

/-! ## Groups -/

/-- The payloads of a group's bytes from the `k`-th on, each at its position: the sum of
`payload * 2 ^ (7 * k)`. -/
def lebPayloads : Nat → Bytes → Nat
  | _, [] => 0
  | k, b :: bs => b.toNat % 128 * 2 ^ (7 * k) + lebPayloads (k + 1) bs

/-- One number on the wire, in any spelling a decoder accepts. -/
structure LebGroup where
  init : Bytes
  last : UInt8
  short : init.length ≤ 4
  /-- every byte but the last is followed by another -/
  more : ∀ b ∈ init, 128 ≤ b.toNat
  ends : last.toNat < 128
  /-- the fifth byte holds the top four bits of a word -/
  fifth : init.length = 4 → last.toNat ≤ 15

namespace LebGroup

def bytes (g : LebGroup) : Bytes := g.init ++ [g.last]

def value (g : LebGroup) : Nat := lebPayloads 0 g.bytes

def word (g : LebGroup) : UInt32 := UInt32.ofNat g.value

end LebGroup

/-- A group that does not fit a word: more than four payload bits in the fifth byte, or a sixth
byte. -/
def LebOverflow (s : Bytes) : Prop :=
  ∃ init b r, s = init ++ b :: r ∧ (∀ c ∈ init, 128 ≤ c.toNat) ∧
    (init.length = 4 ∧ 15 < b.toNat % 128 ∨ init.length = 5)

/-- The bytes end inside a group, before anything overflows. -/
def LebCut (s : Bytes) : Prop :=
  s ≠ [] ∧ s.length ≤ 5 ∧ (∀ c ∈ s, 128 ≤ c.toNat) ∧ ∀ b, s[4]? = some b → b.toNat % 128 ≤ 15

theorem lebPayloads_append : ∀ (k : Nat) (xs ys : Bytes),
    lebPayloads k (xs ++ ys) = lebPayloads k xs + lebPayloads (k + xs.length) ys
  | k, [], ys => by simp [lebPayloads]
  | k, x :: xs, ys => by
    rw [List.cons_append, lebPayloads, lebPayloads, lebPayloads_append, List.length_cons,
      Nat.add_assoc, Nat.add_assoc, Nat.add_comm 1]

theorem lebPayloads_lt : ∀ (k : Nat) (bs : Bytes),
    lebPayloads k bs + 2 ^ (7 * k) ≤ 2 ^ (7 * (k + bs.length))
  | k, [] => by simp [lebPayloads]
  | k, b :: bs => by
    have ih := lebPayloads_lt (k + 1) bs
    have hb : b.toNat % 128 * 2 ^ (7 * k) ≤ 127 * 2 ^ (7 * k) := Nat.mul_le_mul_right _ (by omega)
    have hpow : 2 ^ (7 * (k + 1)) = 128 * 2 ^ (7 * k) := by
      rw [Nat.mul_add, Nat.pow_add, Nat.mul_comm]
    rw [lebPayloads, List.length_cons, show k + (bs.length + 1) = k + 1 + bs.length by omega]
    omega

/-- **A group's value fits a word.** -/
theorem LebGroup.value_lt (g : LebGroup) : g.value < 2 ^ 32 := by
  have hinit := lebPayloads_lt 0 g.init
  have hsum : g.value = lebPayloads 0 g.init + g.last.toNat % 128 * 2 ^ (7 * g.init.length) := by
    rw [LebGroup.value, LebGroup.bytes, lebPayloads_append]
    simp [lebPayloads]
  rw [Nat.zero_add] at hinit
  have hends := g.ends
  have hshort := g.short
  by_cases h4 : g.init.length = 4
  · have hlast := g.fifth h4
    rw [h4] at hinit hsum
    omega
  · have hpow : 2 ^ (7 * g.init.length) ≤ 2 ^ 21 := Nat.pow_le_pow_right (by decide) (by omega)
    have hlast : g.last.toNat % 128 * 2 ^ (7 * g.init.length) ≤ 127 * 2 ^ 21 :=
      Nat.mul_le_mul (by omega) hpow
    omega

/-- The word of a group loses nothing of its value. -/
theorem LebGroup.word_toNat (g : LebGroup) : g.word.toNat = g.value := by
  rw [LebGroup.word, UInt32.toNat_ofNat', Nat.mod_eq_of_lt g.value_lt]

theorem LebGroup.bytes_ne_nil (g : LebGroup) : g.bytes ≠ [] := by simp [LebGroup.bytes]

/-! ## One group -/

/-- The reader takes in bytes with the high bit set, up to the fourth of a group. -/
theorem lebRead_init : ∀ (init s : Bytes) (k : Nat) (a : UInt32), k + init.length ≤ 4 →
    (∀ b ∈ init, 128 ≤ b.toNat) → a.toNat < 2 ^ (7 * k) →
      ∃ a', lebRead 28 (init ++ s) (7 * k) a = lebRead 28 s (7 * (k + init.length)) a' ∧
        a'.toNat = a.toNat + lebPayloads k init ∧ a'.toNat < 2 ^ (7 * (k + init.length))
  | [], _, _, a, _, _, ha => ⟨a, rfl, rfl, ha⟩
  | b :: bs, s, k, a, hk, hmore, ha => by
    rw [List.length_cons] at hk
    obtain ⟨hb, hbs⟩ := List.forall_mem_cons.mp hmore
    obtain ⟨a₁, hread, ha₁⟩ := lebRead_more b (bs ++ s) k a (by omega) hb ha
    have hlt : a₁.toNat < 2 ^ (7 * (k + 1)) := by
      have hpow : 2 ^ (7 * (k + 1)) = 128 * 2 ^ (7 * k) := by
        rw [Nat.mul_add, Nat.pow_add, Nat.mul_comm]
      have hpay : b.toNat % 128 * 2 ^ (7 * k) ≤ 127 * 2 ^ (7 * k) :=
        Nat.mul_le_mul_right _ (by omega)
      omega
    obtain ⟨a₂, hrest, ha₂, hlt₂⟩ := lebRead_init bs s (k + 1) a₁ (by omega) hbs hlt
    refine ⟨a₂, ?_, ?_, ?_⟩
    · rw [List.cons_append, hread, hrest, List.length_cons,
        show k + 1 + bs.length = k + (bs.length + 1) by omega]
    · rw [ha₂, ha₁, lebPayloads, Nat.add_assoc]
    · rw [List.length_cons, show k + (bs.length + 1) = k + 1 + bs.length by omega]
      exact hlt₂

/-- **A group is read as its word**, whatever follows. -/
theorem lebRead_group (g : LebGroup) (r : Bytes) :
    lebRead 28 (g.bytes ++ r) 0 0 = .ok (g.word, r) := by
  obtain ⟨a, hread, ha, hlt⟩ := lebRead_init g.init (g.last :: r) 0 0
    (by have := g.short; omega) g.more (by decide)
  rw [Nat.zero_add] at hread hlt
  have hsum : g.value = a.toNat + g.last.toNat * 2 ^ (7 * g.init.length) := by
    rw [LebGroup.value, LebGroup.bytes, lebPayloads_append, ha]
    simp [lebPayloads, Nat.mod_eq_of_lt g.ends]
  have hfit := g.value_lt
  have hlast := lebRead_last g.last r g.init.length a g.short g.ends hlt (by omega)
  rw [LebGroup.bytes, List.append_assoc, List.singleton_append,
    show (0 : Nat) = 7 * 0 from rfl, hread, hlast, LebGroup.word, hsum]

/-- At the fifth byte more than four payload bits are refused. -/
theorem lebRead_fifth (b : UInt8) (r : Bytes) (a : UInt32) (h : 15 < b.toNat % 128) :
    lebRead 28 (b :: r) 28 a = .error .range := by
  have hpay : (b &&& 0x7f).toUInt32 > 0x0f := by
    rw [gt_iff_lt, UInt32.lt_iff_toNat_lt, and7f_toNat]
    exact h
  rw [lebRead, if_neg (Nat.lt_irrefl _)]
  exact if_pos ⟨rfl, hpay⟩

/-- A fifth byte that announces a sixth: the reader goes on to find it missing or too many. -/
theorem lebRead_sixth (b : UInt8) (r : Bytes) (a : UInt32) (hmore : 128 ≤ b.toNat)
    (h : b.toNat % 128 ≤ 15) : lebRead 28 (b :: r) 28 a =
      .error (if r = [] then .truncated else .range) := by
  have hpay : ¬ (b &&& 0x7f).toUInt32 > 0x0f := by
    rw [gt_iff_lt, UInt32.lt_iff_toNat_lt, and7f_toNat]
    exact Nat.not_lt.mpr h
  have hcont : ¬ b &&& 0x80 = 0 := by rw [and80_eq_zero]; omega
  have hfifth : ¬ (28 = 28 ∧ (b &&& 0x7f).toUInt32 > 0x0f) := fun hc => hpay hc.2
  rw [lebRead, if_neg (Nat.lt_irrefl _)]
  dsimp only
  rw [if_neg hfifth, if_neg hcont]
  cases r with
  | nil => rfl
  | cons c r => rfl

theorem lebRead_overflow {s : Bytes} (h : LebOverflow s) : lebRead 28 s 0 0 = .error .range := by
  obtain ⟨init, b, r, rfl, hmore, hlen⟩ := h
  rcases hlen with ⟨h4, hb⟩ | h5
  · obtain ⟨a, hread, -, -⟩ := lebRead_init init (b :: r) 0 0 (by omega) hmore (by decide)
    rw [Nat.zero_add, h4] at hread
    exact hread.trans (lebRead_fifth b r a hb)
  · -- the fifth byte is refused itself, or announces the sixth
    obtain ⟨c, hc⟩ : ∃ c, init.drop 4 = [c] :=
      List.length_eq_one_iff.mp (by rw [List.length_drop, h5])
    have hsplit : init = init.take 4 ++ [c] := by rw [← hc, List.take_append_drop]
    have h4 : (init.take 4).length = 4 := by rw [List.length_take]; omega
    have hcmore : 128 ≤ c.toNat := hmore c (by rw [hsplit]; simp)
    obtain ⟨a, hread, -, -⟩ := lebRead_init (init.take 4) (c :: b :: r) 0 0 (by omega)
      (fun d hd => hmore d (List.mem_of_mem_take hd)) (by decide)
    rw [Nat.zero_add, h4] at hread
    rw [hsplit, List.append_assoc, List.singleton_append, show (0 : Nat) = 7 * 0 from rfl, hread]
    by_cases hpay : 15 < c.toNat % 128
    · exact lebRead_fifth c (b :: r) a hpay
    · exact lebRead_sixth c (b :: r) a hcmore (by omega)

theorem lebRead_cut {s : Bytes} (h : LebCut s) : lebRead 28 s 0 0 = .error .truncated := by
  obtain ⟨-, hlen, hmore, hfifth⟩ := h
  by_cases h5 : s.length = 5
  · obtain ⟨c, hc⟩ : ∃ c, s.drop 4 = [c] :=
      List.length_eq_one_iff.mp (by rw [List.length_drop, h5])
    have hsplit : s = s.take 4 ++ [c] := by rw [← hc, List.take_append_drop]
    have h4 : (s.take 4).length = 4 := by rw [List.length_take]; omega
    have hcmore : 128 ≤ c.toNat := hmore c (by rw [hsplit]; simp)
    have hget : s[4]? = some c := by
      rw [hsplit, List.getElem?_append_right (by omega), h4]
      rfl
    obtain ⟨a, hread, -, -⟩ := lebRead_init (s.take 4) [c] 0 0 (by omega)
      (fun d hd => hmore d (List.mem_of_mem_take hd)) (by decide)
    rw [Nat.zero_add, h4] at hread
    rw [hsplit, show (0 : Nat) = 7 * 0 from rfl, hread]
    exact lebRead_sixth c [] a hcmore (hfifth c hget)
  · obtain ⟨a, hread, -, -⟩ := lebRead_init s [] 0 0 (by omega) hmore (by decide)
    rw [List.append_nil] at hread
    exact hread

/-- **A byte string starts with a group, overflows or is cut.** -/
theorem leb_trichotomy {s : Bytes} (hne : s ≠ []) :
    (∃ (g : LebGroup) (r : Bytes), s = g.bytes ++ r) ∨ LebOverflow s ∨ LebCut s := by
  -- split in front of the first byte with a clear high bit
  obtain ⟨init, hinit⟩ : ∃ init, init = s.takeWhile (fun b => 128 ≤ b.toNat) := ⟨_, rfl⟩
  have hmore : ∀ b ∈ init, 128 ≤ b.toNat := by
    intro b hb
    rw [hinit] at hb
    simpa using List.mem_takeWhile_imp hb
  have hsplit : s = init ++ s.dropWhile (fun b => 128 ≤ b.toNat) := by
    rw [hinit, List.takeWhile_append_dropWhile]
  by_cases hlong : 5 < s.length ∧ 5 ≤ init.length
  · obtain ⟨hs, hi⟩ := hlong
    have hpre : s.take 5 = init.take 5 := by
      rw [hsplit, List.take_append_of_le_length hi]
    refine .inr (.inl ⟨s.take 5, s[5], s.drop 6, ?_, ?_, .inr (by rw [List.length_take]; omega)⟩)
    · rw [← List.drop_eq_getElem_cons hs, List.take_append_drop]
    · intro c hc
      rw [hpre] at hc
      exact hmore c (List.mem_of_mem_take hc)
  · cases hrest : s.dropWhile (fun b => 128 ≤ b.toNat) with
    | nil =>
      rw [hrest, List.append_nil] at hsplit
      rw [← hsplit] at hmore hlong
      by_cases hfifth : ∀ b, s[4]? = some b → b.toNat % 128 ≤ 15
      · exact .inr (.inr ⟨hne, by omega, hmore, hfifth⟩)
      · push Not at hfifth
        obtain ⟨b, hget, hb⟩ := hfifth
        obtain ⟨hlt, rfl⟩ := List.getElem?_eq_some_iff.mp hget
        refine .inr (.inl ⟨s.take 4, s[4], s.drop 5, ?_, fun c hc => hmore c (List.mem_of_mem_take hc),
          .inl ⟨by rw [List.length_take]; omega, hb⟩⟩)
        rw [← List.drop_eq_getElem_cons hlt, List.take_append_drop]
    | cons last r =>
      have hends : last.toNat < 128 := by
        have := List.head?_dropWhile_not (fun b : UInt8 => decide (128 ≤ b.toNat)) s
        rw [hrest] at this
        simpa using this
      rw [hrest] at hsplit
      have hlen : s.length = init.length + (r.length + 1) := by
        rw [hsplit, List.length_append, List.length_cons]
      by_cases hfifth : init.length = 4 → last.toNat ≤ 15
      · refine .inl ⟨⟨init, last, by omega, hmore, hends, hfifth⟩, r, hsplit.trans ?_⟩
        rw [LebGroup.bytes, List.append_assoc]
        rfl
      · push Not at hfifth
        obtain ⟨h4, hlast⟩ := hfifth
        exact .inr (.inl ⟨init, last, r, hsplit, hmore, .inl ⟨h4, by omega⟩⟩)

/-- A byte string is a sequence of groups up to a rest that is empty, overflows or is cut. -/
theorem leb_groups (s : Bytes) : ∃ (gs : List LebGroup) (t : Bytes),
    s = gs.flatMap LebGroup.bytes ++ t ∧ (t = [] ∨ LebOverflow t ∨ LebCut t) := by
  induction hn : s.length using Nat.strongRecOn generalizing s with
  | ind n ih =>
    by_cases hne : s = []
    · exact ⟨[], s, rfl, .inl hne⟩
    · rcases leb_trichotomy hne with ⟨g, r, rfl⟩ | hbad
      · have hlt : r.length < n := by
          have := List.length_pos_iff.mpr g.bytes_ne_nil
          rw [← hn, List.length_append]
          omega
        obtain ⟨gs, t, rfl, ht⟩ := ih r.length hlt r rfl
        exact ⟨g :: gs, t, by rw [List.flatMap_cons, List.append_assoc], ht⟩
      · exact ⟨[], s, rfl, .inr hbad⟩

/-! ## VARINT -/

theorem varintDecodePlan_error {s : Bytes} (hne : s ≠ []) {e : Err}
    (h : lebRead VARINT_LAST_SHIFT s 0 0 = .error e) : varintDecodePlan s = Plan.fail e := by
  rw [varintDecodePlan, if_neg hne]
  split
  · rename_i h'
    cases h.symm.trans h'
    rfl
  · rename_i h'
    cases h.symm.trans h'

/-- The decoder writes the words of the groups and goes on behind them. -/
theorem varintDecodePlan_groups (t : Bytes) : ∀ gs : List LebGroup,
    varintDecodePlan (gs.flatMap LebGroup.bytes ++ t) =
      Plan.append (gs.map fun g => endianWriteU32le g.word) (varintDecodePlan t)
  | [] => rfl
  | g :: gs => by
    have hread := lebRead_group g (gs.flatMap LebGroup.bytes ++ t)
    rw [List.flatMap_cons, List.append_assoc, varintDecodePlan_ok (by simp [g.bytes_ne_nil]) hread,
      varintDecodePlan_groups t gs]
    rfl

/-- What the decoder's plan does on a sequence of groups and a rest. -/
theorem varintDecodePlan_cases (s : Bytes) : ∃ gs : List LebGroup,
    (varintDecodePlan s).output = (gs.flatMap fun g => endianWriteU32le g.word) ∧
      (s = gs.flatMap LebGroup.bytes ∧ (varintDecodePlan s).stop = none ∨
        ∃ t, s = gs.flatMap LebGroup.bytes ++ t ∧
          (LebOverflow t ∧ (varintDecodePlan s).stop = some .range ∨
            LebCut t ∧ (varintDecodePlan s).stop = some .truncated)) := by
  obtain ⟨gs, t, rfl, ht⟩ := leb_groups s
  have hplan := varintDecodePlan_groups t gs
  refine ⟨gs, ?_⟩
  rw [hplan, Plan.output_append, Plan.stop_append, List.flatMap_def]
  rcases ht with rfl | hover | hcut
  · rw [varintDecodePlan_nil, List.append_nil]
    exact ⟨by simp, .inl ⟨rfl, rfl⟩⟩
  · have hne : t ≠ [] := by
      obtain ⟨init, b, r, rfl, -⟩ := hover
      simp
    rw [varintDecodePlan_error hne (lebRead_overflow hover)]
    exact ⟨by simp, .inr ⟨t, rfl, .inl ⟨hover, rfl⟩⟩⟩
  · rw [varintDecodePlan_error hcut.1 (lebRead_cut hcut)]
    exact ⟨by simp, .inr ⟨t, rfl, .inr ⟨hcut, rfl⟩⟩⟩

/-- Four bytes of output take at least one byte of input. -/
theorem varintDecodePlan_length (s : Bytes) : (varintDecodePlan s).output.length ≤ 4 * s.length := by
  obtain ⟨gs, hout, hs⟩ := varintDecodePlan_cases s
  have hwords : ∀ gs : List LebGroup,
      (gs.flatMap fun g => endianWriteU32le g.word).length ≤ 4 * (gs.flatMap LebGroup.bytes).length := by
    intro gs
    induction gs with
    | nil => simp
    | cons g gs ih =>
      have hpos := List.length_pos_iff.mpr g.bytes_ne_nil
      rw [List.flatMap_cons, List.flatMap_cons, List.length_append, List.length_append,
        endianWriteU32le_length]
      omega
  rw [hout]
  refine le_trans (hwords gs) ?_
  rcases hs with ⟨hs, -⟩ | ⟨t, hs, -⟩
  · rw [← hs]
  · rw [hs, List.length_append]
    omega

/-! ## What the encoders write -/

/-- A value of at most `k + 1` groups takes at most as many bytes. -/
theorem lebBytes_length_le : ∀ (k : Nat) (v : UInt32), v.toNat < 2 ^ (7 * (k + 1)) →
    (lebBytes v).length ≤ k + 1
  | 0, v, h => by
    rw [lebBytes_eq, if_pos (show v.toNat < 128 from h)]
    rfl
  | k + 1, v, h => by
    rw [lebBytes_eq]
    split
    · simp
    · have hsh : (v >>> 7).toNat < 2 ^ (7 * (k + 1)) := by
        rw [shiftRight7_toNat, Nat.div_lt_iff_lt_mul (by decide)]
        rw [Nat.mul_add 7 (k + 1) 1, Nat.pow_add] at h
        exact h
      have ih := lebBytes_length_le k (v >>> 7) hsh
      rw [List.length_cons]
      omega

theorem lebBytes_length (v : UInt32) : (lebBytes v).length ≤ 5 :=
  lebBytes_length_le 4 v (by have := v.toNat_lt; omega)

theorem varintEncodePlan_length : ∀ inp : Bytes,
    (varintEncodePlan inp).output.length ≤ 5 * (inp.length / 4)
  | [] | [_] | [_, _] | [_, _, _] => by simp [varintEncodePlan]
  | p0 :: p1 :: p2 :: p3 :: bs => by
    have ih := varintEncodePlan_length bs
    have hword := lebBytes_length (endianReadU32le p0 p1 p2 p3)
    rw [varintEncodePlan, Plan.output_append, lebChunks_flatten, List.length_append]
    simp only [List.length_cons]
    omega

/-- The encoder accepts whole words only. -/
theorem varintEncodePlan_stop : ∀ inp : Bytes,
    (varintEncodePlan inp).stop = if inp.length % 4 = 0 then none else some .truncated
  | [] | [_] | [_, _] | [_, _, _] => rfl
  | p0 :: p1 :: p2 :: p3 :: bs => by
    rw [varintEncodePlan, Plan.stop_append, varintEncodePlan_stop bs]
    simp only [List.length_cons]
    congr 1
    rw [eq_iff_iff]
    omega

/-- With four bytes of room a byte, the outcome is the plan's. -/
theorem varintDecode_fits {s : Bytes} {cap : Nat} (hcap : 4 * s.length ≤ cap) :
    varintDecode s cap =
      (varintDecodePlan s).stop.elim (.ok (varintDecodePlan s).output) .error := by
  rw [varintDecode_eq, Plan.run_fits (le_trans (varintDecodePlan_length s) hcap)]

theorem varintDecode_accepts {s : Bytes} {cap : Nat} (hcap : 4 * s.length ≤ cap) (y : Bytes) :
    varintDecode s cap = .ok y ↔ ∃ gs : List LebGroup, s = gs.flatMap LebGroup.bytes ∧
      y = gs.flatMap fun g => endianWriteU32le g.word := by
  constructor
  · intro hok
    rw [varintDecode_eq] at hok
    obtain ⟨hstop, rfl, -⟩ := Plan.run_ok hok
    obtain ⟨gs, hout, ⟨hs, -⟩ | ⟨t, -, ⟨-, hbad⟩ | ⟨-, hbad⟩⟩⟩ := varintDecodePlan_cases s
    · exact ⟨gs, hs, hout⟩
    · cases hstop.symm.trans hbad
    · cases hstop.symm.trans hbad
  · rintro ⟨gs, rfl, rfl⟩
    have hplan := varintDecodePlan_groups [] gs
    rw [List.append_nil, varintDecodePlan_nil] at hplan
    rw [varintDecode_fits hcap, hplan, Plan.stop_append, Plan.output_append]
    simp [List.flatMap_def]

theorem varintDecode_rejects {s : Bytes} {cap : Nat} (hcap : 4 * s.length ≤ cap) (e : Err) :
    varintDecode s cap = .error e ↔ ∃ (gs : List LebGroup) (t : Bytes),
      s = gs.flatMap LebGroup.bytes ++ t ∧
        (LebOverflow t ∧ e = .range ∨ LebCut t ∧ e = .truncated) := by
  rw [varintDecode_fits hcap]
  constructor
  · intro herr
    obtain ⟨gs, -, ⟨-, hstop⟩ | ⟨t, hs, ⟨hover, hstop⟩ | ⟨hcut, hstop⟩⟩⟩ := varintDecodePlan_cases s
    · rw [hstop] at herr
      cases herr
    · rw [hstop] at herr
      cases herr
      exact ⟨gs, t, hs, .inl ⟨hover, rfl⟩⟩
    · rw [hstop] at herr
      cases herr
      exact ⟨gs, t, hs, .inr ⟨hcut, rfl⟩⟩
  · rintro ⟨gs, t, rfl, ⟨hover, rfl⟩ | ⟨hcut, rfl⟩⟩
    · have hne : t ≠ [] := by
        obtain ⟨init, b, r, rfl, -⟩ := hover
        simp
      rw [varintDecodePlan_groups, varintDecodePlan_error hne (lebRead_overflow hover)]
      rfl
    · rw [varintDecodePlan_groups, varintDecodePlan_error hcut.1 (lebRead_cut hcut)]
      rfl

theorem varintEncode_whole {x : Bytes} {cap : Nat} (hcap : 5 * (x.length / 4) ≤ cap)
    (h4 : x.length % 4 = 0) :
    ∃ blob, varintEncode x cap = .ok blob ∧
      ∀ room, x.length ≤ room → varintDecode blob room = .ok x := by
  have hstop := varintEncodePlan_stop x
  rw [if_pos h4] at hstop
  obtain ⟨hdstop, hdout⟩ := varintDecodePlan_encode x hstop
  refine ⟨(varintEncodePlan x).output, ?_, ?_⟩
  · rw [varintEncode_eq, Plan.run_of_stop_none hstop (le_trans (varintEncodePlan_length x) hcap)]
  · intro room hroom
    rw [varintDecode_eq, Plan.run_of_stop_none hdstop (by rw [hdout]; exact hroom), hdout]

theorem varintEncode_ragged {x : Bytes} {cap : Nat} (hcap : 5 * (x.length / 4) ≤ cap)
    (h4 : x.length % 4 ≠ 0) : varintEncode x cap = .error .truncated := by
  have hstop := varintEncodePlan_stop x
  rw [if_neg h4] at hstop
  rw [varintEncode_eq, Plan.run_fits (le_trans (varintEncodePlan_length x) hcap), hstop]
  rfl

/-- **The varint codec.**  With room for four bytes a byte, the decoder accepts the sequences of
groups, with the words they stand for; it reports `DTL_ERR_RANGE` or `DTL_ERR_TRUNCATED` when the first
ill-formed group overflows or is cut.  The encoder accepts whole words, and the decoder inverts it. -/
theorem varint_spec :
    (∀ (s : Bytes) (cap : Nat), 4 * s.length ≤ cap →
      (∀ y, varintDecode s cap = .ok y ↔ ∃ gs : List LebGroup, s = gs.flatMap LebGroup.bytes ∧
        y = gs.flatMap fun g => endianWriteU32le g.word) ∧
      ∀ e, varintDecode s cap = .error e ↔ ∃ (gs : List LebGroup) (t : Bytes),
        s = gs.flatMap LebGroup.bytes ++ t ∧
          (LebOverflow t ∧ e = .range ∨ LebCut t ∧ e = .truncated)) ∧
    ∀ (x : Bytes) (cap : Nat), 5 * (x.length / 4) ≤ cap →
      (x.length % 4 = 0 → ∃ blob, varintEncode x cap = .ok blob ∧
        ∀ room, x.length ≤ room → varintDecode blob room = .ok x) ∧
      (x.length % 4 ≠ 0 → varintEncode x cap = .error .truncated) := by
  constructor
  · intro s cap hcap
    exact ⟨varintDecode_accepts hcap, varintDecode_rejects hcap⟩
  · intro x cap hcap
    exact ⟨varintEncode_whole hcap, varintEncode_ragged hcap⟩

/-! ## DELTA -/

theorem deltaEncodeRest_length : ∀ (prev : UInt32) (inp : Bytes),
    (deltaEncodeRest prev inp).output.length ≤ 5 * (inp.length / 4)
  | _, [] | _, [_] | _, [_, _] | _, [_, _, _] => by simp [deltaEncodeRest]
  | prev, p0 :: p1 :: p2 :: p3 :: bs => by
    have ih := deltaEncodeRest_length (endianReadU32le p0 p1 p2 p3) bs
    have hword := lebBytes_length (deltaZigzag (endianReadU32le p0 p1 p2 p3 - prev))
    rw [deltaEncodeRest, Plan.output_append, lebChunks_flatten, List.length_append]
    simp only [List.length_cons]
    omega

theorem deltaEncodePlan_length (inp : Bytes) :
    (deltaEncodePlan inp).output.length ≤ 5 * (inp.length / 4) := by
  unfold deltaEncodePlan
  split
  · exact Nat.zero_le _
  split
  · exact Nat.zero_le _
  split
  · rename_i p0 p1 p2 p3 bs _ _
    have hrest := deltaEncodeRest_length (endianReadU32le p0 p1 p2 p3) bs
    rw [Plan.output_cons, List.length_append, endianWriteU32le_length]
    simp only [List.length_cons]
    omega
  · exact Nat.zero_le _

theorem four_bytes {inp : Bytes} (h : 4 ≤ inp.length) :
    ∃ p0 p1 p2 p3 bs, inp = p0 :: p1 :: p2 :: p3 :: bs := by
  rcases inp with _ | ⟨p0, _ | ⟨p1, _ | ⟨p2, _ | ⟨p3, bs⟩⟩⟩⟩
  · exact absurd h (by decide)
  · exact absurd h (by simp)
  · exact absurd h (by simp)
  · exact absurd h (by simp)
  · exact ⟨p0, p1, p2, p3, bs, rfl⟩

theorem deltaEncodePlan_stop (inp : Bytes) :
    (deltaEncodePlan inp).stop = if inp.length % 4 = 0 then none else some .truncated := by
  unfold deltaEncodePlan
  by_cases h0 : inp.length = 0
  · rw [if_pos h0, if_pos (by rw [h0])]
    rfl
  rw [if_neg h0]
  by_cases h4 : inp.length % 4 = 0
  · rw [if_neg (not_not.mpr h4), if_pos h4]
    obtain ⟨p0, p1, p2, p3, bs, rfl⟩ := four_bytes (by omega : 4 ≤ inp.length)
    have hbs : bs.length % 4 = 0 := by
      simp only [List.length_cons] at h4
      omega
    exact (deltaDecodeRest_encode (endianReadU32le p0 p1 p2 p3) bs hbs).1
  · rw [if_pos h4, if_neg h4]
    rfl

/-- **DELTA round trip**: whole words of any values encode, and decode to what they were. -/
theorem delta_roundtrip (x : Bytes) (h4 : x.length % 4 = 0) {cap : Nat}
    (hcap : 5 * (x.length / 4) ≤ cap) : ∃ blob, deltaEncode x cap = .ok blob ∧
      ∀ room, x.length ≤ room → deltaDecode blob room = .ok x := by
  have hstop := deltaEncodePlan_stop x
  rw [if_pos h4] at hstop
  obtain ⟨hdstop, hdout⟩ := deltaDecodePlan_encode x hstop
  refine ⟨(deltaEncodePlan x).output, ?_, ?_⟩
  · rw [deltaEncode_eq, Plan.run_of_stop_none hstop (le_trans (deltaEncodePlan_length x) hcap)]
  · intro room hroom
    rw [deltaDecode_eq, Plan.run_of_stop_none hdstop (by rw [hdout]; exact hroom), hdout]

/-- Two words whose difference is the word with the sign bit alone, in either direction. -/
theorem delta_roundtrip_sign : ∃ blob,
    deltaEncode [1, 0, 0, 0, 1, 0, 0, 0x80, 1, 0, 0, 0] 15 = .ok blob ∧
      ∀ room, 12 ≤ room → deltaDecode blob room = .ok [1, 0, 0, 0, 1, 0, 0, 0x80, 1, 0, 0, 0] :=
  delta_roundtrip _ (by decide) (by decide)

/-! ## The two copies of the reader -/

/-- The running sum, modulo 2^32, of the differences that zig-zag codes stand for. -/
def deltaSums (first : UInt32) (codes : List UInt32) : List UInt32 :=
  codes.scanl (fun prev zz => prev + deltaUnzigzag zz) first

theorem deltaDecodeRest_error {prev : UInt32} {s : Bytes} (hne : s ≠ []) {e : Err}
    (h : lebRead DELTA_LAST_SHIFT s 0 0 = .error e) : deltaDecodeRest prev s = Plan.fail e := by
  rw [deltaDecodeRest, if_neg hne]
  split
  · rename_i h'
    cases h.symm.trans h'
    rfl
  · rename_i h'
    cases h.symm.trans h'

/-- Both decoders stop alike, and the words of the one are the running sums of the words of the
other. -/
theorem deltaDecodeRest_varint (prev : UInt32) (s : Bytes) :
    (deltaDecodeRest prev s).stop = (varintDecodePlan s).stop ∧ ∃ codes : List UInt32,
      (varintDecodePlan s).output = codes.flatMap endianWriteU32le ∧
        endianWriteU32le prev ++ (deltaDecodeRest prev s).output =
          (deltaSums prev codes).flatMap endianWriteU32le := by
  induction hn : s.length using Nat.strongRecOn generalizing prev s with
  | ind n ih =>
    by_cases hne : s = []
    · subst hne
      rw [deltaDecodeRest_nil, varintDecodePlan_nil]
      exact ⟨rfl, [], rfl, by simp [deltaSums]⟩
    cases hread : lebRead VARINT_LAST_SHIFT s 0 0 with
    | error e =>
      rw [varintDecodePlan_error hne hread, deltaDecodeRest_error hne hread]
      exact ⟨rfl, [], rfl, by simp [deltaSums]⟩
    | ok p =>
      obtain ⟨zz, r⟩ := p
      obtain ⟨hstop, codes, hcodes, hsums⟩ :=
        ih _ (hn ▸ lebRead_lt hread) (prev + deltaUnzigzag zz) r rfl
      rw [varintDecodePlan_ok hne hread, deltaDecodeRest_ok hne hread]
      refine ⟨hstop, zz :: codes, ?_, ?_⟩
      · rw [Plan.output_cons, hcodes, List.flatMap_cons]
      · rw [Plan.output_cons, hsums]
        simp [deltaSums]

end Dtl
