import Mathlib.Data.List.TakeWhile
import TelemetryForge.Codec.Base32
import TelemetryForge.Lib.BitDigits

/-!
# What the BASE32 decoder accepts

A `Base32Text` is a sequence of alphabet letters, given by their values, that fills whole groups of
eight but for a last group of two, four, five or seven; its spelling pads that group with `=`.  It
stands for the leading bits of the letters' concatenated five-bit values.

Principal result: `base32_spec` — encoding is inverted; the decoder accepts exactly the spellings,
with the bytes they stand for, and says which way any other text is malformed.
-/

set_option autoImplicit false

namespace Dtl

open Sink BitDigits

/-! ## Texts -/

/-- The letter of a five-bit value. -/
def base32Letter (d : Fin 32) : UInt8 := base32Alphabet.getD d.val 0

/-- The letters of a sequence of values, with padding up to a whole group. -/
def base32Spell (ds : List (Fin 32)) : Bytes :=
  ds.map base32Letter ++ List.replicate ((8 - ds.length % 8) % 8) BASE32_PAD

/-- The bytes that the letters of a last group stand for. -/
def base32TailSize : Nat → Nat
  | 2 => 1
  | 4 => 2
  | 5 => 3
  | 7 => 4
  | _ => 0

/-- The bytes that `n` letters stand for: five for each full group, and those of the last group. -/
def base32Size (n : Nat) : Nat := 5 * (n / 8) + base32TailSize (n % 8)

/-- A text of whole groups, the last of which can be short. -/
structure Base32Text where
  letters : List (Fin 32)
  shape : letters.length % 8 ∈ [0, 2, 4, 5, 7]

namespace Base32Text

def text (t : Base32Text) : Bytes := base32Spell t.letters

/-- The bytes whose bits are the leading bits of the letters' values. -/
def Decodes (t : Base32Text) (raw : Bytes) : Prop :=
  raw.length = base32Size t.letters.length ∧
    (raw.flatMap fun b => msb 8 b.toNat) =
      (t.letters.flatMap fun d => msb 5 d.val).take (8 * base32Size t.letters.length)

end Base32Text

theorem base32Letter_rev (d : Fin 32) : base32Rev (base32Letter d) = some d.val ∧
    base32Letter d ≠ BASE32_PAD := base32Rev_alphabet d.isLt

theorem base32Rev_some {c : UInt8} {v : Nat} (h : base32Rev c = some v) :
    ∃ d : Fin 32, d.val = v ∧ base32Letter d = c := by
  obtain ⟨hlt, hc, -⟩ := List.findIdx?_eq_some_iff_getElem.mp h
  have h32 : base32Alphabet.length = 32 := rfl
  refine ⟨⟨v, by omega⟩, rfl, ?_⟩
  rw [base32Letter, List.getD_eq_getElem _ _ hlt]
  exact of_decide_eq_true hc

theorem base32Spell_length (ds : List (Fin 32)) : (base32Spell ds).length % 8 = 0 := by
  rw [base32Spell, List.length_append, List.length_map, List.length_replicate]
  omega

/-- A spelling starts with the spelling of its first group. -/
theorem base32Spell_split {ds : List (Fin 32)} (hne : ds ≠ []) :
    base32Spell ds = base32Spell (ds.take 8) ++ base32Spell (ds.drop 8) ∧
      (base32Spell (ds.take 8)).length = 8 := by
  have hpos := List.length_pos_iff.mpr hne
  by_cases h8 : 8 ≤ ds.length
  · have htake : (ds.take 8).length = 8 := by rw [List.length_take]; omega
    have hpad : (8 - ds.length % 8) % 8 = (8 - (ds.drop 8).length % 8) % 8 := by
      rw [List.length_drop]
      omega
    have hfirst : base32Spell (ds.take 8) = (ds.take 8).map base32Letter := by
      rw [base32Spell, htake]
      exact List.append_nil _
    rw [hfirst, base32Spell, base32Spell, ← List.append_assoc, ← List.map_append,
      List.take_append_drop, hpad]
    exact ⟨rfl, by rw [List.length_map, htake]⟩
  · rw [List.take_of_length_le (by omega), List.drop_eq_nil_of_le (by omega)]
    refine ⟨(List.append_nil _).symm, ?_⟩
    rw [base32Spell, List.length_append, List.length_map, List.length_replicate]
    omega

/-! ## One group -/

/-- The number of letters in a group the decoder accepts. -/
def Base32Count (n : Nat) : Prop := n ∈ [8, 7, 5, 4, 2]

/-- The bytes a group of `n` letters decodes to, as the source's table has them. -/
theorem base32DataBytes_count {n : Nat} (h : Base32Count n) :
    base32DataBytes (8 - n) = some (base32Size n) ∧ base32Size n ≤ 5 ∧ 8 * base32Size n ≤ 5 * n := by
  simp only [Base32Count, List.mem_cons, List.not_mem_nil, or_false] at h
  rcases h with rfl | rfl | rfl | rfl | rfl <;> decide

theorem base32DataBytes_some {pad k : Nat} (h : base32DataBytes pad = some k) :
    pad ≤ 8 ∧ Base32Count (8 - pad) := by
  unfold base32DataBytes at h
  split at h
  all_goals first
    | cases h
      done
    | exact ⟨by decide, by simp [Base32Count]⟩

/-- The character loop packs the letters' values, at the top of the 40 bits. -/
theorem base32Scatter_letters : ∀ (ds : List (Fin 32)) (j : Nat), j + ds.length ≤ 8 →
    base32Scatter j (ds.map base32Letter) =
      some (pack 5 (ds.map Fin.val) * 2 ^ (5 * (8 - j - ds.length)))
  | [], _, _ => by simp [base32Scatter, pack]
  | d :: ds, j, h => by
    rw [List.length_cons] at h
    have ih := base32Scatter_letters ds (j + 1) (by omega)
    have hlt : pack 5 (ds.map Fin.val) < 2 ^ (5 * ds.length) := by
      have hds : ∀ d ∈ ds.map Fin.val, d < 2 ^ 5 := by simp
      have hlt := pack_lt hds
      rwa [List.length_map] at hlt
    have hexp : 5 * (7 - j) = 5 * ds.length + 5 * (8 - (j + 1) - ds.length) := by omega
    have hlow : pack 5 (ds.map Fin.val) * 2 ^ (5 * (8 - (j + 1) - ds.length)) <
        2 ^ (5 * (7 - j)) := by
      rw [hexp, Nat.pow_add]
      exact Nat.mul_lt_mul_of_pos_right hlt (Nat.two_pow_pos _)
    rw [List.map_cons, base32Scatter, (base32Letter_rev d).1, ih]
    dsimp only
    rw [Nat.or_comm, or_shift_eq_add hlow, List.map_cons, pack, List.length_map, List.length_cons,
      show 8 - j - (ds.length + 1) = 8 - (j + 1) - ds.length by omega, Nat.add_mul, hexp,
      Nat.pow_add, Nat.mul_assoc, Nat.add_comm]

/-- What the character loop accepts are letters. -/
theorem base32Scatter_some : ∀ {cs : Bytes} {j acc : Nat}, base32Scatter j cs = some acc →
    ∃ ds : List (Fin 32), cs = ds.map base32Letter
  | [], _, _, _ => ⟨[], rfl⟩
  | c :: cs, j, acc, h => by
    rw [base32Scatter] at h
    cases hrev : base32Rev c with
    | none =>
      rw [hrev] at h
      cases h
    | some v =>
      rw [hrev] at h
      dsimp only at h
      cases hrest : base32Scatter (j + 1) cs with
      | none =>
        rw [hrest] at h
        cases h
      | some acc' =>
        obtain ⟨d, -, rfl⟩ := base32Rev_some hrev
        obtain ⟨ds, rfl⟩ := base32Scatter_some hrest
        exact ⟨d :: ds, rfl⟩

theorem base32Pad_letters (ds : List (Fin 32)) (pad : Nat) :
    base32Pad (ds.map base32Letter ++ List.replicate pad BASE32_PAD) = pad := by
  rw [base32Pad, List.reverse_append, List.reverse_replicate,
    List.takeWhile_append_of_pos (by simp), List.length_append, List.length_replicate]
  have hstop : (ds.map base32Letter).reverse.takeWhile (· = BASE32_PAD) = [] := by
    rw [List.takeWhile_eq_nil_iff]
    intro h
    have hmem := List.getElem_mem h
    rw [List.mem_reverse, List.mem_map] at hmem
    obtain ⟨d, -, hd⟩ := hmem
    rw [List.get_eq_getElem, ← hd]
    simpa using (base32Letter_rev d).2
  rw [hstop]
  rfl

/-- A group ends in its padding. -/
theorem base32Pad_split {grp : Bytes} (h8 : grp.length = 8) :
    grp = grp.take (8 - base32Pad grp) ++ List.replicate (base32Pad grp) BASE32_PAD ∧
      base32Pad grp ≤ 8 := by
  have hle : base32Pad grp ≤ 8 := by
    have := (List.takeWhile_sublist (fun c : UInt8 => c = BASE32_PAD)
      (l := grp.reverse)).length_le
    rwa [List.length_reverse, h8] at this
  have hpads : grp.reverse.takeWhile (· = BASE32_PAD) =
      List.replicate (base32Pad grp) BASE32_PAD := by
    rw [List.eq_replicate_iff]
    exact ⟨rfl, fun c hc => by simpa using List.mem_takeWhile_imp hc⟩
  have hend : grp.drop (8 - base32Pad grp) = List.replicate (base32Pad grp) BASE32_PAD := by
    have hprefix := List.prefix_iff_eq_take.mp
      (List.takeWhile_prefix (fun c : UInt8 => c = BASE32_PAD) (l := grp.reverse))
    have hrev := congrArg List.reverse (hpads.symm.trans hprefix)
    rw [List.reverse_replicate, List.reverse_take, List.length_reverse, h8, List.reverse_reverse]
      at hrev
    exact hrev.symm
  refine ⟨?_, hle⟩
  rw [← hend, List.take_append_drop]

/-- **A group of letters decodes to their leading bits**, padded only if it is the last. -/
theorem base32Ungroup_letters {last : Bool} {ds : List (Fin 32)} (hcount : Base32Count ds.length)
    (hlast : last = false → ds.length = 8) :
    ∃ raw, base32Ungroup last (base32Spell ds) = .ok raw ∧ raw.length = base32Size ds.length ∧
      (raw.flatMap fun b => msb 8 b.toNat) =
        (ds.flatMap fun d => msb 5 d.val).take (8 * base32Size ds.length) := by
  obtain ⟨hdata, hsize, hbits⟩ := base32DataBytes_count hcount
  have h8 : 2 ≤ ds.length ∧ ds.length ≤ 8 := by
    simp only [Base32Count, List.mem_cons, List.not_mem_nil, or_false] at hcount
    omega
  have hspell : base32Spell ds =
      ds.map base32Letter ++ List.replicate (8 - ds.length) BASE32_PAD := by
    rw [base32Spell]
    congr 2
    omega
  have hpad : base32Pad (base32Spell ds) = 8 - ds.length := by
    rw [hspell, base32Pad_letters]
  have hguard : ¬ (last = false ∧ 8 - ds.length ≠ 0) := by
    rintro ⟨hl, hne⟩
    have := hlast hl
    omega
  have htake : (base32Spell ds).take ds.length = ds.map base32Letter := by
    rw [hspell, List.take_left' (by simp)]
  have hm : ∀ n : Nat, n &&& 255 = n % 2 ^ 8 := fun n => Nat.and_two_pow_sub_one_eq_mod n 8
  obtain ⟨acc, hacc⟩ : ∃ acc, acc = pack 5 (ds.map Fin.val) * 2 ^ (5 * (8 - ds.length)) := ⟨_, rfl⟩
  have hscatter := base32Scatter_letters ds 0 (by omega)
  rw [Nat.sub_zero, ← hacc] at hscatter
  refine ⟨(List.range (base32Size ds.length)).map fun k =>
    UInt8.ofNat ((acc >>> (8 * (4 - k))) &&& 0xff), ?_, by simp, ?_⟩
  · unfold base32Ungroup
    dsimp only
    rw [hpad, if_neg hguard, hdata, show 8 - (8 - ds.length) = ds.length by omega, htake, hscatter]
  · -- each byte is a digit of the packed number, cut to the bits that are whole bytes
    have hbytes : (((List.range (base32Size ds.length)).map fun k =>
        UInt8.ofNat ((acc >>> (8 * (4 - k))) &&& 0xff)).flatMap fun b => msb 8 b.toNat) =
        msb (8 * base32Size ds.length) (acc / 2 ^ (40 - 8 * base32Size ds.length)) := by
      rw [← digits_msb, List.flatMap_map, List.flatMap_def, List.flatMap_def]
      congr 1
      refine List.map_congr_left fun k hk => ?_
      rw [List.mem_range] at hk
      have hbyte : (UInt8.ofNat ((acc >>> (8 * (4 - k))) &&& 0xff)).toNat =
          acc / 2 ^ (8 * (4 - k)) % 2 ^ 8 := by
        rw [UInt8.toNat_ofNat', hm, Nat.shiftRight_eq_div_pow, Nat.mod_mod]
      rw [hbyte, msb_mod, Nat.div_div_eq_div_mul, ← Nat.pow_add]
      congr 3
      omega
    have hletters : (ds.flatMap fun d => msb 5 d.val) =
        msb (5 * ds.length) (pack 5 (ds.map Fin.val)) := by
      have hds : ∀ d ∈ ds.map Fin.val, d < 2 ^ 5 := by simp
      have hval := flatMap_msb hds
      rwa [List.flatMap_map, List.length_map] at hval
    have hcut : acc / 2 ^ (40 - 8 * base32Size ds.length) =
        pack 5 (ds.map Fin.val) / 2 ^ (5 * ds.length - 8 * base32Size ds.length) := by
      rw [hacc, show 40 - 8 * base32Size ds.length = 5 * (8 - ds.length) +
        (5 * ds.length - 8 * base32Size ds.length) by omega, Nat.pow_add, ← Nat.div_div_eq_div_mul,
        Nat.mul_div_cancel _ (Nat.two_pow_pos _)]
    rw [hbytes, hletters, hcut, ← msb_take, Nat.add_sub_cancel' hbits]

/-- **A group the decoder accepts is the spelling of its letters.** -/
theorem base32Ungroup_ok {last : Bool} {grp raw : Bytes} (h8 : grp.length = 8)
    (h : base32Ungroup last grp = .ok raw) : ∃ ds : List (Fin 32), grp = base32Spell ds ∧
      Base32Count ds.length ∧ (last = false → ds.length = 8) := by
  obtain ⟨hsplit, hle⟩ := base32Pad_split h8
  unfold base32Ungroup at h
  dsimp only at h
  by_cases hguard : last = false ∧ base32Pad grp ≠ 0
  · rw [if_pos hguard] at h
    cases h
  rw [if_neg hguard] at h
  cases hdata : base32DataBytes (base32Pad grp) with
  | none =>
    rw [hdata] at h
    cases h
  | some k =>
    rw [hdata] at h
    dsimp only at h
    cases hscatter : base32Scatter 0 (grp.take (8 - base32Pad grp)) with
    | none =>
      rw [hscatter] at h
      cases h
    | some acc =>
      obtain ⟨ds, hds⟩ := base32Scatter_some hscatter
      obtain ⟨-, hcount⟩ := base32DataBytes_some hdata
      have hlen : ds.length = 8 - base32Pad grp := by
        have := congrArg List.length hds
        rw [List.length_take, List.length_map, h8] at this
        omega
      rw [← hlen] at hcount
      refine ⟨ds, ?_, hcount, ?_⟩
      · have h2 : 2 ≤ ds.length := by
          simp only [Base32Count, List.mem_cons, List.not_mem_nil, or_false] at hcount
          omega
        rw [base32Spell, ← hds, show (8 - ds.length % 8) % 8 = base32Pad grp by omega]
        exact hsplit
      · intro hl
        have : base32Pad grp = 0 := by
          by_contra hne
          exact hguard ⟨hl, hne⟩
        omega

/-- A group is refused for one reason only. -/
theorem base32Ungroup_error {last : Bool} {grp : Bytes} {e : Err}
    (h : base32Ungroup last grp = .error e) : e = .badRecord := by
  unfold base32Ungroup at h
  dsimp only at h
  by_cases hguard : last = false ∧ base32Pad grp ≠ 0
  · rw [if_pos hguard] at h
    cases h
    rfl
  rw [if_neg hguard] at h
  cases hdata : base32DataBytes (base32Pad grp) with
  | none =>
    rw [hdata] at h
    cases h
    rfl
  | some k =>
    rw [hdata] at h
    dsimp only at h
    cases hscatter : base32Scatter 0 (grp.take (8 - base32Pad grp)) with
    | none =>
      rw [hscatter] at h
      cases h
      rfl
    | some acc =>
      rw [hscatter] at h
      cases h

/-! ## The whole text -/

/-- The bytes of a text are those of its first group and those of the rest. -/
theorem base32Size_split {ds : List (Fin 32)} (hne : ds ≠ []) :
    base32Size ds.length = base32Size (ds.take 8).length + base32Size (ds.drop 8).length ∧
      (ds.flatMap fun d => msb 5 d.val).take (8 * base32Size ds.length) =
        ((ds.take 8).flatMap fun d => msb 5 d.val).take (8 * base32Size (ds.take 8).length) ++
          ((ds.drop 8).flatMap fun d => msb 5 d.val).take (8 * base32Size (ds.drop 8).length) := by
  have hpos := List.length_pos_iff.mpr hne
  by_cases h8 : 8 ≤ ds.length
  · have htake : (ds.take 8).length = 8 := by rw [List.length_take]; omega
    have hfull : base32Size 8 = 5 := rfl
    have hsize : base32Size ds.length = 5 + base32Size (ds.drop 8).length := by
      rw [List.length_drop, base32Size, base32Size, show ds.length / 8 = (ds.length - 8) / 8 + 1 by omega,
        show ds.length % 8 = (ds.length - 8) % 8 by omega]
      omega
    have hbits : ((ds.take 8).flatMap fun d => msb 5 d.val).length = 40 := by
      simp [List.length_flatMap]
      omega
    have hcut : 8 * base32Size ds.length = 40 + 8 * base32Size (ds.drop 8).length := by
      omega
    have hsplit : (ds.flatMap fun d => msb 5 d.val) =
        ((ds.take 8).flatMap fun d => msb 5 d.val) ++ (ds.drop 8).flatMap fun d => msb 5 d.val := by
      rw [← List.flatMap_append, List.take_append_drop]
    refine ⟨by rw [htake, hfull, hsize], ?_⟩
    rw [hcut, hsplit, ← hbits, List.take_length_add_append, htake, hfull,
      List.take_of_length_le (le_of_eq hbits)]
  · rw [List.take_of_length_le (by omega), List.drop_eq_nil_of_le (by omega)]
    exact ⟨rfl, by simp⟩

/-- The first group of a text, and the shape of the rest. -/
theorem base32_first {ds : List (Fin 32)} (hne : ds ≠ [])
    (hshape : ds.length % 8 ∈ [0, 2, 4, 5, 7]) :
    Base32Count (ds.take 8).length ∧ (ds.drop 8).length % 8 ∈ [0, 2, 4, 5, 7] ∧
      (ds.drop 8 ≠ [] → (ds.take 8).length = 8) := by
  have hpos := List.length_pos_iff.mpr hne
  simp only [List.mem_cons, List.not_mem_nil, or_false] at hshape
  simp only [Base32Count, List.length_take, List.length_drop, List.mem_cons, List.not_mem_nil,
    or_false, ne_eq, List.drop_eq_nil_iff]
  omega

/-- **A text decodes to the bytes it stands for.** -/
theorem base32DecodeGroups_text (ds : List (Fin 32)) (hshape : ds.length % 8 ∈ [0, 2, 4, 5, 7]) :
    (base32DecodeGroups (base32Spell ds)).stop = none ∧
      (⟨ds, hshape⟩ : Base32Text).Decodes (base32DecodeGroups (base32Spell ds)).output := by
  induction hn : ds.length using Nat.strongRecOn generalizing ds with
  | ind n ih =>
    by_cases hne : ds = []
    · subst hne
      have hplan : base32DecodeGroups (base32Spell []) = Plan.done := by
        rw [base32DecodeGroups]
        rfl
      rw [hplan]
      refine ⟨rfl, ?_, by simp⟩
      simp [base32Size, base32TailSize]
    · obtain ⟨hcount, hrest, hfull⟩ := base32_first hne hshape
      obtain ⟨hspell, h8⟩ := base32Spell_split hne
      obtain ⟨hsize, hbits⟩ := base32Size_split hne
      have hpos := List.length_pos_iff.mpr hne
      have hlast : decide ((base32Spell (ds.drop 8)).length = 0) = false → (ds.take 8).length = 8 := by
        intro h
        apply hfull
        rintro hnil
        rw [hnil] at h
        exact absurd rfl (of_decide_eq_false h)
      obtain ⟨raw, hraw, hlen, hmsb⟩ := base32Ungroup_letters hcount hlast
      obtain ⟨hstop, hdlen, hdbits⟩ := ih _ (by rw [List.length_drop]; omega) (ds.drop 8) hrest rfl
      have hplan : base32DecodeGroups (base32Spell ds) =
          Plan.cons raw (base32DecodeGroups (base32Spell (ds.drop 8))) := by
        rw [hspell, base32DecodeGroups, List.take_left' h8, List.drop_left' h8, hraw,
          if_neg (by rw [List.length_append]; omega)]
      rw [hplan, Plan.stop_cons, Plan.output_cons]
      refine ⟨hstop, ?_, ?_⟩
      · rw [List.length_append, hlen, hdlen, hsize]
      · rw [List.flatMap_append, hmsb, hdbits]
        exact hbits.symm

/-- **A text the decoder accepts is a spelling.** -/
theorem base32DecodeGroups_ok {text : Bytes} (h8 : text.length % 8 = 0)
    (hok : (base32DecodeGroups text).stop = none) :
    ∃ ds : List (Fin 32), ds.length % 8 ∈ [0, 2, 4, 5, 7] ∧ text = base32Spell ds := by
  induction hn : text.length using Nat.strongRecOn generalizing text with
  | ind n ih =>
    by_cases h0 : text.length = 0
    · rw [List.length_eq_zero_iff.mp h0]
      exact ⟨[], by decide, rfl⟩
    · have hgrp : (text.take 8).length = 8 := by rw [List.length_take]; omega
      have hdrop : (text.drop 8).length % 8 = 0 := by rw [List.length_drop]; omega
      rw [base32DecodeGroups, if_neg h0] at hok
      cases hraw : base32Ungroup (decide ((text.drop 8).length = 0)) (text.take 8) with
      | error e =>
        rw [hraw] at hok
        cases hok
      | ok raw =>
        rw [hraw] at hok
        obtain ⟨ds, hds, hcount, hlast⟩ := base32Ungroup_ok hgrp hraw
        obtain ⟨ds', hshape', hrest⟩ := ih _ (by rw [← hn, List.length_drop]; omega) hdrop hok rfl
        have hcount8 : 2 ≤ ds.length ∧ ds.length % 8 ∈ [0, 2, 4, 5, 7] := by
          simp only [Base32Count, List.mem_cons, List.not_mem_nil, or_false] at hcount ⊢
          omega
        by_cases hend : (text.drop 8).length = 0
        · refine ⟨ds, hcount8.2, ?_⟩
          rw [← hds]
          exact (List.take_of_length_le (by rw [List.length_drop] at hend; omega)).symm
        · have hfull : ds.length = 8 := hlast (decide_eq_false hend)
          have hne : ds ++ ds' ≠ [] := by
            intro hnil
            rw [(List.append_eq_nil_iff.mp hnil).1] at hfull
            cases hfull
          obtain ⟨hspell, -⟩ := base32Spell_split hne
          rw [List.take_left' hfull, List.drop_left' hfull, ← hds, ← hrest,
            List.take_append_drop] at hspell
          refine ⟨ds ++ ds', ?_, hspell.symm⟩
          rw [List.length_append, hfull, Nat.add_mod_left]
          exact hshape'

theorem base32DecodeGroups_error {text : Bytes} {e : Err}
    (h : (base32DecodeGroups text).stop = some e) : e = .badRecord := by
  induction hn : text.length using Nat.strongRecOn generalizing text with
  | ind n ih =>
    rw [base32DecodeGroups] at h
    by_cases h0 : text.length = 0
    · rw [if_pos h0] at h
      cases h
    · rw [if_neg h0] at h
      cases hraw : base32Ungroup (decide ((text.drop 8).length = 0)) (text.take 8) with
      | error e' =>
        rw [hraw] at h
        cases h
        exact base32Ungroup_error hraw
      | ok raw =>
        rw [hraw] at h
        exact ih _ (by rw [← hn, List.length_drop]; omega) h rfl

/-- At most five bytes are written for each group, also before an error. -/
theorem base32DecodeGroups_length (text : Bytes) (h8 : text.length % 8 = 0) :
    (base32DecodeGroups text).output.length ≤ 5 * (text.length / 8) := by
  induction hn : text.length using Nat.strongRecOn generalizing text with
  | ind n ih =>
    rw [base32DecodeGroups]
    by_cases h0 : text.length = 0
    · rw [if_pos h0]
      exact Nat.zero_le _
    · rw [if_neg h0]
      have hgrp : (text.take 8).length = 8 := by rw [List.length_take]; omega
      cases hraw : base32Ungroup (decide ((text.drop 8).length = 0)) (text.take 8) with
      | error e => exact Nat.zero_le _
      | ok raw =>
        obtain ⟨ds, hds, hcount, hlast⟩ := base32Ungroup_ok hgrp hraw
        obtain ⟨raw', hraw', hlen, -⟩ := base32Ungroup_letters hcount hlast
        have hsize := (base32DataBytes_count hcount).2.1
        rw [← hds, hraw] at hraw'
        cases hraw'
        have hrest := ih _ (by rw [← hn, List.length_drop]; omega) (text.drop 8)
          (by rw [List.length_drop]; omega) rfl
        rw [List.length_drop] at hrest
        dsimp only
        rw [Plan.output_cons, List.length_append]
        omega

theorem base32EncodePlan_size (inp : Bytes) :
    (base32EncodePlan inp).output.length = 8 * ((inp.length + 4) / 5) := by
  induction hn : inp.length using Nat.strongRecOn generalizing inp with
  | ind n ih =>
    by_cases h : inp.length = 0
    · rw [base32EncodePlan, if_pos h, ← hn, h]
      rfl
    · rw [base32EncodePlan_output inp h, List.length_append, base32Group_length,
        ih _ (by rw [← hn, List.length_drop]; omega) (inp.drop 5) rfl, List.length_drop]
      omega

theorem base32Encode_inverts {x : Bytes} {cap : Nat} (hcap : 8 * ((x.length + 4) / 5) ≤ cap) :
    ∃ text, base32Encode x cap = .ok text ∧
      ∀ room, x.length ≤ room → base32Decode text room = .ok x := by
  obtain ⟨hstop, hout⟩ := base32DecodePlan_encode x
  refine ⟨(base32EncodePlan x).output, ?_, ?_⟩
  · rw [base32Encode_eq, Plan.run_of_stop_none (base32EncodePlan_stop x)
      (by rw [base32EncodePlan_size]; exact hcap)]
  · intro room hroom
    rw [base32Decode_eq, Plan.run_of_stop_none hstop (by rw [hout]; exact hroom), hout]

theorem base32Decode_ragged {text : Bytes} (cap : Nat) (h8 : text.length % 8 ≠ 0) :
    base32Decode text cap = .error .truncated := by
  have h0 : text.length ≠ 0 := fun h0 => h8 (by rw [h0])
  rw [base32Decode, if_neg h0, failIf_pos h8]
  rfl

/-- On whole groups with five bytes of room a group, the outcome is that of the group walk. -/
theorem base32Decode_fits {text : Bytes} {cap : Nat} (hcap : 5 * (text.length / 8) ≤ cap)
    (h8 : text.length % 8 = 0) :
    base32Decode text cap =
      (base32DecodeGroups text).stop.elim (.ok (base32DecodeGroups text).output) .error := by
  have hplan : base32DecodePlan text = base32DecodeGroups text := by
    rw [base32DecodePlan, if_neg (not_not.mpr h8)]
    split
    · rename_i h0
      rw [base32DecodeGroups, if_pos h0]
    · rfl
  rw [base32Decode_eq, hplan, Plan.run_fits (le_trans (base32DecodeGroups_length text h8) hcap)]

theorem base32Decode_spelling (t : Base32Text) {cap : Nat} (hcap : 5 * (t.text.length / 8) ≤ cap) :
    base32Decode t.text cap = .ok (base32DecodeGroups t.text).output ∧
      t.Decodes (base32DecodeGroups t.text).output := by
  obtain ⟨hstop, hdec⟩ := base32DecodeGroups_text t.letters t.shape
  refine ⟨?_, hdec⟩
  rw [base32Decode_fits hcap (base32Spell_length t.letters), Base32Text.text, hstop]
  rfl

theorem base32Decode_rejects {text : Bytes} {cap : Nat} (hcap : 5 * (text.length / 8) ≤ cap)
    (h8 : text.length % 8 = 0) (hno : ¬ ∃ t : Base32Text, t.text = text) :
    base32Decode text cap = .error .badRecord := by
  rw [base32Decode_fits hcap h8]
  cases hstop : (base32DecodeGroups text).stop with
  | none =>
    obtain ⟨ds, hshape, hspell⟩ := base32DecodeGroups_ok h8 hstop
    exact absurd ⟨⟨ds, hshape⟩, hspell.symm⟩ hno
  | some e =>
    rw [base32DecodeGroups_error hstop]
    rfl

/-- **The BASE32 codec.**  Decoding inverts encoding; the decoder accepts exactly the spellings of
letters in whole groups, with the bytes they stand for; a length that is no multiple of 8 is
`DTL_ERR_TRUNCATED`, anything else `DTL_ERR_BADRECORD`. -/
theorem base32_spec :
    (∀ (x : Bytes) (cap : Nat), 8 * ((x.length + 4) / 5) ≤ cap →
      ∃ text, base32Encode x cap = .ok text ∧
        ∀ room, x.length ≤ room → base32Decode text room = .ok x) ∧
    ∀ (text : Bytes) (cap : Nat), 5 * (text.length / 8) ≤ cap →
      ((∃ raw, base32Decode text cap = .ok raw) ↔ ∃ t : Base32Text, t.text = text) ∧
      (∀ (t : Base32Text) (raw : Bytes), t.text = text → base32Decode text cap = .ok raw →
        t.Decodes raw) ∧
      (text.length % 8 ≠ 0 → base32Decode text cap = .error .truncated) ∧
      (text.length % 8 = 0 → (¬ ∃ t : Base32Text, t.text = text) →
        base32Decode text cap = .error .badRecord) := by
  constructor
  · intro x cap hcap
    exact base32Encode_inverts hcap
  · intro text cap hcap
    refine ⟨⟨?_, ?_⟩, ?_, base32Decode_ragged cap, base32Decode_rejects hcap⟩
    · rintro ⟨raw, hraw⟩
      by_contra hno
      by_cases h8 : text.length % 8 = 0
      · cases hraw.symm.trans (base32Decode_rejects hcap h8 hno)
      · cases hraw.symm.trans (base32Decode_ragged cap h8)
    · rintro ⟨t, rfl⟩
      exact ⟨_, (base32Decode_spelling t hcap).1⟩
    · rintro t raw rfl hraw
      obtain ⟨hok, hdec⟩ := base32Decode_spelling t hcap
      cases hraw.symm.trans hok
      exact hdec

end Dtl
