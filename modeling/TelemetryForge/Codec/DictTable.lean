import TelemetryForge.Codec.Dict
import TelemetryForge.Lib.Intern

/-!
# The dictionary encoder's table

What the de-duplication loop builds: the distinct blocks of the input in order of first occurrence,
and for every block the index of its first occurrence among them.  The loop gives up with
`DTL_ERR_RANGE` exactly when there are more distinct blocks than a `u16` entry count can say.

Principal results: `dictBuild_eq` — the loop in closed form; `dict_spec` — when encoding succeeds,
what it writes and that it decodes to the input.
-/

set_option autoImplicit false

namespace Dtl

open Sink PrefixCode Intern

theorem dictBuild_step_seen {blks done : List Bytes} {blk : Bytes} (h : blk ∈ done) :
    dictBuild (blk :: blks) done.eraseDups (ids done) =
      dictBuild blks (done ++ [blk]).eraseDups (ids (done ++ [blk])) := by
  have hmem : blk ∈ done.eraseDups := List.mem_eraseDups.mpr h
  have hfind : done.eraseDups.findIdx? (· = blk) = some (done.eraseDups.idxOf blk) := by
    rw [List.findIdx?_eq_some_iff_findIdx_eq]
    exact ⟨List.idxOf_lt_length_of_mem hmem, by simp [List.idxOf, beq_eq_decide]⟩
  rw [eraseDups_snoc_mem h, intern_seen h]
  conv => lhs; unfold dictBuild
  rw [hfind]

theorem dictBuild_step_new {blks done : List Bytes} {blk : Bytes} (h : blk ∉ done) :
    dictBuild (blk :: blks) done.eraseDups (ids done) =
      if (done ++ [blk]).eraseDups.length ≤ DICT_MAX_ENTRIES then
        dictBuild blks (done ++ [blk]).eraseDups (ids (done ++ [blk]))
      else .error .range := by
  have hfind : done.eraseDups.findIdx? (· = blk) = none := by
    rw [List.findIdx?_eq_none_iff]
    intro b hb
    rw [decide_eq_false_iff_not]
    rintro rfl
    exact h (List.mem_eraseDups.mp hb)
  rw [eraseDups_snoc_new h, intern_new h, List.length_append, List.length_singleton]
  conv => lhs; unfold dictBuild
  rw [hfind]
  dsimp only
  by_cases hfull : done.eraseDups.length ≥ DICT_MAX_ENTRIES
  · rw [failIf_pos hfull, if_neg (by omega)]
    rfl
  · rw [failIf_neg hfull, if_pos (by omega)]
    rfl

/-- **The de-duplication loop**: the blocks of `done` are behind it, those of `blks` ahead. -/
theorem dictBuild_eq : ∀ (blks done : List Bytes), done.eraseDups.length ≤ DICT_MAX_ENTRIES →
    dictBuild blks done.eraseDups (ids done) =
      if (done ++ blks).eraseDups.length ≤ DICT_MAX_ENTRIES then
        .ok ((done ++ blks).eraseDups, ids (done ++ blks))
      else .error .range
  | [], done, h => by
    rw [List.append_nil, if_pos h]
    rfl
  | blk :: blks, done, h => by
    have happ : done ++ blk :: blks = (done ++ [blk]) ++ blks := by simp
    rw [happ]
    by_cases hmem : blk ∈ done
    · rw [dictBuild_step_seen hmem]
      exact dictBuild_eq blks _ (by rwa [eraseDups_snoc_mem hmem])
    · rw [dictBuild_step_new hmem]
      by_cases hfit : (done ++ [blk]).eraseDups.length ≤ DICT_MAX_ENTRIES
      · rw [if_pos hfit]
        exact dictBuild_eq blks _ hfit
      · have hgrow := eraseDups_length_mono (done ++ [blk]) blks
        rw [if_neg hfit, if_neg (by omega)]

/-- The ids look their blocks up. -/
theorem ids_spell (blks : List Bytes) : dictSpell blks.eraseDups (ids blks) = blks := by
  rw [dictSpell, ids, List.map_map]
  refine (List.map_congr_left fun b hb => ?_).trans (List.map_id _)
  have hlt : blks.eraseDups.idxOf b < blks.eraseDups.length :=
    List.idxOf_lt_length_of_mem (List.mem_eraseDups.mpr hb)
  rw [Function.comp_apply, List.getD_eq_getElem _ _ hlt, List.getElem_idxOf hlt, id]

/-- The bytes of a table and its ids on the wire. -/
def dictWire (table : List Bytes) (tokens : List Nat) : Bytes :=
  endianWriteU16le (UInt16.ofNat table.length) ++ table.flatMap dictPhrase ++
    tokens.flatMap fun id => endianWriteU16le (UInt16.ofNat id)

theorem dictEncodePlan_eq (inp : Bytes) :
    dictEncodePlan true inp = if (dictBlocks inp).eraseDups.length ≤ DICT_MAX_ENTRIES then
        Plan.cons (endianWriteU16le (UInt16.ofNat (dictBlocks inp).eraseDups.length))
          (Plan.append (dictEntryChunks (dictBlocks inp).eraseDups)
            (Plan.append (dictTokenChunks (ids (dictBlocks inp))) Plan.done))
      else Plan.fail .range := by
  have hbuild := dictBuild_eq (dictBlocks inp) [] (Nat.zero_le _)
  rw [List.nil_append, List.eraseDups_nil, ids_nil] at hbuild
  unfold dictEncodePlan
  by_cases h0 : inp.length = 0
  · rw [if_pos h0, dictBlocks, if_pos h0]
    exact (if_pos (Nat.zero_le _)).symm
  · rw [if_neg h0, if_neg (by decide), hbuild]
    by_cases hfit : (dictBlocks inp).eraseDups.length ≤ DICT_MAX_ENTRIES
    · rw [if_pos hfit, if_pos hfit]
    · rw [if_neg hfit, if_neg hfit]

theorem dictEncodePlan_fits {inp : Bytes}
    (h : (dictBlocks inp).eraseDups.length ≤ DICT_MAX_ENTRIES) :
    (dictEncodePlan true inp).stop = none ∧ (dictEncodePlan true inp).output =
      dictWire (dictBlocks inp).eraseDups (ids (dictBlocks inp)) := by
  rw [dictEncodePlan_eq, if_pos h]
  refine ⟨rfl, ?_⟩
  rw [Plan.output_cons, Plan.output_append, Plan.output_append, Plan.output_done, List.append_nil,
    dictEntryChunks_flatten, dictWire, List.append_assoc, dictTokenChunks]
  simp only [List.flatMap_def]

theorem dictEncodePlan_overflow {inp : Bytes}
    (h : DICT_MAX_ENTRIES < (dictBlocks inp).eraseDups.length) :
    dictEncodePlan true inp = Plan.fail .range := by
  rw [dictEncodePlan_eq, if_neg (by omega)]

/-- A table and ids that fit the counts decode to what they spell. -/
theorem dictDecode_wire {inp : Bytes} {room : Nat}
    (h : (dictBlocks inp).eraseDups.length ≤ DICT_MAX_ENTRIES) (hroom : inp.length ≤ room) :
    dictDecode true (dictWire (dictBlocks inp).eraseDups (ids (dictBlocks inp))) room = .ok inp := by
  obtain ⟨hstop, hout⟩ := dictEncodePlan_fits h
  obtain ⟨hdone, hback⟩ := dictDecodePlan_encode true inp hstop
  rw [hout] at hdone hback
  rw [dictDecode_eq, Plan.run_of_stop_none hdone (by rw [hback]; exact hroom), hback]

/-! ## Size -/

theorem dictBlocks_count (inp : Bytes) : (dictBlocks inp).length = (inp.length + 3) / 4 := by
  induction hn : inp.length using Nat.strongRecOn generalizing inp with
  | ind n ih =>
    rw [dictBlocks]
    by_cases h : inp.length = 0
    · rw [if_pos h, ← hn, h]
      rfl
    · have hdrop : (inp.drop DICT_BLOCK).length = n - 4 := by
        rw [List.length_drop, hn, DICT_BLOCK]
      rw [if_neg h, List.length_cons, ih _ (by omega) _ rfl, hdrop]
      omega

theorem dictPhrases_length : ∀ (table : List Bytes), (∀ e ∈ table, e.length ≤ DICT_BLOCK) →
    (table.flatMap dictPhrase).length ≤ 5 * table.length
  | [], _ => Nat.zero_le _
  | e :: table, h => by
    have he := h e (by simp)
    have ih := dictPhrases_length table fun e' he' => h e' (by simp [he'])
    rw [DICT_BLOCK] at he
    rw [List.flatMap_cons, List.length_append, dictPhrase, List.length_cons, List.length_cons]
    omega

theorem dictTokens_length (tokens : List Nat) :
    (tokens.flatMap fun id => endianWriteU16le (UInt16.ofNat id)).length = 2 * tokens.length := by
  induction tokens with
  | nil => rfl
  | cons id tokens ih =>
    rw [List.flatMap_cons, List.length_append, ih, endianWriteU16le, List.length_cons]
    simp only [List.length_cons, List.length_nil]
    omega

/-- Five bytes a table entry, two bytes an id, two for the count. -/
theorem dictWire_length (inp : Bytes) :
    (dictWire (dictBlocks inp).eraseDups (ids (dictBlocks inp))).length ≤
      2 + 7 * ((inp.length + 3) / 4) := by
  have hphrases := dictPhrases_length (dictBlocks inp).eraseDups fun e he =>
    dictBlocks_length inp e (List.mem_eraseDups.mp he)
  have htable := eraseDups_length_le (dictBlocks inp)
  rw [dictBlocks_count] at htable
  have hcount : (endianWriteU16le (UInt16.ofNat (dictBlocks inp).eraseDups.length)).length = 2 :=
    rfl
  rw [dictWire, List.length_append, List.length_append, dictTokens_length, ids_length,
    dictBlocks_count, hcount]
  omega

/-- **When dictionary encoding succeeds, and what it writes.**  The input has a table of its
distinct blocks by first occurrence and ids into it.  With room for these, encoding succeeds exactly
if the table fits a `u16` count and is `DTL_ERR_RANGE` otherwise; the output is the table and the
ids, and it decodes to the input. -/
theorem dict_spec (x : Bytes) : ∃ table : List Bytes, ∃ tokens : List Nat,
    table.Nodup ∧ (∀ b, b ∈ table ↔ b ∈ dictBlocks x) ∧
    table.Pairwise (fun a b => (dictBlocks x).idxOf a < (dictBlocks x).idxOf b) ∧
    (∀ id ∈ tokens, id < table.length) ∧ dictSpell table tokens = dictBlocks x ∧
    (dictWire table tokens).length ≤ 2 + 7 * ((x.length + 3) / 4) ∧
    ∀ cap, (dictWire table tokens).length ≤ cap →
      ((∃ e, dictEncode true x cap = .ok e) ↔ (dictBlocks x).toFinset.card ≤ DICT_MAX_ENTRIES) ∧
      (DICT_MAX_ENTRIES < (dictBlocks x).toFinset.card → dictEncode true x cap = .error .range) ∧
      ∀ e, dictEncode true x cap = .ok e → e = dictWire table tokens ∧
        ∀ room, x.length ≤ room → dictDecode true e room = .ok x := by
  refine ⟨(dictBlocks x).eraseDups, ids (dictBlocks x), eraseDups_nodup _,
    fun _ => List.mem_eraseDups, eraseDups_order _, fun _ => ids_lt, ids_spell _,
    dictWire_length x, fun cap hcap => ?_⟩
  rw [← eraseDups_card]
  have hover : DICT_MAX_ENTRIES < (dictBlocks x).eraseDups.length →
      dictEncode true x cap = .error .range := by
    intro h
    rw [dictEncode_eq, dictEncodePlan_overflow h]
    rfl
  have hfits : (dictBlocks x).eraseDups.length ≤ DICT_MAX_ENTRIES → dictEncode true x cap =
      .ok (dictWire (dictBlocks x).eraseDups (ids (dictBlocks x))) := by
    intro h
    obtain ⟨hstop, hout⟩ := dictEncodePlan_fits h
    rw [dictEncode_eq, Plan.run_of_stop_none hstop (by rw [hout]; exact hcap), hout]
  rcases Nat.lt_or_ge DICT_MAX_ENTRIES (dictBlocks x).eraseDups.length with h | h
  · rw [hover h]
    refine ⟨⟨?_, fun hle => absurd h (Nat.not_lt.mpr hle)⟩, fun _ => rfl, ?_⟩
    · rintro ⟨e, he⟩
      cases he
    · intro e he
      cases he
  · rw [hfits h]
    refine ⟨⟨fun _ => h, fun _ => ⟨_, rfl⟩⟩, fun hlt => absurd hlt (Nat.not_lt.mpr h), ?_⟩
    intro e he
    cases he
    exact ⟨rfl, fun room hroom => dictDecode_wire h hroom⟩

end Dtl
