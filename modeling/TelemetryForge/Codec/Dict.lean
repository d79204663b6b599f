import TelemetryForge.Codec.Rle

/-!
# The dictionary codec

Model of `codec/dict`.  A blob is a `u16` entry count, that many length-prefixed phrases and a
stream of `u16` phrase ids.  Entries are represented by the phrases they refer to.  The private
arena of either direction is the flag `scratchOk` of `CodecEnv`.

Principal results: `dictBuild_spec` — the encoder's table and ids spell out its blocks;
`dictDecodePlan_encode` — the round trip.
-/

set_option autoImplicit false

namespace Dtl

open Sink PrefixCode

/-- `DTL_DICT_BLOCK`. -/
def DICT_BLOCK : Nat := 4

/-- `DTL_DICT_MAX_ENTRIES`. -/
def DICT_MAX_ENTRIES : Nat := 65535

/-! ## Decoder -/

/-- The body of the table loop of `dtl_dict_decode_impl`. -/
def dictReadPhrase (b : Bytes) : Res (Bytes × Bytes) := do
  let (plen, b) ← bufReadU8 b
  failIf (b.length < plen.toNat) .truncated
  return (b.take plen.toNat, b.drop plen.toNat)

/-- The token loop of `dtl_dict_decode_impl`. -/
def dictDecodeTokens (cap : Nat) (entries : List Bytes) : Bytes → Bytes → Res Bytes
  | [], out => .ok out
  | p0 :: p1 :: b, out => do
    let id := (endianReadU16le p0 p1).toNat
    failIf (id ≥ entries.length) .badRecord
    let out ← emit cap out (entries.getD id [])
    dictDecodeTokens cap entries b out
  | _, _ => .error .truncated

/-- `dtl_dict_decode`. -/
def dictDecode (scratchOk : Bool) (inp : Bytes) (cap : Nat) : Res Bytes := do
  let (entryCount, b) ← bufReadU16 inp
  failIf (entryCount ≠ 0 ∧ scratchOk = false) .oom
  let (entries, b) ← readMany dictReadPhrase entryCount.toNat b
  dictDecodeTokens cap entries b []

/-! ## Encoder -/

/-- The blocks of the input, in order; only the last can be short. -/
def dictBlocks (inp : Bytes) : List Bytes :=
  if inp.length = 0 then [] else inp.take DICT_BLOCK :: dictBlocks (inp.drop DICT_BLOCK)
termination_by inp.length
decreasing_by simp only [List.length_drop, DICT_BLOCK]; omega

/-- The de-duplication loop of `dtl_dict_encode_impl`: the table and the id of each block. -/
def dictBuild : List Bytes → List Bytes → List Nat → Res (List Bytes × List Nat)
  | [], entries, tokens => .ok (entries, tokens)
  | blk :: blks, entries, tokens =>
    match entries.findIdx? (· = blk) with
    | some found => dictBuild blks entries (tokens ++ [found])
    | none => do
      failIf (entries.length ≥ DICT_MAX_ENTRIES) .range
      dictBuild blks (entries ++ [blk]) (tokens ++ [entries.length])

/-- The loop that emits the phrase table. -/
def dictEmitEntries (cap : Nat) : List Bytes → Bytes → Res Bytes
  | [], out => .ok out
  | phrase :: entries, out => do
    let out ← emit cap out [UInt8.ofNat phrase.length]
    let out ← emit cap out phrase
    dictEmitEntries cap entries out

/-- The loop that emits the token stream. -/
def dictEmitTokens (cap : Nat) : List Nat → Bytes → Res Bytes
  | [], out => .ok out
  | id :: tokens, out => do
    let out ← emit cap out (endianWriteU16le (UInt16.ofNat id))
    dictEmitTokens cap tokens out

/-- `dtl_dict_encode`. -/
def dictEncode (scratchOk : Bool) (inp : Bytes) (cap : Nat) : Res Bytes :=
  if inp.length = 0 then emit cap [] (endianWriteU16le 0) else do
  failIf (scratchOk = false) .oom
  let (entries, tokens) ← dictBuild (dictBlocks inp) [] []
  let out ← emit cap [] (endianWriteU16le (UInt16.ofNat entries.length))
  let out ← dictEmitEntries cap entries out
  dictEmitTokens cap tokens out

/-! ## Plans -/

def dictTokensPlan (entries : List Bytes) : Bytes → CodecPlan
  | [] => Plan.done
  | p0 :: p1 :: b =>
    let id := (endianReadU16le p0 p1).toNat
    if id ≥ entries.length then Plan.fail .badRecord
    else Plan.cons (entries.getD id []) (dictTokensPlan entries b)
  | _ => Plan.fail .truncated

def dictDecodePlan (scratchOk : Bool) (inp : Bytes) : CodecPlan :=
  match bufReadU16 inp with
  | .error e => Plan.fail e
  | .ok (entryCount, b) =>
    if entryCount ≠ 0 ∧ scratchOk = false then Plan.fail .oom else
    match readMany dictReadPhrase entryCount.toNat b with
    | .error e => Plan.fail e
    | .ok (entries, b) => dictTokensPlan entries b

/-- The chunks of the phrase table. -/
def dictEntryChunks (entries : List Bytes) : List Bytes :=
  entries.flatMap fun phrase => [[UInt8.ofNat phrase.length], phrase]

/-- The chunks of the token stream. -/
def dictTokenChunks (tokens : List Nat) : List Bytes :=
  tokens.map fun id => endianWriteU16le (UInt16.ofNat id)

def dictEncodePlan (scratchOk : Bool) (inp : Bytes) : CodecPlan :=
  if inp.length = 0 then Plan.cons (endianWriteU16le 0) Plan.done
  else if scratchOk = false then Plan.fail .oom
  else
    match dictBuild (dictBlocks inp) [] [] with
    | .error e => Plan.fail e
    | .ok (entries, tokens) =>
      Plan.cons (endianWriteU16le (UInt16.ofNat entries.length))
        (Plan.append (dictEntryChunks entries) (Plan.append (dictTokenChunks tokens) Plan.done))

theorem dictDecodeTokens_eq (cap : Nat) (entries : List Bytes) : ∀ (inp out : Bytes),
    dictDecodeTokens cap entries inp out = (dictTokensPlan entries inp).from .range cap out
  | [], _ => rfl
  | [_], _ => rfl
  | p0 :: p1 :: b, out => by
    unfold dictDecodeTokens dictTokensPlan
    dsimp only
    by_cases h : (endianReadU16le p0 p1).toNat ≥ entries.length
    · rw [failIf_pos h, if_pos h]; rfl
    · rw [failIf_neg h, if_neg h, Except.bind_ok_eq, Plan.from_cons]
      congr 1
      funext o
      exact dictDecodeTokens_eq cap entries b o

theorem dictDecode_eq (scratchOk : Bool) (inp : Bytes) (cap : Nat) :
    dictDecode scratchOk inp cap = (dictDecodePlan scratchOk inp).run .range cap := by
  unfold dictDecode dictDecodePlan
  cases bufReadU16 inp with
  | error e => rfl
  | ok p =>
    dsimp only [Except.bind_ok_eq]
    by_cases h : p.1 ≠ 0 ∧ scratchOk = false
    · rw [failIf_pos h, if_pos h]; rfl
    · rw [failIf_neg h, if_neg h, Except.bind_ok_eq]
      cases readMany dictReadPhrase p.1.toNat p.2 with
      | error e => rfl
      | ok q => exact dictDecodeTokens_eq cap q.1 q.2 []

theorem dictEmitEntries_eq (cap : Nat) : ∀ (entries : List Bytes) (out : Bytes),
    dictEmitEntries cap entries out = putAll .range cap (dictEntryChunks entries) out
  | [], _ => rfl
  | phrase :: entries, out => by
    unfold dictEmitEntries dictEntryChunks
    rw [List.flatMap_cons, List.cons_append, List.cons_append, List.nil_append, putAll_cons]
    congr 1
    funext o
    rw [putAll_cons]
    congr 1
    funext o'
    exact dictEmitEntries_eq cap entries o'

theorem dictEmitTokens_eq (cap : Nat) : ∀ (tokens : List Nat) (out : Bytes),
    dictEmitTokens cap tokens out = putAll .range cap (dictTokenChunks tokens) out
  | [], _ => rfl
  | id :: tokens, out => by
    unfold dictEmitTokens dictTokenChunks
    rw [List.map_cons, putAll_cons]
    congr 1
    funext o
    exact dictEmitTokens_eq cap tokens o

theorem dictEncode_eq (scratchOk : Bool) (inp : Bytes) (cap : Nat) :
    dictEncode scratchOk inp cap = (dictEncodePlan scratchOk inp).run .range cap := by
  unfold dictEncode dictEncodePlan
  split
  · exact (putAll_singleton Err.range cap _ []).symm
  by_cases h : scratchOk = false
  · rw [failIf_pos h, if_pos h]; rfl
  rw [failIf_neg h, if_neg h, Except.bind_ok_eq]
  cases dictBuild (dictBlocks inp) [] [] with
  | error e => rfl
  | ok p =>
    dsimp only [Except.bind_ok_eq]
    refine Eq.trans ?_ (Plan.from_cons Err.range cap _ _ []).symm
    congr 1
    funext o
    rw [Plan.from_append, dictEmitEntries_eq]
    congr 1
    funext o'
    rw [Plan.from_append, dictEmitTokens_eq]
    cases putAll Err.range cap (dictTokenChunks p.2) o' <;> rfl

/-! ## Round trip -/

theorem dictBlocks_flatten (inp : Bytes) : (dictBlocks inp).flatten = inp := by
  induction hn : inp.length using Nat.strongRecOn generalizing inp with
  | ind n ih =>
    rw [dictBlocks]
    by_cases h : inp.length = 0
    · rw [if_pos h, List.length_eq_zero_iff.mp h]; rfl
    · rw [if_neg h, List.flatten_cons, ih _ (by rw [← hn, List.length_drop]; simp only [DICT_BLOCK]; omega)
        _ rfl, List.take_append_drop]

theorem dictBlocks_length (inp : Bytes) : ∀ blk ∈ dictBlocks inp, blk.length ≤ DICT_BLOCK := by
  induction hn : inp.length using Nat.strongRecOn generalizing inp with
  | ind n ih =>
    intro blk hb
    rw [dictBlocks] at hb
    by_cases h : inp.length = 0
    · rw [if_pos h] at hb; cases hb
    · rw [if_neg h] at hb
      rcases List.mem_cons.mp hb with rfl | hb
      · rw [List.length_take]; omega
      · exact ih _ (by rw [← hn, List.length_drop]; simp only [DICT_BLOCK]; omega) _ rfl blk hb

/-- Every id refers to an entry. -/
def DictIds (entries : List Bytes) (tokens : List Nat) : Prop := ∀ id ∈ tokens, id < entries.length

/-- The blocks that a list of ids spells out. -/
def dictSpell (entries : List Bytes) (tokens : List Nat) : List Bytes :=
  tokens.map fun id => entries.getD id []

theorem dictSpell_grow {entries : List Bytes} {tokens : List Nat} (h : DictIds entries tokens)
    (blk : Bytes) : dictSpell (entries ++ [blk]) tokens = dictSpell entries tokens := by
  unfold dictSpell
  refine List.map_congr_left fun id hid => ?_
  rw [List.getD_append _ _ _ _ (h id hid)]

/-- What holds of the table and the ids after the blocks of `done`. -/
structure DictTable (done entries : List Bytes) (tokens : List Nat) : Prop where
  ids : DictIds entries tokens
  count : entries.length ≤ DICT_MAX_ENTRIES
  short : ∀ e ∈ entries, e.length ≤ DICT_BLOCK
  spells : dictSpell entries tokens = done

theorem DictTable.found {done entries : List Bytes} {tokens : List Nat} {blk : Bytes} {j : Nat}
    (h : DictTable done entries tokens) (hj : entries.findIdx? (· = blk) = some j) :
    DictTable (done ++ [blk]) entries (tokens ++ [j]) := by
  obtain ⟨hlt, heq, -⟩ := List.findIdx?_eq_some_iff_getElem.mp hj
  refine ⟨?_, h.count, h.short, ?_⟩
  · intro id hid
    rcases List.mem_append.mp hid with hid | hid
    · exact h.ids id hid
    · rw [List.mem_singleton.mp hid]; exact hlt
  · have hval : entries.getD j [] = blk := by
      rw [List.getD_eq_getElem _ _ hlt]; exact of_decide_eq_true heq
    have hsp := h.spells
    unfold dictSpell at hsp ⊢
    rw [List.map_append, hsp, List.map_singleton, hval]

theorem DictTable.added {done entries : List Bytes} {tokens : List Nat} {blk : Bytes}
    (h : DictTable done entries tokens) (hroom : ¬ entries.length ≥ DICT_MAX_ENTRIES)
    (hb : blk.length ≤ DICT_BLOCK) :
    DictTable (done ++ [blk]) (entries ++ [blk]) (tokens ++ [entries.length]) := by
  refine ⟨?_, by rw [List.length_append, List.length_singleton]; omega, ?_, ?_⟩
  · intro id hid
    rw [List.length_append, List.length_singleton]
    rcases List.mem_append.mp hid with hid | hid
    · have := h.ids id hid; omega
    · rw [List.mem_singleton.mp hid]; omega
  · intro e he
    rcases List.mem_append.mp he with he | he
    · exact h.short e he
    · rw [List.mem_singleton.mp he]; exact hb
  · have hsp := dictSpell_grow h.ids blk
    rw [h.spells] at hsp
    unfold dictSpell at hsp ⊢
    rw [List.map_append, hsp, List.map_singleton, List.getD_append_right _ _ _ _ (Nat.le_refl _),
      Nat.sub_self]
    rfl

/-- **The table and the ids spell out the blocks.** -/
theorem dictBuild_spec : ∀ (blks done entries : List Bytes) (tokens : List Nat) {es : List Bytes}
    {ts : List Nat}, (∀ b ∈ blks, b.length ≤ DICT_BLOCK) → DictTable done entries tokens →
      dictBuild blks entries tokens = .ok (es, ts) → DictTable (done ++ blks) es ts
  | [], done, entries, tokens, es, ts, _, h, hok => by
    cases hok
    rwa [List.append_nil]
  | blk :: blks, done, entries, tokens, es, ts, hlen, h, hok => by
    have hblks : ∀ b ∈ blks, b.length ≤ DICT_BLOCK := fun b hb => hlen b (by simp [hb])
    rw [show done ++ blk :: blks = (done ++ [blk]) ++ blks by simp]
    unfold dictBuild at hok
    split at hok
    · rename_i j hj
      exact dictBuild_spec blks _ _ _ hblks (h.found hj) hok
    · rw [Except.bind_eq_ok] at hok
      obtain ⟨_, hroom, hok⟩ := hok
      exact dictBuild_spec blks _ _ _ hblks
        (h.added (failIf_eq_ok.mp hroom) (hlen blk (by simp))) hok

/-- A phrase on the wire. -/
def dictPhrase (p : Bytes) : Bytes := UInt8.ofNat p.length :: p

theorem dictReadPhrase_inverts :
    Inverts dictReadPhrase dictPhrase (fun p => p.length ≤ DICT_BLOCK) := by
  intro p r hp
  simp only [DICT_BLOCK] at hp
  have hlen : (UInt8.ofNat p.length).toNat = p.length := by rw [UInt8.toNat_ofNat']; omega
  have hroom : ¬ (p ++ r).length < p.length := by rw [List.length_append]; omega
  simp only [dictPhrase, List.cons_append, dictReadPhrase, bufReadU8_cons, Except.bind_ok_eq, hlen,
    failIf_neg hroom, List.take_left, List.drop_left, Except.pure_eq_ok]

theorem dictEntryChunks_flatten (entries : List Bytes) :
    (dictEntryChunks entries).flatten = entries.flatMap dictPhrase := by
  induction entries with
  | nil => rfl
  | cons e es ih =>
    unfold dictEntryChunks at ih ⊢
    simp [dictPhrase, ih]

theorem dictTokensPlan_encode (entries : List Bytes) : ∀ (tokens : List Nat),
    DictIds entries tokens → entries.length ≤ DICT_MAX_ENTRIES →
      (dictTokensPlan entries (dictTokenChunks tokens).flatten).stop = none ∧
      (dictTokensPlan entries (dictTokenChunks tokens).flatten).output =
        (dictSpell entries tokens).flatten
  | [], _, _ => ⟨rfl, rfl⟩
  | id :: tokens, hids, hcount => by
    have hid := hids id (by simp)
    obtain ⟨h1, h2⟩ := dictTokensPlan_encode entries tokens (fun j hj => hids j (by simp [hj])) hcount
    simp only [DICT_MAX_ENTRIES] at hcount
    have hnat : (UInt16.ofNat id).toNat = id := by rw [UInt16.toNat_ofNat']; omega
    unfold dictTokenChunks at h1 h2 ⊢
    rw [List.map_cons, List.flatten_cons, endianWriteU16le, List.cons_append, List.cons_append,
      List.nil_append, dictTokensPlan]
    simp only [endianReadU16le_write, hnat]
    rw [if_neg (by omega), Plan.stop_cons, Plan.output_cons, h1, h2]
    exact ⟨rfl, rfl⟩

/-- **Dictionary round trip** on what the encoder accepts. -/
theorem dictDecodePlan_encode (s : Bool) (inp : Bytes) (h : (dictEncodePlan s inp).stop = none) :
    (dictDecodePlan true (dictEncodePlan s inp).output).stop = none ∧
      (dictDecodePlan true (dictEncodePlan s inp).output).output = inp := by
  unfold dictEncodePlan at h ⊢
  by_cases h0 : inp.length = 0
  · rw [if_pos h0, List.length_eq_zero_iff.mp h0]
    exact ⟨rfl, rfl⟩
  rw [if_neg h0] at h ⊢
  split at h
  · cases h
  rename_i hs
  rw [if_neg hs]
  split at h
  · cases h
  rename_i entries tokens hbuild
  have ht := dictBuild_spec (dictBlocks inp) [] [] [] (dictBlocks_length inp)
    ⟨by simp [DictIds], Nat.zero_le _, by simp, rfl⟩ hbuild
  rw [List.nil_append] at ht
  have hcount := ht.count
  simp only [DICT_MAX_ENTRIES] at hcount
  have hn : (UInt16.ofNat entries.length).toNat = entries.length := by
    rw [UInt16.toNat_ofNat']; omega
  have hread := readMany_inverts dictReadPhrase_inverts entries (dictTokenChunks tokens).flatten ht.short
  obtain ⟨h1, h2⟩ := dictTokensPlan_encode entries tokens ht.ids ht.count
  rw [ht.spells, dictBlocks_flatten] at h2
  simp only [Plan.output_cons, Plan.output_append, Plan.output_done, List.append_nil,
    dictEntryChunks_flatten, dictDecodePlan, bufReadU16_write, hn, hread]
  simp [h1, h2]

end Dtl
