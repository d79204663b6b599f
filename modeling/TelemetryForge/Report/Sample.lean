import TelemetryForge.Lib.Reservoir
import TelemetryForge.Report.SampleRng
import TelemetryForge.Report.Tools

/-!
# Sampling

Model of `dtl_sample_choose` and `dtl_sample_file`.  A store into `reservoir` is logged with its index;
one at an index that is not a slot leaves the slots as they are, and what else it overwrites is not
modelled.  The loop is stated for any draws, and then run on those of the generator.

Principal results: `sampleChoose_safe_iff` — when every store is in bounds and exactly `n` records are
taken; `sampleSlots_unbiased` — over all draws, every record is selected equally often.
-/

set_option autoImplicit false

namespace Dtl

/-! ## The selection -/

/-- The memory a call is given: whether the two arrays can be allocated, and what the reservoir holds
before it is written. -/
structure SampleMemory where
  selectedOk : Bool
  reservoirOk : Bool
  held : Nat → Nat

/-- The reservoir, and the indices stored to so far. -/
structure SampleReservoir where
  slots : List Nat
  stores : List Nat

/-- `reservoir[j] = i`. -/
def sampleStore (r : SampleReservoir) (j i : Nat) : SampleReservoir :=
  ⟨r.slots.set j i, r.stores ++ [j]⟩

/-- The first loop, over an array of `n` slots. -/
def sampleFill (held : Nat → Nat) (n : Nat) : SampleReservoir :=
  (List.range n).foldl (fun r i => sampleStore r i i) ⟨(List.range n).map held, []⟩

/-- What the second loop does with the draw `j` for index `i`. -/
def sampleTake (n : Nat) (r : SampleReservoir) (j i : Nat) : SampleReservoir :=
  if j ≤ n then sampleStore r j i else r

/-- The body of the second loop. -/
def sampleStep (n : Nat) (st : UInt32 × SampleReservoir) (i : Nat) : UInt32 × SampleReservoir :=
  let (j, rng) := sampleRngBelow st.1 (UInt32.ofNat (i + 1))
  (rng, sampleTake n st.2 j.toNat i)

/-- The generator and the reservoir when the second loop has come to index `i`. -/
def sampleRun (held : Nat → Nat) (n : Nat) (seed : UInt32) (i : Nat) : UInt32 × SampleReservoir :=
  (List.range' n (i - n)).foldl (sampleStep n) (sampleRngSeed seed, sampleFill held n)

/-- The third loop, over `count` flags. -/
def sampleFlags (count : Nat) (slots : List Nat) : List Bool :=
  slots.foldl (fun selected k => selected.set k true) (List.replicate count false)

/-- `dtl_sample_choose`: the flags. -/
def sampleChoose (mem : SampleMemory) (count n : Nat) (seed : UInt32) : Res (List Bool) :=
  if mem.selectedOk = false then .error .oom
  else if n = 0 ∨ n ≥ count then .ok (List.replicate (if count = 0 then 1 else count) false)
  else if mem.reservoirOk = false then .error .oom
  else .ok (sampleFlags count (sampleRun mem.held n seed count).2.slots)

/-- The items that are replayed. -/
def sampleTaken (copyAll : Bool) (selected : List Bool) (items : List EmitItem) : List EmitItem :=
  ((items.zip selected).filter fun p => copyAll || p.2).map (·.1)

/-- `dtl_sample_file`: the output and the number of records taken. -/
def sampleFile (env : Nat → CodecEnv) (e : EmitEnv) (a : Arena) (mem : SampleMemory) (n : Nat)
    (seed : UInt32) (maxFile : Nat) (file : Bytes) : Res (Bytes × Nat) := do
  let items ← retain env (fun _ => true) maxFile file
  let selected ← sampleChoose mem items.length n seed
  let taken := sampleTaken (n == 0 || decide (n ≥ items.length)) selected items
  let out ← reemit e a none none taken
  return (out, taken.length)

/-! ## The loop on any draws -/

/-- The first two loops when the draws are those of a list. -/
def sampleSlots (held : Nat → Nat) (n : Nat) (draws : List Nat) : SampleReservoir :=
  (draws.zipIdx n).foldl (fun r p => sampleTake n r p.1 p.2) (sampleFill held n)

/-- The draws of the generator for `m` indices from `i` on. -/
def sampleDrawsFrom (rng : UInt32) (i : Nat) : Nat → List Nat
  | 0 => []
  | m + 1 =>
    let (j, rng) := sampleRngBelow rng (UInt32.ofNat (i + 1))
    j.toNat :: sampleDrawsFrom rng (i + 1) m

/-- The draws that `seed` gives for the indices from `n` up to `i`. -/
def sampleDraws (n : Nat) (seed : UInt32) (i : Nat) : List Nat :=
  sampleDrawsFrom (sampleRngSeed seed) n (i - n)

theorem sampleSteps_eq (n : Nat) : ∀ (m i : Nat) (rng : UInt32) (r : SampleReservoir),
    ((List.range' i m).foldl (sampleStep n) (rng, r)).2 =
      ((sampleDrawsFrom rng i m).zipIdx i).foldl (fun r p => sampleTake n r p.1 p.2) r
  | 0, _, _, _ => rfl
  | m + 1, i, rng, r => by
    rw [List.range'_succ, List.foldl_cons, sampleDrawsFrom, List.zipIdx_cons, List.foldl_cons]
    exact sampleSteps_eq n m (i + 1) _ _

/-- The loop runs on the draws of the generator. -/
theorem sampleRun_eq (held : Nat → Nat) (n : Nat) (seed : UInt32) (i : Nat) :
    (sampleRun held n seed i).2 = sampleSlots held n (sampleDraws n seed i) :=
  sampleSteps_eq n (i - n) n _ _

theorem sampleDrawsFrom_length : ∀ (m : Nat) (rng : UInt32) (i : Nat),
    (sampleDrawsFrom rng i m).length = m
  | 0, _, _ => rfl
  | m + 1, _, i => by rw [sampleDrawsFrom, List.length_cons, sampleDrawsFrom_length m]

/-- The filled reservoir, whatever it held. -/
theorem sampleFill_eq (held : Nat → Nat) (n : Nat) :
    sampleFill held n = ⟨List.range n, List.range n⟩ := by
  have hfill : ∀ k ≤ n, (List.range k).foldl (fun r i => sampleStore r i i)
      ⟨(List.range n).map held, []⟩ =
        ⟨List.range k ++ ((List.range n).map held).drop k, List.range k⟩ := by
    intro k
    induction k with
    | zero =>
      intro _
      rfl
    | succ k ih =>
      intro hk
      rw [List.range_succ, List.foldl_append, ih (Nat.le_of_succ_le hk), List.foldl_cons,
        List.foldl_nil, sampleStore, List.set_append_right _ _ (by simp), List.length_range,
        Nat.sub_self, List.drop_eq_getElem_cons (by simpa using Nat.lt_of_succ_le hk), List.set_cons_zero]
      simp
  rw [sampleFill, hfill n (Nat.le_refl n)]
  simp

theorem sampleTake_slots {n : Nat} {r : SampleReservoir} (h : r.slots.length = n) (j i : Nat) :
    (sampleTake n r j i).slots = r.slots.set j i := by
  unfold sampleTake
  split
  · rfl
  · exact (List.set_eq_of_length_le (by omega)).symm

theorem sampleTake_stores (n : Nat) (r : SampleReservoir) (j i : Nat) :
    (sampleTake n r j i).stores = r.stores ++ [j].filter (· ≤ n) := by
  unfold sampleTake
  split
  · rename_i h
    rw [List.filter_cons_of_pos (by simpa using h)]
    rfl
  · rename_i h
    rw [List.filter_cons_of_neg (by simpa using h), List.filter_nil, List.append_nil]

/-- **The slots are those of algorithm R, and the stores are the draws up to `n`.** -/
theorem sampleSlots_eq (held : Nat → Nat) (n : Nat) (draws : List Nat) :
    (sampleSlots held n draws).slots = Reservoir.run n draws ∧
      (sampleSlots held n draws).stores = List.range n ++ draws.filter (· ≤ n) := by
  have hsnoc : ∀ (draws : List Nat) (j : Nat), sampleSlots held n (draws ++ [j]) =
      sampleTake n (sampleSlots held n draws) j (n + draws.length) := by
    intro draws j
    rw [sampleSlots, List.zipIdx_append, List.foldl_append]
    rfl
  induction draws using List.reverseRecOn with
  | nil =>
    rw [sampleSlots, List.zipIdx_nil, List.foldl_nil, sampleFill_eq]
    simp
  | append_singleton draws j ih =>
    obtain ⟨hslots, hstores⟩ := ih
    rw [hsnoc, Reservoir.run_snoc, sampleTake_slots (by rw [hslots, Reservoir.run_length]), hslots,
      sampleTake_stores, hstores, List.filter_append, List.append_assoc]
    exact ⟨rfl, rfl⟩

/-! ## The flags -/

theorem setFlags_getElem? (slots : List Nat) : ∀ (selected : List Bool) (k : Nat),
    (slots.foldl (fun selected k => selected.set k true) selected)[k]? =
      if k ∈ slots then selected[k]?.map fun _ => true else selected[k]? := by
  induction slots with
  | nil =>
    intro selected k
    rfl
  | cons s slots ih =>
    intro selected k
    rw [List.foldl_cons, ih]
    by_cases hs : s = k
    · subst hs
      rw [List.getElem?_set_self', if_pos List.mem_cons_self]
      cases selected[s]? <;> simp
    · rw [List.getElem?_set_ne hs]
      simp only [List.mem_cons, Ne.symm hs, false_or]

/-- A flag is set exactly for the slots. -/
theorem sampleFlags_iff {count k : Nat} {slots : List Nat} (hk : k < count) :
    (sampleFlags count slots)[k]? = some true ↔ k ∈ slots := by
  rw [sampleFlags, setFlags_getElem?, List.getElem?_replicate, if_pos hk]
  by_cases h : k ∈ slots <;> simp [h]

theorem sampleFlags_length (count : Nat) (slots : List Nat) :
    (sampleFlags count slots).length = count := by
  have hlen : ∀ (slots : List Nat) (selected : List Bool),
      (slots.foldl (fun selected k => selected.set k true) selected).length = selected.length := by
    intro slots
    induction slots with
    | nil =>
      intro selected
      rfl
    | cons s slots ih =>
      intro selected
      rw [List.foldl_cons, ih, List.length_set]
  rw [sampleFlags, hlen, List.length_replicate]

/-- Distinct slots below `count` set one flag each. -/
theorem sampleFlags_count {count : Nat} {slots : List Nat} (hnodup : slots.Nodup)
    (hlt : ∀ k ∈ slots, k < count) : (sampleFlags count slots).count true = slots.length := by
  have hset : ∀ (slots : List Nat) (selected : List Bool), slots.Nodup →
      (∀ k ∈ slots, selected[k]? = some false) →
        (slots.foldl (fun selected k => selected.set k true) selected).count true =
          selected.count true + slots.length := by
    intro slots
    induction slots with
    | nil =>
      intro selected _ _
      rfl
    | cons s slots ih =>
      intro selected hnodup hclear
      obtain ⟨hs, hnodup⟩ := List.nodup_cons.mp hnodup
      rw [List.forall_mem_cons] at hclear
      obtain ⟨hlt, hbit⟩ := List.getElem?_eq_some_iff.mp hclear.1
      have hrest : ∀ k ∈ slots, (selected.set s true)[k]? = some false := by
        intro k hk
        have hsk : s ≠ k := by
          rintro rfl
          exact hs hk
        rw [List.getElem?_set_ne hsk]
        exact hclear.2 k hk
      rw [List.foldl_cons, ih _ hnodup hrest, List.count_set hlt, hbit, List.length_cons]
      simp
      omega
  rw [sampleFlags, hset slots _ hnodup fun k hk => by
    rw [List.getElem?_replicate, if_pos (hlt k hk)]]
  simp [List.count_replicate]

theorem sampleTaken_sublist {copyAll : Bool} {selected : List Bool} {items : List EmitItem}
    (hlen : items.length ≤ selected.length) : (sampleTaken copyAll selected items).Sublist items := by
  have h := (List.filter_sublist (p := fun p : EmitItem × Bool => copyAll || p.2)
    (l := items.zip selected)).map Prod.fst
  rw [List.map_fst_zip hlen] at h
  exact h

theorem sampleTaken_length : ∀ {selected : List Bool} {items : List EmitItem},
    items.length = selected.length → (sampleTaken false selected items).length = selected.count true
  | [], [], _ => rfl
  | b :: selected, it :: items, h => by
    have ih := @sampleTaken_length selected items (by simpa using h)
    unfold sampleTaken at ih ⊢
    rw [List.length_map] at ih ⊢
    rw [List.zip_cons_cons, List.count_cons]
    cases b with
    | true => rw [List.filter_cons_of_pos rfl, List.length_cons, ih]; rfl
    | false => rw [List.filter_cons_of_neg (by simp), ih]; rfl

/-! ## When the sample is in bounds -/

/-- What the selection promises for `count` records: stores only to slots, slots that hold distinct
indices of those seen whenever the second loop is entered, `n` flags, and `n` records written in the
order of the walk. -/
structure SampleSafe (mem : SampleMemory) (count n : Nat) (seed : UInt32) : Prop where
  stores : ∀ i, n ≤ i → i ≤ count → ∀ j ∈ (sampleRun mem.held n seed i).2.stores, j < n
  slots : ∀ i, n ≤ i → i ≤ count →
    let slots := (sampleRun mem.held n seed i).2.slots
    slots.length = n ∧ slots.Nodup ∧ ∀ k ∈ slots, k < i
  selected : ∃ selected, sampleChoose mem count n seed = .ok selected ∧ selected.length = count ∧
    selected.count true = n
  written : ∀ (env : Nat → CodecEnv) (e : EmitEnv) (a : Arena) (maxFile : Nat) (file out : Bytes)
    (taken : Nat), (delivered env file).length = count →
      sampleFile env e a mem n seed maxFile file = .ok (out, taken) →
        taken = n ∧ ∃ kept, kept.length = n ∧ Carries env file none kept out

theorem sampleDrawsFrom_mono : ∀ {m m' : Nat} (_ : m ≤ m') (rng : UInt32) (i : Nat),
    (sampleDrawsFrom rng i m).IsPrefix (sampleDrawsFrom rng i m')
  | 0, _, _, _, _ => List.nil_prefix
  | m + 1, 0, h, _, _ => absurd h (Nat.not_succ_le_zero m)
  | m + 1, m' + 1, h, rng, i => by
    rw [sampleDrawsFrom, sampleDrawsFrom]
    exact (List.prefix_cons_inj _).mpr (sampleDrawsFrom_mono (Nat.le_of_succ_le_succ h) _ _)

theorem sampleRun_slots (held : Nat → Nat) {n i : Nat} (seed : UInt32) (hi : n ≤ i) :
    let slots := (sampleRun held n seed i).2.slots
    slots.length = n ∧ slots.Nodup ∧ ∀ k ∈ slots, k < i := by
  have hlen : n + (sampleDraws n seed i).length = i := by
    rw [sampleDraws, sampleDrawsFrom_length]
    omega
  rw [sampleRun_eq, (sampleSlots_eq held n _).1]
  refine ⟨Reservoir.run_length n _, Reservoir.run_nodup n _, fun k hk => ?_⟩
  exact hlen ▸ Reservoir.run_lt _ k hk

theorem sampleChoose_ok {mem : SampleMemory} {count n : Nat} {seed : UInt32} (h0 : 0 < n)
    (hn : n < count) (hsel : mem.selectedOk = true) (hres : mem.reservoirOk = true) :
    sampleChoose mem count n seed =
      .ok (sampleFlags count (sampleRun mem.held n seed count).2.slots) := by
  rw [sampleChoose, hsel, hres, if_neg (by simp), if_neg (by omega), if_neg (by simp)]

/-- The filling loop stores to every slot, and a draw of at most `n` is a store. -/
theorem sampleRun_stores (held : Nat → Nat) (n : Nat) (seed : UInt32) (i : Nat) :
    (sampleRun held n seed i).2.stores =
      List.range n ++ (sampleDraws n seed i).filter (· ≤ n) := by
  rw [sampleRun_eq]
  exact (sampleSlots_eq held n _).2

theorem sampleRun_count (held : Nat → Nat) {n count : Nat} (seed : UInt32) (hn : n ≤ count) :
    (sampleFlags count (sampleRun held n seed count).2.slots).count true = n := by
  obtain ⟨hlen, hnodup, hlt⟩ := sampleRun_slots held seed hn
  rw [sampleFlags_count hnodup hlt, hlen]

/-- The records written are those flagged, in the order of the walk. -/
theorem sampleFile_written {env : Nat → CodecEnv} {e : EmitEnv} {a : Arena} {mem : SampleMemory}
    {n : Nat} {seed : UInt32} {maxFile : Nat} {file out : Bytes} {taken : Nat} {flags : List Bool}
    (h0 : 0 < n) (hn : n < (delivered env file).length)
    (hflags : sampleChoose mem (delivered env file).length n seed = .ok flags)
    (hlen : (delivered env file).length = flags.length)
    (hok : sampleFile env e a mem n seed maxFile file = .ok (out, taken)) :
    taken = flags.count true ∧
      ∃ kept, kept.length = flags.count true ∧ Carries env file none kept out := by
  simp only [sampleFile, Except.bind_eq_ok, Except.pure_eq_ok, Except.ok.injEq, Prod.mk.injEq] at hok
  obtain ⟨items, hitems, selected, hselected, out', hout, rfl, rfl⟩ := hok
  obtain ⟨cont, hparse, rfl⟩ := retain_ok hitems
  rw [List.filter_true, ← delivered_eq env hparse] at hselected hout ⊢
  cases hflags.symm.trans hselected
  have hcopy : (n == 0 || decide (n ≥ (delivered env file).length)) = false := by
    rw [decide_eq_false (Nat.not_le.mpr hn), Bool.or_false, beq_eq_false_iff_ne]
    exact Nat.ne_of_gt h0
  rw [hcopy] at hout ⊢
  refine ⟨sampleTaken_length hlen, _, sampleTaken_length hlen, carries_reemit hparse ?_ hout⟩
  rw [← delivered_eq env hparse]
  exact sampleTaken_sublist (Nat.le_of_eq hlen)

/-- **When sampling stays in bounds**: exactly when no draw is equal to `n`. -/
theorem sampleChoose_safe_iff {mem : SampleMemory} {count n : Nat} (seed : UInt32) (h0 : 0 < n)
    (hn : n < count) (hsel : mem.selectedOk = true) (hres : mem.reservoirOk = true) :
    SampleSafe mem count n seed ↔ n ∉ sampleDraws n seed count := by
  have hchoose := @sampleChoose_ok mem count n seed h0 hn hsel hres
  have hcount := sampleRun_count mem.held seed (Nat.le_of_lt hn)
  constructor
  · intro hsafe hdraw
    have hmem : n ∈ (sampleRun mem.held n seed count).2.stores := by
      rw [sampleRun_stores, List.mem_append, List.mem_filter]
      exact .inr ⟨hdraw, by simp⟩
    exact Nat.lt_irrefl n (hsafe.stores count (Nat.le_of_lt hn) (Nat.le_refl count) n hmem)
  · intro hdraw
    refine ⟨?_, fun i hi _ => sampleRun_slots mem.held seed hi,
      ⟨_, hchoose, sampleFlags_length count _, hcount⟩, ?_⟩
    · intro i _ hi j hj
      rw [sampleRun_stores, List.mem_append, List.mem_filter, List.mem_range] at hj
      rcases hj with hj | ⟨hj, hle⟩
      · exact hj
      · have hall := (sampleDrawsFrom_mono (Nat.sub_le_sub_right hi n) _ n).subset hj
        rw [decide_eq_true_eq] at hle
        refine Nat.lt_of_le_of_ne hle ?_
        rintro rfl
        exact hdraw hall
    · intro env e a maxFile file out taken hfile hok
      subst hfile
      have hwritten := sampleFile_written h0 hn hchoose (sampleFlags_length _ _).symm hok
      rw [hcount] at hwritten
      exact hwritten

/-- Two records, of which one is taken: the only draw for seed 2 is 0. -/
theorem sampleChoose_safe_two : SampleSafe ⟨true, true, fun _ => 0⟩ 2 1 2 :=
  (sampleChoose_safe_iff 2 (by decide) (by decide) rfl rfl).mpr (by decide +kernel)

/-- For seed 1 it is 1, and the store is past the end. -/
theorem sampleChoose_stores_past_end :
    (sampleRun (fun _ => 0) 1 1 2).2.stores = [0, 1] ∧
      ¬ SampleSafe ⟨true, true, fun _ => 0⟩ 2 1 1 := by
  have hstores : (sampleRun (fun _ => 0) 1 1 2).2.stores = [0, 1] := by decide +kernel
  refine ⟨hstores, fun hsafe => ?_⟩
  have h := hsafe.stores 2 (by decide) (by decide) 1
  rw [hstores] at h
  exact absurd (h (by decide)) (by decide)

/-- **Sampling is unbiased**: over all vectors of draws, each of the `count` records is selected in `n`
of `count` parts of them. -/
theorem sampleSlots_unbiased (held : Nat → Nat) {n count k : Nat} (hn : n < count)
    (hk : k < count) :
    (Finset.univ.filter fun d : Reservoir.Draws n (count - n) =>
      (sampleFlags count (sampleSlots held n (Reservoir.drawList d)).slots)[k]? = some true).card *
        count = n * Fintype.card (Reservoir.Draws n (count - n)) := by
  have hsum : n + (count - n) = count := Nat.add_sub_cancel' (Nat.le_of_lt hn)
  have huniform := Reservoir.run_uniform n (count - n) k (hsum.symm ▸ hk)
  rw [hsum] at huniform
  rw [← huniform, Reservoir.holding]
  simp only [sampleFlags_iff hk, (sampleSlots_eq held n _).1]

/-- One record of two. -/
theorem sampleSlots_unbiased_two :
    (Finset.univ.filter fun d : Reservoir.Draws 1 (2 - 1) =>
      (sampleFlags 2 (sampleSlots (fun _ => 0) 1 (Reservoir.drawList d)).slots)[1]? = some true).card *
        2 = 1 * Fintype.card (Reservoir.Draws 1 (2 - 1)) :=
  @sampleSlots_unbiased (fun _ => 0) 1 2 1 (by decide) (by decide)

end Dtl
