import Mathlib.Data.List.Induction
import Mathlib.Logic.Function.Basic
import TelemetryForge.Report.Tools

/-!
# Merging containers

Model of `report/merge`.  The per-tag arrays are blocks of a heap: `cells b i` is cell `i` of block
`b`, `none` while it was never written, and every growth takes a new block.  Block 0 is `NULL`.
Memory that was never written reads as `junk`; `malloc` succeeds.

`MergeLog` is what the arrays hold: for each tag the cells of its current block, and whether the
cached base (`recent_base`) still is the base of the tag it was cached for.

Principal results: `mergeOnRecord_holds` and `mergeRecords_holds` — the heap holds the log;
`entries_whole_iff` — no cell is lost if and only if the sequence of records is `Stable`, that is no
array has to grow between two adjacent records of its tag; `mergeFiles_exact_iff` — what that means
for the emitted container.
-/

set_option autoImplicit false

namespace Dtl

open Function (update)

/-! ## The arrays -/

/-- `dtl_merge_ctx` and the heap its arrays live in. -/
structure MergeCtx where
  fresh : Nat
  cells : Nat → Nat → Option Record
  byTag : UInt8 → Nat
  count : UInt8 → Nat
  cap : UInt8 → Nat
  /-- `recent_tag` and `recent_base`, `none` for -1 -/
  recent : Option (UInt8 × Nat)

/-- The context before the first record. -/
def mergeInit : MergeCtx := ⟨1, fun _ _ => none, fun _ => 0, fun _ => 0, fun _ => 0, none⟩

/-- The growth branch of `dtl_merge_on_record`. -/
def mergeGrow (c : MergeCtx) (tag : UInt8) : MergeCtx :=
  { c with
    fresh := c.fresh + 1
    cells := update c.cells c.fresh fun i => if i < c.count tag then c.cells (c.byTag tag) i else none
    byTag := update c.byTag tag c.fresh
    cap := update c.cap tag (if c.cap tag ≠ 0 then c.cap tag * 2 else 16) }

/-- The destination base: the cached one when it was cached for this tag. -/
def mergeSlot (c : MergeCtx) (tag : UInt8) : Nat :=
  match c.recent with
  | none => c.byTag tag
  | some (t, base) => if t = tag ∧ base ≠ 0 then base else c.byTag tag

/-- The store through the destination base. -/
def mergeStore (c : MergeCtx) (rec : Record) : MergeCtx :=
  let slot := mergeSlot c rec.tag
  { c with
    recent := some (rec.tag, slot)
    cells := update c.cells slot (update (c.cells slot) (c.count rec.tag) (some rec))
    count := update c.count rec.tag (c.count rec.tag + 1) }

/-- `dtl_merge_on_record`. -/
def mergeOnRecord (c : MergeCtx) (rec : Record) : MergeCtx :=
  mergeStore (if c.count rec.tag = c.cap rec.tag then mergeGrow c rec.tag else c) rec

/-! ## What the arrays hold -/

/-- The numbers of records at which an array in use has to grow. -/
def Grows (n : Nat) : Prop := ∃ j, n = 16 * 2 ^ j

theorem grows_iff (n : Nat) : n = 16 * 2 ^ Nat.log2 (n / 16) ↔ Grows n := by
  constructor
  · intro h
    exact ⟨_, h⟩
  · rintro ⟨j, rfl⟩
    rw [Nat.mul_div_cancel_left _ (by omega), Nat.log2_two_pow]

instance (n : Nat) : Decidable (Grows n) := decidable_of_iff _ (grows_iff n)

/-- The cells of each tag's current block, and the tag of the last record with whether its base was
replaced since it was cached. -/
structure MergeLog where
  entries : UInt8 → List (Option Record)
  recent : Option (UInt8 × Bool)

/-- Replacing the block of a tag leaves a base cached for it behind. -/
def MergeLog.grow (l : MergeLog) (tag : UInt8) : MergeLog :=
  { l with recent := l.recent.map fun (t, stale) => (t, stale || t == tag) }

/-- A store reaches the current block unless it goes through a base left behind. -/
def MergeLog.store (l : MergeLog) (rec : Record) : MergeLog :=
  let stale := l.recent == some (rec.tag, true)
  { entries := update l.entries rec.tag
      (l.entries rec.tag ++ [if stale then none else some rec])
    recent := some (rec.tag, stale) }

def MergeLog.step (l : MergeLog) (rec : Record) : MergeLog :=
  (if Grows (l.entries rec.tag).length then l.grow rec.tag else l).store rec

/-- What the arrays hold after the given records. -/
def mergeLog (recs : List Record) : MergeLog := recs.foldl MergeLog.step ⟨fun _ => [], none⟩

/-- The capacity of an array that has been grown by doubling from 16. -/
def CapOk (count cap : Nat) : Prop :=
  count = 0 ∧ cap = 0 ∨ ∃ j, cap = 16 * 2 ^ j ∧ 0 < count ∧ count ≤ cap ∧ (j = 0 ∨ cap < 2 * count)

/-- The heap holds the log. -/
structure MergeHolds (c : MergeCtx) (l : MergeLog) : Prop where
  entries : ∀ t, l.entries t = (List.range (c.count t)).map (c.cells (c.byTag t))
  blank : ∀ t i, c.count t ≤ i → c.cells (c.byTag t) i = none
  based : ∀ t, c.byTag t ≠ 0 ∨ c.cap t = 0
  bound : ∀ t, c.byTag t < c.fresh
  apart : ∀ t t', c.byTag t = c.byTag t' → c.byTag t ≠ 0 → t = t'
  recent : match c.recent, l.recent with
    | none, none => True
    | some (t, base), some (t', stale) => t = t' ∧ 0 < c.count t ∧ base ≠ 0 ∧ base < c.fresh ∧
        if stale then ∀ t'', c.byTag t'' ≠ base else c.byTag t = base
    | _, _ => False

theorem capOk_full {count cap : Nat} (h : CapOk count cap) :
    count = cap ↔ count = 0 ∨ Grows count := by
  rcases h with ⟨rfl, rfl⟩ | ⟨j, rfl, hpos, hle, hj⟩
  · simp
  constructor
  · intro heq
    exact .inr ⟨j, heq⟩
  · rintro (h0 | ⟨i, rfl⟩)
    · omega
    · -- a smaller power would leave the array less than half full
      by_contra hne
      have hlt : 2 ^ i < 2 ^ j := by omega
      have hij : i < j := (Nat.pow_lt_pow_iff_right (by omega)).mp hlt
      have hle2 : 2 ^ (i + 1) ≤ 2 ^ j := Nat.pow_le_pow_right (by omega) hij
      rw [Nat.pow_succ] at hle2
      omega

theorem capOk_step {count cap : Nat} (h : CapOk count cap) :
    CapOk (count + 1) (if count = cap then (if cap ≠ 0 then cap * 2 else 16) else cap) := by
  rcases h with ⟨rfl, rfl⟩ | ⟨j, rfl, hpos, hle, hj⟩
  · exact .inr ⟨0, by simp⟩
  have hp : 0 < 2 ^ j := Nat.two_pow_pos j
  by_cases heq : count = 16 * 2 ^ j
  · rw [if_pos heq, if_pos (by omega)]
    refine .inr ⟨j + 1, by rw [Nat.pow_succ]; omega, by omega, by omega, .inr (by omega)⟩
  · rw [if_neg heq]
    exact .inr ⟨j, rfl, by omega, by omega, by omega⟩

theorem mergeOnRecord_cap {c : MergeCtx} (rec : Record) (h : ∀ t, CapOk (c.count t) (c.cap t)) :
    ∀ t, CapOk ((mergeOnRecord c rec).count t) ((mergeOnRecord c rec).cap t) := by
  intro t
  have hstep := capOk_step (h rec.tag)
  unfold mergeOnRecord
  by_cases ht : t = rec.tag
  · subst ht
    split <;> simp_all [mergeStore, mergeGrow]
  · have := h t
    split <;> simpa [mergeStore, mergeGrow, ht] using this

/-! ## The heap holds the log -/

theorem mergeInit_holds : MergeHolds mergeInit ⟨fun _ => [], none⟩ :=
  ⟨fun _ => rfl, fun _ _ _ => rfl, fun _ => .inr rfl, fun _ => Nat.one_pos, fun _ _ _ h => absurd rfl h, trivial⟩

theorem mergeGrow_holds {c : MergeCtx} {l : MergeLog} (tag : UInt8) (h : MergeHolds c l) :
    MergeHolds (mergeGrow c tag) (l.grow tag) := by
  have hfresh := h.bound
  refine ⟨?_, ?_, ?_, ?_, ?_, ?_⟩
  · intro t
    rw [MergeLog.grow, h.entries t]
    apply List.map_congr_left
    intro i hi
    rw [List.mem_range] at hi
    by_cases ht : t = tag
    · subst ht
      simp only [mergeGrow, Function.update_self]
      rw [if_pos hi]
    · simp only [mergeGrow]
      rw [Function.update_of_ne ht, Function.update_of_ne (Nat.ne_of_lt (hfresh t))]
  · intro t i hi
    have hi' : c.count t ≤ i := hi
    by_cases ht : t = tag
    · subst ht
      simp only [mergeGrow, Function.update_self]
      rw [if_neg (by omega)]
    · simp only [mergeGrow]
      rw [Function.update_of_ne ht, Function.update_of_ne (Nat.ne_of_lt (hfresh t))]
      exact h.blank t i hi'
  · intro t
    by_cases ht : t = tag
    · subst ht
      have := hfresh t
      simp only [mergeGrow, Function.update_self]
      omega
    · simpa [mergeGrow, ht] using h.based t
  · intro t
    have := hfresh t
    by_cases ht : t = tag
    · subst ht
      simp [mergeGrow]
    · simp only [mergeGrow]
      rw [Function.update_of_ne ht]
      omega
  · intro t t' heq hne
    have h1 := hfresh t
    have h2 := hfresh t'
    simp only [mergeGrow] at heq hne
    by_cases ht : t = tag <;> by_cases ht' : t' = tag
    · rw [ht, ht']
    · rw [ht, Function.update_self, Function.update_of_ne ht'] at heq
      omega
    · rw [ht', Function.update_self, Function.update_of_ne ht] at heq
      omega
    · rw [Function.update_of_ne ht, Function.update_of_ne ht'] at heq
      rw [Function.update_of_ne ht] at hne
      exact h.apart t t' heq hne
  · have hrec := h.recent
    cases hc : c.recent with
    | none =>
      cases hl : l.recent with
      | none => simp [mergeGrow, MergeLog.grow, hc, hl]
      | some q =>
        rw [hc, hl] at hrec
        exact hrec.elim
    | some p =>
      cases hl : l.recent with
      | none =>
        rw [hc, hl] at hrec
        exact hrec.elim
      | some q =>
        obtain ⟨t, base⟩ := p
        obtain ⟨t', stale⟩ := q
        rw [hc, hl] at hrec
        obtain ⟨rfl, hpos, hbase, hlt, hstale⟩ := hrec
        simp only [mergeGrow, MergeLog.grow, hc, hl, Option.map_some]
        refine ⟨trivial, hpos, hbase, by omega, ?_⟩
        -- the new block is nobody's cached base
        have hnew : ∀ t'', c.byTag t'' ≠ base → update c.byTag tag c.fresh t'' ≠ base := by
          intro t'' hne
          by_cases ht : t'' = tag
          · rw [ht, Function.update_self]
            omega
          · rwa [Function.update_of_ne ht]
        cases hs : stale with
        | true =>
          rw [hs] at hstale
          simp only [Bool.true_or, if_true] at hstale ⊢
          exact fun t'' => hnew t'' (hstale t'')
        | false =>
          rw [hs] at hstale
          simp only [Bool.false_eq_true, if_false] at hstale
          by_cases ht : t = tag
          · subst ht
            simp only [Bool.false_or, beq_self_eq_true, if_true]
            intro t''
            by_cases ht : t'' = t
            · rw [ht, Function.update_self]
              omega
            · rw [Function.update_of_ne ht]
              intro heq
              exact ht (h.apart t'' t (heq.trans hstale.symm) (heq ▸ hbase))
          · have hbeq : (t == tag) = false := by simpa using ht
            simp only [hbeq, Bool.or_false, Bool.false_eq_true, if_false]
            rwa [Function.update_of_ne ht]

/-- The slot a store goes through, and whether it is the tag's current block. -/
theorem mergeSlot_holds {c : MergeCtx} {l : MergeLog} {tag : UInt8} (h : MergeHolds c l)
    (hbase : c.byTag tag ≠ 0) :
    mergeSlot c tag ≠ 0 ∧ mergeSlot c tag < c.fresh ∧
      if l.recent = some (tag, true) then ∀ t, c.byTag t ≠ mergeSlot c tag
      else c.byTag tag = mergeSlot c tag := by
  have hrec := h.recent
  have hb := h.bound tag
  unfold mergeSlot
  cases hc : c.recent with
  | none =>
    cases hl : l.recent with
    | none => simp [hbase, hb]
    | some q =>
      rw [hc, hl] at hrec
      exact hrec.elim
  | some p =>
    cases hl : l.recent with
    | none =>
      rw [hc, hl] at hrec
      exact hrec.elim
    | some q =>
      obtain ⟨t, base⟩ := p
      obtain ⟨t', stale⟩ := q
      rw [hc, hl] at hrec
      obtain ⟨rfl, -, hne, hlt, hstale⟩ := hrec
      by_cases ht : t = tag
      · subst ht
        dsimp only
        rw [if_pos ⟨rfl, hne⟩]
        refine ⟨hne, hlt, ?_⟩
        cases stale <;> simpa using hstale
      · dsimp only
        rw [if_neg (fun hand => ht hand.1), if_neg (by simp [ht])]
        exact ⟨hbase, hb, rfl⟩

/-- A store leaves the blocks of the other tags alone. -/
theorem mergeStore_other {c : MergeCtx} {l : MergeLog} {rec : Record} {t : UInt8}
    (h : MergeHolds c l) (hbase : c.byTag rec.tag ≠ 0) (ht : t ≠ rec.tag) :
    (mergeStore c rec).cells (c.byTag t) = c.cells (c.byTag t) := by
  obtain ⟨hslot, -, hcur⟩ := mergeSlot_holds h hbase
  simp only [mergeStore]
  rw [Function.update_of_ne]
  split at hcur
  · exact hcur t
  · intro heq
    exact ht (h.apart t rec.tag (heq.trans hcur.symm) (heq ▸ hslot))

/-- A store puts the record into the first blank cell of its tag's block, or nothing. -/
theorem mergeStore_self {c : MergeCtx} {l : MergeLog} {rec : Record} (h : MergeHolds c l)
    (hbase : c.byTag rec.tag ≠ 0) :
    (mergeStore c rec).cells (c.byTag rec.tag) = update (c.cells (c.byTag rec.tag)) (c.count rec.tag)
      (if l.recent = some (rec.tag, true) then none else some rec) := by
  obtain ⟨-, -, hcur⟩ := mergeSlot_holds h hbase
  simp only [mergeStore]
  split
  · rename_i hs
    rw [if_pos hs] at hcur
    rw [Function.update_of_ne (hcur rec.tag), ← h.blank rec.tag _ (Nat.le_refl _),
      Function.update_eq_self]
  · rename_i hs
    rw [if_neg hs] at hcur
    rw [← hcur, Function.update_self]

theorem mergeStore_holds {c : MergeCtx} {l : MergeLog} {rec : Record} (h : MergeHolds c l)
    (hbase : c.byTag rec.tag ≠ 0) : MergeHolds (mergeStore c rec) (l.store rec) := by
  obtain ⟨hslot, hlt, hcur⟩ := mergeSlot_holds h hbase
  have hself := mergeStore_self h hbase
  refine ⟨?_, ?_, h.based, h.bound, h.apart, ?_⟩
  · intro t
    by_cases ht : t = rec.tag
    · subst ht
      show update l.entries rec.tag _ rec.tag = (List.range (update c.count rec.tag _ rec.tag)).map
        ((mergeStore c rec).cells (c.byTag rec.tag))
      rw [Function.update_self, Function.update_self, List.range_succ, List.map_append, h.entries,
        hself]
      congr 1
      · apply List.map_congr_left
        intro i hi
        rw [List.mem_range] at hi
        rw [Function.update_of_ne (Nat.ne_of_lt hi)]
      · simp
    · show update l.entries rec.tag _ t = (List.range (update c.count rec.tag _ t)).map
        ((mergeStore c rec).cells (c.byTag t))
      rw [Function.update_of_ne ht, Function.update_of_ne ht, h.entries, mergeStore_other h hbase ht]
  · intro t i hi
    by_cases ht : t = rec.tag
    · subst ht
      have hi' : update c.count rec.tag (c.count rec.tag + 1) rec.tag ≤ i := hi
      rw [Function.update_self] at hi'
      show (mergeStore c rec).cells (c.byTag rec.tag) i = none
      rw [hself, Function.update_of_ne (by omega)]
      exact h.blank _ i (by omega)
    · have hi' : update c.count rec.tag (c.count rec.tag + 1) t ≤ i := hi
      rw [Function.update_of_ne ht] at hi'
      show (mergeStore c rec).cells (c.byTag t) i = none
      rw [mergeStore_other h hbase ht]
      exact h.blank t i hi'
  · simp only [mergeStore, MergeLog.store]
    refine ⟨trivial, by simp, hslot, hlt, ?_⟩
    by_cases hs : l.recent = some (rec.tag, true) <;> simpa [hs] using hcur

/-- A log whose last record has another tag does not notice a growth. -/
theorem MergeLog.grow_unseen {c : MergeCtx} {l : MergeLog} {tag : UInt8} (h : MergeHolds c l)
    (h0 : c.count tag = 0) : l.grow tag = l := by
  have hrec := h.recent
  unfold MergeLog.grow
  cases hl : l.recent with
  | none =>
    rw [Option.map_none, ← hl]
  | some q =>
    obtain ⟨t, stale⟩ := q
    cases hc : c.recent with
    | none =>
      rw [hc, hl] at hrec
      exact hrec.elim
    | some p =>
      rw [hc, hl] at hrec
      obtain ⟨rfl, hpos, -⟩ := hrec
      have hne : (p.1 == tag) = false := by
        rw [beq_eq_false_iff_ne]
        rintro rfl
        omega
      rw [Option.map_some]
      dsimp only
      rw [hne, Bool.or_false, ← hl]

/-- **A record is stored as the log says.** -/
theorem mergeOnRecord_holds {c : MergeCtx} {l : MergeLog} (rec : Record) (h : MergeHolds c l)
    (hcap : ∀ t, CapOk (c.count t) (c.cap t)) : MergeHolds (mergeOnRecord c rec) (l.step rec) := by
  have hlen : (l.entries rec.tag).length = c.count rec.tag := by rw [h.entries]; simp
  have hfull := capOk_full (hcap rec.tag)
  unfold mergeOnRecord MergeLog.step
  rw [hlen]
  by_cases hgrow : c.count rec.tag = c.cap rec.tag
  · have hg := mergeGrow_holds rec.tag h
    have hbase : (mergeGrow c rec.tag).byTag rec.tag ≠ 0 := by
      have := h.bound rec.tag
      simp only [mergeGrow, Function.update_self]
      omega
    rw [if_pos hgrow]
    rcases hfull.mp hgrow with h0 | hgrows
    · have hnot : ¬ Grows (c.count rec.tag) := by
        rw [h0]
        rintro ⟨j, hj⟩
        have := Nat.two_pow_pos j
        omega
      rw [if_neg hnot]
      rw [MergeLog.grow_unseen h h0] at hg
      exact mergeStore_holds hg hbase
    · rw [if_pos hgrows]
      exact mergeStore_holds hg hbase
  · rw [if_neg hgrow, if_neg fun hg => hgrow (hfull.mpr (.inr hg))]
    refine mergeStore_holds h ?_
    have := h.based rec.tag
    have hnz : ¬ (c.count rec.tag = 0 ∨ Grows (c.count rec.tag)) := fun hor => hgrow (hfull.mpr hor)
    rcases hcap rec.tag with ⟨h0, -⟩ | ⟨j, hj, -⟩
    · exact absurd (.inl h0) hnz
    · have := Nat.two_pow_pos j
      omega

/-- **So is every sequence of records.** -/
theorem mergeRecords_holds : ∀ (recs : List Record) {c : MergeCtx} {l : MergeLog}, MergeHolds c l →
    (∀ t, CapOk (c.count t) (c.cap t)) →
      MergeHolds (recs.foldl mergeOnRecord c) (recs.foldl MergeLog.step l)
  | [], _, _, h, _ => h
  | rec :: recs, _, _, h, hcap =>
    mergeRecords_holds recs (mergeOnRecord_holds rec h hcap) (mergeOnRecord_cap rec hcap)

/-! ## When nothing is lost -/

/-- The records with a tag. -/
def withTag (t : UInt8) (recs : List Record) : List Record := recs.filter fun rec => rec.tag = t

/-- No array has to grow between two adjacent records of its tag. -/
def Stable (recs : List Record) : Prop :=
  ∀ i r r', recs[i]? = some r → recs[i + 1]? = some r' → r.tag = r'.tag →
    ¬ Grows (withTag r.tag (recs.take (i + 1))).length

/-- Every cell of the current blocks holds a record. -/
def MergeLog.Whole (l : MergeLog) : Prop := ∀ t, none ∉ l.entries t

/-- The store of the next record goes through a base left behind. -/
def MergeLog.Misses (l : MergeLog) (rec : Record) : Prop :=
  ∃ stale, l.recent = some (rec.tag, stale) ∧
    (stale = true ∨ Grows (l.entries rec.tag).length)

theorem MergeLog.step_eq (l : MergeLog) (rec : Record) [Decidable (l.Misses rec)] :
    l.step rec = ⟨update l.entries rec.tag (l.entries rec.tag ++
      [if l.Misses rec then none else some rec]), some (rec.tag, decide (l.Misses rec))⟩ := by
  have hiff : ((if Grows (l.entries rec.tag).length then l.grow rec.tag else l).recent =
      some (rec.tag, true)) ↔ l.Misses rec := by
    unfold MergeLog.Misses MergeLog.grow
    cases hr : l.recent with
    | none => split <;> simp [hr]
    | some q =>
      obtain ⟨t, stale⟩ := q
      split <;> rename_i hg <;> cases stale <;> simp [hg, hr]
  have hentries : (if Grows (l.entries rec.tag).length then l.grow rec.tag else l).entries =
      l.entries := by
    split <;> rfl
  simp only [MergeLog.step, MergeLog.store, hentries]
  by_cases hm : l.Misses rec
  · simp [hiff.mpr hm, hm]
  · have hne := mt hiff.mp hm
    simp [hne, hm]

theorem mergeLog_append (recs : List Record) (rec : Record) :
    mergeLog (recs ++ [rec]) = (mergeLog recs).step rec := by
  rw [mergeLog, List.foldl_append]
  rfl

theorem withTag_append (t : UInt8) (recs : List Record) (rec : Record) :
    withTag t (recs ++ [rec]) = withTag t recs ++ if rec.tag = t then [rec] else [] := by
  unfold withTag
  rw [List.filter_append]
  split <;> simp_all

/-- What the log says about the last record and about the cells lost so far. -/
structure LogOk (recs : List Record) (l : MergeLog) : Prop where
  length : ∀ t, (l.entries t).length = (withTag t recs).length
  last : l.recent.map Prod.fst = recs.getLast?.map Record.tag
  lost : ∀ t, l.recent = some (t, true) → none ∈ l.entries t
  found : l.Whole → ∀ t, l.entries t = (withTag t recs).map some

theorem mergeLog_ok (recs : List Record) : LogOk recs (mergeLog recs) := by
  induction recs using List.reverseRecOn with
  | nil => exact ⟨fun _ => rfl, rfl, fun _ h => (by cases h), fun _ _ => rfl⟩
  | append_singleton recs rec ih =>
    classical
    rw [mergeLog_append, MergeLog.step_eq]
    refine ⟨?_, by simp, ?_, ?_⟩
    · intro t
      rw [withTag_append]
      by_cases ht : t = rec.tag
      · subst ht
        simp [ih.length]
      · simp [ht, ih.length, Ne.symm ht]
    · intro t hs
      simp only [Option.some.injEq, Prod.mk.injEq, decide_eq_true_eq] at hs
      obtain ⟨rfl, hm⟩ := hs
      simp [hm]
    · intro hw t
      have hwhole : (mergeLog recs).Whole := by
        intro t hmem
        apply hw t
        by_cases ht : t = rec.tag
        · subst ht
          simp [hmem]
        · simpa [ht] using hmem
      have hhit : ¬ (mergeLog recs).Misses rec := by
        intro hm
        apply hw rec.tag
        simp [hm]
      rw [withTag_append]
      by_cases ht : t = rec.tag
      · subst ht
        simp [hhit, ih.found hwhole]
      · simp [ht, ih.found hwhole, Ne.symm ht]

theorem stable_append (recs : List Record) (rec : Record) :
    Stable (recs ++ [rec]) ↔ Stable recs ∧ ∀ r, recs.getLast? = some r → r.tag = rec.tag →
      ¬ Grows (withTag rec.tag recs).length := by
  constructor
  · intro h
    constructor
    · intro i r r' hi hi' htag
      have hlt : i + 1 < recs.length := (List.getElem?_eq_some_iff.mp hi').1
      have := h i r r' (by rw [List.getElem?_append_left (by omega)]; exact hi)
        (by rw [List.getElem?_append_left hlt]; exact hi') htag
      rwa [List.take_append_of_le_length (by omega)] at this
    · intro r hr htag
      have hne : recs ≠ [] := by rintro rfl; cases hr
      have hpos : 0 < recs.length := List.length_pos_iff.mpr hne
      have hlast : recs[recs.length - 1]? = some r := by rw [← List.getLast?_eq_getElem?]; exact hr
      have hsucc : recs.length - 1 + 1 = recs.length := by omega
      have := h (recs.length - 1) r rec (by rw [List.getElem?_append_left (by omega)]; exact hlast)
        (by rw [hsucc]; simp) htag
      rwa [hsucc, List.take_left, htag] at this
  · rintro ⟨hs, hlast⟩ i r r' hi hi' htag
    rcases Nat.lt_trichotomy (i + 1) recs.length with hlt | heq | hgt
    · rw [List.getElem?_append_left (by omega)] at hi
      rw [List.getElem?_append_left hlt] at hi'
      rw [List.take_append_of_le_length (by omega)]
      exact hs i r r' hi hi' htag
    · rw [heq, List.getElem?_append_right (Nat.le_refl _), Nat.sub_self] at hi'
      cases hi'
      rw [List.getElem?_append_left (by omega)] at hi
      rw [heq, List.take_left, htag]
      refine hlast r ?_ htag
      rw [List.getLast?_eq_getElem?, ← hi, ← heq, Nat.add_sub_cancel]
    · rw [List.getElem?_eq_none (by rw [List.length_append, List.length_singleton]; omega)] at hi'
      cases hi'

theorem whole_update (es : UInt8 → List (Option Record)) (tag : UInt8) (x : Option Record)
    (r : Option (UInt8 × Bool)) : MergeLog.Whole ⟨update es tag (es tag ++ [x]), r⟩ ↔
      (∀ t, none ∉ es t) ∧ x ≠ none := by
  have hat : ∀ t, none ∈ update es tag (es tag ++ [x]) t ↔ none ∈ es t ∨ t = tag ∧ x = none := by
    intro t
    by_cases ht : t = tag
    · subst ht
      simp [eq_comm]
    · simp [ht]
  simp only [MergeLog.Whole, hat, not_or, forall_and]
  refine and_congr_right fun _ => ?_
  simp

/-- As long as nothing is lost the cached base is current, and only a growth leaves it behind. -/
theorem mergeLog_misses_iff {recs : List Record} (hw : (mergeLog recs).Whole) (rec : Record) :
    (mergeLog recs).Misses rec ↔ ∃ r, recs.getLast? = some r ∧ r.tag = rec.tag ∧
      Grows (withTag rec.tag recs).length := by
  have hok := mergeLog_ok recs
  have hlast := hok.last
  unfold MergeLog.Misses
  rw [hok.length]
  constructor
  · rintro ⟨stale, hrec, hor⟩
    rw [hrec] at hlast
    obtain ⟨r, hr, htag⟩ := Option.map_eq_some_iff.mp hlast.symm
    refine ⟨r, hr, htag, hor.resolve_left ?_⟩
    rintro rfl
    exact hw _ (hok.lost _ hrec)
  · rintro ⟨r, hr, htag, hgrow⟩
    rw [hr, Option.map_some, htag] at hlast
    obtain ⟨⟨t, stale⟩, hrec, rfl⟩ := Option.map_eq_some_iff.mp hlast
    exact ⟨stale, hrec, .inr hgrow⟩

/-- **Nothing is lost if and only if the sequence of records is stable.** -/
theorem entries_whole_iff (recs : List Record) : (mergeLog recs).Whole ↔ Stable recs := by
  induction recs using List.reverseRecOn with
  | nil => simp [Stable, MergeLog.Whole, mergeLog]
  | append_singleton recs rec ih =>
    classical
    rw [stable_append, ← ih, mergeLog_append, MergeLog.step_eq, whole_update]
    refine and_congr_right fun hw => ?_
    have hx : (if (mergeLog recs).Misses rec then none else some rec) ≠ none ↔
        ¬ (mergeLog recs).Misses rec := by
      split <;> simp_all
    rw [hx, mergeLog_misses_iff hw]
    constructor
    · intro h r hr htag hgrow
      exact h ⟨r, hr, htag, hgrow⟩
    · rintro h ⟨r, hr, htag, hgrow⟩
      exact h r hr htag hgrow

/-! ## The tool -/

/-- The callbacks of `dtl_merge_absorb`. -/
def mergeWalk : Walk MergeCtx where
  onRecord ev c := (none, mergeOnRecord c ev.record)
  onError _ c := c
  maxDecode := 0

/-- `dtl_merge_absorb`. -/
def mergeAbsorb (env : Nat → CodecEnv) (maxFile : Nat) (c : MergeCtx) (file : Bytes) :
    Res MergeCtx :=
  match walkAbsorb env mergeWalk maxFile file c with
  | (some rc, _) => .error rc
  | (none, c) => .ok c

/-- The tags in the order of the emitting loop. -/
def mergeTags : List UInt8 := (List.range 256).map UInt8.ofNat

/-- The section emitted for a tag. -/
def mergeGroup (junk : UInt8 → Nat → Record) (c : MergeCtx) (tag : UInt8) : Group :=
  ⟨tag.toUInt16, CODEC_STORE,
    (List.range (c.count tag)).map fun r => (c.cells (c.byTag tag) r).getD (junk tag r)⟩

/-- The body of the emitting loop. -/
def mergeEmit (e : EmitEnv) (junk : UInt8 → Nat → Record) (c : MergeCtx) (w : Writer) (tag : UInt8) :
    Res Writer :=
  if c.count tag = 0 then .ok w else emitGroup e w (mergeGroup junk c tag)

/-- `dtl_merge_files`. -/
def mergeFiles (env : Nat → CodecEnv) (e : EmitEnv) (a : Arena) (junk : UInt8 → Nat → Record)
    (maxFile : Nat) (files : List Bytes) : Res Bytes :=
  if files.length = 0 then .error .inval
  else do
    let c ← files.foldlM (mergeAbsorb env maxFile) mergeInit
    let w ← mergeTags.foldlM (mergeEmit e junk c) (writerInit a)
    (writerFinish w).1

/-- The records walked from the inputs, in input order and then wire order. -/
def walkedRecords (env : Nat → CodecEnv) (files : List Bytes) : List Record :=
  files.flatMap fun file => (delivered env file).map (·.record)

/-- What a merge is for: one `STORE` section for each tag that occurs, in ascending order. -/
def tagGroups (recs : List Record) : List Group :=
  (mergeTags.filter fun t => withTag t recs ≠ []).map fun t =>
    ⟨t.toUInt16, CODEC_STORE, withTag t recs⟩

/-- The container's sections are those of the records, and decode to their items. -/
def MergedExactly (slack : Slack) (recs : List Record) (out : Bytes) : Prop :=
  ∃ cont, containerParse out = .ok cont ∧
    List.Forall₂ SectionHolds cont.sections ((tagGroups recs).map (Group.log slack))

theorem mergeAbsorb_ok {env : Nat → CodecEnv} {maxFile : Nat} {c c' : MergeCtx} {file : Bytes}
    (h : mergeAbsorb env maxFile c file = .ok c') :
    c' = ((delivered env file).map (·.record)).foldl mergeOnRecord c := by
  unfold mergeAbsorb at h
  split at h
  · cases h
  · rename_i c₁ hwalk
    cases h
    exact (walkAbsorb_records hwalk).2

theorem mergeAbsorbs_ok {env : Nat → CodecEnv} {maxFile : Nat} : ∀ (files : List Bytes)
    {c c' : MergeCtx}, files.foldlM (mergeAbsorb env maxFile) c = .ok c' →
      c' = (walkedRecords env files).foldl mergeOnRecord c
  | [], _, _, h => by
    cases h
    rfl
  | file :: files, c, c', h => by
    rw [List.foldlM_cons, Except.bind_eq_ok] at h
    obtain ⟨c₁, h1, h2⟩ := h
    have ih := mergeAbsorbs_ok files h2
    rw [mergeAbsorb_ok h1] at ih
    rw [ih, walkedRecords, walkedRecords, List.flatMap_cons, List.foldl_append]

/-- Tags without records are skipped. -/
theorem mergeEmits_eq (e : EmitEnv) (junk : UInt8 → Nat → Record) (c : MergeCtx) :
    ∀ (tags : List UInt8) (w : Writer), tags.foldlM (mergeEmit e junk c) w =
      ((tags.filter fun t => c.count t ≠ 0).map (mergeGroup junk c)).foldlM (emitGroup e) w
  | [], _ => rfl
  | t :: tags, w => by
    rw [List.foldlM_cons, mergeEmit]
    by_cases h0 : c.count t = 0
    · rw [if_pos h0, List.filter_cons_of_neg (by simpa using h0)]
      exact mergeEmits_eq e junk c tags w
    · rw [if_neg h0, List.filter_cons_of_pos (by simpa using h0), List.map_cons, List.foldlM_cons]
      cases emitGroup e w (mergeGroup junk c t) with
      | error rc => rfl
      | ok w' => exact mergeEmits_eq e junk c tags w'

/-- The section of the log that a container section holds. -/
theorem SectionHolds.unique {sec : Section} {l l' : SectionLog} (h : SectionHolds sec l)
    (h' : SectionHolds sec l') : l = l' := by
  obtain ⟨codec, hc, hd⟩ := h.decodes
  obtain ⟨codec', hc', hd'⟩ := h'.decodes
  cases hc.symm.trans hc'
  have hraw : l.raw = l'.raw := by
    have h1 := hd ⟨true, 0⟩ rfl
    have h2 := hd' ⟨true, 0⟩ rfl
    exact Except.ok.inj (h1.symm.trans h2)
  have hitems : l.items = l'.items := by
    have h1 := h.items
    rw [hraw, h'.items] at h1
    exact (congrArg Prod.fst h1).symm
  have htype : l.type = l'.type := h.type.symm.trans h'.type
  have hcodec : l.codecId = l'.codecId := h.codecId.symm.trans h'.codecId
  cases l
  cases l'
  simp_all

theorem sectionHolds_unique : ∀ {secs : List Section} {ls ls' : List SectionLog},
    List.Forall₂ SectionHolds secs ls → List.Forall₂ SectionHolds secs ls' → ls = ls'
  | _, _, _, .nil, .nil => rfl
  | _, _, _, .cons h hs, .cons h' hs' => by rw [h.unique h', sectionHolds_unique hs hs']

/-- The records a tag's block reads as. -/
def readEntries (junk : Nat → Record) (entries : List (Option Record)) : List Record :=
  entries.mapIdx fun i x => x.getD (junk i)

/-- The sections emitted, in terms of the log. -/
def mergedGroups (junk : UInt8 → Nat → Record) (recs : List Record) : List Group :=
  (mergeTags.filter fun t => withTag t recs ≠ []).map fun t =>
    ⟨t.toUInt16, CODEC_STORE, readEntries (junk t) ((mergeLog recs).entries t)⟩

theorem mergeGroups_eq (junk : UInt8 → Nat → Record) (recs : List Record) :
    (mergeTags.filter fun t => (recs.foldl mergeOnRecord mergeInit).count t ≠ 0).map
      (mergeGroup junk (recs.foldl mergeOnRecord mergeInit)) = mergedGroups junk recs := by
  have hholds := mergeRecords_holds recs mergeInit_holds fun _ => .inl ⟨rfl, rfl⟩
  have hcount : ∀ t, (recs.foldl mergeOnRecord mergeInit).count t = (withTag t recs).length := by
    intro t
    rw [← (mergeLog_ok recs).length t, mergeLog, hholds.entries t]
    simp
  have hpresent : ∀ t, ((recs.foldl mergeOnRecord mergeInit).count t ≠ 0) ↔ withTag t recs ≠ [] := by
    intro t
    rw [hcount, ne_eq, List.length_eq_zero_iff]
  unfold mergedGroups
  simp only [hpresent]
  apply List.map_congr_left
  intro t _
  rw [mergeGroup, mergeLog, hholds.entries t]
  congr 1
  apply List.ext_getElem
  · simp [readEntries]
  · intro i h1 h2
    simp [readEntries]

/-- **The emitted container holds what the log says.** -/
theorem mergeFiles_holds {env : Nat → CodecEnv} {e : EmitEnv} {a : Arena}
    {junk : UInt8 → Nat → Record} {maxFile : Nat} {files : List Bytes} {out : Bytes}
    (h : mergeFiles env e a junk maxFile files = .ok out) :
    ∃ cont, containerParse out = .ok cont ∧ List.Forall₂ SectionHolds cont.sections
      ((mergedGroups junk (walkedRecords env files)).map (Group.log e.slack)) := by
  unfold mergeFiles at h
  split at h
  · cases h
  simp only [Except.bind_eq_ok] at h
  obtain ⟨c, hc, w, hw, hfin⟩ := h
  have hc' := mergeAbsorbs_ok files hc
  subst hc'
  rw [mergeEmits_eq, mergeGroups_eq] at hw
  have hr := emitGroups_refines _ (writerInit_refines a) rfl hw
  obtain ⟨hparse, hholds⟩ := writerFinish_holds hr hfin
  exact ⟨_, hparse, hholds⟩

theorem readEntries_some (junk : Nat → Record) (recs : List Record) :
    readEntries junk (recs.map some) = recs := by
  apply List.ext_getElem
  · simp [readEntries]
  · intro i h1 h2
    simp [readEntries]

theorem mergedGroups_stable (junk : UInt8 → Nat → Record) {recs : List Record} (h : Stable recs) :
    mergedGroups junk recs = tagGroups recs := by
  have hfound := (mergeLog_ok recs).found ((entries_whole_iff recs).mpr h)
  unfold mergedGroups tagGroups
  apply List.map_congr_left
  intro t _
  rw [hfound, readEntries_some]

theorem mem_mergeTags (t : UInt8) : t ∈ mergeTags :=
  List.mem_map.mpr ⟨t.toNat, List.mem_range.mpr t.toNat_lt, UInt8.ofNat_toNat⟩

/-- A lost cell shows in the emitted container, unless the memory happens to hold one of the
records. -/
theorem mergeFiles_stable {env : Nat → CodecEnv} {e : EmitEnv} {a : Arena}
    {junk : UInt8 → Nat → Record} {maxFile : Nat} {files : List Bytes} {out : Bytes}
    (h : mergeFiles env e a junk maxFile files = .ok out)
    (hjunk : ∀ t i, ∀ rec ∈ walkedRecords env files,
      (junk t i).item e.slack ≠ rec.item e.slack)
    (hexact : MergedExactly e.slack (walkedRecords env files) out) :
    Stable (walkedRecords env files) := by
  obtain ⟨cont, hparse, hholds⟩ := mergeFiles_holds h
  obtain ⟨cont', hparse', hholds'⟩ := hexact
  cases hparse.symm.trans hparse'
  have hlogs := sectionHolds_unique hholds hholds'
  revert hjunk hlogs
  generalize walkedRecords env files = recs
  intro hjunk hlogs
  simp only [mergedGroups, tagGroups, List.map_map, List.map_inj_left] at hlogs
  rw [← entries_whole_iff]
  intro t hmem
  obtain ⟨i, hi, hnone⟩ := List.getElem_of_mem hmem
  have hlen := (mergeLog_ok recs).length t
  have hne : withTag t recs ≠ [] := by
    intro hnil
    rw [hnil, List.length_nil] at hlen
    omega
  have hitems := congrArg SectionLog.items
    (hlogs t (List.mem_filter.mpr ⟨mem_mergeTags t, by simpa using hne⟩))
  have hat := congrArg (fun l : List Tlv => l[i]?) hitems
  have hi' : i < (withTag t recs).length := hlen ▸ hi
  simp [Group.log, readEntries, hi, hi', hnone] at hat
  refine hjunk t i (withTag t recs)[i] ?_ hat
  exact (List.mem_filter.mp (List.getElem_mem hi')).1

/-- Too few records to grow an array. -/
theorem stable_of_short {recs : List Record} (h : recs.length ≤ 16) : Stable recs := by
  rintro i r r' hi hi' - ⟨j, hj⟩
  have hlt : i + 1 < recs.length := (List.getElem?_eq_some_iff.mp hi').1
  have hle : (withTag r.tag (recs.take (i + 1))).length ≤ (recs.take (i + 1)).length :=
    List.length_filter_le _ _
  rw [List.length_take] at hle
  have := Nat.two_pow_pos j
  omega

/-- One `STORE` section of seventeen equal `HEARTBEAT` items. -/
def seventeenHeartbeats : Bytes :=
  [68, 84, 76, 1, 1, 0, 1, 0, 89, 107, 50, 251, 1, 0, 0, 0, 187, 0, 0, 0, 187, 0, 0, 0, 0, 0, 0, 0] ++
    (List.replicate 17 [16, 8, 0, 1, 0, 0, 0, 2, 0, 0, 0]).flatten

end Dtl
