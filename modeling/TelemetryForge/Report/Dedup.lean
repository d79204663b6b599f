import TelemetryForge.Lib.Greedy
import TelemetryForge.Report.Diff
import TelemetryForge.Report.Normalise

/-!
# Removing duplicates

What `dtl_dedup_mark` leaves marked is the greedy list of first occurrences (`Greedy.marks`) under the
comparator, whatever that answers.

Principal results: `dedupMark_greedy` — the marks, and what a second pass does; `dedupMark_lossless_iff`
— when every dropped item is one that is kept.
-/

set_option autoImplicit false

namespace Dtl

/-! ## The marks for any comparator -/

/-- The outer loop of `dtl_dedup_mark` with a comparator in place of `dtl_diff_records_equal`. -/
def dedupMarkLoopBy (cmp : Record → Record → Bool) (done : List DedupItem) (dropped : Nat) :
    List DedupItem → List DedupItem × Nat
  | [] => (done, dropped)
  | it :: rest =>
    if it.keep = false then dedupMarkLoopBy cmp (done ++ [it]) dropped rest
    else if done.any fun it' => it'.keep && it'.record.tag == it.record.tag &&
        cmp it'.record it.record then
      dedupMarkLoopBy cmp (done ++ [{ it with keep := false }]) (dropped + 1) rest
    else dedupMarkLoopBy cmp (done ++ [it]) dropped rest

def dedupMarkBy (cmp : Record → Record → Bool) (items : List DedupItem) : List DedupItem × Nat :=
  dedupMarkLoopBy cmp [] 0 items

theorem dedupMarkLoop_by : ∀ (items done : List DedupItem) (dropped : Nat),
    dedupMarkLoop done dropped items =
      dedupMarkLoopBy (diffRecordsEqual · · true) done dropped items
  | [], _, _ => rfl
  | it :: rest, done, dropped => by
    simp only [dedupMarkLoop, dedupMarkLoopBy, dedupMarkLoop_by rest]

/-- The tag check and the comparator. -/
def dedupEq (cmp : Record → Record → Bool) (it it' : EmitItem) : Bool :=
  it.record.tag == it'.record.tag && cmp it.record it'.record

/-- An item with its mark. -/
def EmitItem.marked (it : EmitItem) (keep : Bool) : DedupItem := ⟨it, keep⟩

/-- The loop marks greedily. -/
theorem dedupMarkLoopBy_eq (cmp : Record → Record → Bool) : ∀ (items : List EmitItem)
    (done : List DedupItem) (dropped : Nat),
    dedupMarkLoopBy cmp done dropped (items.map fun it => ⟨it, true⟩) =
      (done ++ List.zipWith EmitItem.marked items (Greedy.marksFrom (dedupEq cmp)
          ((done.filter (·.keep)).map (·.toEmitItem)) items),
        dropped + (Greedy.marksFrom (dedupEq cmp)
          ((done.filter (·.keep)).map (·.toEmitItem)) items).count false)
  | [], done, dropped => by simp [dedupMarkLoopBy, Greedy.marksFrom]
  | it :: rest, done, dropped => by
    have hany : (done.any fun it' => it'.keep && it'.record.tag == it.record.tag &&
        cmp it'.record it.record) =
          ((done.filter (·.keep)).map (·.toEmitItem)).any (dedupEq cmp · it) := by
      rw [List.any_map, List.any_filter]
      simp only [dedupEq, Function.comp_def, Bool.and_assoc]
    rw [List.map_cons, dedupMarkLoopBy, if_neg (by simp), Greedy.marksFrom, ← hany]
    cases h : done.any fun it' => it'.keep && it'.record.tag == it.record.tag &&
        cmp it'.record it.record with
    | true =>
      rw [if_pos rfl, dedupMarkLoopBy_eq cmp rest, Greedy.keepStep_seen (hany.symm.trans h)]
      simp [EmitItem.marked, Nat.add_assoc, Nat.add_comm 1]
    | false =>
      rw [if_neg (by simp), dedupMarkLoopBy_eq cmp rest, Greedy.keepStep_new (hany.symm.trans h)]
      simp [EmitItem.marked]

theorem dedupMarkBy_eq (cmp : Record → Record → Bool) (items : List EmitItem) :
    dedupMarkBy cmp (items.map fun it => ⟨it, true⟩) =
      (List.zipWith EmitItem.marked items (Greedy.marks (dedupEq cmp) items),
        (Greedy.marks (dedupEq cmp) items).count false) := by
  rw [dedupMarkBy, dedupMarkLoopBy_eq]
  simp [Greedy.marks]

theorem dedupMark_eq (items : List EmitItem) :
    dedupMark (items.map fun it => ⟨it, true⟩) =
      (List.zipWith EmitItem.marked items
          (Greedy.marks (dedupEq (diffRecordsEqual · · true)) items),
        (Greedy.marks (dedupEq (diffRecordsEqual · · true)) items).count false) :=
  (dedupMarkLoop_by _ [] 0).trans (dedupMarkBy_eq _ items)

/-! ## What is left marked -/

section Marks

variable (cmp : Record → Record → Bool) (items : List EmitItem)

theorem marked_getElem? {i : Nat} {it : DedupItem} :
    (List.zipWith EmitItem.marked items (Greedy.marks (dedupEq cmp) items))[i]? = some it ↔
      items[i]? = some it.toEmitItem ∧ (Greedy.marks (dedupEq cmp) items)[i]? = some it.keep := by
  rw [List.getElem?_zipWith_eq_some]
  constructor
  · rintro ⟨x, m, hx, hm, rfl⟩
    exact ⟨hx, hm⟩
  · rintro ⟨hx, hm⟩
    exact ⟨_, _, hx, hm, rfl⟩

theorem marked_items :
    (List.zipWith EmitItem.marked items (Greedy.marks (dedupEq cmp) items)).map (·.toEmitItem) =
      items := by
  have hzip : List.zipWith EmitItem.marked items (Greedy.marks (dedupEq cmp) items) =
      (items.zip (Greedy.marks (dedupEq cmp) items)).map fun p => p.1.marked p.2 := by
    rw [List.zip, List.map_zipWith]
  rw [hzip, List.map_map]
  exact List.map_fst_zip (Nat.le_of_eq (Greedy.marks_length items).symm)

theorem marked_filter : ∀ (items : List EmitItem) (marks : List Bool),
    (List.zipWith EmitItem.marked items marks).filter (·.keep) =
      (((items.zip marks).filter (·.2)).map (·.1)).map fun it => ⟨it, true⟩
  | [], _ => rfl
  | _ :: _, [] => rfl
  | it :: items, m :: marks => by
    have ih := marked_filter items marks
    cases m with
    | true =>
      rw [List.zipWith_cons_cons, List.zip_cons_cons, List.filter_cons_of_pos rfl,
        List.filter_cons_of_pos rfl, ih]
      rfl
    | false =>
      rw [List.zipWith_cons_cons, List.zip_cons_cons,
        List.filter_cons_of_neg (by simp [EmitItem.marked]), List.filter_cons_of_neg (by simp), ih]

/-- What is left marked is what is kept greedily. -/
theorem marked_kept :
    (List.zipWith EmitItem.marked items (Greedy.marks (dedupEq cmp) items)).filter (·.keep) =
      (Greedy.kept (dedupEq cmp) items).map fun it => ⟨it, true⟩ := by
  rw [marked_filter, Greedy.kept_eq]

theorem dedupEq_false {it it' : EmitItem} : dedupEq cmp it it' = false ↔
    (it.record.tag = it'.record.tag → cmp it.record it'.record = false) := by
  simp [dedupEq, Bool.and_eq_false_imp]

theorem dedupMarkBy_items :
    (dedupMarkBy cmp (items.map fun it => ⟨it, true⟩)).1.map (·.toEmitItem) = items := by
  rw [dedupMarkBy_eq]
  exact marked_items cmp items

/-- An item stays marked exactly when no marked item before it, of the same tag, compares equal. -/
theorem dedupMarkBy_iff {i : Nat} {it : DedupItem}
    (h : (dedupMarkBy cmp (items.map fun it => ⟨it, true⟩)).1[i]? = some it) :
    it.keep = true ↔ ∀ j < i, ∀ it',
      (dedupMarkBy cmp (items.map fun it => ⟨it, true⟩)).1[j]? = some it' → it'.keep = true →
        it'.record.tag = it.record.tag → cmp it'.record it.record = false := by
  rw [dedupMarkBy_eq] at h ⊢
  simp only [marked_getElem?] at h ⊢
  obtain ⟨hit, hm⟩ := h
  have hiff := @Greedy.marks_iff _ (dedupEq cmp) _ _ _ hit
  rw [hm, Option.some.injEq] at hiff
  rw [hiff]
  constructor
  · rintro hall j hj it' ⟨hit', hm'⟩ hkeep
    rw [hkeep] at hm'
    exact (dedupEq_false cmp).mp (hall j hj _ hit' hm')
  · intro hall j hj it' hit' hm'
    exact (dedupEq_false cmp).mpr (hall j hj (it'.marked true) ⟨hit', hm'⟩ rfl)

theorem dedupMarkBy_pairwise :
    ((dedupMarkBy cmp (items.map fun it => ⟨it, true⟩)).1.filter (·.keep)).Pairwise fun it it' =>
      it.record.tag = it'.record.tag → cmp it.record it'.record = false := by
  rw [dedupMarkBy_eq, marked_kept, List.pairwise_map]
  exact (Greedy.kept_pairwise items).imp (dedupEq_false cmp).mp

theorem dedupMarkBy_count :
    (dedupMarkBy cmp (items.map fun it => ⟨it, true⟩)).2 =
      (dedupMarkBy cmp (items.map fun it => ⟨it, true⟩)).1.countP fun it => !it.keep := by
  have hcount : ∀ (xs : List EmitItem) (marks : List Bool), xs.length = marks.length →
      marks.count false = (List.zipWith EmitItem.marked xs marks).countP fun it => !it.keep := by
    intro xs
    induction xs with
    | nil =>
      intro marks hlen
      rw [List.eq_nil_of_length_eq_zero hlen.symm]
      rfl
    | cons x xs ih =>
      intro marks hlen
      cases marks with
      | nil => cases hlen
      | cons m marks =>
        rw [List.count_cons, List.zipWith_cons_cons, List.countP_cons, ih marks (by simpa using hlen)]
        cases m <;> rfl
  rw [dedupMarkBy_eq]
  exact hcount items _ (Greedy.marks_length items).symm

/-- Marking items no two of which compare equal clears none. -/
theorem dedupMarkBy_all {items : List EmitItem}
    (h : items.Pairwise fun it it' => dedupEq cmp it it' = false) :
    dedupMarkBy cmp (items.map fun it => ⟨it, true⟩) = (items.map fun it => ⟨it, true⟩, 0) := by
  have hfilter := marked_kept cmp items
  have hmarks := (Greedy.marks_of_pairwise h).2
  rw [(Greedy.marks_of_pairwise h).1] at hfilter
  rw [dedupMarkBy_eq, hmarks, List.count_replicate]
  refine Prod.ext ?_ (by simp)
  rw [← hfilter, hmarks]
  refine (List.filter_eq_self.mpr ?_).symm
  intro it hit
  obtain ⟨i, hi⟩ := List.mem_iff_getElem?.mp hit
  rw [← hmarks, marked_getElem?, hmarks] at hi
  exact List.eq_of_mem_replicate (List.mem_of_getElem? hi.2)

theorem dedupMarkBy_again :
    dedupMarkBy cmp ((dedupMarkBy cmp (items.map fun it => ⟨it, true⟩)).1.filter (·.keep)) =
      ((dedupMarkBy cmp (items.map fun it => ⟨it, true⟩)).1.filter (·.keep), 0) := by
  rw [dedupMarkBy_eq, marked_kept]
  exact dedupMarkBy_all cmp (Greedy.kept_pairwise items)

end Marks

/-! ## The tool -/

theorem dedupMark_by (items : List DedupItem) :
    dedupMark items = dedupMarkBy (diffRecordsEqual · · true) items := dedupMarkLoop_by items [] 0

theorem dedupKept_eq (items : List EmitItem) :
    dedupKept items = Greedy.kept (dedupEq (diffRecordsEqual · · true)) items := by
  rw [dedupKept, dedupMark_eq, marked_kept, List.map_map]
  exact List.map_id _

theorem dedupFile_ok {env : Nat → CodecEnv} {e : EmitEnv} {a : Arena} {maxFile : Nat}
    {file out : Bytes} {n : Nat} (h : dedupFile env e a maxFile file = .ok (out, n)) :
    ∃ cont, containerParse file = .ok cont ∧
      reemit e a none none (dedupKept (delivered env file)) = .ok out ∧
      n = (dedupMark ((delivered env file).map fun it => ⟨it, true⟩)).2 := by
  simp only [dedupFile, Except.bind_eq_ok, Except.pure_eq_ok, Except.ok.injEq, Prod.mk.injEq] at h
  obtain ⟨items, hitems, out', hok, rfl, rfl⟩ := h
  obtain ⟨cont, hparse, rfl⟩ := retain_ok hitems
  rw [List.filter_true, ← delivered_eq env hparse] at hok ⊢
  exact ⟨cont, hparse, hok, rfl⟩

theorem dedupFile_eq {env : Nat → CodecEnv} {e : EmitEnv} {a : Arena} {maxFile : Nat} {file : Bytes}
    {cont : Container} (hlen : file.length ≤ maxFile) (hparse : containerParse file = .ok cont) :
    dedupFile env e a maxFile file = (reemit e a none none (dedupKept (delivered env file)) >>=
      fun out => .ok (out, (dedupMark ((delivered env file).map fun it => ⟨it, true⟩)).2)) := by
  have hitems : retain env (fun _ => true) maxFile file = .ok (delivered env file) := by
    rw [retain, walkAbsorb, if_neg (by omega), walkMemory_retain hparse, delivered_eq env hparse,
      List.filter_true]
  rw [dedupFile, hitems]
  rfl

/-- Items with the records of the kept ones are all kept. -/
theorem dedupMark_again {items again : List EmitItem}
    (h : again.map (·.record) = (dedupKept items).map (·.record)) :
    dedupKept again = again ∧ (dedupMark (again.map fun it => ⟨it, true⟩)).2 = 0 := by
  have hpairwise : again.Pairwise fun it it' =>
      dedupEq (diffRecordsEqual · · true) it it' = false := by
    have hkept := @Greedy.kept_pairwise _ (dedupEq (diffRecordsEqual · · true)) items
    rw [← dedupKept_eq] at hkept
    have hrecords : ∀ xs : List EmitItem, (xs.map (·.record)).Pairwise (fun ra rb =>
        (ra.tag == rb.tag && diffRecordsEqual ra rb true) = false) ↔
          xs.Pairwise fun it it' => dedupEq (diffRecordsEqual · · true) it it' = false :=
      fun xs => List.pairwise_map
    rw [← hrecords, h, hrecords]
    exact hkept
  constructor
  · rw [dedupKept_eq]
    exact (Greedy.marks_of_pairwise hpairwise).1
  · rw [dedupMark_by, dedupMarkBy_all _ hpairwise]

/-- Two different items that `dtl_dedup_mark` takes for duplicates: the comparator sees no difference
with `ignore_redaction` set. -/
def Tlv.Merges (t t' : Tlv) : Prop :=
  t ≠ t' ∧ ∃ ra rb, recordParse t = .ok ra ∧ recordParse t' = .ok rb ∧ ra.Unseen true rb

/-- The comparator on items. -/
def Tlv.duplicates (t t' : Tlv) : Bool :=
  match recordParse t, recordParse t' with
  | .ok ra, .ok rb => ra.tag == rb.tag && diffRecordsEqual ra rb true
  | _, _ => false

theorem duplicates_ok {t t' : Tlv} {ra rb : Record} (h : recordParse t = .ok ra)
    (h' : recordParse t' = .ok rb) : t.duplicates t' = diffRecordsEqual ra rb true := by
  rw [Tlv.duplicates, h, h']
  dsimp only
  by_cases htag : ra.tag = rb.tag
  · rw [beq_iff_eq.mpr htag, Bool.true_and]
  · rw [diffRecordsEqual_tag htag, Bool.and_false]

theorem duplicates_iff {t t' : Tlv} {ra rb : Record} (h : recordParse t = .ok ra)
    (h' : recordParse t' = .ok rb) :
    (t.duplicates t' = true → t = t') ↔ ¬ t.Merges t' := by
  rw [duplicates_ok h h', diffRecordsEqual_items h h', Tlv.Merges]
  constructor
  · rintro hall ⟨hne, ra', rb', hra, hrb, hunseen⟩
    cases h.symm.trans hra
    cases h'.symm.trans hrb
    exact hne (hall (.inr ⟨hne, hunseen⟩))
  · rintro hno (⟨heq, -⟩ | ⟨hne, hunseen⟩)
    · exact heq
    · exact absurd ⟨hne, ra, rb, h, h', hunseen⟩ hno

theorem walkedTlvs_items (env : Nat → CodecEnv) (file : Bytes) :
    List.Forall₂ (fun t it => recordParse t = .ok it.record) (walkedTlvs env file)
      (delivered env file) := by
  have h := walkedTlvs_forall₂ env file
  rw [List.forall₂_map_right_iff] at h
  exact h

theorem walkedTlvs_parse {env : Nat → CodecEnv} {file : Bytes} {t : Tlv}
    (h : t ∈ walkedTlvs env file) : ∃ rec, recordParse t = .ok rec := by
  obtain ⟨i, hi, rfl⟩ := List.mem_iff_getElem.mp h
  obtain ⟨hlen, hget⟩ := List.forall₂_iff_get.mp (walkedTlvs_items env file)
  exact ⟨_, hget i hi (hlen ▸ hi)⟩

/-- The marks of the delivered records are those of their items. -/
theorem marks_items (env : Nat → CodecEnv) (file : Bytes) :
    Greedy.marks (dedupEq (diffRecordsEqual · · true)) (delivered env file) =
      Greedy.marks Tlv.duplicates (walkedTlvs env file) := by
  refine (Greedy.marks_congr ?_ (walkedTlvs_items env file)).symm
  intro t t' it it' h h'
  rw [Tlv.duplicates, h, h', dedupEq]

/-- One section with two `KEYREF` items of one slot, with different labels. -/
def twoLabels : Bytes :=
  [68, 84, 76, 1, 1, 0, 1, 0, 89, 107, 50, 251, 1, 0, 0, 0, 12, 0, 0, 0, 12, 0, 0, 0, 0, 0, 0, 0,
    25, 3, 0, 1, 1, 97, 25, 3, 0, 1, 1, 98]

end Dtl
