import Mathlib.Data.List.Flatten
import TelemetryForge.Writer.Emit

/-!
# Re-emitting a walked container

The part that `dtl_repack_file`, `dtl_sign_file`, `dtl_select_file` and `dtl_dedup_file` share.  Each
walks its input with a callback that retains the records (`retainWalk`), and replays the retained
items through the writer: `reemitStep` closes the open section and opens the next one whenever the
source section changes, `reemit` is the whole loop up to `dtl_writer_finish`.  The retained vectors
are their contents; files are byte strings, and `walkAbsorb` is the walk over one.

`keptGroups` says what the loop is for: one output section for each input section with a kept
record.

Principal results: `reemit_refines` — the loop writes one group for each block of items;
`reemit_walk` — walking what was written for any subsequence of the input's records delivers it,
section by section.
-/

set_option autoImplicit false

namespace Dtl

/-- A retained record with the section it came from. -/
structure EmitItem where
  sectionIndex : Nat
  sectionType : UInt16
  codecId : UInt8
  record : Record

def EmitItem.ofEvent (ev : WalkEvent) : EmitItem :=
  ⟨ev.sectionIndex, ev.sectionType, ev.codecId, ev.record⟩

/-- The tools' `on_record` callbacks; `on_error` is absent and `max_decode` is 0. -/
def retainWalk (wanted : Record → Bool) : Walk (List EmitItem) where
  onRecord ev items :=
    if wanted ev.record = false then (none, items) else (none, items ++ [.ofEvent ev])
  onError _ items := items
  maxDecode := 0

/-- `dtl_walk_absorb` on a file that can be read. -/
def walkAbsorb {σ : Type} (env : Nat → CodecEnv) (w : Walk σ) (maxFile : Nat) (file : Bytes) (s : σ) :
    Option Err × σ :=
  if file.length > maxFile then (some .range, s) else walkMemory env w file s

/-- The items a tool retains, or the code its walk returns. -/
def retain (env : Nat → CodecEnv) (wanted : Record → Bool) (maxFile : Nat) (file : Bytes) :
    Res (List EmitItem) :=
  match walkAbsorb env (retainWalk wanted) maxFile file [] with
  | (some rc, _) => .error rc
  | (none, items) => .ok items

/-- `if (section_open) …`: `cur` is `cur_section` while `section_open`. -/
def closeOpen (e : EmitEnv) (cur : Option Nat) (w : Writer) : Res Writer :=
  if cur.isSome then checkedEnd e w else .ok w

/-- Close the open section and open the item's, unless that is the open one; `target` replaces the
item's own codec. -/
def openFor (e : EmitEnv) (target : Option UInt8) (it : EmitItem) (cur : Option Nat) (w : Writer) :
    Res Writer :=
  if cur = some it.sectionIndex then .ok w
  else do
    let w ← closeOpen e cur w
    checkedBegin w it.sectionType (target.getD it.codecId)

/-- The loop body. -/
def reemitStep (e : EmitEnv) (target : Option UInt8) (st : Option Nat × Writer) (it : EmitItem) :
    Res (Option Nat × Writer) := do
  let w ← openFor e target it st.1 st.2
  let w ← checked (writerAddRecord e.slack w it.record)
  return (some it.sectionIndex, w)

/-- Set the key when there is one, and finish. -/
def finishWith (key : Option Bytes) (w : Writer) : Res Bytes :=
  match key with
  | none => (writerFinish w).1
  | some key => do
    let w ← checked (writerSetHmac w key)
    (writerFinish w).1

/-- Replay the items and finish. -/
def reemit (e : EmitEnv) (a : Arena) (target : Option UInt8) (key : Option Bytes)
    (items : List EmitItem) : Res Bytes := do
  let st ← items.foldlM (reemitStep e target) (none, writerInit a)
  let w ← closeOpen e st.1 st.2
  finishWith key w

/-! ## What the loop is for -/

/-- The items kept from section number `i`. -/
def keptFrom (kept : List EmitItem) (i : Nat) : List EmitItem :=
  kept.filter fun it => it.sectionIndex = i

/-- One group for each section that contributed a kept record, in the order of the sections; the
first section has number `k`. -/
def keptGroups (target : Option UInt8) (k : Nat) (secs : List Section) (kept : List EmitItem) :
    List Group :=
  (secs.zipIdx k).filterMap fun (sec, i) =>
    if keptFrom kept i = [] then none
    else some ⟨sec.type, target.getD sec.codecId, (keptFrom kept i).map (·.record)⟩

/-! ## The order of the items -/

/-- The item comes from one of the sections, the first of which has number `k`. -/
def EmitItem.From (k : Nat) (secs : List Section) (it : EmitItem) : Prop :=
  ∃ sec, (sec, it.sectionIndex) ∈ secs.zipIdx k ∧ it.sectionType = sec.type ∧
    it.codecId = sec.codecId

/-- Items in the order of their sections. -/
def Ordered (items : List EmitItem) : Prop :=
  items.Pairwise fun it it' => it.sectionIndex ≤ it'.sectionIndex

theorem EmitItem.From.le {k : Nat} {secs : List Section} {it : EmitItem} (h : it.From k secs) :
    k ≤ it.sectionIndex := by
  obtain ⟨sec, hmem, -⟩ := h
  exact List.le_snd_of_mem_zipIdx hmem

/-- An item of the first section. -/
theorem EmitItem.From.head {k : Nat} {sec : Section} {secs : List Section} {it : EmitItem}
    (h : it.From k (sec :: secs)) (hk : it.sectionIndex = k) :
    it.sectionType = sec.type ∧ it.codecId = sec.codecId := by
  obtain ⟨sec', hmem, htype, hcodec⟩ := h
  rw [List.zipIdx_cons, List.mem_cons, hk] at hmem
  rcases hmem with hmem | hmem
  · cases hmem
    exact ⟨htype, hcodec⟩
  · exact absurd (List.le_snd_of_mem_zipIdx hmem) (by simp)

theorem EmitItem.From.tail {k : Nat} {sec : Section} {secs : List Section} {it : EmitItem}
    (h : it.From k (sec :: secs)) (hk : it.sectionIndex ≠ k) : it.From (k + 1) secs := by
  obtain ⟨sec', hmem, hrest⟩ := h
  rw [List.zipIdx_cons, List.mem_cons] at hmem
  rcases hmem with hmem | hmem
  · cases hmem
    exact absurd rfl hk
  · exact ⟨sec', hmem, hrest⟩

/-- The items past section number `k`. -/
def keptPast (kept : List EmitItem) (k : Nat) : List EmitItem :=
  kept.filter fun it => it.sectionIndex ≠ k

theorem eq_nil_of_from {k : Nat} {kept : List EmitItem} (h : ∀ it ∈ kept, it.From k []) :
    kept = [] := by
  rw [List.eq_nil_iff_forall_not_mem]
  intro it hmem
  obtain ⟨sec, hsec, -⟩ := h it hmem
  cases hsec

theorem mem_keptFrom {k : Nat} {kept : List EmitItem} {it : EmitItem} (h : it ∈ keptFrom kept k) :
    it ∈ kept ∧ it.sectionIndex = k := by
  simpa using List.mem_filter.mp h

theorem keptPast_from {k : Nat} {sec : Section} {secs : List Section} {kept : List EmitItem}
    (h : ∀ it ∈ kept, it.From k (sec :: secs)) : ∀ it ∈ keptPast kept k, it.From (k + 1) secs := by
  intro it hmem
  obtain ⟨hmem, hne⟩ := List.mem_filter.mp hmem
  exact (h it hmem).tail (by simpa using hne)

/-- Ordered items start with those of the first section. -/
theorem keptFrom_append {k : Nat} : ∀ {kept : List EmitItem}, Ordered kept →
    (∀ it ∈ kept, k ≤ it.sectionIndex) → keptFrom kept k ++ keptPast kept k = kept
  | [], _, _ => rfl
  | it :: kept, ho, hk => by
    obtain ⟨hit, ho⟩ := List.pairwise_cons.mp ho
    rw [List.forall_mem_cons] at hk
    unfold keptFrom keptPast
    by_cases h : it.sectionIndex = k
    · rw [List.filter_cons_of_pos (by simpa using h), List.filter_cons_of_neg (by simpa using h),
        List.cons_append]
      exact congrArg _ (keptFrom_append ho hk.2)
    · have hlt : ∀ it' ∈ it :: kept, it'.sectionIndex ≠ k := by
        intro it' hmem
        rcases List.mem_cons.mp hmem with rfl | hmem
        · exact h
        · have := hit it' hmem
          omega
      rw [List.filter_eq_nil_iff.mpr (by simpa using hlt), List.filter_eq_self.mpr (by simpa using hlt),
        List.nil_append]

theorem keptFrom_past {kept : List EmitItem} {k i : Nat} (h : i ≠ k) :
    keptFrom (keptPast kept k) i = keptFrom kept i := by
  unfold keptFrom keptPast
  rw [List.filter_filter]
  apply List.filter_congr
  intro it _
  by_cases hi : it.sectionIndex = i <;> simp [hi, h]

/-- The groups of the later sections do not see the items of the first. -/
theorem keptGroups_past (target : Option UInt8) (k : Nat) (secs : List Section)
    (kept : List EmitItem) :
    keptGroups target (k + 1) secs (keptPast kept k) = keptGroups target (k + 1) secs kept := by
  unfold keptGroups
  apply List.filterMap_congr
  rintro ⟨sec, i⟩ hmem
  have hle : k + 1 ≤ i := List.le_snd_of_mem_zipIdx hmem
  dsimp only
  rw [keptFrom_past (by omega)]

theorem keptGroups_cons (target : Option UInt8) (k : Nat) (sec : Section) (secs : List Section)
    (kept : List EmitItem) :
    keptGroups target k (sec :: secs) kept =
      (if keptFrom kept k = [] then [] else
        [⟨sec.type, target.getD sec.codecId, (keptFrom kept k).map (·.record)⟩]) ++
        keptGroups target (k + 1) secs (keptPast kept k) := by
  rw [keptGroups_past]
  unfold keptGroups
  rw [List.zipIdx_cons, List.filterMap_cons]
  dsimp only
  split <;> simp_all

/-! ## The loop -/

section Loop

variable {e : EmitEnv} {target : Option UInt8}

/-- Further items of the open section are added to it. -/
theorem reemit_same {k : Nat} {l : WriterLog} : ∀ (its : List EmitItem) {s : SectionLog}
    {w w' : Writer} {cur : Option Nat}, (∀ it ∈ its, it.sectionIndex = k) →
      Refines w { l with current := some s } →
      its.foldlM (reemitStep e target) (some k, w) = .ok (cur, w') →
        cur = some k ∧ Refines w' { l with
          current := some { s with items := s.items ++ its.map (·.record.item e.slack) } }
  | [], _, _, _, _, _, h, hok => by
    cases hok
    simpa using h
  | it :: its, s, w, w', cur, hk, h, hok => by
    rw [List.forall_mem_cons] at hk
    rw [List.foldlM_cons, Except.bind_eq_ok] at hok
    obtain ⟨st, h1, h2⟩ := hok
    simp only [reemitStep, openFor, hk.1, if_true, Except.bind_ok_eq, Except.bind_eq_ok,
      Except.pure_eq_ok, Except.ok.injEq] at h1
    obtain ⟨w₁, hadd, rfl⟩ := h1
    have ih := reemit_same its hk.2 (checkedAdd_refines h hadd) h2
    simpa using ih

/-- Closing what is open. -/
theorem closeOpen_refines {l : WriterLog} {w w' : Writer} {cur : Option Nat}
    (hopen : cur.isSome = l.current.isSome) (h : Refines w l) (hok : closeOpen e cur w = .ok w') :
    Refines w' { l with closed := l.closed ++ l.current.toList, current := none } := by
  unfold closeOpen at hok
  cases hc : cur with
  | none =>
    rw [hc] at hok hopen
    cases hok
    have hnone : l.current = none := by simpa using hopen.symm
    rw [hnone, Option.toList_none, List.append_nil, ← hnone]
    exact h
  | some j =>
    rw [hc] at hok
    exact checkedEnd_refines h hok

/-- The first item of another section closes the open one. -/
theorem reemit_next {it : EmitItem} {l : WriterLog} {w : Writer} {cur : Option Nat}
    {st : Option Nat × Writer} (hcur : cur ≠ some it.sectionIndex)
    (hopen : cur.isSome = l.current.isSome) (h : Refines w l)
    (hok : reemitStep e target (cur, w) it = .ok st) :
    st.1 = some it.sectionIndex ∧ Refines st.2 { l with
      closed := l.closed ++ l.current.toList
      current := some ⟨it.sectionType, target.getD it.codecId, [it.record.item e.slack]⟩ } := by
  simp only [reemitStep, openFor, if_neg hcur, Except.bind_eq_ok, Except.pure_eq_ok,
    Except.ok.injEq] at hok
  obtain ⟨w₂, ⟨w₁, hend, hbegin⟩, w₃, hadd, rfl⟩ := hok
  exact ⟨rfl, checkedAdd_refines (checkedBegin_refines (closeOpen_refines hopen h hend) hbegin) hadd⟩

/-- All sections of a log, the open one included. -/
def WriterLog.all (l : WriterLog) : List SectionLog := l.closed ++ l.current.toList

/-- **The loop writes one group for each section that contributed an item**, the last one still
open. -/
theorem reemit_loop : ∀ (secs : List Section) {k : Nat} {kept : List EmitItem} {l : WriterLog}
    {w w' : Writer} {cur cur' : Option Nat}, Ordered kept → (∀ it ∈ kept, it.From k secs) →
      (∀ j, cur = some j → j < k) → cur.isSome = l.current.isSome → Refines w l →
      kept.foldlM (reemitStep e target) (cur, w) = .ok (cur', w') →
        ∃ l', Refines w' l' ∧ cur'.isSome = l'.current.isSome ∧
          l'.all = l.all ++ (keptGroups target k secs kept).map (Group.log e.slack)
  | [], k, kept, l, w, w', cur, cur', _, hfrom, _, hopen, h, hok => by
    obtain rfl := eq_nil_of_from hfrom
    cases hok
    exact ⟨l, h, hopen, by simp [keptGroups]⟩
  | sec :: secs, k, kept, l, w, w', cur, cur', ho, hfrom, hcur, hopen, h, hok => by
    have hsplit := keptFrom_append ho fun it hmem => (hfrom it hmem).le
    have hpast := keptPast_from hfrom
    have hopast : Ordered (keptPast kept k) := ho.filter _
    have hgroups := keptGroups_cons target k sec secs kept
    cases hfirst : keptFrom kept k with
    | nil =>
      rw [hfirst, List.nil_append] at hsplit
      rw [← hsplit] at hok
      obtain ⟨l', hr, hopen', hall⟩ := reemit_loop secs hopast hpast
        (fun j hj => Nat.lt_succ_of_lt (hcur j hj)) hopen h hok
      refine ⟨l', hr, hopen', ?_⟩
      rw [hall, hgroups, if_pos hfirst, List.nil_append]
    | cons it its =>
      have hits : ∀ it' ∈ it :: its, it' ∈ kept ∧ it'.sectionIndex = k := by
        intro it' hmem
        rw [← hfirst] at hmem
        exact mem_keptFrom hmem
      have hk := (hits it (by simp)).2
      have hitem := (hfrom it (hits it (by simp)).1).head hk
      -- the first item opens the section, the others follow it
      rw [← hsplit, hfirst, List.foldlM_append, List.foldlM_cons] at hok
      simp only [Except.bind_eq_ok] at hok
      obtain ⟨⟨cur₂, w₂⟩, ⟨st, h1, h2⟩, h3⟩ := hok
      have hne : cur ≠ some it.sectionIndex := by
        intro hc
        have := hcur _ hc
        omega
      obtain ⟨hst, hr1⟩ := reemit_next hne hopen h h1
      obtain ⟨st1, st2⟩ := st
      dsimp only at hst hr1
      subst hst
      rw [hk] at h2
      obtain ⟨rfl, hr2⟩ := reemit_same (l := ⟨l.closed ++ l.current.toList, none, l.signed⟩) its
        (fun it' hmem => (hits it' (by simp [hmem])).2) hr1 h2
      obtain ⟨l', hr, hopen', hall⟩ := reemit_loop secs hopast hpast
        (fun j hj => by cases hj; exact Nat.lt_succ_self k) rfl hr2 h3
      refine ⟨l', hr, hopen', ?_⟩
      rw [hall, hgroups, hfirst, if_neg (by simp)]
      simp [WriterLog.all, Group.log, hitem.1, hitem.2]

theorem closeOpen_hmacKey {cur : Option Nat} {w w' : Writer}
    (h : closeOpen e cur w = .ok w') : w'.hmacKey = w.hmacKey := by
  unfold closeOpen at h
  split at h
  · exact checkedEnd_hmacKey h
  · cases h
    rfl

theorem reemitStep_hmacKey {st st' : Option Nat × Writer}
    {it : EmitItem} (h : reemitStep e target st it = .ok st') : st'.2.hmacKey = st.2.hmacKey := by
  simp only [reemitStep, openFor, Except.bind_eq_ok, Except.pure_eq_ok, Except.ok.injEq] at h
  obtain ⟨w₁, hopen, w₂, hadd, rfl⟩ := h
  have hstep : w₁.hmacKey = st.2.hmacKey := by
    split at hopen
    · cases hopen
      rfl
    · rw [Except.bind_eq_ok] at hopen
      obtain ⟨w₀, hclose, hbegin⟩ := hopen
      rw [checkedBegin_hmacKey hbegin, closeOpen_hmacKey hclose]
  exact (checkedAdd_hmacKey hadd).trans hstep

theorem reemitLoop_hmacKey : ∀ (items : List EmitItem)
    {st st' : Option Nat × Writer}, items.foldlM (reemitStep e target) st = .ok st' →
      st'.2.hmacKey = st.2.hmacKey
  | [], _, _, h => by
    cases h
    rfl
  | it :: items, _, _, h => by
    rw [List.foldlM_cons, Except.bind_eq_ok] at h
    obtain ⟨st₁, hstep, hrest⟩ := h
    rw [reemitLoop_hmacKey items hrest, reemitStep_hmacKey hstep]

/-- **What is replayed ends up in the finished container**, signed with the key when there is one. -/
theorem reemit_refines {a : Arena} {key : Option Bytes} {secs : List Section}
    {kept : List EmitItem} {bytes : Bytes} (ho : Ordered kept) (hfrom : ∀ it ∈ kept, it.From 0 secs)
    (hok : reemit e a target key kept = .ok bytes) :
    ∃ w l, Refines w l ∧ l.closed = (keptGroups target 0 secs kept).map (Group.log e.slack) ∧
      w.hmacKey = key ∧ (writerFinish w).1 = .ok bytes := by
  simp only [reemit, Except.bind_eq_ok] at hok
  obtain ⟨⟨cur, w₁⟩, hloop, w₂, hend, hfin⟩ := hok
  have hunset : w₂.hmacKey = none := (closeOpen_hmacKey hend).trans (reemitLoop_hmacKey kept hloop)
  obtain ⟨l, hr, hopen, hall⟩ := reemit_loop secs ho hfrom (by simp) rfl (writerInit_refines a) hloop
  have hclosed := closeOpen_refines hopen hr hend
  have hgroups : l.closed ++ l.current.toList =
      (keptGroups target 0 secs kept).map (Group.log e.slack) := by
    simpa [WriterLog.all] using hall
  cases key with
  | none => exact ⟨w₂, _, hclosed, hgroups, hunset, hfin⟩
  | some key =>
    rw [finishWith, Except.bind_eq_ok] at hfin
    obtain ⟨w₃, hkey, hfin⟩ := hfin
    obtain ⟨hrc, rfl⟩ := checked_eq_ok.mp hkey
    refine ⟨_, _, writerCall_refines (c := .setHmac key) hclosed (writerFinish_ok hfin).1, hgroups, ?_,
      hfin⟩
    unfold writerSetHmac at hrc
    split at hrc
    · rename_i herr
      exact absurd hrc herr
    · rename_i herr
      show (writerSetHmac w₂ key).2.hmacKey = some key
      rw [writerSetHmac, if_neg herr]

/-! ## The loop over the groups -/

/-- `closeOpen` by whether a section is open. -/
def closeWhen (e : EmitEnv) (isOpen : Bool) (w : Writer) : Res Writer :=
  if isOpen then checkedEnd e w else .ok w

/-- One group: close the open section, open the group's, add its records. -/
def groupStep (e : EmitEnv) (st : Bool × Writer) (g : Group) : Res (Bool × Writer) := do
  let w ← closeWhen e st.1 st.2
  let w ← checkedBegin w g.type g.codecId
  let w ← g.records.foldlM (fun w rec => checked (writerAddRecord e.slack w rec)) w
  return (true, w)

/-- Items of the open section are added one after the other. -/
theorem reemit_same_eq {k : Nat} : ∀ (its : List EmitItem) (w : Writer),
    (∀ it ∈ its, it.sectionIndex = k) →
      its.foldlM (reemitStep e target) (some k, w) = ((its.map (·.record)).foldlM
        (fun w rec => checked (writerAddRecord e.slack w rec)) w) >>= fun w => .ok (some k, w)
  | [], _, _ => rfl
  | it :: its, w, hk => by
    rw [List.forall_mem_cons] at hk
    rw [List.foldlM_cons, List.map_cons, List.foldlM_cons, bind_assoc, reemitStep, openFor,
      if_pos (by rw [hk.1])]
    simp only [Except.bind_ok_eq, bind_assoc, hk.1]
    refine congrArg _ (funext fun w' => ?_)
    exact reemit_same_eq its w' hk.2

/-- **The loop is one over the groups.** -/
theorem reemitLoop_groups : ∀ (secs : List Section) {k : Nat} {kept : List EmitItem}
    {cur : Option Nat} {w : Writer}, Ordered kept → (∀ it ∈ kept, it.From k secs) →
      (∀ j, cur = some j → j < k) →
      (kept.foldlM (reemitStep e target) (cur, w) >>= fun st => .ok (st.1.isSome, st.2)) =
        (keptGroups target k secs kept).foldlM (groupStep e) (cur.isSome, w)
  | [], k, kept, cur, w, _, hfrom, _ => by
    obtain rfl := eq_nil_of_from hfrom
    rfl
  | sec :: secs, k, kept, cur, w, ho, hfrom, hcur => by
    have hsplit := keptFrom_append ho fun it hmem => (hfrom it hmem).le
    have hpast := keptPast_from hfrom
    have hopast : Ordered (keptPast kept k) := ho.filter _
    rw [keptGroups_cons]
    conv_lhs => rw [← hsplit]
    cases hfirst : keptFrom kept k with
    | nil =>
      rw [List.nil_append, if_pos rfl, List.nil_append]
      exact reemitLoop_groups secs hopast hpast fun j hj => Nat.lt_succ_of_lt (hcur j hj)
    | cons it its =>
      have hits : ∀ it' ∈ it :: its, it' ∈ kept ∧ it'.sectionIndex = k := by
        intro it' hmem
        rw [← hfirst] at hmem
        exact mem_keptFrom hmem
      have hk := (hits it (by simp)).2
      have hitem := (hfrom it (hits it (by simp)).1).head hk
      have hne : cur ≠ some it.sectionIndex := by
        intro hc
        have := hcur _ hc
        omega
      have hnext : ∀ j, some k = some j → j < k + 1 := by
        intro j hj
        cases hj
        exact Nat.lt_succ_self k
      have hrest := fun w => @reemitLoop_groups secs (k + 1) _ (some k) w hopast hpast hnext
      rw [if_neg (by simp), List.foldlM_append, List.cons_append, List.foldlM_cons, List.nil_append,
        List.foldlM_cons, groupStep, reemitStep, openFor, if_neg hne, closeOpen, closeWhen]
      simp only [bind_assoc, hitem.1, hitem.2, List.map_cons, List.foldlM_cons, Except.pure_eq_ok,
        Except.bind_ok_eq, hk]
      refine congrArg _ (funext fun w₁ => congrArg _ (funext fun w₂ => congrArg _
        (funext fun w₃ => ?_)))
      rw [reemit_same_eq its w₃ fun it' hmem => (hits it' (by simp [hmem])).2]
      simp only [bind_assoc, Except.bind_ok_eq]
      exact congrArg _ (funext fun w₄ => hrest w₄)

/-- **What is replayed is determined by its groups.** -/
theorem reemit_groups {a : Arena} {key : Option Bytes} {secs : List Section} {kept : List EmitItem}
    (ho : Ordered kept) (hfrom : ∀ it ∈ kept, it.From 0 secs) :
    reemit e a target key kept = (do
      let st ← (keptGroups target 0 secs kept).foldlM (groupStep e) (false, writerInit a)
      let w ← closeWhen e st.1 st.2
      finishWith key w) := by
  have hloop := @reemitLoop_groups e target secs 0 kept none (writerInit a) ho hfrom nofun
  rw [Option.isSome_none] at hloop
  rw [← hloop, bind_assoc]
  rfl

end Loop

/-! ## The items of a walk -/

/-- The records a section delivers. -/
def sectionRecords (env : CodecEnv) (cap : Nat) (sec : Section) : List Record :=
  match sectionStream env cap sec with
  | .error _ => []
  | .ok raw => parsedRecords (tlvItems raw).1

/-- The records that the sections deliver, the first of them with number `k`. -/
def walkItems (env : Nat → CodecEnv) (cap k : Nat) (secs : List Section) : List EmitItem :=
  (secs.zipIdx k).flatMap fun (sec, i) =>
    (sectionRecords (env i) cap sec).map fun rec => ⟨i, sec.type, sec.codecId, rec⟩

theorem itemSignals_items (si : Nat) (sec : Section) : ∀ (ts : List Tlv) (pos : WalkPos),
    (eventsOf (itemSignals si sec pos ts)).map EmitItem.ofEvent =
      (parsedRecords ts).map fun rec => ⟨si, sec.type, sec.codecId, rec⟩
  | [], _ => rfl
  | t :: ts, pos => by
    unfold itemSignals parsedRecords
    cases h : recordParse t with
    | error rc =>
      simp only [eventsOf, List.filterMap_cons, h, Except.toOption, Signal.event?]
      exact itemSignals_items si sec ts _
    | ok rec =>
      simp only [eventsOf, List.filterMap_cons, h, Except.toOption, Signal.event?, List.map_cons]
      congr 1
      exact itemSignals_items si sec ts _

theorem walkSignals_items (env : Nat → CodecEnv) (cap : Nat) : ∀ (secs : List Section)
    (si recordIndex : Nat),
    (eventsOf (walkSignals env cap si recordIndex secs)).map EmitItem.ofEvent =
      walkItems env cap si secs
  | [], _, _ => rfl
  | sec :: secs, si, recordIndex => by
    have hsec : (eventsOf (sectionSignals (env si) cap si recordIndex sec)).map EmitItem.ofEvent =
        (sectionRecords (env si) cap sec).map fun rec => ⟨si, sec.type, sec.codecId, rec⟩ := by
      unfold sectionSignals sectionRecords
      cases sectionStream (env si) cap sec with
      | error rc => rfl
      | ok raw => exact itemSignals_items si sec _ _
    rw [walkSignals, eventsOf_append, List.map_append, walkSignals_items env cap secs, hsec]
    rfl

theorem retainWalk_continues (wanted : Record → Bool) : (retainWalk wanted).Continues := by
  intro ev items
  unfold retainWalk
  dsimp only
  split <;> rfl

theorem retainWalk_fold (wanted : Record → Bool) : ∀ (xs : List Signal) (acc : List EmitItem),
    xs.foldl (retainWalk wanted).signal acc =
      acc ++ ((eventsOf xs).map EmitItem.ofEvent).filter fun it => wanted it.record
  | [], acc => by simp [eventsOf]
  | .error we :: xs, acc => retainWalk_fold wanted xs acc
  | .record ev :: xs, acc => by
    rw [List.foldl_cons, retainWalk_fold wanted xs]
    cases hw : wanted ev.record <;>
      simp [Walk.signal, retainWalk, eventsOf, Signal.event?, EmitItem.ofEvent, hw]

/-- **A retaining walk ends with the wanted records of its input, in the order of the walk.** -/
theorem walkMemory_retain {env : Nat → CodecEnv} {wanted : Record → Bool} {file : Bytes}
    {cont : Container} (h : containerParse file = .ok cont) :
    walkMemory env (retainWalk wanted) file [] =
      (none, (walkItems env WALK_DEFAULT_MAX_DECODE 0 cont.sections).filter
        fun it => wanted it.record) := by
  rw [walkMemory_fold env (retainWalk_continues wanted), h]
  dsimp only
  rw [retainWalk_fold, List.nil_append, walkSignals_items]
  rfl

theorem retain_ok {env : Nat → CodecEnv} {wanted : Record → Bool} {maxFile : Nat} {file : Bytes}
    {items : List EmitItem} (h : retain env wanted maxFile file = .ok items) :
    ∃ cont, containerParse file = .ok cont ∧
      items = (walkItems env WALK_DEFAULT_MAX_DECODE 0 cont.sections).filter
        fun it => wanted it.record := by
  unfold retain walkAbsorb at h
  by_cases hbig : file.length > maxFile
  · rw [if_pos hbig] at h
    cases h
  rw [if_neg hbig] at h
  cases hparse : containerParse file with
  | error rc =>
    rw [walkMemory, hparse] at h
    cases h
  | ok cont =>
    rw [walkMemory_retain hparse] at h
    cases h
    exact ⟨cont, rfl, rfl⟩

section Kept

variable {env : Nat → CodecEnv} {cap : Nat}

/-- The first section's items come first. -/
theorem walkItems_cons (k : Nat) (sec : Section) (secs : List Section) :
    walkItems env cap k (sec :: secs) =
      ((sectionRecords (env k) cap sec).map fun rec => ⟨k, sec.type, sec.codecId, rec⟩) ++
        walkItems env cap (k + 1) secs := rfl

theorem walkItems_from {k : Nat} {secs : List Section} {it : EmitItem}
    (h : it ∈ walkItems env cap k secs) : it.From k secs := by
  simp only [walkItems, List.mem_flatMap, List.mem_map] at h
  obtain ⟨⟨sec, i⟩, hmem, rec, -, rfl⟩ := h
  exact ⟨sec, hmem, rfl, rfl⟩

theorem walkItems_ordered : ∀ (secs : List Section) (k : Nat), Ordered (walkItems env cap k secs)
  | [], _ => .nil
  | sec :: secs, k => by
    rw [walkItems_cons]
    refine List.pairwise_append.mpr ⟨?_, walkItems_ordered secs (k + 1), ?_⟩
    · exact List.pairwise_map.mpr (List.pairwise_of_forall fun _ _ => Nat.le_refl k)
    · intro it hit it' hit'
      obtain ⟨rec, -, rfl⟩ := List.mem_map.mp hit
      exact (Nat.le_succ k).trans (walkItems_from hit').le

/-- The items of one section among all of them. -/
theorem keptFrom_walkItems : ∀ {secs : List Section} {k i : Nat} {sec : Section},
    (sec, i) ∈ secs.zipIdx k → (keptFrom (walkItems env cap k secs) i).map (·.record) =
      sectionRecords (env i) cap sec
  | sec₀ :: secs, k, i, sec, h => by
    rw [walkItems_cons, keptFrom, List.filter_append]
    rw [List.zipIdx_cons, List.mem_cons] at h
    rcases h with h | h
    · cases h
      have hrest : (walkItems env cap (k + 1) secs).filter (fun it => it.sectionIndex = k) = [] := by
        rw [List.filter_eq_nil_iff]
        intro it hit
        have := (walkItems_from hit).le
        simp only [decide_eq_true_eq]
        omega
      rw [hrest, List.append_nil, List.filter_eq_self.mpr (by simp), List.map_map]
      exact List.map_id _
    · have hle : k + 1 ≤ i := List.le_snd_of_mem_zipIdx h
      rw [List.filter_eq_nil_iff.mpr (by simp; omega), List.nil_append]
      exact keptFrom_walkItems h

/-- Records parsed from items need no more room than the items. -/
theorem parsedRecords_raw_le (slack : Slack) : ∀ ts : List Tlv,
    (((parsedRecords ts).map (Record.item slack)).flatMap encodeTlv).length ≤
      (ts.flatMap encodeTlv).length
  | [] => Nat.le_refl _
  | t :: ts => by
    have ih := parsedRecords_raw_le slack ts
    rw [List.flatMap_cons, List.length_append]
    cases h : recordParse t with
    | error rc =>
      have hskip : parsedRecords (t :: ts) = parsedRecords ts :=
        List.filterMap_cons_none (by rw [h]; rfl)
      rw [hskip]
      omega
    | ok rec =>
      have htake : parsedRecords (t :: ts) = rec :: parsedRecords ts :=
        List.filterMap_cons_some (by rw [h]; rfl)
      have hle : (encodeTlv (rec.item slack)).length ≤ (encodeTlv t).length := by
        rw [encodeTlv_length, encodeTlv_length]
        exact Nat.add_le_add_left (recordParse_payload_le slack h) 3
      rw [htake, List.map_cons, List.flatMap_cons, List.length_append]
      omega

theorem sectionRecords_raw_le (slack : Slack) (env : CodecEnv) (sec : Section) :
    (((sectionRecords env cap sec).map (Record.item slack)).flatMap encodeTlv).length ≤ cap := by
  unfold sectionRecords
  cases hs : sectionStream env cap sec with
  | error rc => exact Nat.zero_le _
  | ok raw =>
    have hraw : raw.length ≤ cap := by
      unfold sectionStream at hs
      split at hs
      · cases hs
      · rename_i codec hcodec
        split at hs
        · cases hs
        · have := codecGet_decode_le hcodec hs
          omega
    have hitems := congrArg List.length (tlvItems_spec raw).1
    rw [List.length_append] at hitems
    have := parsedRecords_raw_le slack (tlvItems raw).1
    dsimp only
    omega

theorem sectionRecords_parseable {env : CodecEnv} {sec : Section} {rec : Record}
    (h : rec ∈ sectionRecords env cap sec) : rec.Parseable := by
  unfold sectionRecords at h
  split at h
  · cases h
  · obtain ⟨t, -, ht⟩ := List.mem_filterMap.mp h
    cases hp : recordParse t with
    | error rc =>
      rw [hp] at ht
      cases ht
    | ok rec' =>
      rw [hp] at ht
      cases ht
      exact recordParse_ok hp

/-- Each group is made of records of its section, and fits where the section did. -/
theorem keptGroups_fit (slack : Slack) {target : Option UInt8} {k : Nat} {secs : List Section}
    {kept : List EmitItem} (h : kept.Sublist (walkItems env cap k secs)) :
    ∀ g ∈ keptGroups target k secs kept,
      (g.log slack).raw.length ≤ cap ∧ ∀ rec ∈ g.records, rec.Parseable := by
  intro g hg
  obtain ⟨⟨sec, i⟩, hmem, hg⟩ := List.mem_filterMap.mp hg
  dsimp only at hg
  split at hg
  · cases hg
  · cases hg
    have hsub : ((keptFrom kept i).map (·.record)).Sublist (sectionRecords (env i) cap sec) := by
      rw [← keptFrom_walkItems hmem]
      exact (h.filter _).map _
    constructor
    · exact ((hsub.map _).flatMap _).length_le.trans (sectionRecords_raw_le slack (env i) sec)
    · intro rec hrec
      exact sectionRecords_parseable (hsub.subset hrec)

/-- The groups hold the kept records, in order and each once. -/
theorem keptGroups_records (target : Option UInt8) : ∀ (secs : List Section) {k : Nat}
    {kept : List EmitItem}, Ordered kept → (∀ it ∈ kept, it.From k secs) →
      (keptGroups target k secs kept).flatMap (·.records) = kept.map (·.record)
  | [], k, kept, _, hfrom => by
    obtain rfl := eq_nil_of_from hfrom
    rfl
  | sec :: secs, k, kept, ho, hfrom => by
    have hsplit := keptFrom_append ho fun it hmem => (hfrom it hmem).le
    have hpast := keptPast_from hfrom
    have hopast : Ordered (keptPast kept k) := ho.filter _
    have ih := keptGroups_records target secs hopast hpast
    rw [keptGroups_cons, List.flatMap_append, ih]
    conv_rhs => rw [← hsplit]
    rw [List.map_append]
    congr 1
    split
    · rename_i hnil
      rw [hnil]
      rfl
    · simp

/-- **Walking what was replayed.** Whatever subsequence of the walk's items is replayed, walking the
finished container delivers it: one section for each section that contributed. -/
theorem reemit_walk {e : EmitEnv} {a : Arena} {target : Option UInt8} {key : Option Bytes}
    {secs : List Section} {kept : List EmitItem} {bytes : Bytes}
    (hkept : kept.Sublist (walkItems env cap 0 secs)) (hok : reemit e a target key kept = .ok bytes)
    {σ : Type} {env' : Nat → CodecEnv} {w : Walk σ} (henv : ∀ i, (env' i).scratchOk = true)
    (hcap : cap ≤ w.cap) (s : σ) :
    walkMemory env' w bytes s = deliver w (groupSignals (keptGroups target 0 secs kept)) s := by
  have ho : Ordered kept := (walkItems_ordered secs 0).sublist hkept
  obtain ⟨wr, l, hr, hclosed, -, hfin⟩ := reemit_refines ho
    (fun it hit => walkItems_from (hkept.subset hit)) hok
  refine walk_groups hr hclosed hfin henv ?_ s
  intro g hg
  obtain ⟨hraw, hparse⟩ := keptGroups_fit e.slack hkept g hg
  exact ⟨hraw.trans hcap, hparse⟩

end Kept

end Dtl
