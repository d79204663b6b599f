import TelemetryForge.Lib.Mask
import TelemetryForge.Report.Normalise

/-!
# The contents of a container

What a container means to the tools: its sections that deliver a record, with their types, codecs and
records.  `Contents` is such a list of groups; `fileContents` reads it off a file by the walk with the
default cap.  `Written` relates contents and a key to the bytes a writer leaves for them.

Principal results: `Written.unique` — contents and key determine the bytes; `Written.contents` —
reading what was written gives the contents back; `reemit_written` — the replay loop writes the
selected contents.
-/

set_option autoImplicit false

namespace Dtl

/-- A section from which the default walk delivers records, and nothing but records. -/
structure Group.Delivers (g : Group) : Prop where
  nonempty : g.records ≠ []
  parseable : ∀ rec ∈ g.records, rec.Parseable
  fits : ∀ slack, (g.log slack).raw.length ≤ WALK_DEFAULT_MAX_DECODE

/-- The sections of a container that deliver a record. -/
@[ext] structure Contents where
  groups : List Group
  delivers : ∀ g ∈ groups, g.Delivers

/-- All records, in order. -/
def Contents.records (c : Contents) : List Record := c.groups.flatMap (·.records)

theorem keptGroups_delivers (env : Nat → CodecEnv) (secs : List Section) :
    ∀ g ∈ keptGroups none 0 secs (walkItems env WALK_DEFAULT_MAX_DECODE 0 secs), g.Delivers := by
  intro g hg
  have hfit := fun slack => keptGroups_fit slack
    (List.Sublist.refl (walkItems env WALK_DEFAULT_MAX_DECODE 0 secs)) g hg
  exact ⟨keptGroups_nonempty none 0 secs _ g hg, (hfit zeroSlack).2, fun slack => (hfit slack).1⟩

/-- What the sections deliver to a walk. -/
def sectionContents (env : Nat → CodecEnv) (secs : List Section) : Contents :=
  ⟨keptGroups none 0 secs (walkItems env WALK_DEFAULT_MAX_DECODE 0 secs), keptGroups_delivers env secs⟩

/-- What a file holds for a walk. -/
def fileContents (env : Nat → CodecEnv) (file : Bytes) : Res Contents := do
  let cont ← containerParse file
  return sectionContents env cont.sections

theorem fileContents_ok {env : Nat → CodecEnv} {file : Bytes} {c : Contents}
    (h : fileContents env file = .ok c) :
    ∃ cont, containerParse file = .ok cont ∧ sectionContents env cont.sections = c := by
  simpa [fileContents, Except.bind_eq_ok, Except.pure_eq_ok] using h

theorem fileContents_eq {env : Nat → CodecEnv} {file : Bytes} {cont : Container}
    (h : containerParse file = .ok cont) :
    fileContents env file = .ok (sectionContents env cont.sections) := by
  simp [fileContents, h, Except.pure_eq_ok]

theorem sectionContents_records (env : Nat → CodecEnv) (secs : List Section) :
    (sectionContents env secs).records =
      (walkItems env WALK_DEFAULT_MAX_DECODE 0 secs).map (·.record) :=
  keptGroups_records none secs (walkItems_ordered secs 0) fun _ hit => walkItems_from hit

/-- The records of the contents are those a walk of the file delivers. -/
theorem fileContents_records {env : Nat → CodecEnv} {file : Bytes} {c : Contents}
    (h : fileContents env file = .ok c) : (delivered env file).map (·.record) = c.records := by
  obtain ⟨cont, hparse, rfl⟩ := fileContents_ok h
  rw [delivered_eq env hparse, sectionContents_records]

/-! ## Selecting and retargeting -/

/-- The group with the given records in place of its own, dropped when there are none. -/
def Group.holding (g : Group) (recs : List Record) : List Group :=
  if recs = [] then [] else [{ g with records := recs }]

@[simp] theorem Group.holding_nil (g : Group) : g.holding [] = [] := rfl

theorem Group.holding_of_ne {g : Group} {recs : List Record} (h : recs ≠ []) :
    g.holding recs = [{ g with records := recs }] := if_neg h

@[simp] theorem Group.holding_records (g : Group) (recs : List Record) :
    (g.holding recs).flatMap (·.records) = recs := by
  cases recs <;> simp [Group.holding]

@[simp] theorem Group.holding_retarget (target : Option UInt8) (g : Group) (recs : List Record) :
    (g.retarget target).holding recs = (g.holding recs).map (Group.retarget target) := by
  cases recs <;> rfl

theorem Group.Delivers.holding {g : Group} (h : g.Delivers) {recs : List Record}
    (hsub : recs.Sublist g.records) : ∀ g' ∈ g.holding recs, g'.Delivers := by
  intro g' hg'
  rcases eq_or_ne recs [] with rfl | hne
  · cases hg'
  · rw [Group.holding_of_ne hne, List.mem_singleton] at hg'
    rw [hg']
    refine ⟨hne, fun rec hrec => h.parseable rec (hsub.subset hrec), fun slack => ?_⟩
    exact ((hsub.map (Record.item slack)).flatMap encodeTlv).length_le.trans (h.fits slack)

/-- The groups with the records taken. -/
def maskGroups : List Bool → List Group → List Group
  | _, [] => []
  | m, g :: gs => g.holding (Mask.sel m g.records) ++ maskGroups (m.drop g.records.length) gs

theorem maskGroups_delivers : ∀ (m : List Bool) {gs : List Group}, (∀ g ∈ gs, g.Delivers) →
    ∀ g ∈ maskGroups m gs, g.Delivers
  | _, [], _ => by simp [maskGroups]
  | m, g :: gs, h => by
    rw [List.forall_mem_cons] at h
    rw [maskGroups, List.forall_mem_append]
    exact ⟨h.1.holding (Mask.sel_sublist m g.records), maskGroups_delivers _ h.2⟩

theorem maskGroups_records : ∀ (m : List Bool) (gs : List Group),
    (maskGroups m gs).flatMap (·.records) = Mask.sel m (gs.flatMap (·.records))
  | m, [] => by simp [maskGroups]
  | m, g :: gs => by
    rw [maskGroups, List.flatMap_append, List.flatMap_cons, Mask.sel_append, maskGroups_records,
      Group.holding_records]

theorem maskGroups_retarget (target : Option UInt8) : ∀ (m : List Bool) (gs : List Group),
    maskGroups m (gs.map (Group.retarget target)) = (maskGroups m gs).map (Group.retarget target)
  | _, [] => rfl
  | m, g :: gs => by
    rw [List.map_cons, maskGroups, maskGroups, List.map_append, Group.holding_retarget,
      ← maskGroups_retarget target]
    rfl

/-- A test masks each group with its own answers. -/
theorem maskGroups_filter (p : Record → Bool) : ∀ gs : List Group,
    maskGroups ((gs.flatMap (·.records)).map p) gs = gs.flatMap fun g => g.holding (g.records.filter p)
  | [] => rfl
  | g :: gs => by
    rw [List.flatMap_cons, List.flatMap_cons, List.map_append, maskGroups,
      Mask.sel_append_left _ _ (by simp), Mask.sel_filter, List.drop_left' (by simp),
      maskGroups_filter p gs]

/-- A full mask takes everything. -/
theorem maskGroups_all {gs : List Group} (h : ∀ g ∈ gs, g.records ≠ []) :
    maskGroups (List.replicate (gs.flatMap (·.records)).length true) gs = gs := by
  have hmap : List.replicate (gs.flatMap (·.records)).length true =
      (gs.flatMap (·.records)).map fun _ => true := by simp
  rw [hmap, maskGroups_filter]
  induction gs with
  | nil => rfl
  | cons g gs ih =>
    rw [List.forall_mem_cons] at h
    rw [List.flatMap_cons, List.filter_true, Group.holding_of_ne h.1, ih h.2 (by simp)]
    rfl

theorem maskGroups_holding (m : List Bool) (g : Group) (recs : List Record) (gs : List Group) :
    maskGroups m (g.holding recs ++ gs) =
      g.holding (Mask.sel m recs) ++ maskGroups (m.drop recs.length) gs := by
  rcases eq_or_ne recs [] with rfl | hne
  · simp
  · rw [Group.holding_of_ne hne]
    rfl

/-- The groups of items that start with those of the first section. -/
theorem keptGroups_append {target : Option UInt8} {k : Nat} {sec : Section} {secs : List Section}
    {its rest : List EmitItem} (hits : ∀ it ∈ its, it.sectionIndex = k)
    (hrest : ∀ it ∈ rest, it.sectionIndex ≠ k) :
    keptGroups target k (sec :: secs) (its ++ rest) =
      Group.holding ⟨sec.type, target.getD sec.codecId, []⟩ (its.map (·.record)) ++
        keptGroups target (k + 1) secs rest := by
  have hfrom : keptFrom (its ++ rest) k = its := by
    rw [keptFrom, List.filter_append, List.filter_eq_self.mpr (by simpa using hits),
      List.filter_eq_nil_iff.mpr (by simpa using hrest), List.append_nil]
  have hpast : keptPast (its ++ rest) k = rest := by
    rw [keptPast, List.filter_append, List.filter_eq_nil_iff.mpr (by simpa using hits),
      List.filter_eq_self.mpr (by simpa using hrest), List.nil_append]
  rw [keptGroups_cons, hfrom, hpast]
  cases its <;> rfl

/-- **Masking the items of a walk masks their groups.** -/
theorem keptGroups_mask (target : Option UInt8) (env : Nat → CodecEnv) (cap : Nat) :
    ∀ (secs : List Section) (k : Nat) (m : List Bool),
      keptGroups target k secs (Mask.sel m (walkItems env cap k secs)) =
        (maskGroups m (keptGroups none k secs (walkItems env cap k secs))).map
          (Group.retarget target)
  | [], _, _ => by simp [keptGroups, maskGroups]
  | sec :: secs, k, m => by
    have hits : ∀ it ∈ (sectionRecords (env k) cap sec).map fun rec =>
        EmitItem.mk k sec.type sec.codecId rec, it.sectionIndex = k := by simp
    have hrest : ∀ it ∈ walkItems env cap (k + 1) secs, it.sectionIndex ≠ k := by
      intro it hit
      exact Nat.ne_of_gt (walkItems_from hit).le
    have ih := keptGroups_mask target env cap secs (k + 1)
      (m.drop (sectionRecords (env k) cap sec).length)
    rw [walkItems_cons, Mask.sel_append,
      keptGroups_append (fun it hit => hits it ((Mask.sel_sublist m _).subset hit))
        (fun it hit => hrest it ((Mask.sel_sublist _ _).subset hit)),
      keptGroups_append hits hrest, maskGroups_holding, List.map_append, List.length_map, ih,
      List.length_map, Mask.sel_map]
    simp only [List.map_map, Function.comp_def, List.map_id', Option.getD_none]
    rw [← Group.holding_retarget, List.length_map]
    rfl

/-! ## What was written -/

/-- The selected contents. -/
def Contents.mask (c : Contents) (m : List Bool) : Contents :=
  ⟨maskGroups m c.groups, maskGroups_delivers m c.delivers⟩

theorem retarget_delivers (target : Option UInt8) (c : Contents) :
    ∀ g ∈ c.groups.map (Group.retarget target), g.Delivers := by
  intro g hg
  obtain ⟨g, hmem, rfl⟩ := List.mem_map.mp hg
  obtain ⟨hne, hparse, hfits⟩ := c.delivers g hmem
  exact ⟨hne, hparse, hfits⟩

/-- The contents with every codec replaced. -/
def Contents.retarget (c : Contents) (target : Option UInt8) : Contents :=
  ⟨c.groups.map (Group.retarget target), retarget_delivers target c⟩

/-- A writer that was handed the contents and the key left the bytes. -/
def Written (c : Contents) (key : Option Bytes) (out : Bytes) : Prop :=
  ∃ slack w l, Refines w l ∧ l.closed = c.groups.map (Group.log slack) ∧ w.hmacKey = key ∧
    (writerFinish w).1 = .ok out

/-- **Contents and key determine the bytes.** -/
theorem Written.unique {c : Contents} {key : Option Bytes} {out out' : Bytes}
    (h : Written c key out) (h' : Written c key out') : out = out' := by
  obtain ⟨slack, w, l, hr, hclosed, hkey, hfin⟩ := h
  obtain ⟨slack', w', l', hr', hclosed', hkey', hfin'⟩ := h'
  refine writerFinish_determined hr hr' ?_ (hkey.trans hkey'.symm) hfin hfin'
  rw [hclosed, hclosed']
  exact group_logs_slack (fun g hg => (c.delivers g hg).parseable) slack slack'

/-- **Reading what was written gives the contents back.** -/
theorem Written.contents {c : Contents} {key : Option Bytes} {out : Bytes} (h : Written c key out)
    {env : Nat → CodecEnv} (henv : ∀ i, (env i).scratchOk = true) :
    fileContents env out = .ok c := by
  obtain ⟨slack, w, l, hr, hclosed, -, hfin⟩ := h
  obtain ⟨hparse, hholds⟩ := writerFinish_holds hr hfin
  rw [hclosed] at hholds
  have hgroups := keptGroups_holds none henv 0 hholds
    (fun g hg => ⟨(c.delivers g hg).fits slack, (c.delivers g hg).parseable⟩)
    fun g hg => (c.delivers g hg).nonempty
  rw [fileContents_eq hparse]
  refine congrArg _ (Contents.ext (hgroups.trans ?_))
  exact List.map_id _

/-- Any walk with the tools' decode cap or a larger one delivers the contents, and makes no error
call. -/
theorem Written.walk {c : Contents} {key : Option Bytes} {out : Bytes} (h : Written c key out)
    {σ : Type} {env : Nat → CodecEnv} {w : Walk σ} (henv : ∀ i, (env i).scratchOk = true)
    (hcap : WALK_DEFAULT_MAX_DECODE ≤ w.cap) (s : σ) :
    walkMemory env w out s = deliver w (groupSignals c.groups) s := by
  obtain ⟨slack, wr, l, hr, hclosed, -, hfin⟩ := h
  refine walk_groups hr hclosed hfin henv ?_ s
  intro g hg
  exact ⟨((c.delivers g hg).fits slack).trans hcap, (c.delivers g hg).parseable⟩

/-- **The replay loop writes the selected contents.** -/
theorem reemit_written {env : Nat → CodecEnv} {e : EmitEnv} {a : Arena} {target : Option UInt8}
    {key : Option Bytes} {secs : List Section} {m : List Bool} {out : Bytes}
    (h : reemit e a target key (Mask.sel m (walkItems env WALK_DEFAULT_MAX_DECODE 0 secs)) = .ok out) :
    Written (((sectionContents env secs).mask m).retarget target) key out := by
  have hsub := Mask.sel_sublist m (walkItems env WALK_DEFAULT_MAX_DECODE 0 secs)
  obtain ⟨w, l, hr, hclosed, hkey, hfin⟩ := reemit_refines ((walkItems_ordered secs 0).sublist hsub)
    (fun it hit => walkItems_from (hsub.subset hit)) h
  refine ⟨e.slack, w, l, hr, ?_, hkey, hfin⟩
  rw [hclosed, keptGroups_mask]
  rfl

end Dtl
