import TelemetryForge.Report.Tools

/-!
# Re-emission is normalising

A second pass of `dtl_repack_file` or `dtl_sign_file` over the output of a first one writes what the
second pass alone writes.  The argument has two halves:

* what a writer emits is determined by its log and its key (`writerFinish_determined`), whatever
  buffers its codecs were given and however often they were retried;
* walking a container made of groups of parseable records and collecting what the walk delivers
  gives these groups again (`keptGroups_holds`).

Both calls on the first input walk it before anything depends on the codec or the key, in the same
memory state `env`.

Principal result: `reemit_normalises`.
-/

set_option autoImplicit false

namespace Dtl

open Sink

/-! ## The emitted bytes are determined by the log -/

theorem plan_run_unique {p : CodecPlan} {cap cap' : Nat} {y y' : Bytes}
    (h : p.run .range cap = .ok y) (h' : p.run .range cap' = .ok y') : y = y' := by
  obtain ⟨-, rfl, -⟩ := Plan.run_ok h
  obtain ⟨-, rfl, -⟩ := Plan.run_ok h'
  rfl

/-- The dictionary encoder's private allocations decide whether it succeeds, not what it writes. -/
theorem dictEncode_unique {scratch scratch' : Bool} {x y y' : Bytes} {cap cap' : Nat}
    (h : dictEncode scratch x cap = .ok y) (h' : dictEncode scratch' x cap' = .ok y') : y = y' := by
  rw [dictEncode_eq] at h h'
  have hplan : ∀ s c r, (dictEncodePlan s x).run .range c = .ok r →
      dictEncodePlan s x = dictEncodePlan true x := by
    intro s c r hr
    cases s with
    | true => rfl
    | false =>
      have hstop := (Plan.run_ok hr).1
      unfold dictEncodePlan at hstop ⊢
      by_cases h0 : x.length = 0
      · rw [if_pos h0, if_pos h0]
      · rw [if_neg h0, if_pos rfl] at hstop
        cases hstop
  rw [hplan _ _ _ h] at h
  rw [hplan _ _ _ h'] at h'
  exact plan_run_unique h h'

/-- **An encoder that succeeds twice has written the same bytes.** -/
theorem codecGet_encode_unique {codecId : UInt8} {c : Codec} (hc : codecGet codecId = some c)
    {env env' : CodecEnv} {x y y' : Bytes} {cap cap' : Nat} (h : c.encode env x cap = .ok y)
    (h' : c.encode env' x cap' = .ok y') : y = y' := by
  have hmem := List.mem_of_find?_eq_some hc
  simp only [codecTable, List.mem_cons, List.not_mem_nil, or_false] at hmem
  rcases hmem with rfl | rfl | rfl | rfl | rfl | rfl | rfl
  · exact plan_run_unique ((storeCopy_eq x cap).symm.trans h) ((storeCopy_eq x cap').symm.trans h')
  · exact plan_run_unique ((rleEncode_eq x cap).symm.trans h) ((rleEncode_eq x cap').symm.trans h')
  · exact plan_run_unique ((varintEncode_eq x cap).symm.trans h)
      ((varintEncode_eq x cap').symm.trans h')
  · exact plan_run_unique ((lz77Encode_eq x cap).symm.trans h) ((lz77Encode_eq x cap').symm.trans h')
  · exact dictEncode_unique h h'
  · exact plan_run_unique ((deltaEncode_eq x cap).symm.trans h)
      ((deltaEncode_eq x cap').symm.trans h')
  · exact plan_run_unique ((base32Encode_eq x cap).symm.trans h)
      ((base32Encode_eq x cap').symm.trans h')

theorem SectionStands.unique {s s' : WSection} {l : SectionLog} (h : SectionStands s l)
    (h' : SectionStands s' l) : s = s' := by
  obtain ⟨codec, env, cap, hc, henc⟩ := h.encoded
  obtain ⟨codec', env', cap', hc', henc'⟩ := h'.encoded
  have hid : s.codecId = s'.codecId := h.codecId.trans h'.codecId.symm
  rw [← hid, hc] at hc'
  cases hc'
  have hblob : s.blob = s'.blob := codecGet_encode_unique hc henc henc'
  have hraw : s.rawLen = s'.rawLen := UInt32.toNat_inj.mp (h.rawLen.trans h'.rawLen.symm)
  have hcomp : s.compLen = s'.compLen := by
    apply UInt32.toNat_inj.mp
    rw [h.compLen, h'.compLen, hblob]
  have htype : s.type = s'.type := h.type.trans h'.type.symm
  cases s
  cases s'
  cases htype
  cases hid
  cases hraw
  cases hcomp
  cases hblob
  rfl

theorem sections_unique {ss ss' : List WSection} {ls : List SectionLog}
    (h : List.Forall₂ SectionStands ss ls) (h' : List.Forall₂ SectionStands ss' ls) : ss = ss' := by
  induction h generalizing ss' with
  | nil =>
    cases h'
    rfl
  | cons hs _ ih =>
    cases h' with
    | cons hs' hrest => rw [hs.unique hs', ih hrest]

/-- **What a writer emits is determined by its closed sections' log and its key.** -/
theorem writerFinish_determined {w w' : Writer} {l l' : WriterLog} {bytes bytes' : Bytes}
    (hr : Refines w l) (hr' : Refines w' l') (hlog : l.closed = l'.closed)
    (hkey : w.hmacKey = w'.hmacKey) (h : (writerFinish w).1 = .ok bytes)
    (h' : (writerFinish w').1 = .ok bytes') : bytes = bytes' := by
  obtain ⟨-, -, -, rfl⟩ := writerFinish_ok h
  obtain ⟨-, -, -, rfl⟩ := writerFinish_ok h'
  have hclosed := hr'.closed
  rw [← hlog] at hclosed
  have hsecs : w.sections = w'.sections := sections_unique hr.closed hclosed
  have hbody : writerBody w = writerBody w' := by
    rw [writerBody, writerBody, writerFlags, writerFlags, hkey, hsecs]
  rw [hkey, hbody]

/-! ## Groups survive a walk -/

/-- The log of groups of parseable records does not depend on the memory around their buffers. -/
theorem group_logs_slack {gs : List Group} (h : ∀ g ∈ gs, ∀ rec ∈ g.records, rec.Parseable)
    (slack slack' : Slack) : gs.map (Group.log slack) = gs.map (Group.log slack') := by
  apply List.map_congr_left
  intro g hg
  rw [Group.log, Group.log, items_slack (h g hg) slack slack']

/-- The groups of everything a walk delivers are its sections with a record. -/
theorem keptGroups_walkItems (target : Option UInt8) (env : Nat → CodecEnv) (cap k : Nat)
    (secs : List Section) :
    keptGroups target k secs (walkItems env cap k secs) = (secs.zipIdx k).filterMap fun p =>
      if sectionRecords (env p.2) cap p.1 = [] then none
      else some ⟨p.1.type, target.getD p.1.codecId, sectionRecords (env p.2) cap p.1⟩ := by
  unfold keptGroups
  apply List.filterMap_congr
  rintro ⟨sec, i⟩ hmem
  have hrecs := @keptFrom_walkItems env cap secs k i sec hmem
  dsimp only
  rw [hrecs]
  have hnil : keptFrom (walkItems env cap k secs) i = [] ↔ sectionRecords (env i) cap sec = [] := by
    rw [← hrecs, List.map_eq_nil_iff]
  by_cases h : sectionRecords (env i) cap sec = []
  · rw [if_pos h, if_pos (hnil.mpr h)]
  · rw [if_neg h, if_neg (fun h' => h (hnil.mp h'))]

/-- The group with its codec replaced. -/
def Group.retarget (target : Option UInt8) (g : Group) : Group :=
  { g with codecId := target.getD g.codecId }

theorem keptGroups_retarget (target : Option UInt8) (k : Nat) (secs : List Section)
    (kept : List EmitItem) :
    keptGroups target k secs kept = (keptGroups none k secs kept).map (Group.retarget target) := by
  unfold keptGroups
  rw [List.map_filterMap]
  apply List.filterMap_congr
  rintro ⟨sec, i⟩ -
  dsimp only
  split <;> rfl

/-- Retargeting twice is retargeting once, to the last codec. -/
theorem Group.retarget_retarget (target target' : Option UInt8) (g : Group) :
    (g.retarget target).retarget target' = g.retarget (target'.or target) := by
  cases target' <;> rfl

theorem sectionRecords_holds {slack : Slack} {env : CodecEnv} {cap : Nat} {sec : Section} {g : Group}
    (h : SectionHolds sec (g.log slack)) (henv : env.scratchOk = true)
    (hraw : (g.log slack).raw.length ≤ cap) (hrecs : ∀ rec ∈ g.records, rec.Parseable) :
    sectionRecords env cap sec = g.records := by
  have hitems : (tlvItems (g.log slack).raw).1 = g.records.map (Record.item slack) := by
    rw [h.items]
    rfl
  rw [sectionRecords, h.stream henv hraw]
  dsimp only
  rw [hitems, parsedRecords_items _ hrecs]

/-- **Walking a container of groups and collecting what is delivered gives the groups again.** -/
theorem keptGroups_holds {slack : Slack} (target : Option UInt8) {env : Nat → CodecEnv} {cap : Nat}
    (henv : ∀ i, (env i).scratchOk = true) : ∀ {gs : List Group} {secs : List Section} (k : Nat),
      List.Forall₂ SectionHolds secs (gs.map (Group.log slack)) →
      (∀ g ∈ gs, (g.log slack).raw.length ≤ cap ∧ ∀ rec ∈ g.records, rec.Parseable) →
      (∀ g ∈ gs, g.records ≠ []) →
        keptGroups target k secs (walkItems env cap k secs) = gs.map (Group.retarget target)
  | [], _, k, .nil, _, _ => rfl
  | g :: gs, sec :: secs, k, .cons hsec hsecs, hfit, hne => by
    rw [List.forall_mem_cons] at hfit hne
    have ih := keptGroups_holds target henv (k + 1) hsecs hfit.2 hne.2
    have hrecs := sectionRecords_holds hsec (henv k) hfit.1.1 hfit.1.2
    rw [keptGroups_walkItems] at ih ⊢
    rw [List.zipIdx_cons, List.filterMap_cons]
    dsimp only
    rw [hrecs, if_neg hne.1, ih, List.map_cons, Group.retarget, hsec.type, hsec.codecId]
    rfl

theorem keptGroups_nonempty (target : Option UInt8) (k : Nat) (secs : List Section)
    (kept : List EmitItem) : ∀ g ∈ keptGroups target k secs kept, g.records ≠ [] := by
  intro g hg
  obtain ⟨⟨sec, i⟩, -, hg⟩ := List.mem_filterMap.mp hg
  dsimp only at hg
  split at hg
  · cases hg
  · rename_i hkept
    cases hg
    simpa using hkept

/-! ## Two passes -/

/-- A pass of a tool that replays everything its walk delivers. -/
def reemitFile (env : Nat → CodecEnv) (e : EmitEnv) (a : Arena) (target : Option UInt8)
    (key : Option Bytes) (maxFile : Nat) (file : Bytes) : Res Bytes := do
  let items ← retain env (fun _ => true) maxFile file
  reemit e a target key items

/-- What a pass writes: the retargeted groups of the walk, signed with the key. -/
theorem reemitFile_groups {env : Nat → CodecEnv} {e : EmitEnv} {a : Arena} {target : Option UInt8}
    {key : Option Bytes} {maxFile : Nat} {file out : Bytes}
    (h : reemitFile env e a target key maxFile file = .ok out) :
    ∃ cont w l, containerParse file = .ok cont ∧ Refines w l ∧ w.hmacKey = key ∧
      (writerFinish w).1 = .ok out ∧
      l.closed = (keptGroups target 0 cont.sections
        (walkItems env WALK_DEFAULT_MAX_DECODE 0 cont.sections)).map (Group.log e.slack) := by
  rw [reemitFile, Except.bind_eq_ok] at h
  obtain ⟨items, hitems, hok⟩ := h
  obtain ⟨cont, hparse, rfl⟩ := retain_ok hitems
  rw [List.filter_true] at hok
  obtain ⟨w, l, hr, hclosed, hkey, hfin⟩ := reemit_refines (walkItems_ordered cont.sections 0)
    (fun it hit => walkItems_from hit) hok
  exact ⟨cont, w, l, hparse, hr, hkey, hfin, hclosed⟩

/-- **A second pass undoes all of the first but its codec, where the second does not choose one.** -/
theorem reemitFile_twice {env env' : Nat → CodecEnv} {e e' e'' : EmitEnv} {a a' a'' : Arena}
    {target target' : Option UInt8} {key key' : Option Bytes} {maxFile maxFile' maxFile'' : Nat}
    {file mid out out' : Bytes} (henv : ∀ i, (env' i).scratchOk = true)
    (hfirst : reemitFile env e a target key maxFile file = .ok mid)
    (hsecond : reemitFile env' e' a' target' key' maxFile' mid = .ok out)
    (honce : reemitFile env e'' a'' (target'.or target) key' maxFile'' file = .ok out') :
    out = out' := by
  obtain ⟨cont, w, l, hparse, hr, -, hfin, hclosed⟩ := reemitFile_groups hfirst
  obtain ⟨cont', w', l', hparse', hr', hkey', hfin', hclosed'⟩ := reemitFile_groups hsecond
  obtain ⟨cont'', w'', l'', hparse'', hr'', hkey'', hfin'', hclosed''⟩ := reemitFile_groups honce
  cases hparse.symm.trans hparse''
  -- the sections of the intermediate file hold the groups of the first pass
  obtain ⟨hmid, hholds⟩ := writerFinish_holds hr hfin
  cases hmid.symm.trans hparse'
  have hfit : ∀ g ∈ keptGroups target 0 cont.sections
      (walkItems env WALK_DEFAULT_MAX_DECODE 0 cont.sections),
      (g.log e.slack).raw.length ≤ WALK_DEFAULT_MAX_DECODE ∧ ∀ rec ∈ g.records, rec.Parseable :=
    keptGroups_fit e.slack (List.Sublist.refl _)
  rw [hclosed] at hholds
  have hgroups := keptGroups_holds target' henv 0 hholds hfit
    (keptGroups_nonempty target 0 cont.sections _)
  have honce : keptGroups target' 0 (placeSections 0 w.sections)
      (walkItems env' WALK_DEFAULT_MAX_DECODE 0 (placeSections 0 w.sections)) =
      keptGroups (target'.or target) 0 cont.sections
        (walkItems env WALK_DEFAULT_MAX_DECODE 0 cont.sections) := by
    rw [hgroups, keptGroups_retarget target, keptGroups_retarget (target'.or target), List.map_map]
    exact List.map_congr_left fun g _ => g.retarget_retarget target target'
  refine writerFinish_determined hr' hr'' ?_ (hkey'.trans hkey''.symm) hfin' hfin''
  rw [hclosed', hclosed'', honce]
  apply group_logs_slack
  intro g hg
  exact (keptGroups_fit e.slack (List.Sublist.refl _) g hg).2

/-- **Replaying what was replayed.** A walk of the output delivers the kept records in the kept groups,
and replaying them all writes the output again. -/
theorem reemit_again {env env' : Nat → CodecEnv} {e : EmitEnv} {a : Arena} {secs : List Section}
    {kept : List EmitItem} {out : Bytes} (henv : ∀ i, (env' i).scratchOk = true)
    (hkept : kept.Sublist (walkItems env WALK_DEFAULT_MAX_DECODE 0 secs))
    (hok : reemit e a none none kept = .ok out) :
    ∃ cont, containerParse out = .ok cont ∧
      let again := walkItems env' WALK_DEFAULT_MAX_DECODE 0 cont.sections
      again.map (·.record) = kept.map (·.record) ∧
      keptGroups none 0 cont.sections again = keptGroups none 0 secs kept ∧
      reemit e a none none again = .ok out ∧
      ∀ e' a' out', reemit e' a' none none again = .ok out' → out' = out := by
  have ho : Ordered kept := (walkItems_ordered secs 0).sublist hkept
  have hfrom : ∀ it ∈ kept, it.From 0 secs := fun it hit => walkItems_from (hkept.subset hit)
  obtain ⟨w, l, hr, hclosed, hkey, hfin⟩ := reemit_refines ho hfrom hok
  obtain ⟨hparse, hholds⟩ := writerFinish_holds hr hfin
  have hfit : ∀ g ∈ keptGroups none 0 secs kept, (g.log e.slack).raw.length ≤
      WALK_DEFAULT_MAX_DECODE ∧ ∀ rec ∈ g.records, rec.Parseable := keptGroups_fit e.slack hkept
  rw [hclosed] at hholds
  have hgroups := keptGroups_holds none henv 0 hholds hfit (keptGroups_nonempty none 0 secs kept)
  have hid : (keptGroups none 0 secs kept).map (Group.retarget none) = keptGroups none 0 secs kept :=
    List.map_id _
  rw [hid] at hgroups
  have ho' := @walkItems_ordered env' WALK_DEFAULT_MAX_DECODE
    (placeSections 0 w.sections) 0
  have hfrom' : ∀ it ∈ walkItems env' WALK_DEFAULT_MAX_DECODE 0 (placeSections 0 w.sections),
      it.From 0 (placeSections 0 w.sections) := fun it hit => walkItems_from hit
  refine ⟨_, hparse, ?_, hgroups, ?_, ?_⟩
  · rw [← keptGroups_records none _ ho' hfrom', hgroups, keptGroups_records none _ ho hfrom]
  · rw [reemit_groups ho' hfrom', hgroups, ← reemit_groups ho hfrom]
    exact hok
  · intro e' a' out' hok'
    obtain ⟨w', l', hr', hclosed', hkey', hfin'⟩ := reemit_refines ho' hfrom' hok'
    refine writerFinish_determined hr' hr ?_ (hkey'.trans hkey.symm) hfin' hfin
    rw [hclosed', hclosed, hgroups]
    exact group_logs_slack (fun g hg => (hfit g hg).2) e'.slack e.slack

theorem repackFile_eq {env : Nat → CodecEnv} {e : EmitEnv} {a : Arena} {codecId : UInt8}
    {maxFile : Nat} {file out : Bytes} (h : repackFile env e a codecId maxFile file = .ok out) :
    reemitFile env e a (some codecId) none maxFile file = .ok out := by
  unfold repackFile at h
  split at h
  · cases h
  · exact h

theorem signFile_eq {env : Nat → CodecEnv} {e : EmitEnv} {a : Arena} {key : Bytes} {maxFile : Nat}
    {file out : Bytes} (h : signFile env e a key maxFile file = .ok out) :
    reemitFile env e a none (some key) maxFile file = .ok out := by
  unfold signFile at h
  split at h
  · cases h
  · exact h

/-- **Re-emission is normalising.** Whenever the calls succeed, repacking with `x` and then with `y`
writes what repacking with `y` writes, and signing with `k₁` and then with `k₂` what signing with
`k₂` writes. -/
theorem reemit_normalises {env env' : Nat → CodecEnv} (henv : ∀ i, (env' i).scratchOk = true)
    (e e' e'' : EmitEnv) (a a' a'' : Arena) (maxFile maxFile' maxFile'' : Nat) (c : Bytes) :
    (∀ (x y : UInt8) (mid out out' : Bytes), repackFile env e a x maxFile c = .ok mid →
      repackFile env' e' a' y maxFile' mid = .ok out →
      repackFile env e'' a'' y maxFile'' c = .ok out' → out = out') ∧
    (∀ k₁ k₂ mid out out' : Bytes, signFile env e a k₁ maxFile c = .ok mid →
      signFile env' e' a' k₂ maxFile' mid = .ok out →
      signFile env e'' a'' k₂ maxFile'' c = .ok out' → out = out') := by
  constructor
  · intro x y mid out out' hfirst hsecond honce
    exact reemitFile_twice henv (repackFile_eq hfirst) (repackFile_eq hsecond) (repackFile_eq honce)
  · intro k₁ k₂ mid out out' hfirst hsecond honce
    exact reemitFile_twice henv (signFile_eq hfirst) (signFile_eq hsecond) (signFile_eq honce)

/-- Memory is plentiful and the codec buffers are preceded by zeros. -/
def plainEnv (_ : Nat) : CodecEnv := ⟨true, 0⟩

def plainEmit : EmitEnv := ⟨zeroSlack, fun _ => plainEnv⟩

def plainArena : Arena := ⟨fun _ => false, 0⟩

/-- Both kinds of second pass, on two sections. -/
theorem reemit_normalises_sections : ∃ mid mid' out out',
    repackFile plainEnv plainEmit plainArena CODEC_RLE 4096 twoSections = .ok mid ∧
      repackFile plainEnv plainEmit plainArena CODEC_STORE 4096 mid = .ok out ∧
      repackFile plainEnv plainEmit plainArena CODEC_STORE 4096 twoSections = .ok out ∧
      signFile plainEnv plainEmit plainArena [1] 4096 twoSections = .ok mid' ∧
      signFile plainEnv plainEmit plainArena [2] 4096 mid' = .ok out' ∧
      signFile plainEnv plainEmit plainArena [2] 4096 twoSections = .ok out' := by
  have hrepack : ((repackFile plainEnv plainEmit plainArena CODEC_RLE 4096 twoSections) >>=
      repackFile plainEnv plainEmit plainArena CODEC_STORE 4096).toOption.isSome = true := by
    decide +kernel
  have hsign : ((signFile plainEnv plainEmit plainArena [1] 4096 twoSections) >>=
      signFile plainEnv plainEmit plainArena [2] 4096).toOption.isSome = true := by
    decide +kernel
  obtain ⟨out, hout⟩ := Except.exists_ok hrepack
  obtain ⟨out', hout'⟩ := Except.exists_ok hsign
  rw [Except.bind_eq_ok] at hout hout'
  obtain ⟨mid, hmid, hout⟩ := hout
  obtain ⟨mid', hmid', hout'⟩ := hout'
  obtain ⟨once, honce⟩ := Except.exists_ok (show (repackFile plainEnv plainEmit plainArena CODEC_STORE
    4096 twoSections).toOption.isSome = true by decide +kernel)
  obtain ⟨once', honce'⟩ := Except.exists_ok (show (signFile plainEnv plainEmit plainArena [2] 4096
    twoSections).toOption.isSome = true by decide +kernel)
  have hnorm := @reemit_normalises plainEnv plainEnv (fun _ => rfl) plainEmit
    plainEmit plainEmit plainArena plainArena plainArena 4096 4096 4096 twoSections
  rw [← hnorm.1 _ _ _ _ _ hmid hout honce] at honce
  rw [← hnorm.2 _ _ _ _ _ hmid' hout' honce'] at honce'
  exact ⟨mid, mid', out, out', hmid, hout, honce, hmid', hout', honce'⟩

end Dtl
