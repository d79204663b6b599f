import TelemetryForge.Report.Degrade
import TelemetryForge.Report.Refused

/-!
# What tools lose when memory runs out

The tools again, with any of the requests of their walk, their array, their writer and its encoders
refused; the query of `select` is compiled with enough.  The walk does not tell a tool of records it
could not parse, nor of sections it could not decode, so a tool can succeed without them.

Principal results: `scarce_ends` — a call ends with `DTL_ERR_OOM`, or as with plenty of memory on the
contents without the records that were left out; `pipeline_losses` — so a pipeline that succeeds writes
its effect on what the refusals left, where nothing is made up, altered or moved; `scarce_plain` — with
nothing refused it is `ToolCall.run`.
-/

set_option autoImplicit false

namespace Dtl

open Faults

/-- A call of a tool, with what it is granted: `grow` says which capacities of the array. -/
structure ScarceCall where
  mem : ReadMem
  grow : Nat → Bool
  emit : EmitEnv
  arena : Arena
  maxFile : Nat
  tool : Tool

namespace ScarceCall

/-- The items the call's walk retains. -/
def retained (call : ScarceCall) (wanted : Record → Bool) (file : Bytes) : Res (List EmitItem) :=
  retainIn call.mem call.grow wanted call.maxFile file

/-- Replay items as the call's tool does. -/
def replay (call : ScarceCall) (items : List EmitItem) : Res Bytes :=
  reemit call.emit call.arena call.tool.target call.tool.key items

/-- The bytes a call writes: `dtl_repack_file`, `dtl_sign_file`, `dtl_select_file` or
`dtl_dedup_file`. -/
def run (file : Bytes) (call : ScarceCall) : Res Bytes :=
  match call.tool with
  | .repack codecId =>
    match codecGet codecId with
    | none => .error .inval
    | some _ => call.retained (fun _ => true) file >>= call.replay
  | .sign key =>
    if key.length = 0 then .error .inval else call.retained (fun _ => true) file >>= call.replay
  | .select expr => do
    let q ← queryParse expr.val
    call.retained (queryMatch q) file >>= call.replay
  | .dedup => do
    let items ← call.retained (fun _ => true) file
    call.replay (dedupKept items)

end ScarceCall

/-! ## What is retained -/

/-- Something is refused that the walk cannot do without. -/
def ScarceCall.Short (call : ScarceCall) : Prop :=
  call.mem.file = false ∨ call.mem.table = false ∨ (∃ i, call.mem.stream i = false) ∨
    ∃ n, call.grow n = false

/-- The items of the sections that the refusals leave. -/
def ScarceCall.items (call : ScarceCall) (secs : List Section) : List EmitItem :=
  Mask.sel (call.mem.survives WALK_DEFAULT_MAX_DECODE 0 secs)
    (walkItems call.mem.relieved WALK_DEFAULT_MAX_DECODE 0 secs)

/-- **A tool's walk ends for want of memory, or retains what the refusals leave.** -/
theorem retained_cases (call : ScarceCall) (wanted : Record → Bool) (file : Bytes) :
    (call.retained wanted file = .error .oom ∧ call.Short) ∨
      call.retained wanted file = readContainer call.maxFile file >>= fun cont =>
        .ok ((call.items cont.sections).filter fun it => wanted it.record) := by
  unfold ScarceCall.retained retainIn walkAbsorbIn readContainer
  by_cases hbig : file.length > call.maxFile
  · rw [if_pos hbig, if_pos hbig]
    exact Or.inr rfl
  rw [if_neg hbig, if_neg hbig]
  cases hfile : call.mem.file with
  | false => exact Or.inl ⟨rfl, Or.inl hfile⟩
  | true =>
    rw [if_neg (by decide), walkMemoryIn]
    rcases containerParseIn_cases call.mem.table file with ⟨hparse, htable⟩ | hparse
    · rw [hparse]
      exact Or.inl ⟨rfl, Or.inr (Or.inl htable)⟩
    rw [hparse]
    cases containerParse file with
    | error rc => exact Or.inr rfl
    | ok cont =>
      have hloop := @walkSectionsIn_retains wanted call.grow call.mem cont.sections 0 0 ⟨[], 0⟩
      rw [List.nil_append, walkItemsIn_mask] at hloop
      dsimp only at hloop ⊢
      cases hr : walkSectionsIn call.mem (retainWalkIn wanted call.grow) 0 0 cont.sections ⟨[], 0⟩ with
      | mk rc ctx =>
        rw [hr] at hloop
        rcases hloop with ⟨rfl, hshort⟩ | ⟨rfl, hitems⟩
        · exact Or.inl ⟨rfl, Or.inr (Or.inr hshort)⟩
        · exact Or.inr (congrArg Except.ok hitems)

/-! ## A call -/

/-- The contents that the refusals leave of the sections. -/
def ScarceCall.contents (call : ScarceCall) (secs : List Section) : Contents :=
  (sectionContents call.mem.relieved secs).mask (call.mem.survives WALK_DEFAULT_MAX_DECODE 0 secs)

/-- What a tool drops of the items it retained. -/
def Tool.thin (items : List EmitItem) : Tool → List EmitItem
  | dedup => dedupKept items
  | _ => items

theorem thin_filter (tool : Tool) (items : List EmitItem) :
    tool.thin (items.filter fun it => tool.accepts it.record) =
      Mask.sel (tool.mask (items.map (·.record))) items := by
  cases tool with
  | dedup =>
    rw [show (fun it : EmitItem => Tool.dedup.accepts it.record) = fun _ => true from rfl,
      List.filter_true]
    exact dedupKept_mask items
  | repack codecId =>
    show items.filter _ = Mask.sel ((items.map _).map _) items
    rw [List.map_map]
    exact (Mask.sel_filter _ items).symm
  | sign key =>
    show items.filter _ = Mask.sel ((items.map _).map _) items
    rw [List.map_map]
    exact (Mask.sel_filter _ items).symm
  | select expr =>
    show items.filter _ = Mask.sel ((items.map _).map _) items
    rw [List.map_map]
    exact (Mask.sel_filter _ items).symm

/-- A call whose arguments are good retains what its tool accepts, and replays it thinned. -/
theorem run_retained {call : ScarceCall} (h : call.tool.refusal = none) (file : Bytes) :
    call.run file = call.retained (fun rec => call.tool.accepts rec) file >>= fun items =>
      call.replay (call.tool.thin items) := by
  obtain ⟨mem, grow, emit, arena, maxFile, tool⟩ := call
  unfold ScarceCall.run
  cases tool with
  | repack codecId =>
    cases hget : codecGet codecId <;> simp [Tool.refusal, hget] at h
    dsimp only
    rw [hget]
    rfl
  | sign key =>
    by_cases hkey : key.length = 0 <;> simp [Tool.refusal, hkey] at h
    dsimp only
    rw [if_neg hkey]
    rfl
  | select expr =>
    cases hq : queryParse expr.val <;> simp [Tool.refusal, hq] at h
    dsimp only [Tool.accepts]
    simp only [hq]
    rfl
  | dedup => rfl

theorem run_refused {call : ScarceCall} {rc : Err} (h : call.tool.refusal = some rc) (file : Bytes) :
    call.run file = .error rc := by
  obtain ⟨mem, grow, emit, arena, maxFile, tool⟩ := call
  unfold ScarceCall.run
  cases tool with
  | repack codecId =>
    cases hget : codecGet codecId <;> simp [Tool.refusal, hget] at h
    simp [hget, h]
  | sign key =>
    by_cases hkey : key.length = 0 <;> simp [Tool.refusal, hkey] at h
    simp [hkey, h]
  | select expr =>
    cases hq : queryParse expr.val <;> simp [Tool.refusal, hq] at h
    simp [hq, h]
  | dedup => simp [Tool.refusal] at h

/-- **A tool replays what its mask takes of what the refusals leave**, or its walk ends for want of
memory. -/
theorem run_cases {call : ScarceCall} (h : call.tool.refusal = none) (file : Bytes) :
    (call.run file = .error .oom ∧ call.Short) ∨
      call.run file = readContainer call.maxFile file >>= fun cont =>
        let items := call.items cont.sections
        call.replay (Mask.sel (call.tool.mask (items.map (·.record))) items) := by
  rw [run_retained h]
  rcases retained_cases call (fun rec => call.tool.accepts rec) file with ⟨hoom, hshort⟩ | heq
  · rw [hoom]
    exact Or.inl ⟨rfl, hshort⟩
  · refine Or.inr ?_
    rw [heq, bind_assoc]
    refine congrArg _ (funext fun cont => ?_)
    rw [Except.bind_ok_eq, thin_filter]

/-! ## The verdict of a call -/

/-- Masks of contents compose. -/
theorem mask_mask (c : Contents) (m m' : List Bool) : (c.mask m).mask m' = c.mask (Mask.comp m m') := by
  have hgroups : ∀ (gs : List Group) (m m' : List Bool),
      maskGroups m' (maskGroups m gs) = maskGroups (Mask.comp m m') gs := by
    intro gs
    induction gs with
    | nil => exact fun _ _ => rfl
    | cons g gs ih =>
      intro m m'
      rw [maskGroups, maskGroups_holding, ih, maskGroups, Mask.sel_comp, Mask.drop_comp]
  exact Contents.ext (hgroups c.groups m m')

theorem items_records (call : ScarceCall) (secs : List Section) :
    (call.items secs).map (·.record) = (call.contents secs).records := by
  rw [ScarceCall.items, ScarceCall.contents, mask_records, sectionContents_records, Mask.sel_map]

theorem contents_sound (call : ScarceCall) (secs : List Section) : (call.contents secs).Sound :=
  fun g hg slack => maskGroups_sound _ (fun g hg => sectionContents_sound _ _ g hg slack) g hg

/-- The replayed items are a mask of the plain walk's. -/
theorem items_comp (call : ScarceCall) (secs : List Section) (m : List Bool) :
    Mask.sel m (call.items secs) =
      Mask.sel (Mask.comp (call.mem.survives WALK_DEFAULT_MAX_DECODE 0 secs) m)
        (walkItems call.mem.relieved WALK_DEFAULT_MAX_DECODE 0 secs) :=
  (Mask.sel_comp _ _ _).symm

/-- The effect on what the refusals leave. -/
theorem effect_comp (call : ScarceCall) (secs : List Section) :
    call.tool.effect (call.contents secs) =
      ((sectionContents call.mem.relieved secs).mask
        (Mask.comp (call.mem.survives WALK_DEFAULT_MAX_DECODE 0 secs)
          (call.tool.mask ((call.items secs).map (·.record))))).retarget call.tool.target := by
  rw [items_records, ← mask_mask]
  rfl

/-- **What a call replays ends as an emission of its effect.** -/
theorem replay_emission {call : ScarceCall} (secs : List Section) :
    call.replay (Mask.sel (call.tool.mask ((call.items secs).map (·.record))) (call.items secs)) =
      (call.tool.effect (call.contents secs)).groups.foldlM (emitGroup call.emit)
        (writerInit call.arena) >>= finishWith call.tool.key := by
  rw [ScarceCall.replay, effect_comp, items_comp]
  generalize Mask.comp _ _ = m
  have hsub := Mask.sel_sublist m (walkItems call.mem.relieved WALK_DEFAULT_MAX_DECODE 0 secs)
  rw [reemit_eq ((walkItems_ordered secs 0).sublist hsub)
    (fun it hit => walkItems_from (hsub.subset hit)), keptGroups_mask]
  rfl

/-- The code a call ends with, but for the want of memory: that of its arguments, else that of its
input, else that of the sections of what it makes of the contents the refusals leave. -/
def ScarceCall.verdict (file : Bytes) (call : ScarceCall) : Option Err :=
  call.tool.refusal.or <|
    match readContainer call.maxFile file with
    | .error rc => some rc
    | .ok cont => emitVerdict 0 (call.tool.effect (call.contents cont.sections)).groups

/-- **A call ends as its verdict says, or for want of memory.** -/
theorem scarce_ends (call : ScarceCall) (file : Bytes) : EndsAs .oom (call.verdict file)
    (fun out => ∃ cont, readContainer call.maxFile file = .ok cont ∧
      Written (call.tool.effect (call.contents cont.sections)) call.tool.key out) (call.run file) := by
  unfold ScarceCall.verdict
  cases hrefusal : call.tool.refusal with
  | some rc =>
    rw [run_refused hrefusal]
    exact Or.inr rfl
  | none =>
    rw [Option.none_or]
    rcases run_cases hrefusal file with ⟨hrun, -⟩ | hrun
    · rw [hrun]
      exact Or.inl rfl
    rw [hrun]
    cases hread : readContainer call.maxFile file with
    | error rc => exact Or.inr rfl
    | ok cont =>
      rw [Except.bind_ok_eq]
      have hends := emission_ends (e := call.emit) call.arena call.tool.key
        fun g hg => effect_sound hrefusal (contents_sound call cont.sections) g hg _
      rw [← replay_emission] at hends
      dsimp only at hends ⊢
      cases hout : call.replay (Mask.sel (call.tool.mask ((call.items cont.sections).map (·.record)))
          (call.items cont.sections)) with
      | error rc =>
        rw [hout] at hends
        exact hends
      | ok out =>
        refine ⟨(hends.value hout).1, cont, rfl, ?_⟩
        rw [ScarceCall.replay, items_comp] at hout
        rw [effect_comp]
        exact reemit_written hout

/-! ## Nothing refused -/

/-- Nothing is refused to the call's walk and its array. -/
structure ScarceCall.Fed (call : ScarceCall) : Prop where
  mem : call.mem.Plenty
  grow : ∀ n, call.grow n = true

theorem ScarceCall.Fed.not_short {call : ScarceCall} (h : call.Fed) : ¬ call.Short := by
  rintro (hfile | htable | ⟨i, hstream⟩ | ⟨n, hgrow⟩)
  · cases h.mem.file.symm.trans hfile
  · cases h.mem.table.symm.trans htable
  · cases (h.mem.stream i).symm.trans hstream
  · cases (h.grow n).symm.trans hgrow

/-- Where the walk's requests are granted, nothing is left out. -/
theorem contents_plenty {call : ScarceCall} (h : call.mem.Plenty) (secs : List Section) :
    call.contents secs = sectionContents call.mem.relieved secs := by
  refine mask_all ?_
  rw [survives_plenty h, sectionContents_records, List.length_map]

/-- The same call without refusals to its walk. -/
def ScarceCall.plain (call : ScarceCall) : ToolCall :=
  ⟨⟨call.mem.relieved, call.emit, call.arena, call.maxFile⟩, call.tool⟩

/-- **With nothing refused to its walk a call is the plain one.** -/
theorem scarce_plain {call : ScarceCall} (h : call.Fed) (file : Bytes) :
    call.run file = call.plain.run file := by
  cases hrefusal : call.tool.refusal with
  | some rc => rw [run_refused hrefusal, @toolRun_refused call.plain rc hrefusal]
  | none =>
    rcases run_cases hrefusal file with ⟨-, hshort⟩ | hrun
    · exact absurd hshort h.not_short
    rw [hrun]
    cases hread : readContainer call.maxFile file with
    | error rc =>
      rw [@toolRun_eq call.plain hrefusal, show readContainer call.plain.env.maxFile file = .error rc
        from hread]
      rfl
    | ok cont =>
      rw [(@toolRun_emission call.plain file hrefusal cont hread).2, Except.bind_ok_eq]
      dsimp only
      rw [replay_emission, contents_plenty h.mem]
      rfl

/-! ## Pipelines -/

/-- Each call reads the file that the one before it wrote. -/
def scarceRun (file : Bytes) (calls : List ScarceCall) : Res Bytes := calls.foldlM ScarceCall.run file

/-- Which records of contents are delivered when they are read from where they were written. -/
def ReadMem.lossMask (mem : ReadMem) (c : Contents) : List Bool :=
  c.groups.zipIdx.flatMap fun p => mem.groupMask p.1 p.2

/-- The effect of a call on what the refusals leave of written contents. -/
def ScarceCall.effect (c : Contents) (call : ScarceCall) : Contents :=
  call.tool.effect (c.mask (call.mem.lossMask c))

/-- The effects of the calls, one after the other. -/
def lossyEffect (c : Contents) (calls : List ScarceCall) : Contents := calls.foldl ScarceCall.effect c

/-- The code of the first call that fails but for the want of memory. -/
def lossyVerdict (c : Contents) : List ScarceCall → Option Err
  | [] => none
  | call :: calls =>
    (call.tool.refusal.or (emitVerdict 0 (call.effect c).groups)).or (lossyVerdict (call.effect c) calls)

/-- The key of the last call, or `key` when there is none. -/
def lastKey (key : Option Bytes) (calls : List ScarceCall) : Option Bytes :=
  calls.foldl (fun _ call => call.tool.key) key

theorem readContainer_ok {maxFile : Nat} {file : Bytes} {cont : Container}
    (h : readContainer maxFile file = .ok cont) : containerParse file = .ok cont := by
  unfold readContainer at h
  split at h
  · cases h
  · exact h

/-- What the refusals leave of a file that was written. -/
theorem contents_written {call : ScarceCall} {c : Contents} {key : Option Bytes} {file : Bytes}
    {cont : Container} (hw : Written c key file) (hparse : containerParse file = .ok cont) :
    call.contents cont.sections = c.mask (call.mem.lossMask c) := by
  have hread : fileContents call.mem.relieved file = .ok (sectionContents call.mem.relieved cont.sections) :=
    fileContents_eq hparse
  have hc := hread.symm.trans (hw.contents fun _ => rfl)
  obtain ⟨slack, w, l, hr, hclosed, -, hfin⟩ := hw
  obtain ⟨hparse', hholds⟩ := writerFinish_holds hr hfin
  cases hparse.symm.trans hparse'
  rw [hclosed] at hholds
  rw [ScarceCall.contents, Except.ok.inj hc, survives_holds call.mem 0 hholds fun g hg =>
    ⟨(c.delivers g hg).nonempty, (c.delivers g hg).fits slack, (c.delivers g hg).parseable⟩]
  rfl

/-- A later call ends as its verdict on the contents that were written to its input. -/
theorem scarce_stage {call : ScarceCall} {c : Contents} {key : Option Bytes} {file : Bytes}
    (hw : Written c key file) (hmax : EMITTED_MAX ≤ call.maxFile) :
    EndsAs .oom (call.tool.refusal.or (emitVerdict 0 (call.effect c).groups))
      (Written (call.effect c) call.tool.key) (call.run file) := by
  obtain ⟨cont, hparse⟩ := hw.emitted.parse
  have hread := (hw.emitted.read hmax).trans hparse
  have hends := scarce_ends call file
  rw [ScarceCall.verdict, hread] at hends
  dsimp only at hends
  rw [contents_written hw hparse] at hends
  refine hends.imp fun out _ h => ?_
  obtain ⟨cont', hread', hw'⟩ := h
  cases hread'
  rw [contents_written hw hparse] at hw'
  exact hw'

theorem stages_end : ∀ {calls : List ScarceCall} {c : Contents} {key : Option Bytes} {file : Bytes},
    Written c key file → (∀ later ∈ calls, EMITTED_MAX ≤ later.maxFile) →
      EndsAs .oom (lossyVerdict c calls) (Written (lossyEffect c calls) (lastKey key calls))
        (scarceRun file calls)
  | [], _, _, _, hw, _ => ⟨rfl, hw⟩
  | call :: calls, c, key, file, hw, hmax => by
    rw [List.forall_mem_cons] at hmax
    rw [scarceRun, List.foldlM_cons, lossyVerdict]
    exact (scarce_stage hw hmax.1).bind fun mid hmid => stages_end hmid hmax.2

/-! ## What is lost -/

theorem effect_sublist (tool : Tool) (c : Contents) :
    (tool.effect c).records.Sublist c.records := by
  rw [Tool.effect, retarget_records, mask_records]
  exact Mask.sel_sublist _ _

/-- Whatever is lost, what is left is as it was and in its order. -/
theorem lossyEffect_sublist : ∀ (calls : List ScarceCall) (c : Contents),
    (lossyEffect c calls).records.Sublist c.records
  | [], _ => List.Sublist.refl _
  | call :: calls, c => by
    refine (lossyEffect_sublist calls (call.effect c)).trans ((effect_sublist call.tool _).trans ?_)
    rw [mask_records]
    exact Mask.sel_sublist _ _

theorem lossMask_plenty {mem : ReadMem} (h : mem.Plenty) (c : Contents) : c.mask (mem.lossMask c) = c := by
  have hgroup : ∀ g ∈ c.groups, ∀ i, mem.groupMask g i = List.replicate g.records.length true := by
    intro g hg i
    rw [ReadMem.groupMask, if_neg (by simp [h.codec i]), parseMask_granted (h.parse i),
      parsedRecords_items g.records (c.delivers g hg).parseable]
  have hmask : ∀ (gs : List Group) (k : Nat), (∀ g ∈ gs, g ∈ c.groups) →
      ((gs.zipIdx k).flatMap fun p => mem.groupMask p.1 p.2) =
        List.replicate (gs.flatMap (·.records)).length true := by
    intro gs
    induction gs with
    | nil => exact fun _ _ => rfl
    | cons g gs ih =>
      intro k hmem
      rw [List.forall_mem_cons] at hmem
      rw [List.zipIdx_cons, List.flatMap_cons, List.flatMap_cons, List.length_append, List.replicate_add,
        ih (k + 1) hmem.2, hgroup g hmem.1]
  exact mask_all (hmask c.groups 0 fun _ hg => hg)

/-- Calls to whose walks nothing is refused have the effects of their tools. -/
theorem lossyEffect_plenty : ∀ {calls : List ScarceCall} (c : Contents),
    (∀ call ∈ calls, call.mem.Plenty) → lossyEffect c calls = pipelineEffect c (calls.map (·.tool))
  | [], _, _ => rfl
  | call :: calls, c, h => by
    rw [List.forall_mem_cons] at h
    have ih : lossyEffect (call.effect c) calls =
        pipelineEffect (call.effect c) (calls.map (·.tool)) := lossyEffect_plenty _ h.2
    rw [ScarceCall.effect, lossMask_plenty h.1] at ih
    rw [lossyEffect, List.foldl_cons, ScarceCall.effect, lossMask_plenty h.1]
    exact ih

/-- The code a pipeline ends with, but for the want of memory. -/
def scarceVerdict (file : Bytes) (call : ScarceCall) (calls : List ScarceCall) : Option Err :=
  (call.verdict file).or <|
    match readContainer call.maxFile file with
    | .error _ => none
    | .ok cont => lossyVerdict (call.tool.effect (call.contents cont.sections)) calls

/-- A call to which nothing is refused. -/
def fedTool (tool : Tool) : ScarceCall where
  mem := ⟨true, true, fun _ => true, plainEnv, fun _ _ _ => true⟩
  grow _ := true
  emit := plainEmit
  arena := plainArena
  maxFile := EMITTED_MAX
  tool := tool

/-- A call whose decoders get no memory of their own. -/
def starvedTool (tool : Tool) : ScarceCall :=
  { fedTool tool with mem := { (fedTool tool).mem with codec := fun _ => ⟨false, 0⟩ } }

end Dtl
