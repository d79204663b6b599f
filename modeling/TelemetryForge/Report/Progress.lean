import TelemetryForge.Writer.Outcome
import TelemetryForge.Report.Trace
import TelemetryForge.Report.Printed
import TelemetryForge.Report.Provenance

/-!
# The code a tool returns

Given memory, whether a tool succeeds is decided by its arguments, by the size and the framing of its
input, and by the sections of its output: each must close with its codec, and there is room for 64.
`ToolCall.verdict` is the code that comes of it, `pipelineVerdict` that of a whole pipeline.

Principal results: `toolRun_verdict` — a tool returns the code of its verdict; `pipeline_verdict` — a
pipeline stops with the first one; `pipeline_progress` — codecs that take every stream never fail.
-/

set_option autoImplicit false

namespace Dtl

/-! ## The size of what is emitted -/

/-- No container that a writer emits is larger. -/
def EMITTED_MAX : Nat := 12 + 16 * WRITER_MAX_SECTIONS + 0xFFFFFFFF + HMAC_LEN

theorem Emitted.length_le {out : Bytes} (h : Emitted out) : out.length ≤ EMITTED_MAX := by
  obtain ⟨w, l, hr, hfin⟩ := h
  obtain ⟨-, hsec, hsum, rfl⟩ := writerFinish_ok hfin
  have hread := sections_readable hr.closed
  have hroom := hr.room
  have htag : ((w.hmacKey.map fun key => hashMac key (writerBody w)).getD []).length ≤ HMAC_LEN := by
    cases w.hmacKey with
    | none => exact Nat.zero_le _
    | some key => exact (hashMac_length key _).le
  have hbody : (writerBody w).length = 12 + 16 * w.sections.length + (writerRegion w.sections).length := by
    rw [writerBody, ← List.append_assoc, List.length_append, layoutBytes_table_length, writerTable_length]
  rw [writerRegion_length hread] at hbody
  rw [hsec] at hroom
  have hroom : w.sections.length ≤ WRITER_MAX_SECTIONS := hroom
  calc (writerBody w ++ _).length ≤ (12 + 16 * w.sections.length + _) + HMAC_LEN := by
        rw [List.length_append, hbody]
        exact Nat.add_le_add_left htag _
    _ ≤ EMITTED_MAX :=
      Nat.add_le_add_right (Nat.add_le_add (Nat.add_le_add_left (Nat.mul_le_mul_left 16 hroom) 12) hsum) _

/-! ## Replaying -/

section Replay

variable {e : EmitEnv}

theorem emitRecords_foldlM : ∀ (recs : List Record) (w : Writer),
    recs.foldlM (fun w rec => checked (writerAddRecord e.slack w rec)) w = emitRecords e recs w
  | [], _ => rfl
  | rec :: recs, w => by
    rw [List.foldlM_cons, emitRecords]
    exact congrArg _ (funext fun w' => emitRecords_foldlM recs w')

/-- Closing each section before the next is opened is closing it after its records. -/
theorem closeWhen_groups : ∀ (gs : List Group) (isOpen : Bool) (w : Writer),
    (gs.foldlM (groupStep e) (isOpen, w) >>= fun st => closeWhen e st.1 st.2) =
      closeWhen e isOpen w >>= fun w => gs.foldlM (emitGroup e) w
  | [], isOpen, w => by
    rw [List.foldlM_nil, pure_bind]
    exact (bind_pure _).symm
  | g :: gs, isOpen, w => by
    rw [List.foldlM_cons, groupStep, bind_assoc, bind_assoc]
    refine congrArg _ (funext fun w₁ => ?_)
    rw [List.foldlM_cons, emitGroup, bind_assoc, bind_assoc]
    refine congrArg _ (funext fun w₂ => ?_)
    rw [emitRecords_foldlM, bind_assoc, bind_assoc]
    refine congrArg _ (funext fun w₃ => ?_)
    rw [pure_bind]
    exact closeWhen_groups gs true w₃

/-- **The replay emits its groups one after the other.** -/
theorem reemit_eq {a : Arena} {target : Option UInt8} {key : Option Bytes} {secs : List Section}
    {kept : List EmitItem} (ho : Ordered kept) (hfrom : ∀ it ∈ kept, it.From 0 secs) :
    reemit e a target key kept =
      (keptGroups target 0 secs kept).foldlM (emitGroup e) (writerInit a) >>= finishWith key := by
  rw [reemit_groups ho hfrom, ← bind_assoc, closeWhen_groups]
  rfl

theorem finishWith_succeeds {w : Writer} (hw : w.Idle)
    (hcount : w.sections.length ≤ WRITER_MAX_SECTIONS) (hsum : w.blobTotal ≤ 0xFFFFFFFF)
    (key : Option Bytes) : ∃ out, finishWith key w = .ok out := by
  cases key with
  | none => exact writerFinish_succeeds hw.err hw.outside hw.roomy hcount hsum
  | some key =>
    have hset : checked (writerSetHmac w key) = .ok { w with hmacKey := some key } := by
      rw [writerSetHmac, if_neg (by simp [hw.err])]
      rfl
    rw [finishWith, hset]
    exact writerFinish_succeeds (w := { w with hmacKey := some key }) hw.err hw.outside hw.roomy
      hcount hsum

variable {a : Arena} (he : e.Encodes) (ha : a.Roomy) {gs : List Group}
  (hgs : ∀ g ∈ gs, g.Sound e.slack)

include he ha hgs

theorem emission_fails {rc : Err} (key : Option Bytes) (h : emitVerdict 0 gs = some rc) :
    gs.foldlM (emitGroup e) (writerInit a) >>= finishWith key = .error rc := by
  rw [emitGroups_fails he (w := writerInit a) ⟨rfl, rfl, ha⟩ hgs h]
  rfl

theorem emission_finishes (key : Option Bytes) (h : emitVerdict 0 gs = none) :
    ∃ out, gs.foldlM (emitGroup e) (writerInit a) >>= finishWith key = .ok out := by
  obtain ⟨w, hok, hidle, hlen, hsum⟩ :=
    emitGroups_closes he (w := writerInit a) ⟨rfl, rfl, ha⟩ hgs h
  have hcount := emitVerdict_count (Nat.zero_le _) h
  have hmax : WRITER_MAX_SECTIONS = 64 := rfl
  have hblob : BLOB_MAX = 50331840 := rfl
  have hinit : (writerInit a).sections.length = 0 := rfl
  have htotal : (writerInit a).blobTotal = 0 := rfl
  rw [hok]
  refine finishWith_succeeds hidle (by omega) ?_ key
  calc w.blobTotal ≤ gs.length * BLOB_MAX := by omega
    _ ≤ 64 * BLOB_MAX := Nat.mul_le_mul_right _ (by omega)
    _ ≤ 0xFFFFFFFF := by omega

end Replay

/-! ## What the tools hand to the writer -/

/-- The writer takes in every group. -/
def Contents.Sound (c : Contents) : Prop := ∀ g ∈ c.groups, ∀ slack, g.Sound slack

theorem sectionRecords_codec {env : CodecEnv} {cap : Nat} {sec : Section}
    (h : sectionRecords env cap sec ≠ []) : (codecGet sec.codecId).isSome = true := by
  unfold sectionRecords sectionStream at h
  cases hget : codecGet sec.codecId with
  | none => simp [hget] at h
  | some codec => rfl

/-- **What a walk delivers, the writer takes in.** -/
theorem sectionContents_sound (env : Nat → CodecEnv) (secs : List Section) :
    (sectionContents env secs).Sound := by
  intro g hg slack
  have hdelivers := (sectionContents env secs).delivers g hg
  have hgroups : (sectionContents env secs).groups = _ :=
    keptGroups_walkItems none env WALK_DEFAULT_MAX_DECODE 0 secs
  rw [hgroups] at hg
  obtain ⟨⟨sec, i⟩, -, hg⟩ := List.mem_filterMap.mp hg
  dsimp only at hg
  split at hg
  · cases hg
  rename_i hne
  cases hg
  refine ⟨sectionRecords_codec hne, hne, fun rec hrec => ?_, hdelivers.fits slack⟩
  exact ⟨sectionRecords_parseable hrec, (sectionRecords_walked hrec).payload_le slack⟩

theorem Group.Sound.holding {slack : Slack} {g : Group} (h : g.Sound slack) {recs : List Record}
    (hsub : recs.Sublist g.records) : ∀ g' ∈ g.holding recs, g'.Sound slack := by
  intro g' hg'
  rcases eq_or_ne recs [] with rfl | hne
  · cases hg'
  · rw [Group.holding_of_ne hne, List.mem_singleton] at hg'
    rw [hg']
    refine ⟨h.codec, hne, fun rec hrec => h.records rec (hsub.subset hrec), ?_⟩
    exact ((hsub.map (Record.item slack)).flatMap encodeTlv).length_le.trans h.fits

theorem maskGroups_sound {slack : Slack} : ∀ (m : List Bool) {gs : List Group},
    (∀ g ∈ gs, g.Sound slack) → ∀ g ∈ maskGroups m gs, g.Sound slack
  | _, [], _ => by simp [maskGroups]
  | m, g :: gs, h => by
    rw [List.forall_mem_cons] at h
    rw [maskGroups, List.forall_mem_append]
    exact ⟨h.1.holding (Mask.sel_sublist m g.records), maskGroups_sound _ h.2⟩

/-! ## The verdict of a tool -/

/-- The code with which a tool refuses its arguments. -/
def Tool.refusal : Tool → Option Err
  | repack codecId => if (codecGet codecId).isSome then none else some .inval
  | sign key => if key.length = 0 then some .inval else none
  | select expr =>
    match queryParse expr.val with
    | .error rc => some rc
    | .ok _ => none
  | dedup => none

theorem effect_sound {tool : Tool} (h : tool.refusal = none) {c : Contents} (hc : c.Sound) :
    (tool.effect c).Sound := by
  intro g hg slack
  obtain ⟨g, hmem, rfl⟩ := List.mem_map.mp hg
  have hsound := maskGroups_sound (tool.mask c.records) (fun g hg => hc g hg slack) g hmem
  refine ⟨?_, hsound.nonempty, hsound.records, hsound.fits⟩
  cases tool with
  | repack codecId =>
    by_cases hcodec : (codecGet codecId).isSome = true
    · exact hcodec
    · simp [Tool.refusal, hcodec] at h
  | sign key => exact hsound.codec
  | select expr => exact hsound.codec
  | dedup => exact hsound.codec

/-- Reading and parsing the input. -/
def readContainer (maxFile : Nat) (file : Bytes) : Res Container :=
  if maxFile < file.length then .error .range else containerParse file

/-- A limit that no emitted file exceeds. -/
theorem Emitted.read {file : Bytes} (h : Emitted file) {maxFile : Nat} (hmax : EMITTED_MAX ≤ maxFile) :
    readContainer maxFile file = containerParse file :=
  if_neg (Nat.not_lt.mpr (h.length_le.trans hmax))

/-- The code a call returns, given memory: that of its arguments, else that of its input, else that of
the sections of its output. -/
def ToolCall.verdict (file : Bytes) (call : ToolCall) : Option Err :=
  call.tool.refusal.or <|
    match readContainer call.env.maxFile file with
    | .error rc => some rc
    | .ok cont => emitVerdict 0 (call.tool.effect (sectionContents call.env.walk cont.sections)).groups

theorem retain_eq (env : Nat → CodecEnv) (wanted : Record → Bool) (maxFile : Nat) (file : Bytes) :
    retain env wanted maxFile file = readContainer maxFile file >>= fun cont =>
      .ok ((walkItems env WALK_DEFAULT_MAX_DECODE 0 cont.sections).filter
        fun it => wanted it.record) := by
  unfold retain walkAbsorb readContainer
  by_cases hbig : maxFile < file.length
  · rw [if_pos hbig, if_pos hbig]
    rfl
  rw [if_neg hbig, if_neg hbig]
  cases hparse : containerParse file with
  | error rc =>
    rw [walkMemory_eq, hparse]
    rfl
  | ok cont =>
    rw [walkMemory_retain hparse]
    rfl

theorem toolRun_refused {call : ToolCall} {rc : Err} (h : call.tool.refusal = some rc) (file : Bytes) :
    call.run file = .error rc := by
  obtain ⟨v, tool⟩ := call
  unfold ToolCall.run toolRun
  cases tool with
  | repack codecId =>
    cases hget : codecGet codecId <;> simp [Tool.refusal, hget] at h
    simp [repackFile, hget, h]
  | sign key =>
    by_cases hkey : key.length = 0 <;> simp [Tool.refusal, hkey] at h
    simp [signFile, hkey, h]
  | select expr =>
    cases hq : queryParse expr.val <;> simp [Tool.refusal, hq] at h
    simp [selectFile, hq, h]
  | dedup => simp [Tool.refusal] at h

/-- **A tool whose arguments are good replays what its mask takes of the walk.** -/
theorem toolRun_eq {call : ToolCall} (h : call.tool.refusal = none) (file : Bytes) :
    call.run file = readContainer call.env.maxFile file >>= fun cont =>
      let items := walkItems call.env.walk WALK_DEFAULT_MAX_DECODE 0 cont.sections
      reemit call.env.emit call.env.arena call.tool.target call.tool.key
        (Mask.sel (call.tool.mask (items.map (·.record))) items) := by
  obtain ⟨v, tool⟩ := call
  unfold ToolCall.run toolRun
  cases tool with
  | repack codecId =>
    cases hget : codecGet codecId <;> simp [Tool.refusal, hget] at h
    simp only [repackFile, hget, retain_eq, bind_assoc, Except.bind_ok_eq, List.filter_true]
    refine congrArg _ (funext fun cont => ?_)
    dsimp only [Tool.mask, Tool.accepts]
    rw [sel_all]
    rfl
  | sign key =>
    by_cases hkey : key.length = 0 <;> simp [Tool.refusal, hkey] at h
    simp only [signFile, if_neg hkey, retain_eq, bind_assoc, Except.bind_ok_eq, List.filter_true]
    refine congrArg _ (funext fun cont => ?_)
    dsimp only [Tool.mask, Tool.accepts]
    rw [sel_all]
    rfl
  | select expr =>
    cases hq : queryParse expr.val <;> simp [Tool.refusal, hq] at h
    rename_i q
    simp only [selectFile, hq, retain_eq, bind_assoc, Except.bind_ok_eq, map_bind]
    refine congrArg _ (funext fun cont => ?_)
    dsimp only [Tool.mask, Tool.accepts]
    simp only [hq, List.map_map, Mask.sel_filter, map_pure, bind_pure]
    rfl
  | dedup =>
    simp only [dedupFile, retain_eq, bind_assoc, Except.bind_ok_eq, List.filter_true, map_bind]
    refine congrArg _ (funext fun cont => ?_)
    simp only [dedupKept_mask, map_pure, bind_pure]
    rfl

/-- The replayed groups are those of the tool's effect. -/
theorem effect_groups (tool : Tool) (env : Nat → CodecEnv) (secs : List Section) :
    let items := walkItems env WALK_DEFAULT_MAX_DECODE 0 secs
    keptGroups tool.target 0 secs (Mask.sel (tool.mask (items.map (·.record))) items) =
      (tool.effect (sectionContents env secs)).groups := by
  dsimp only
  rw [keptGroups_mask, Tool.effect, sectionContents_records]
  rfl

/-- What a call depends on does not run out. -/
structure ToolEnv.Plentiful (v : ToolEnv) : Prop where
  encodes : v.emit.Encodes
  roomy : v.arena.Roomy

section Verdict

variable {call : ToolCall} {file : Bytes}

/-- Past its arguments and its input, a tool ends as the emission of its effect. -/
theorem toolRun_emission (h : call.tool.refusal = none) {cont : Container}
    (hread : readContainer call.env.maxFile file = .ok cont) :
    let gs := (call.tool.effect (sectionContents call.env.walk cont.sections)).groups
    (∀ g ∈ gs, g.Sound call.env.emit.slack) ∧ call.run file =
      gs.foldlM (emitGroup call.env.emit) (writerInit call.env.arena) >>=
        finishWith call.tool.key := by
  have hsub := Mask.sel_sublist (call.tool.mask
    ((walkItems call.env.walk WALK_DEFAULT_MAX_DECODE 0 cont.sections).map (·.record)))
    (walkItems call.env.walk WALK_DEFAULT_MAX_DECODE 0 cont.sections)
  refine ⟨fun g hg => effect_sound h (sectionContents_sound _ _) g hg _, ?_⟩
  rw [toolRun_eq h, hread, Except.bind_ok_eq]
  dsimp only
  rw [reemit_eq ((walkItems_ordered cont.sections 0).sublist hsub)
    (fun it hit => walkItems_from (hsub.subset hit)), effect_groups]

variable (hv : call.env.Plentiful)

include hv

theorem toolRun_fails {rc : Err} (h : call.verdict file = some rc) : call.run file = .error rc := by
  unfold ToolCall.verdict at h
  cases hrefusal : call.tool.refusal with
  | some rc' =>
    rw [hrefusal, Option.some_or, Option.some.injEq] at h
    rw [toolRun_refused hrefusal, h]
  | none =>
    rw [hrefusal, Option.none_or] at h
    cases hread : readContainer call.env.maxFile file with
    | error rc' =>
      rw [hread, Option.some.injEq] at h
      rw [toolRun_eq hrefusal, hread, h]
      rfl
    | ok cont =>
      rw [hread] at h
      obtain ⟨hsound, heq⟩ := toolRun_emission hrefusal hread
      rw [heq]
      exact emission_fails hv.encodes hv.roomy hsound _ h

theorem toolRun_succeeds (h : call.verdict file = none) : ∃ out, call.run file = .ok out := by
  unfold ToolCall.verdict at h
  rw [Option.or_eq_none_iff] at h
  obtain ⟨hrefusal, h⟩ := h
  cases hread : readContainer call.env.maxFile file with
  | error rc' =>
    rw [hread] at h
    cases h
  | ok cont =>
    rw [hread] at h
    obtain ⟨hsound, heq⟩ := toolRun_emission hrefusal hread
    rw [heq]
    exact emission_finishes hv.encodes hv.roomy hsound _ h

/-- **A tool returns the code of its verdict.** -/
theorem toolRun_verdict (rc : Err) : call.run file = .error rc ↔ call.verdict file = some rc := by
  refine ⟨fun hrun => ?_, toolRun_fails hv⟩
  cases hverdict : call.verdict file with
  | none =>
    obtain ⟨out, hout⟩ := toolRun_succeeds hv hverdict
    cases hrun.symm.trans hout
  | some rc' =>
    cases hrun.symm.trans (toolRun_fails hv hverdict)
    rfl

end Verdict

/-! ## Pipelines -/

/-- The code of the first tool that fails, when the first of them finds the contents in its input. -/
def stagesVerdict (c : Contents) : List Tool → Option Err
  | [] => none
  | tool :: tools =>
    tool.refusal.or ((emitVerdict 0 (tool.effect c).groups).or (stagesVerdict (tool.effect c) tools))

/-- The code of the first call that fails. -/
def pipelineVerdict (file : Bytes) (call : ToolCall) (calls : List ToolCall) : Option Err :=
  (call.verdict file).or <|
    match fileContents call.env.walk file with
    | .error _ => none
    | .ok c => stagesVerdict (call.tool.effect c) (calls.map (·.tool))

/-- A later call of a pipeline finds the contents that the one before it wrote. -/
theorem verdict_written {call : ToolCall} {c : Contents} {key : Option Bytes} {file : Bytes}
    (hw : Written c key file) (hdec : call.env.Decodes) (hmax : EMITTED_MAX ≤ call.env.maxFile) :
    call.verdict file = call.tool.refusal.or (emitVerdict 0 (call.tool.effect c).groups) := by
  obtain ⟨cont, hparse, hc⟩ := fileContents_ok (hw.contents hdec)
  rw [ToolCall.verdict, hw.emitted.read hmax, hparse, ← hc]

/-- What the calls after the first of a pipeline need. -/
structure ToolEnv.Later (v : ToolEnv) : Prop extends v.Plentiful where
  decodes : v.Decodes
  reads : EMITTED_MAX ≤ v.maxFile

theorem stages_fail : ∀ {calls : List ToolCall} {c : Contents} {key : Option Bytes} {file : Bytes}
    {rc : Err}, Written c key file → (∀ later ∈ calls, later.env.Later) →
      stagesVerdict c (calls.map (·.tool)) = some rc → pipelineRun file calls = .error rc
  | [], _, _, _, _, _, _, h => by cases h
  | call :: calls, c, key, file, rc, hw, hlater, h => by
    rw [List.forall_mem_cons] at hlater
    obtain ⟨hcall, hrest⟩ := hlater
    have hverdict := verdict_written hw hcall.decodes hcall.reads
    rw [List.map_cons, stagesVerdict, ← Option.or_assoc, ← hverdict] at h
    rw [pipelineRun, List.foldlM_cons]
    cases hv : call.verdict file with
    | some rc' =>
      rw [hv, Option.some_or, Option.some.injEq] at h
      rw [toolRun_fails hcall.toPlentiful hv, h]
      rfl
    | none =>
      rw [hv, Option.none_or] at h
      obtain ⟨out, hout⟩ := toolRun_succeeds hcall.toPlentiful hv
      obtain ⟨c', hc', hw'⟩ := toolRun_written hout
      cases (hw.contents hcall.decodes).symm.trans hc'
      rw [hout]
      exact stages_fail hw' hrest h

theorem stages_succeed : ∀ {calls : List ToolCall} {c : Contents} {key : Option Bytes} {file : Bytes},
    Written c key file → (∀ later ∈ calls, later.env.Later) →
      stagesVerdict c (calls.map (·.tool)) = none → ∃ out, pipelineRun file calls = .ok out
  | [], _, _, file, _, _, _ => ⟨file, rfl⟩
  | call :: calls, c, key, file, hw, hlater, h => by
    rw [List.forall_mem_cons] at hlater
    obtain ⟨hcall, hrest⟩ := hlater
    have hverdict := verdict_written hw hcall.decodes hcall.reads
    rw [List.map_cons, stagesVerdict, ← Option.or_assoc, ← hverdict, Option.or_eq_none_iff] at h
    obtain ⟨out, hout⟩ := toolRun_succeeds hcall.toPlentiful h.1
    obtain ⟨c', hc', hw'⟩ := toolRun_written hout
    cases (hw.contents hcall.decodes).symm.trans hc'
    rw [pipelineRun, List.foldlM_cons, hout]
    exact stages_succeed hw' hrest h.2

section Pipelines

variable {call : ToolCall} {calls : List ToolCall} {file : Bytes} (hfirst : call.env.Plentiful)
  (hlater : ∀ later ∈ calls, later.env.Later)

include hfirst hlater

theorem pipeline_fails {rc : Err} (h : pipelineVerdict file call calls = some rc) :
    pipelineRun file (call :: calls) = .error rc := by
  rw [pipelineRun, List.foldlM_cons]
  unfold pipelineVerdict at h
  cases hv : call.verdict file with
  | some rc' =>
    rw [hv, Option.some_or, Option.some.injEq] at h
    rw [toolRun_fails hfirst hv, h]
    rfl
  | none =>
    obtain ⟨out, hout⟩ := toolRun_succeeds hfirst hv
    obtain ⟨c, hc, hw⟩ := toolRun_written hout
    rw [hv, Option.none_or, hc] at h
    rw [hout]
    exact stages_fail hw hlater h

theorem pipeline_succeeds (h : pipelineVerdict file call calls = none) :
    ∃ out, pipelineRun file (call :: calls) = .ok out := by
  rw [pipelineVerdict, Option.or_eq_none_iff] at h
  obtain ⟨out, hout⟩ := toolRun_succeeds hfirst h.1
  obtain ⟨c, hc, hw⟩ := toolRun_written hout
  rw [hc] at h
  rw [pipelineRun, List.foldlM_cons, hout]
  exact stages_succeed hw hlater h.2

end Pipelines

/-- A pipeline whose second tool asks for words. -/
def wordPipeline : List Tool := [.dedup, .repack CODEC_DELTA, .sign [1]]

/-- The call with room for files of every size. -/
def roomyTool (tool : Tool) : ToolCall := ⟨⟨plainEnv, plainEmit, plainArena, EMITTED_MAX⟩, tool⟩

theorem roomyTool_plentiful (tool : Tool) : (roomyTool tool).env.Plentiful :=
  ⟨fun _ _ => rfl, fun _ => rfl⟩

theorem roomyTool_later {tools : List Tool} : ∀ call ∈ tools.map roomyTool, call.env.Later := by
  intro call hcall
  obtain ⟨tool, -, rfl⟩ := List.mem_map.mp hcall
  exact ⟨roomyTool_plentiful tool, fun _ => rfl, Nat.le_refl _⟩

/-- Every raw stream can be encoded. -/
def TotalCodec (codecId : UInt8) : Prop :=
  codecId ≠ CODEC_VARINT ∧ codecId ≠ CODEC_DELTA ∧ codecId ≠ CODEC_DICT

/-- The sections of the contents can be emitted, whatever their records. -/
structure Contents.Emittable (c : Contents) : Prop where
  total : ∀ g ∈ c.groups, TotalCodec g.codecId
  count : c.groups.length ≤ WRITER_MAX_SECTIONS

theorem Contents.Emittable.verdict {c : Contents} (h : c.Emittable) : emitVerdict 0 c.groups = none := by
  refine emitVerdict_none (fun g hg => ?_) (by simpa using h.count)
  obtain ⟨h1, h2, h3⟩ := h.total g hg
  exact closeVerdict_plain _ h1 h2 h3

theorem maskGroups_length_le : ∀ (m : List Bool) (gs : List Group),
    (maskGroups m gs).length ≤ gs.length
  | _, [] => Nat.zero_le _
  | m, g :: gs => by
    have ih := maskGroups_length_le (m.drop g.records.length) gs
    have hle : (g.holding (Mask.sel m g.records)).length ≤ 1 := by
      unfold Group.holding
      split <;> simp
    rw [maskGroups, List.length_append, List.length_cons]
    omega

theorem maskGroups_codec : ∀ (m : List Bool) (gs : List Group),
    ∀ g' ∈ maskGroups m gs, ∃ g ∈ gs, g'.codecId = g.codecId
  | _, [] => by simp [maskGroups]
  | m, g :: gs => by
    rw [maskGroups, List.forall_mem_append]
    constructor
    · intro g' hg'
      refine ⟨g, by simp, ?_⟩
      unfold Group.holding at hg'
      split at hg'
      · cases hg'
      · rw [List.mem_singleton.mp hg']
    · intro g' hg'
      obtain ⟨g₀, hmem, hcodec⟩ := maskGroups_codec _ gs g' hg'
      exact ⟨g₀, by simp [hmem], hcodec⟩

/-- A tool leaves the contents emittable that were, or that it gives such a codec. -/
theorem effect_emittable {tool : Tool} {c : Contents}
    (htarget : ∀ codecId, tool.target = some codecId → TotalCodec codecId)
    (hcodec : tool.target = none → ∀ g ∈ c.groups, TotalCodec g.codecId)
    (hcount : c.groups.length ≤ WRITER_MAX_SECTIONS) : (tool.effect c).Emittable := by
  constructor
  · intro g hg
    obtain ⟨g, hmem, rfl⟩ := List.mem_map.mp hg
    obtain ⟨g₀, hmem₀, hsame⟩ := maskGroups_codec _ c.groups g hmem
    cases ht : tool.target with
    | none => exact hsame ▸ hcodec ht g₀ hmem₀
    | some codecId => exact htarget codecId ht
  · have hlen : (tool.effect c).groups.length = (maskGroups (tool.mask c.records) c.groups).length :=
      List.length_map _
    exact hlen.le.trans ((maskGroups_length_le _ _).trans hcount)

theorem stagesVerdict_none : ∀ {tools : List Tool} {c : Contents}, c.Emittable →
    (∀ tool ∈ tools, tool.refusal = none) →
    (∀ tool ∈ tools, ∀ codecId, tool.target = some codecId → TotalCodec codecId) →
      stagesVerdict c tools = none
  | [], _, _, _, _ => rfl
  | tool :: tools, c, hc, hrefusal, htarget => by
    rw [List.forall_mem_cons] at hrefusal htarget
    have heffect := effect_emittable htarget.1 (fun _ => hc.total) hc.count
    rw [stagesVerdict, hrefusal.1, heffect.verdict, Option.none_or, Option.none_or]
    exact stagesVerdict_none heffect hrefusal.2 htarget.2

end Dtl
