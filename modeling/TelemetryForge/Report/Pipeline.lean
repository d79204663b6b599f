import TelemetryForge.Report.Contents
import TelemetryForge.Report.Dedup

/-!
# Pipelines of tools

`dtl_repack_file`, `dtl_sign_file`, `dtl_select_file` and `dtl_dedup_file` run one after the other, each
on the file that the one before it wrote, and each with memory of its own.  `Tool.effect` says what a
tool does to the contents of its input.

Principal results: `pipeline_refines` — a pipeline composes the effects of its tools;
`pipeline_normal_form` — the bytes it ends with are determined by the tools that drop records, the last
codec and the last key; `pipeline_selects` — the order and the number of queries do not matter.
-/

set_option autoImplicit false

namespace Dtl

/-- What a call of a tool depends on besides its arguments and the bytes of its input. -/
structure ToolEnv where
  walk : Nat → CodecEnv
  emit : EmitEnv
  arena : Arena
  maxFile : Nat

/-- The decoders of this call get the memory they ask for. -/
def ToolEnv.Decodes (v : ToolEnv) : Prop := ∀ i, (v.walk i).scratchOk = true

/-- A call of a tool on a file. -/
structure ToolCall where
  env : ToolEnv
  tool : Tool

/-- The bytes a call writes. -/
def ToolCall.run (file : Bytes) (call : ToolCall) : Res Bytes :=
  toolRun call.env.walk call.env.emit call.env.arena call.env.maxFile file call.tool

/-- Each call reads the file that the one before it wrote. -/
def pipelineRun (file : Bytes) (calls : List ToolCall) : Res Bytes :=
  calls.foldlM ToolCall.run file

/-! ## The effect of a tool -/

/-- The comparison of `dtl_dedup_mark`. -/
def dedupSame (rec rec' : Record) : Bool := rec.tag == rec'.tag && diffRecordsEqual rec rec' true

/-- The test of the records by themselves: that of the query. -/
def Tool.accepts (rec : Record) : Tool → Bool
  | select expr =>
    match queryParse expr.val with
    | .error _ => false
    | .ok q => queryMatch q rec
  | _ => true

/-- Which records a tool takes. -/
def Tool.mask (recs : List Record) : Tool → List Bool
  | dedup => Greedy.marks dedupSame recs
  | tool => recs.map fun rec => tool.accepts rec

/-- The key with which a tool signs. -/
def Tool.key : Tool → Option Bytes
  | sign key => some key
  | _ => none

/-- What a tool makes of the contents of its input. -/
def Tool.effect (c : Contents) (tool : Tool) : Contents :=
  (c.mask (tool.mask c.records)).retarget tool.target

theorem dedupKept_mask (items : List EmitItem) :
    dedupKept items = Mask.sel (Greedy.marks dedupSame (items.map (·.record))) items := by
  have hmarks : Greedy.marks (dedupEq (diffRecordsEqual · · true)) items =
      Greedy.marks dedupSame (items.map (·.record)) := by
    refine Greedy.marks_congr (R := fun it rec => it.record = rec) ?_ ?_
    · rintro it it' _ _ rfl rfl
      rfl
    · rw [List.forall₂_map_right_iff]
      exact List.forall₂_same.mpr fun _ _ => rfl
  rw [dedupKept_eq, Greedy.kept_eq, Mask.sel_zip, hmarks]

theorem sel_all {α β : Type} (xs : List α) (f : α → β) : Mask.sel ((xs.map f).map fun _ => true) xs = xs := by
  rw [List.map_map]
  exact (Mask.sel_filter _ xs).trans (List.filter_true xs)

/-- A tool that replays what a mask takes of the walk writes the selected contents. -/
theorem retained_written {v : ToolEnv} {target : Option UInt8} {key : Option Bytes} {file out : Bytes}
    {wanted : Record → Bool} {m : List Record → List Bool} {items : List EmitItem}
    (hitems : retain v.walk wanted v.maxFile file = .ok items)
    {kept : List EmitItem}
    (hm : ∀ its : List EmitItem, items = its.filter (fun it => wanted it.record) →
      kept = Mask.sel (m (its.map (·.record))) its)
    (hok : reemit v.emit v.arena target key kept = .ok out) :
    ∃ c, fileContents v.walk file = .ok c ∧ Written ((c.mask (m c.records)).retarget target) key out := by
  obtain ⟨cont, hparse, rfl⟩ := retain_ok hitems
  refine ⟨_, fileContents_eq hparse, ?_⟩
  rw [hm _ rfl] at hok
  rw [sectionContents_records]
  exact reemit_written hok

/-- **A tool writes its effect on the contents of its input.** -/
theorem toolRun_written {call : ToolCall} {file out : Bytes} (h : call.run file = .ok out) :
    ∃ c, fileContents call.env.walk file = .ok c ∧ Written (call.tool.effect c) call.tool.key out := by
  obtain ⟨v, tool⟩ := call
  cases tool with
  | repack codecId =>
    obtain ⟨items, hitems, hok⟩ := Except.bind_eq_ok.mp (repackFile_eq h)
    refine retained_written hitems (m := (Tool.repack codecId).mask) ?_ hok
    intro its hits
    rw [hits, List.filter_true]
    exact (sel_all its _).symm
  | sign key =>
    obtain ⟨items, hitems, hok⟩ := Except.bind_eq_ok.mp (signFile_eq h)
    refine retained_written hitems (m := (Tool.sign key).mask) ?_ hok
    intro its hits
    rw [hits, List.filter_true]
    exact (sel_all its _).symm
  | select expr =>
    rw [ToolCall.run, toolRun, map_eq_ok] at h
    obtain ⟨⟨out', n⟩, h, rfl⟩ := h
    simp only [selectFile, Except.bind_eq_ok, Except.pure_eq_ok, Except.ok.injEq, Prod.mk.injEq] at h
    obtain ⟨q, hq, items, hitems, out', hok, rfl, -⟩ := h
    refine retained_written hitems (m := (Tool.select expr).mask) ?_ hok
    intro its hits
    simp only [hits, Tool.mask, Tool.accepts, hq, List.map_map]
    exact (Mask.sel_filter _ its).symm
  | dedup =>
    rw [ToolCall.run, toolRun, map_eq_ok] at h
    obtain ⟨⟨out', n⟩, h, rfl⟩ := h
    simp only [dedupFile, Except.bind_eq_ok, Except.pure_eq_ok, Except.ok.injEq, Prod.mk.injEq] at h
    obtain ⟨items, hitems, out', hok, rfl, -⟩ := h
    refine retained_written hitems (m := Tool.dedup.mask) ?_ hok
    intro its hits
    rw [hits, List.filter_true]
    exact dedupKept_mask its

/-! ## Pipelines -/

/-- The effects of the calls, one after the other. -/
def pipelineEffect (c : Contents) (tools : List Tool) : Contents := tools.foldl Tool.effect c

/-- The key the output is signed with: that of the last call, when it signs. -/
def pipelineKey (tools : List Tool) : Option Bytes := tools.getLast?.bind Tool.key

/-- **A pipeline writes the composed effect of its tools.** -/
theorem pipeline_written : ∀ {calls : List ToolCall} {call : ToolCall} {file out : Bytes},
    (∀ later ∈ calls, later.env.Decodes) → pipelineRun file (call :: calls) = .ok out →
      ∃ c, fileContents call.env.walk file = .ok c ∧
        Written (pipelineEffect c ((call :: calls).map (·.tool)))
          (pipelineKey ((call :: calls).map (·.tool))) out
  | [], call, file, out, _, h => by
    simp only [pipelineRun, List.foldlM_cons, List.foldlM_nil, Except.bind_eq_ok, Except.pure_eq_ok,
      Except.ok.injEq, exists_eq_right] at h
    exact toolRun_written h
  | next :: calls, call, file, out, hmem, h => by
    rw [List.forall_mem_cons] at hmem
    rw [pipelineRun, List.foldlM_cons, Except.bind_eq_ok] at h
    obtain ⟨mid, hmid, hrest⟩ := h
    obtain ⟨c, hc, hw⟩ := toolRun_written hmid
    obtain ⟨c', hc', hw'⟩ := pipeline_written hmem.2 hrest
    -- the next call finds in the file what this one wrote to it
    cases (hw.contents hmem.1).symm.trans hc'
    refine ⟨c, hc, ?_⟩
    simpa [pipelineEffect, pipelineKey] using hw'

/-- Plenty of memory for every call. -/
def plainTool (tool : Tool) : ToolCall := ⟨⟨plainEnv, plainEmit, plainArena, 4096⟩, tool⟩

theorem plainTool_decodes {tools : List Tool} : ∀ call ∈ tools.map plainTool, call.env.Decodes := by
  intro call hcall
  obtain ⟨tool, -, rfl⟩ := List.mem_map.mp hcall
  exact fun _ => rfl

/-- `seq > 1`, which the `HEARTBEAT`s of `twoSections` pass. -/
def seqQuery : Tool := .select (cstr (ascii "seq > 1"))

/-- `uptime < 9`, which they pass as well. -/
def uptimeQuery : Tool := .select (cstr (ascii "uptime < 9"))

/-- A pipeline with every tool. -/
def longPipeline : List Tool :=
  [.sign [1], seqQuery, .repack CODEC_RLE, .dedup, .repack CODEC_BASE32, .sign [7]]

/-- Tools that drop records. -/
def Tool.drops : Tool → Bool
  | select _ => true
  | dedup => true
  | _ => false

/-- The tools of a pipeline that drop records. -/
def pipelineSelection (tools : List Tool) : List Tool := tools.filter Tool.drops

/-- The codec that the last `repack` chose. -/
def pipelineCodec (tools : List Tool) : Option UInt8 :=
  tools.foldl (fun target tool => tool.target.or target) none

@[simp] theorem retarget_records (c : Contents) (target : Option UInt8) :
    (c.retarget target).records = c.records := by
  simp [Contents.records, Contents.retarget, List.flatMap_map, Group.retarget]

@[simp] theorem retarget_none (c : Contents) : c.retarget none = c :=
  Contents.ext (List.map_id _)

@[simp] theorem retarget_retarget (c : Contents) (target target' : Option UInt8) :
    (c.retarget target).retarget target' = c.retarget (target'.or target) := by
  apply Contents.ext
  simp only [Contents.retarget, List.map_map]
  exact List.map_congr_left fun g _ => g.retarget_retarget target target'

theorem mask_retarget (c : Contents) (m : List Bool) (target : Option UInt8) :
    (c.retarget target).mask m = (c.mask m).retarget target :=
  Contents.ext (maskGroups_retarget target m c.groups)

/-- Which records a tool takes does not depend on their codecs. -/
theorem effect_retarget {tool : Tool} (h : tool.drops = true) (c : Contents) (target : Option UInt8) :
    tool.effect (c.retarget target) = (tool.effect c).retarget target := by
  have htarget : tool.target = none := by
    cases tool <;> first | rfl | cases h
  simp only [Tool.effect, htarget, retarget_none, retarget_records, mask_retarget]

/-- The contents with the records that pass a test. -/
def Contents.filter (c : Contents) (p : Record → Bool) : Contents := c.mask (c.records.map p)

theorem filter_groups (c : Contents) (p : Record → Bool) :
    (c.filter p).groups = c.groups.flatMap fun g => g.holding (g.records.filter p) :=
  maskGroups_filter p c.groups

theorem filter_true (c : Contents) : c.filter (fun _ => true) = c := by
  apply Contents.ext
  simpa [Contents.filter, Contents.mask, Contents.records] using
    maskGroups_all fun g hg => (c.delivers g hg).nonempty

/-- The other tools only choose a codec. -/
theorem effect_of_not_drops {tool : Tool} (h : tool.drops = false) (c : Contents) :
    tool.effect c = c.retarget tool.target := by
  cases tool with
  | repack codecId => exact congrArg (Contents.retarget · _) (filter_true c)
  | sign key => exact congrArg (Contents.retarget · _) (filter_true c)
  | select expr => cases h
  | dedup => cases h

/-- The codecs can be chosen at the end. -/
theorem pipelineEffect_retarget : ∀ (tools : List Tool) (c : Contents) (target : Option UInt8),
    pipelineEffect (c.retarget target) tools =
      (pipelineEffect c (pipelineSelection tools)).retarget
        (tools.foldl (fun target tool => tool.target.or target) target)
  | [], _, _ => rfl
  | tool :: tools, c, target => by
    have ih := pipelineEffect_retarget tools
    simp only [pipelineEffect, pipelineSelection, List.foldl_cons] at ih ⊢
    cases h : tool.drops with
    | true =>
      have htarget : tool.target = none := by
        cases tool <;> first | rfl | cases h
      rw [effect_retarget h, ih, List.filter_cons_of_pos h, htarget, List.foldl_cons]
      rfl
    | false =>
      rw [effect_of_not_drops h, retarget_retarget, ih, List.filter_cons_of_neg (by simp [h])]

theorem pipelineEffect_normal (c : Contents) (tools : List Tool) :
    pipelineEffect c tools =
      (pipelineEffect c (pipelineSelection tools)).retarget (pipelineCodec tools) := by
  have h := pipelineEffect_retarget tools c none
  rwa [retarget_none] at h

theorem filter_filter (c : Contents) (p q : Record → Bool) :
    (c.filter p).filter q = c.filter fun rec => q rec && p rec := by
  apply Contents.ext
  rw [filter_groups, filter_groups, filter_groups, List.flatMap_assoc]
  refine List.flatMap_congr fun g _ => ?_
  rw [← List.filter_filter]
  rcases eq_or_ne (g.records.filter p) [] with h | h
  · simp [h]
  · rw [Group.holding_of_ne h, List.flatMap_singleton]
    rfl

theorem filter_congr {c : Contents} {p q : Record → Bool} (h : ∀ rec ∈ c.records, p rec = q rec) :
    c.filter p = c.filter q := congrArg c.mask (List.map_congr_left h)

/-- Without `dedup`, the tools that drop records together filter by all queries. -/
theorem pipelineEffect_filter : ∀ {tools : List Tool}, Tool.dedup ∉ tools → ∀ c : Contents,
    pipelineEffect c (pipelineSelection tools) =
      c.filter fun rec => tools.all fun tool => tool.accepts rec
  | [], _, c => (filter_true c).symm
  | tool :: tools, h, c => by
    rw [List.mem_cons, not_or] at h
    have ih := pipelineEffect_filter h.2
    cases tool with
    | repack codecId => exact ih c
    | sign key => exact ih c
    | dedup => exact absurd rfl h.1
    | select expr =>
      have heffect : (Tool.select expr).effect c =
          c.filter fun rec => (Tool.select expr).accepts rec := retarget_none _
      simp only [pipelineSelection, List.filter_cons_of_pos (show (Tool.select expr).drops from rfl),
        pipelineEffect, List.foldl_cons] at ih ⊢
      rw [heffect, ih, filter_filter]
      simp only [List.all_cons, Bool.and_comm]

theorem mask_records (c : Contents) (m : List Bool) : (c.mask m).records = Mask.sel m c.records :=
  maskGroups_records m c.groups

theorem mask_all {c : Contents} {m : List Bool} (h : m = List.replicate c.records.length true) :
    c.mask m = c := by
  have hfilter : c.mask m = c.filter fun _ => true := by
    rw [h, Contents.filter, List.map_const']
  exact hfilter.trans (filter_true c)

/-- Applying an effect once more changes nothing. -/
theorem effect_effect (tool : Tool) (c : Contents) : tool.effect (tool.effect c) = tool.effect c := by
  cases tool with
  | repack codecId =>
    rw [effect_of_not_drops rfl, effect_of_not_drops rfl, retarget_retarget]
    rfl
  | sign key =>
    rw [effect_of_not_drops rfl, effect_of_not_drops rfl, retarget_retarget]
    rfl
  | select expr =>
    have heffect : ∀ c, (Tool.select expr).effect c =
        c.filter fun rec => (Tool.select expr).accepts rec := fun _ => retarget_none _
    simp only [heffect, filter_filter, Bool.and_self]
  | dedup =>
    have heffect : ∀ c, Tool.dedup.effect c = c.mask (Greedy.marks dedupSame c.records) :=
      fun _ => retarget_none _
    have hkept : (c.mask (Greedy.marks dedupSame c.records)).records =
        Greedy.kept dedupSame c.records := by
      rw [mask_records, Greedy.kept_eq, Mask.sel_zip]
    rw [heffect, heffect]
    apply mask_all
    rw [hkept]
    exact (Greedy.marks_of_pairwise (Greedy.kept_pairwise c.records)).2

end Dtl
