import TelemetryForge.Report.Progress
import TelemetryForge.Writer.Scarce

/-!
# Tools that run out of memory

The writer's arena and the dictionary encoder may be refused any of their requests, in every call of a
pipeline.  `ToolCall.relieved` is the same call with nothing refused.

Principal results: `toolRun_ends` — a tool ends with the code of its verdict, writes a file, or returns
`DTL_ERR_OOM`, whatever memory it gets; `pipeline_degrades` — a pipeline ends as it does with plenty of
memory, or with `DTL_ERR_OOM`.
-/

set_option autoImplicit false

namespace Dtl

open Faults

theorem finishWith_ends {w : Writer} (hw : w.Between) (hsum : w.blobTotal ≤ 0xFFFFFFFF)
    (key : Option Bytes) : EndsAs .oom none (fun _ => True) (finishWith key w) := by
  cases key with
  | none => exact writerFinish_ends hw hsum
  | some key =>
    have hset : checked (writerSetHmac w key) = .ok { w with hmacKey := some key } := by
      rw [writerSetHmac, if_neg (by simp [hw.err])]
      rfl
    rw [finishWith, hset]
    exact writerFinish_ends (w := { w with hmacKey := some key }) ⟨hw.err, hw.outside⟩ hsum

/-- **An emission ends as its verdict says, or memory ran out.** -/
theorem emission_ends {e : EmitEnv} {gs : List Group} (a : Arena) (key : Option Bytes)
    (hgs : ∀ g ∈ gs, g.Sound e.slack) : EndsAs .oom (emitVerdict 0 gs) (fun _ => True)
      (gs.foldlM (emitGroup e) (writerInit a) >>= finishWith key) := by
  have hgroups : EndsAs .oom (emitVerdict 0 gs) (fun w => w.Between ∧ w.blobTotal ≤ 0xFFFFFFFF)
      (gs.foldlM (emitGroup e) (writerInit a)) := by
    refine (emitGroups_ends (w := writerInit a) ⟨rfl, rfl⟩ hgs).imp fun w hv h => ⟨h.1, ?_⟩
    have hcount := emitVerdict_count (Nat.zero_le _) (show emitVerdict 0 gs = none from hv)
    have hmax : WRITER_MAX_SECTIONS = 64 := rfl
    have hblob : BLOB_MAX = 50331840 := rfl
    have htotal : (writerInit a).blobTotal = 0 := rfl
    calc w.blobTotal ≤ gs.length * BLOB_MAX := by omega
      _ ≤ 64 * BLOB_MAX := Nat.mul_le_mul_right _ (by omega)
      _ ≤ 0xFFFFFFFF := by omega
  rw [← Option.or_none (o := emitVerdict 0 gs)]
  exact hgroups.bind fun w h => finishWith_ends h.1 h.2 key

/-- **A tool ends as its verdict says, or memory ran out.** -/
theorem toolRun_ends (call : ToolCall) (file : Bytes) :
    EndsAs .oom (call.verdict file) (fun _ => True) (call.run file) := by
  unfold ToolCall.verdict
  cases hrefusal : call.tool.refusal with
  | some rc =>
    rw [toolRun_refused hrefusal]
    exact Or.inr rfl
  | none =>
    rw [Option.none_or]
    cases hread : readContainer call.env.maxFile file with
    | error rc =>
      rw [toolRun_eq hrefusal, hread]
      exact Or.inr rfl
    | ok cont =>
      obtain ⟨hsound, heq⟩ := toolRun_emission hrefusal hread
      rw [heq]
      exact emission_ends _ _ hsound

/-! ## Against plenty of memory -/

/-- The call with nothing refused to the writer and its encoders. -/
def ToolCall.relieved (call : ToolCall) : ToolCall where
  env := { call.env with
    emit := { call.env.emit with
      codec := fun i cap => { call.env.emit.codec i cap with scratchOk := true } }
    arena := ⟨fun _ => false, 0⟩ }
  tool := call.tool

theorem relieved_plentiful (call : ToolCall) : call.relieved.env.Plentiful :=
  ⟨fun _ _ => rfl, fun _ => rfl⟩

/-- **A tool with any memory**: as with plenty of it, or `DTL_ERR_OOM`. -/
theorem toolRun_degrades (call : ToolCall) (file : Bytes) :
    Degrades .oom (call.run file) (call.relieved.run file) := by
  refine (toolRun_ends call file).degrades (fun rc hv => toolRun_fails (relieved_plentiful call) hv)
    fun hv out hrun _ => ?_
  obtain ⟨out', hout⟩ := toolRun_succeeds (relieved_plentiful call) hv
  obtain ⟨c, hc, hw⟩ := toolRun_written hrun
  obtain ⟨c', hc', hw'⟩ := toolRun_written hout
  -- both calls find the same contents and write the same effect with the same key
  cases hc.symm.trans hc'
  exact hout.trans (congrArg _ (hw'.unique hw))

/-- **Pipelines degrade gracefully.** Whatever requests are refused to the writers and encoders of a
pipeline, and to however many of its calls, it writes the very bytes that it writes when nothing is
refused, stops with the same code, or stops with `DTL_ERR_OOM`. -/
theorem pipeline_degrades (file : Bytes) (calls : List ToolCall) :
    Degrades .oom (pipelineRun file calls) (pipelineRun file (calls.map ToolCall.relieved)) := by
  rw [pipelineRun, pipelineRun, List.foldlM_map]
  exact Degrades.foldlM (fun call _ mid => toolRun_degrades call mid) file

end Dtl
