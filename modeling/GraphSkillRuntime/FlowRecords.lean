import GraphSkillRuntime.StateMapper
import GraphSkillRuntime.Runs

/-! What the flow channel keeps of the phases that complete in one superstep. -/

namespace GraphSkillRuntime

open OrderedDict

def NodeResult.flow : NodeResult → Option FlowUpdate
  | .workflowState after => some (.full after.flow)
  | .updates _ _ flow _ => flow
  | .notMapping => none

/-- A phase that ran on `state`, with the delta its mapper returned. -/
structure Completion (V : Draft202012) (state : WorkflowState) where
  mapper : StateMapper
  hooks : PhaseHooks
  result : NodeResult
  delta : PhaseDelta
  wrapped : mapper.wrapPhaseOutput V hooks state result = .ok delta

variable {V : Draft202012} {state : WorkflowState}

namespace Completion

def writtenReports (c : Completion V state) : Option (List (Dict String Value)) :=
  match c.result.flow with
  | some (.full after) => (flowDiff state.flow after).ambiguityReports
  | some (.delta fields) => fields.ambiguityReports
  | none => none

def writtenIoErrors (c : Completion V state) : Option (List String) :=
  match c.result.flow with
  | some (.full after) => (flowDiff state.flow after).ioErrors
  | some (.delta fields) => fields.ioErrors
  | none => none

theorem delta_flow (c : Completion V state) :
    ∃ executionId, c.delta.flow = phaseFlowDelta c.mapper.phaseId executionId state.flow c.result.flow := by
  obtain ⟨mapper, hooks, result, delta, wrapped⟩ := c
  cases result with
  | notMapping =>
    obtain rfl := Except.ok.inj wrapped
    exact ⟨"", rfl⟩
  | workflowState after =>
    obtain ⟨outputs, -, h⟩ := bind_ok wrapped
    obtain rfl := Except.ok.inj h
    exact ⟨hooks.executionId, rfl⟩
  | updates data fields flow messages =>
    obtain ⟨outputs, -, h⟩ := bind_ok wrapped
    obtain rfl := Except.ok.inj h
    exact ⟨hooks.executionId, rfl⟩

theorem delta_lists (c : Completion V state) :
    c.delta.flow.ambiguityReports = c.writtenReports ∧ c.delta.flow.ioErrors = c.writtenIoErrors := by
  obtain ⟨executionId, h⟩ := c.delta_flow
  rw [h]
  unfold phaseFlowDelta writtenReports writtenIoErrors
  cases c.result.flow with
  | none => simp
  | some update => cases update <;> simp

end Completion

def commitFlow (flow : FrameworkState) (completions : List (Completion V state)) : FrameworkState :=
  completions.foldl (fun flow c => mergeFlowChannel flow (.delta c.delta.flow)) flow

def HoldsEntries {ρ : Type} (before : List ρ) (written : List (Option (List ρ))) (after : List ρ) : Prop :=
  before ⊆ after ∧ ∀ entries ∈ written, entries.getD [] ⊆ after

def HoldsKeys {ν : Type} (written : List (Option (Dict String ν))) (after : Dict String ν) : Prop :=
  ∀ d, some d ∈ written → d.keys ⊆ after.keys

structure KeepsFlowRecords (completions : List (Completion V state)) (after : FrameworkState) : Prop where
  ambiguityReports : HoldsEntries state.flow.ambiguityReports
    (completions.map (·.delta.flow.ambiguityReports)) after.ambiguityReports
  ioErrors : HoldsEntries state.flow.ioErrors (completions.map (·.delta.flow.ioErrors)) after.ioErrors
  phaseExecutionIds : HoldsKeys (completions.map (·.delta.flow.phaseExecutionIds)) after.phaseExecutionIds
  agentResultHashes : HoldsKeys (completions.map (·.delta.flow.agentResultHashes)) after.agentResultHashes
  criticMetrics : HoldsKeys (completions.map (·.delta.flow.criticMetrics)) after.criticMetrics
  subagentValidationRetries : HoldsKeys
    (completions.map (·.delta.flow.subagentValidationRetries)) after.subagentValidationRetries

/-- Whoever writes the list writes what it held before and what everybody else writes. -/
def AgreeingWriters {ρ : Type} (before : List ρ) (written : List (Option (List ρ))) : Prop :=
  ∀ entries, some entries ∈ written →
    before ⊆ entries ∧ ∀ others, some others ∈ written → others ⊆ entries

theorem lastWriter_holdsEntries_iff {α ρ : Type} (write : α → Option (List ρ)) (before : List ρ) (as : List α) :
    (∀ order : List α, order.Perm as →
      HoldsEntries before (as.map write) (order.foldl (fun b a => (write a).getD b) before)) ↔
      AgreeingWriters before (as.map write) := by
  rw [Runs.forall_perm_foldl_lastWriter_iff (P := HoldsEntries before (as.map write))]
  · constructor
    · intro h entries hmem
      obtain ⟨a, ha, hw⟩ := List.mem_map.mp hmem
      obtain ⟨hbefore, hothers⟩ := h a ha entries hw
      exact ⟨hbefore, fun others hmem' => hothers _ hmem'⟩
    · intro h a ha w hw
      obtain ⟨hbefore, hothers⟩ := h w (hw ▸ List.mem_map_of_mem ha)
      refine ⟨hbefore, ?_⟩
      intro entries hmem
      cases entries with
      | none => exact List.nil_subset _
      | some others => exact hothers others hmem
  · intro hnone
    refine ⟨List.Subset.refl _, ?_⟩
    intro entries hmem
    obtain ⟨a, ha, rfl⟩ := List.mem_map.mp hmem
    rw [hnone a ha]
    exact List.nil_subset _

theorem mem_keys_mergeField {ν : Type} {current : Dict String ν} {delta : Option (Dict String ν)} {k : String} :
    k ∈ (mergeField current delta).keys ↔ k ∈ current.keys ∨ ∃ d, delta = some d ∧ k ∈ d.keys := by
  cases delta with
  | none => simp [mergeField]
  | some d =>
    rw [mergeField, ← Dict.contains_iff, Dict.contains_update]
    simp [Dict.contains_iff, or_comm]

theorem perKey_holdsKeys {α ν : Type} (write : α → Option (Dict String ν)) (before : Dict String ν)
    {as order : List α} (hperm : order.Perm as) :
    HoldsKeys (as.map write) (order.foldl (fun d a => mergeField d (write a)) before) := by
  intro d hmem k hk
  obtain ⟨a, ha, hw⟩ := List.mem_map.mp hmem
  rw [Runs.foldl_or_iff (P := fun d : Dict String ν => k ∈ d.keys)
    (Q := fun a => ∃ d, write a = some d ∧ k ∈ d.keys) (fun _ _ _ => mem_keys_mergeField)]
  exact Or.inr ⟨a, hperm.mem_iff.mpr ha, d, hw, hk⟩

section Projections

variable (flow : FrameworkState) (order : List (Completion V state))

theorem commitFlow_ambiguityReports : (commitFlow flow order).ambiguityReports =
    order.foldl (fun b c => (c.delta.flow.ambiguityReports).getD b) flow.ambiguityReports :=
  (List.foldl_hom FrameworkState.ambiguityReports fun _ _ => rfl).symm

theorem commitFlow_ioErrors : (commitFlow flow order).ioErrors =
    order.foldl (fun b c => (c.delta.flow.ioErrors).getD b) flow.ioErrors :=
  (List.foldl_hom FrameworkState.ioErrors fun _ _ => rfl).symm

theorem commitFlow_phaseExecutionIds : (commitFlow flow order).phaseExecutionIds =
    order.foldl (fun d c => mergeField d c.delta.flow.phaseExecutionIds) flow.phaseExecutionIds :=
  (List.foldl_hom FrameworkState.phaseExecutionIds fun _ _ => rfl).symm

theorem commitFlow_agentResultHashes : (commitFlow flow order).agentResultHashes =
    order.foldl (fun d c => mergeField d c.delta.flow.agentResultHashes) flow.agentResultHashes :=
  (List.foldl_hom FrameworkState.agentResultHashes fun _ _ => rfl).symm

theorem commitFlow_criticMetrics : (commitFlow flow order).criticMetrics =
    order.foldl (fun d c => mergeField d c.delta.flow.criticMetrics) flow.criticMetrics :=
  (List.foldl_hom FrameworkState.criticMetrics fun _ _ => rfl).symm

theorem commitFlow_subagentValidationRetries : (commitFlow flow order).subagentValidationRetries =
    order.foldl (fun d c => mergeField d c.delta.flow.subagentValidationRetries)
      flow.subagentValidationRetries :=
  (List.foldl_hom FrameworkState.subagentValidationRetries fun _ _ => rfl).symm

end Projections

theorem keepsFlowRecords_iff_lists {completions order : List (Completion V state)}
    (hperm : order.Perm completions) :
    KeepsFlowRecords completions (commitFlow state.flow order) ↔
      HoldsEntries state.flow.ambiguityReports (completions.map (·.delta.flow.ambiguityReports))
        (order.foldl (fun b c => (c.delta.flow.ambiguityReports).getD b) state.flow.ambiguityReports) ∧
      HoldsEntries state.flow.ioErrors (completions.map (·.delta.flow.ioErrors))
        (order.foldl (fun b c => (c.delta.flow.ioErrors).getD b) state.flow.ioErrors) := by
  constructor
  · intro h
    have hreports := h.ambiguityReports
    have herrors := h.ioErrors
    rw [commitFlow_ambiguityReports] at hreports
    rw [commitFlow_ioErrors] at herrors
    exact ⟨hreports, herrors⟩
  · rintro ⟨hreports, herrors⟩
    constructor
    · rwa [commitFlow_ambiguityReports]
    · rwa [commitFlow_ioErrors]
    · rw [commitFlow_phaseExecutionIds]
      exact perKey_holdsKeys (·.delta.flow.phaseExecutionIds) _ hperm
    · rw [commitFlow_agentResultHashes]
      exact perKey_holdsKeys (·.delta.flow.agentResultHashes) _ hperm
    · rw [commitFlow_criticMetrics]
      exact perKey_holdsKeys (·.delta.flow.criticMetrics) _ hperm
    · rw [commitFlow_subagentValidationRetries]
      exact perKey_holdsKeys (·.delta.flow.subagentValidationRetries) _ hperm

theorem flow_records_kept_iff (V : Draft202012) (state : WorkflowState)
    (completions : List (Completion V state)) :
    (∀ order, order.Perm completions →
      KeepsFlowRecords completions (commitFlow state.flow order)) ↔
      AgreeingWriters state.flow.ambiguityReports (completions.map Completion.writtenReports) ∧
      AgreeingWriters state.flow.ioErrors (completions.map Completion.writtenIoErrors) := by
  have hreports : completions.map Completion.writtenReports =
      completions.map (·.delta.flow.ambiguityReports) :=
    List.map_congr_left fun c _ => c.delta_lists.1.symm
  have herrors : completions.map Completion.writtenIoErrors = completions.map (·.delta.flow.ioErrors) :=
    List.map_congr_left fun c _ => c.delta_lists.2.symm
  rw [hreports, herrors,
    ← lastWriter_holdsEntries_iff (fun c : Completion V state => c.delta.flow.ambiguityReports),
    ← lastWriter_holdsEntries_iff (fun c : Completion V state => c.delta.flow.ioErrors), ← forall₂_and]
  exact forall₂_congr fun order hperm => keepsFlowRecords_iff_lists hperm

def acceptingDraft : Draft202012 := ⟨fun _ => none, fun _ _ => [], fun _ _ => ""⟩

/-- An agent phase that logged one ambiguity on a blackboard without any. -/
def loggingPhase (phaseId : String) : Completion acceptingDraft ⟨∅, {}, []⟩ where
  mapper := { inputSchema := none, outputSchema := none, phaseId := phaseId }
  hooks := {}
  result := .workflowState ⟨∅, { ambiguityReports := [Dict.single "phase" (.str phaseId)] }, []⟩
  delta :=
    { data := phaseDataDelta phaseId ∅
      flow := phaseFlowDelta phaseId "" {}
        (some (.full { ambiguityReports := [Dict.single "phase" (.str phaseId)] }))
      messages := [] }
  wrapped := by
    rfl

theorem parallel_logs_lose_a_report : ¬ ∀ order,
    order.Perm [loggingPhase "review", loggingPhase "audit"] →
      KeepsFlowRecords [loggingPhase "review", loggingPhase "audit"] (commitFlow {} order) := by
  intro h
  have hkept := (h _ (List.Perm.refl _)).ambiguityReports.2 _ (List.mem_cons_self ..)
  have hlost : Dict.single "phase" (.str "review") ∈ [Dict.single "phase" (Value.str "audit")] :=
    hkept (List.mem_cons_self ..)
  revert hlost
  decide

end GraphSkillRuntime
