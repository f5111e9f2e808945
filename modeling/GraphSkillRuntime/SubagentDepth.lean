import GraphSkillRuntime.GraphRun
import GraphSkillRuntime.PhaseFrame
import GraphSkillRuntime.Runs

namespace GraphSkillRuntime

open OrderedDict Runs

/-! The nesting depth of subagents along the supersteps of a graph. -/

def maxSubagentDepth : Int := 1

def assertSubagentDepthAllowed (depth : Int) : Except String Unit :=
  if maxSubagentDepth ≤ depth then
    .error "Max Depth 1 exceeded: subagent cannot call another subagent"
  else .ok ()

def SubagentRefused (flow : FrameworkState) : Prop :=
  assertSubagentDepthAllowed (currentSubagentDepth flow) ≠ .ok ()

section Frame

variable {state t : WorkflowState}

theorem updateBusiness_flow {fields : Dict String Value}
    (h : liftUpdateError (updateBusiness state fields) = .ok t) : t.flow = state.flow := by
  obtain ⟨-, rfl⟩ := updated_of_ok h
  rfl

theorem injectInputFile_flow {phaseId dir : String} {file : InputFile}
    (h : injectInputFile phaseId dir state file = .ok t) : t.flow = state.flow := by
  unfold injectInputFile at h
  split_ifs at h
  split at h
  · cases h
  · exact updateBusiness_flow h

theorem injectDeclaredInputFiles_flow {phaseId : String} {files : List InputFile}
    (h : injectDeclaredInputFiles phaseId files state = .ok t) : t.flow = state.flow := by
  unfold injectDeclaredInputFiles at h
  split_ifs at h
  · rw [Except.ok.inj h]
  · split at h
    · cases h
    · exact foldlM_invariant (fun u => u.flow = state.flow)
        (fun _ _ _ hb hc => (injectInputFile_flow hc).trans hb) rfl h

theorem withPhaseOutputs_flow {outputs : Dict String (Dict String Value)}
    (h : withPhaseOutputs state outputs = .ok t) : t.flow = state.flow :=
  updateBusiness_flow h

theorem withGraphIterateSignal_depth (mode : String) (namespaces : List String) (state : WorkflowState) :
    (withGraphIterateSignal mode namespaces state).flow.subagentDepth = state.flow.subagentDepth := rfl

theorem GraphFrame.invoke_depth {frame : GraphFrame} {graph : GraphRunner}
    (h : frame.invoke graph state = .ok t) :
    (frame.iterate = none ∧ graph state = .ok t) ∨ t.flow.subagentDepth = state.flow.subagentDepth := by
  unfold GraphFrame.invoke at h
  split at h
  · rename_i hi
    exact Or.inl ⟨hi, h⟩
  · refine Or.inr ?_
    split at h
    · unfold runGraphBatchIterate at h
      obtain ⟨_, -, h⟩ := bind_ok h
      obtain ⟨_, -, h⟩ := bind_ok h
      obtain ⟨final, hfinal, h⟩ := bind_ok h
      obtain rfl := Except.ok.inj h
      rw [withGraphIterateSignal_depth, withPhaseOutputs_flow hfinal]
    · unfold runGraphLoopIterate at h
      obtain ⟨_, -, h⟩ := bind_ok h
      obtain ⟨_, -, h⟩ := bind_ok h
      obtain ⟨_, -, h⟩ := bind_ok h
      obtain ⟨final, hfinal, h⟩ := bind_ok h
      obtain rfl := Except.ok.inj h
      rw [withGraphIterateSignal_depth, withPhaseOutputs_flow hfinal]

end Frame

def resultDepth (before : FrameworkState) : NodeResult → Option Int
  | .workflowState after => changed (· == ·) before.subagentDepth after.flow.subagentDepth
  | .updates _ _ (some (.full after)) _ => changed (· == ·) before.subagentDepth after.subagentDepth
  | .updates _ _ (some (.delta fields)) _ => fields.subagentDepth
  | .updates _ _ none _ => none
  | .notMapping => none

section Phases

variable {V : Draft202012} {state : WorkflowState} {delta : PhaseDelta}

theorem StateMapper.wrapPhaseOutput_depth {m : StateMapper} {hooks : PhaseHooks} {result : NodeResult}
    (h : m.wrapPhaseOutput V hooks state result = .ok delta) :
    delta.flow.subagentDepth = resultDepth state.flow result := by
  cases result with
  | notMapping =>
    obtain rfl := Except.ok.inj h
    rfl
  | workflowState after =>
    obtain ⟨_, -, h⟩ := bind_ok h
    obtain rfl := Except.ok.inj h
    rfl
  | updates data fields flow messages =>
    obtain ⟨_, -, h⟩ := bind_ok h
    obtain rfl := Except.ok.inj h
    match flow with
    | some (.full _) => rfl
    | some (.delta _) => rfl
    | none => rfl

theorem iteratePhase_depth {node : IndexedNode} {phaseId : String} {iterate : IterateSpec}
    {outputSchema : Option Schema} (h : iteratePhase node phaseId iterate outputSchema state = .ok delta) :
    delta.flow.subagentDepth = none := by
  unfold iteratePhase at h
  split at h
  · unfold batchPhase at h
    obtain ⟨_, -, h⟩ := bind_ok h
    obtain ⟨_, -, h⟩ := bind_ok h
    obtain rfl := Except.ok.inj h
    rfl
  · unfold loopPhase at h
    obtain ⟨_, -, h⟩ := bind_ok h
    obtain ⟨_, -, h⟩ := bind_ok h
    obtain ⟨_, -, h⟩ := bind_ok h
    obtain rfl := Except.ok.inj h
    rfl

theorem PhaseSpec.run_depth {spec : PhaseSpec} {node : PhaseNode} (h : spec.run V node state = .ok delta) :
    (spec.iterate.isSome ∧ delta.flow.subagentDepth = none) ∨
      (spec.iterate = none ∧ ∃ input result,
        input.flow.subagentDepth = state.flow.subagentDepth ∧ node input = .ok result ∧
        delta.flow.subagentDepth = resultDepth state.flow result) := by
  unfold PhaseSpec.run at h
  split at h
  · rename_i hi
    obtain ⟨injected, hinj, h⟩ := bind_ok h
    obtain ⟨-, result, hnode, hwrap⟩ := PhaseWrapper.wrap_ok h
    have hflow := injectDeclaredInputFiles_flow hinj
    refine Or.inr ⟨hi, _, result, ?_, hnode, ?_⟩
    · rw [← hflow]
      rfl
    · rw [StateMapper.wrapPhaseOutput_depth hwrap, hflow]
  · rename_i hi
    exact Or.inl ⟨by simp [hi], iteratePhase_depth h⟩

theorem LeafNode.result_depth {leaf : LeafNode} {outputSchema : Option Schema} {input : WorkflowState}
    {before : FrameworkState} {result : NodeResult} (hd : input.flow.subagentDepth = before.subagentDepth)
    (h : leaf.node outputSchema input = .ok result) : resultDepth before result = none := by
  cases leaf with
  | logic actions =>
    obtain ⟨_, -, h⟩ := bind_ok h
    obtain rfl := Except.ok.inj h
    rfl
  | agent agent =>
    obtain ⟨_, -, h⟩ := bind_ok h
    obtain rfl := Except.ok.inj h
    simp [resultDepth, changed, AgentWrites.apply, hd]

end Phases

namespace Phase

def isPlainSubgraph : Phase → Bool
  | leaf _ _ => false
  | subgraph spec _ _ => spec.iterate.isNone

end Phase

def DepthEffect (state : WorkflowState) (phase : Phase) (delta : PhaseDelta) : Prop :=
  if phase.isPlainSubgraph then
    ∃ depth, delta.flow.subagentDepth = some depth ∧ state.flow.subagentDepth < depth
  else delta.flow.subagentDepth = none

theorem subagentDepth_applyDelta (u : WorkflowState) (delta : PhaseDelta) :
    (applyDelta u delta.data delta.flow).flow.subagentDepth =
      delta.flow.subagentDepth.getD u.flow.subagentDepth := rfl

section Superstep

variable {state u : WorkflowState} {phases : List Phase} {deltas : List PhaseDelta}

theorem foldDeltas_depth_le (h : List.Forall₂ (DepthEffect state) phases deltas)
    (hu : state.flow.subagentDepth ≤ u.flow.subagentDepth) :
    state.flow.subagentDepth ≤ (foldDeltas u deltas).flow.subagentDepth := by
  induction h generalizing u with
  | nil => exact hu
  | @cons phase delta phases deltas hd _ ih =>
    refine ih (u := applyDelta u delta.data delta.flow) ?_
    rw [subagentDepth_applyDelta]
    unfold DepthEffect at hd
    split_ifs at hd
    · obtain ⟨depth, he, hlt⟩ := hd
      rw [he]
      exact le_of_lt hlt
    · rw [hd]
      exact hu

theorem foldDeltas_depth_eq (h : List.Forall₂ (DepthEffect state) phases deltas)
    (hp : ∀ phase ∈ phases, phase.isPlainSubgraph = false) :
    (foldDeltas u deltas).flow.subagentDepth = u.flow.subagentDepth := by
  induction h generalizing u with
  | nil => rfl
  | @cons phase delta phases deltas hd _ ih =>
    rw [DepthEffect, if_neg (by simp [hp phase (List.mem_cons_self ..)])] at hd
    have hrest := ih (u := applyDelta u delta.data delta.flow)
      (fun q hq => hp q (List.mem_cons_of_mem _ hq))
    rw [subagentDepth_applyDelta, hd] at hrest
    exact hrest

theorem foldDeltas_depth_lt (h : List.Forall₂ (DepthEffect state) phases deltas)
    (hp : ∃ phase ∈ phases, phase.isPlainSubgraph = true)
    (hu : state.flow.subagentDepth ≤ u.flow.subagentDepth) :
    state.flow.subagentDepth < (foldDeltas u deltas).flow.subagentDepth := by
  induction h generalizing u with
  | nil => simp at hp
  | @cons phase delta phases deltas hd hrest ih =>
    by_cases hq : ∃ q ∈ phases, q.isPlainSubgraph = true
    · refine ih hq (u := applyDelta u delta.data delta.flow) ?_
      exact foldDeltas_depth_le (.cons hd .nil) hu
    · -- the last SUBGRAPH phase of the superstep decides the depth
      have hnone : ∀ q ∈ phases, q.isPlainSubgraph = false := by
        intro q hm
        by_contra hc
        exact hq ⟨q, hm, by simpa using hc⟩
      have hphase : phase.isPlainSubgraph = true := by
        obtain ⟨q, hm, ht⟩ := hp
        rcases List.mem_cons.mp hm with rfl | hm
        · exact ht
        · exact absurd ht (by simp [hnone q hm])
      rw [DepthEffect, if_pos hphase] at hd
      obtain ⟨depth, he, hlt⟩ := hd
      have hfold := foldDeltas_depth_eq (u := applyDelta u delta.data delta.flow) hrest hnone
      rw [subagentDepth_applyDelta, he] at hfold
      exact hfold.symm ▸ hlt

end Superstep

mutual

theorem Phase.depthEffect {V : Draft202012} (phase : Phase) {state : WorkflowState} {delta : PhaseDelta}
    (h : phase.run V state = .ok delta) : DepthEffect state phase delta := by
  cases phase with
  | leaf spec node =>
    rw [Phase.run] at h
    rw [DepthEffect, if_neg (by simp [Phase.isPlainSubgraph])]
    rcases PhaseSpec.run_depth h with ⟨-, he⟩ | ⟨-, input, result, hin, hnode, he⟩
    · exact he
    · rw [he, LeafNode.result_depth hin hnode]
  | subgraph spec frame steps =>
    rw [Phase.run] at h
    rcases PhaseSpec.run_depth h with ⟨hi, he⟩ | ⟨hi, input, result, hin, hnode, he⟩
    · obtain ⟨iterate, hi⟩ := Option.isSome_iff_exists.mp hi
      rw [DepthEffect, if_neg (by simp [Phase.isPlainSubgraph, hi])]
      exact he
    · rw [DepthEffect, if_pos (by simp [Phase.isPlainSubgraph, hi])]
      obtain ⟨final, hfinal, rfl⟩ := subgraphNode_ok hnode
      have hchild : (childState input).flow.subagentDepth = state.flow.subagentDepth + 1 := by
        rw [← hin]
        rfl
      have hle : state.flow.subagentDepth + 1 ≤ final.flow.subagentDepth := by
        rw [← hchild]
        rcases GraphFrame.invoke_depth hfinal with ⟨-, hsteps⟩ | heq
        · exact runSteps_depth_le steps hsteps
        · exact le_of_eq heq.symm
      refine ⟨final.flow.subagentDepth, ?_, by omega⟩
      have hne : state.flow.subagentDepth ≠ final.flow.subagentDepth := by omega
      rw [he]
      simp [resultDepth, subgraphResult, changed, hne]
termination_by structural phase

theorem runSteps_depth_le {V : Draft202012} (steps : List (List Phase)) {state t : WorkflowState}
    (h : runSteps V steps state = .ok t) : state.flow.subagentDepth ≤ t.flow.subagentDepth := by
  cases steps with
  | nil =>
    rw [runSteps] at h
    rw [Except.ok.inj h]
  | cons step steps =>
    rw [runSteps] at h
    obtain ⟨deltas, hd, h⟩ := bind_ok h
    have hstep := foldDeltas_depth_le (runPhases_depthEffect step hd) (le_refl _)
    exact le_trans hstep (runSteps_depth_le steps h)
termination_by structural steps

theorem runPhases_depthEffect {V : Draft202012} (phases : List Phase) {state : WorkflowState}
    {deltas : List PhaseDelta} (h : runPhases V phases state = .ok deltas) :
    List.Forall₂ (DepthEffect state) phases deltas := by
  cases phases with
  | nil =>
    rw [runPhases] at h
    rw [← Except.ok.inj h]
    exact .nil
  | cons phase phases =>
    rw [runPhases] at h
    obtain ⟨delta, hd, h⟩ := bind_ok h
    obtain ⟨rest, hr, h⟩ := bind_ok h
    obtain rfl := Except.ok.inj h
    exact .cons (phase.depthEffect hd) (runPhases_depthEffect phases hr)
termination_by structural phases

end

section Runs

variable {V : Draft202012} {entry state t : WorkflowState}

theorem superstep_some {step : List Phase} (h : superstep V state step = some t) :
    ∃ deltas, runPhases V step state = .ok deltas ∧ t = foldDeltas state deltas := by
  unfold superstep at h
  split at h
  · rename_i deltas hd
    exact ⟨deltas, hd, (Option.some.inj h).symm⟩
  · cases h

theorem run_of_runSteps {guard : WorkflowState → List Phase → Prop} {steps : List (List Phase)}
    (hg : ∀ s, ∀ step ∈ steps, guard s step) (h : runSteps V steps state = .ok t) :
    Run (superstep V) guard state steps t := by
  induction steps generalizing state with
  | nil =>
    rw [runSteps] at h
    rw [Except.ok.inj h]
    exact .nil t
  | cons step steps ih =>
    rw [runSteps] at h
    obtain ⟨deltas, hd, h⟩ := bind_ok h
    exact .cons (hg state step (List.mem_cons_self ..)) (by simp [superstep, hd])
      (ih (fun s step' hm => hg s step' (List.mem_cons_of_mem _ hm)) h)

theorem superstep_depth_le {step : List Phase} (h : superstep V state step = some t) :
    state.flow.subagentDepth ≤ t.flow.subagentDepth := by
  obtain ⟨deltas, hd, rfl⟩ := superstep_some h
  exact foldDeltas_depth_le (runPhases_depthEffect step hd) (le_refl _)

theorem superstep_depth_eq_iff {step : List Phase} (h : superstep V state step = some t) :
    t.flow.subagentDepth = state.flow.subagentDepth ↔ ∀ phase ∈ step, phase.isPlainSubgraph = false := by
  obtain ⟨deltas, hd, rfl⟩ := superstep_some h
  have heff := runPhases_depthEffect step hd
  constructor
  · intro he phase hm
    by_contra hp
    have hlt := foldDeltas_depth_lt heff ⟨phase, hm, by simpa using hp⟩ (le_refl _)
    omega
  · exact fun hp => foldDeltas_depth_eq heff hp

theorem run_depth_le {steps : List (List Phase)}
    (h : Run (superstep V) (fun _ _ => True) state steps t) :
    state.flow.subagentDepth ≤ t.flow.subagentDepth := by
  induction h with
  | nil => exact le_refl _
  | cons _ hs _ ih => exact le_trans (superstep_depth_le hs) ih

theorem run_depth_eq_iff {steps : List (List Phase)}
    (h : Run (superstep V) (fun _ _ => True) state steps t) :
    t.flow.subagentDepth = state.flow.subagentDepth ↔
      ∀ step ∈ steps, ∀ phase ∈ step, phase.isPlainSubgraph = false := by
  induction h with
  | nil => simp
  | cons _ hs hr ih =>
    have hstep := superstep_depth_le hs
    have hrest := run_depth_le hr
    rw [List.forall_mem_cons, ← superstep_depth_eq_iff hs, ← ih]
    constructor
    · intro he
      exact ⟨by omega, by omega⟩
    · rintro ⟨hfirst, hlast⟩
      rw [hlast, hfirst]

theorem graphLoopRound_depth {steps : List (List Phase)} {iterate : IterateSpec}
    {accumulate : IterateAccumulateSpec} {outputKeys : Option (List String)} {r r' : GraphLoop} {item : Value}
    (hsteps : ∀ step ∈ steps, ∀ phase ∈ step, phase.isPlainSubgraph = false)
    (h : graphLoopRound (runSteps V steps) iterate accumulate outputKeys r item = .ok r') :
    r'.loopState.flow.subagentDepth = r.loopState.flow.subagentDepth := by
  obtain ⟨child, hchild, h⟩ := bind_ok h
  obtain ⟨result, hresult, h⟩ := bind_ok h
  split at h
  · cases h
  · obtain ⟨acc, -, h⟩ := bind_ok h
    obtain ⟨loopState, hloop, h⟩ := bind_ok h
    obtain rfl := Except.ok.inj h
    rw [updateBusiness_flow hloop, (run_depth_eq_iff (run_of_runSteps (fun _ _ _ => trivial) hresult)).mpr hsteps,
      updateBusiness_flow hchild]

end Runs

/-- The depth in a graph's state is the one it was entered with, and so is what follows from it: the
refusal of subagent calls, and the depth of a child graph. -/
structure DepthIsNesting (entry t : WorkflowState) : Prop where
  depth : t.flow.subagentDepth = entry.flow.subagentDepth
  refused : SubagentRefused t.flow ↔ SubagentRefused entry.flow
  child : ∀ m : StateMapper,
    (childState (m.selectDeclaredInputs t)).flow.subagentDepth = entry.flow.subagentDepth + 1

theorem DepthIsNesting.of_depth {entry t : WorkflowState}
    (h : t.flow.subagentDepth = entry.flow.subagentDepth) : DepthIsNesting entry t where
  depth := h
  refused := by simp [SubagentRefused, currentSubagentDepth, h]
  child := by simp [childState, childFlow, currentSubagentDepth, StateMapper.selectDeclaredInputs, h]

structure KeepsDepth (V : Draft202012) (entry : WorkflowState) (steps : List (List Phase)) : Prop where
  phases : ∀ done u, done <+: steps → Run (superstep V) (fun _ _ => True) entry done u →
    DepthIsNesting entry u
  rounds : ∀ iterate accumulate outputKeys acc (items : List Value) r,
    items.foldlM (graphLoopRound (runSteps V steps) iterate accumulate outputKeys) ⟨acc, entry⟩ = .ok r →
      r.loopState.flow.subagentDepth = entry.flow.subagentDepth

theorem subagent_depth_is_nesting_iff {V : Draft202012} {entry t : WorkflowState}
    {steps : List (List Phase)} (hrun : Run (superstep V) (fun _ _ => True) entry steps t) :
    KeepsDepth V entry steps ↔ ∀ step ∈ steps, ∀ phase ∈ step, phase.isPlainSubgraph = false := by
  constructor
  · intro h
    exact (run_depth_eq_iff hrun).mp (h.phases steps t (List.prefix_refl _) hrun).depth
  · intro h
    constructor
    · intro done u hpre hdone
      exact .of_depth ((run_depth_eq_iff hdone).mpr (fun step hm => h step (hpre.subset hm)))
    · intro iterate accumulate outputKeys acc items r hr
      exact foldlM_invariant (fun r => r.loopState.flow.subagentDepth = entry.flow.subagentDepth)
        (fun _ _ _ hb hc => (graphLoopRound_depth h hc).trans hb) rfl hr

def outlineAction : LogicAction where
  location := "actions/outline.py:1"
  run _ := .ok (.dict [("outline", .list [.str "tides", .str "moon"])])

def outlinePhase : Phase := .leaf { phaseId := "outline" } (.logic [outlineAction])

def researchPhase : Phase := .subgraph { phaseId := "research" } {} [[outlinePhase]]

def rootState : WorkflowState where
  data := Dict.single "topic" (.str "tides")
  flow := {}
  messages := []

def headingAction : LogicAction where
  location := "actions/draft.py:1"
  run _ := .ok (.dict [("draft", .str "text")])

def draftsPhase : Phase :=
  .subgraph { phaseId := "drafts", iterate := some { overField := "outline", itemVar := "heading", mode := .batch } } {}
    [[.leaf { phaseId := "draft" } (.logic [headingAction])]]

theorem subagent_depth_is_nesting_drafts :
    ∃ t, Run (superstep acceptingValidator) (fun _ _ => True) rootState [[outlinePhase], [draftsPhase]] t ∧
      t.data.get? "draft" = some (.list [.str "text", .str "text"]) ∧
      KeepsDepth acceptingValidator rootState [[outlinePhase], [draftsPhase]] := by
  have hrun : Run (superstep acceptingValidator) (fun _ _ => True) rootState [[outlinePhase], [draftsPhase]] _ :=
    Run.of_exec (fun _ _ _ => trivial) rfl
  exact ⟨_, hrun, rfl, (subagent_depth_is_nesting_iff hrun).mpr
    (by simp [outlinePhase, draftsPhase, Phase.isPlainSubgraph])⟩

theorem subgraph_raises_parent_depth :
    ∃ t, Run (superstep acceptingValidator) (fun _ _ => True) rootState [[researchPhase]] t ∧
      t.flow.subagentDepth = 1 ∧ rootState.flow.subagentDepth = 0 ∧
      SubagentRefused t.flow ∧ ¬ SubagentRefused rootState.flow := by
  refine ⟨_, Run.of_exec (fun _ _ _ => trivial) rfl, rfl, rfl, ?_, ?_⟩
  · intro h
    cases h
  · exact fun h => h rfl

end GraphSkillRuntime
