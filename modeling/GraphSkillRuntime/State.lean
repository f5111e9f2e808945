import GraphSkillRuntime.Runs
import GraphSkillRuntime.Value

namespace GraphSkillRuntime

open OrderedDict

abbrev BusinessData := Dict String Value

structure FrameworkState where
  finishTaskResult : Option (Dict String Value) := none
  ioErrors : List String := []
  threadId : Option String := none
  runId : Option String := none
  unattended : Bool := false
  persistentStorageConfig : Option (Dict String Value) := none
  subRunId : Option String := none
  currentPhase : String := ""
  phaseExecutionIds : Dict String (List String) := ∅
  agentResultHashes : Dict String String := ∅
  criticMetrics : Dict String Value := ∅
  subagentValidationRetries : Dict String Int := ∅
  workingMemory : Value := .dict []
  ambiguityReports : List (Dict String Value) := []
  groupKey : Option String := none
  tracePath : Option String := none
  trace : Option String := none
  subagentDepth : Int := 0
  timeoutS : Option Int := none
  deriving DecidableEq

structure FlowDelta where
  finishTaskResult : Option (Option (Dict String Value)) := none
  ioErrors : Option (List String) := none
  threadId : Option (Option String) := none
  runId : Option (Option String) := none
  unattended : Option Bool := none
  persistentStorageConfig : Option (Option (Dict String Value)) := none
  subRunId : Option (Option String) := none
  currentPhase : Option String := none
  phaseExecutionIds : Option (Dict String (List String)) := none
  agentResultHashes : Option (Dict String String) := none
  criticMetrics : Option (Dict String Value) := none
  subagentValidationRetries : Option (Dict String Int) := none
  workingMemory : Option Value := none
  ambiguityReports : Option (List (Dict String Value)) := none
  groupKey : Option (Option String) := none
  tracePath : Option (Option String) := none
  trace : Option (Option String) := none
  subagentDepth : Option Int := none
  timeoutS : Option (Option Int) := none
  deriving DecidableEq

inductive DataUpdate where
  | full (data : BusinessData)
  | delta (fields : Dict String Value)

inductive FlowUpdate where
  | full (flow : FrameworkState)
  | delta (fields : FlowDelta)

structure WorkflowState where
  data : BusinessData
  flow : FrameworkState
  messages : List Value

def coerceBusinessData (value : Dict String Value) : BusinessData :=
  if value.contains "inputs" || value.contains "phase_outputs" then
    let flat := (dictAt value "inputs").getD ∅
    match dictAt value "phase_outputs" with
    | some phaseOutputs =>
      (phaseOutputs.entries.filterMap (fun e => e.2.asDict?)).foldl Dict.update flat
    | none => flat
  else value

def mergePhaseOutputs (merged : BusinessData) (phaseOutputsDelta : Dict String Value) : BusinessData :=
  let combined := ((dictAt merged "phase_outputs").getD ∅).update phaseOutputsDelta
  merged.set "phase_outputs" (.ofDict combined)

def mergeBusinessChannel (current : BusinessData) : DataUpdate → BusinessData
  | .full data => data
  | .delta update =>
    if update.contains "inputs" then coerceBusinessData update
    else
      let merged := current.update (update.erase "phase_outputs")
      match dictAt update "phase_outputs" with
      | some phaseOutputsDelta => mergePhaseOutputs merged phaseOutputsDelta
      | none => merged

def mergeField {ν : Type} (current : Dict String ν) : Option (Dict String ν) → Dict String ν
  | some delta => current.update delta
  | none => current

def mergeWorkingMemory (current : Value) : Option Value → Value
  | none => current
  | some delta =>
    match current.asDict?, delta.asDict? with
    | some c, some d => .ofDict (c.update d)
    | _, _ => delta

def mergeFlowChannel (current : FrameworkState) : FlowUpdate → FrameworkState
  | .full flow => flow
  | .delta d =>
    { finishTaskResult := d.finishTaskResult.getD current.finishTaskResult
      ioErrors := d.ioErrors.getD current.ioErrors
      threadId := d.threadId.getD current.threadId
      runId := d.runId.getD current.runId
      unattended := d.unattended.getD current.unattended
      persistentStorageConfig := d.persistentStorageConfig.getD current.persistentStorageConfig
      subRunId := d.subRunId.getD current.subRunId
      currentPhase := d.currentPhase.getD current.currentPhase
      phaseExecutionIds := mergeField current.phaseExecutionIds d.phaseExecutionIds
      agentResultHashes := mergeField current.agentResultHashes d.agentResultHashes
      criticMetrics := mergeField current.criticMetrics d.criticMetrics
      subagentValidationRetries :=
        mergeField current.subagentValidationRetries d.subagentValidationRetries
      workingMemory := mergeWorkingMemory current.workingMemory d.workingMemory
      ambiguityReports := d.ambiguityReports.getD current.ambiguityReports
      groupKey := d.groupKey.getD current.groupKey
      tracePath := d.tracePath.getD current.tracePath
      trace := d.trace.getD current.trace
      subagentDepth := d.subagentDepth.getD current.subagentDepth
      timeoutS := d.timeoutS.getD current.timeoutS }

def applyDelta (values : WorkflowState) (data : Dict String Value) (flow : FlowDelta) : WorkflowState where
  data := mergeBusinessChannel values.data (.delta data)
  flow := mergeFlowChannel values.flow (.delta flow)
  messages := values.messages

def changed {α : Type} (eq : α → α → Bool) (before after : α) : Option α :=
  if eq before after then none else some after

def dictEqv (d e : Dict String Value) : Bool := Value.eqv (.ofDict d) (.ofDict e)

def mapEq {ν : Type} [DecidableEq ν] (d e : Dict String ν) : Bool := decide (d.Same e)

def optEqv (d e : Option (Dict String Value)) : Bool :=
  match d, e with
  | some d, some e => dictEqv d e
  | none, none => true
  | _, _ => false

def flowDiff (before after : FrameworkState) : FlowDelta where
  finishTaskResult := changed optEqv before.finishTaskResult after.finishTaskResult
  ioErrors := changed (· == ·) before.ioErrors after.ioErrors
  threadId := changed (· == ·) before.threadId after.threadId
  runId := changed (· == ·) before.runId after.runId
  unattended := changed (· == ·) before.unattended after.unattended
  persistentStorageConfig :=
    changed optEqv before.persistentStorageConfig after.persistentStorageConfig
  subRunId := changed (· == ·) before.subRunId after.subRunId
  currentPhase := changed (· == ·) before.currentPhase after.currentPhase
  phaseExecutionIds := changed mapEq before.phaseExecutionIds after.phaseExecutionIds
  agentResultHashes := changed mapEq before.agentResultHashes after.agentResultHashes
  criticMetrics := changed dictEqv before.criticMetrics after.criticMetrics
  subagentValidationRetries :=
    changed mapEq before.subagentValidationRetries after.subagentValidationRetries
  workingMemory := changed Value.eqv before.workingMemory after.workingMemory
  ambiguityReports := changed (fun b a => Value.eqv (.list (b.map .ofDict)) (.list (a.map .ofDict)))
    before.ambiguityReports after.ambiguityReports
  groupKey := changed (· == ·) before.groupKey after.groupKey
  tracePath := changed (· == ·) before.tracePath after.tracePath
  trace := changed (· == ·) before.trace after.trace
  subagentDepth := changed (· == ·) before.subagentDepth after.subagentDepth
  timeoutS := changed (· == ·) before.timeoutS after.timeoutS

def startsWith (s lead : String) : Bool := lead.toList.isPrefixOf s.toList

theorem startsWith_iff {s lead : String} : startsWith s lead = true ↔ ∃ t, s = lead ++ t := by
  unfold startsWith
  rw [List.isPrefixOf_iff_prefix]
  constructor
  · rintro ⟨t, ht⟩
    exact ⟨String.ofList t, String.toList_inj.mp (by simp [ht])⟩
  · rintro ⟨t, rfl⟩
    exact ⟨t.toList, by simp⟩

def hasFrameworkPrefix (key : String) : Bool := key.toList.head? == some '_'

inductive UpdateError where
  | typeError (text : String)
  | valueError (text : String)
  deriving DecidableEq

def UpdateError.text : UpdateError → String
  | .typeError text | .valueError text => text

/-- Why `update_business(state, **fields)` raises: a field named `state` binds its first argument again. -/
def updateError? (fields : Dict String Value) : Option UpdateError :=
  if fields.contains "state" then
    some (.typeError "StateManager.update_business() got multiple values for argument 'state'")
  else
    (fields.keys.find? hasFrameworkPrefix).map fun k =>
      .valueError s!"BusinessData 不允许 _ 前缀字段: '{k}' (框架元字段必须用 update_framework)"

def updateBusiness (state : WorkflowState) (fields : Dict String Value) : Except UpdateError WorkflowState :=
  match updateError? fields with
  | some e => .error e
  | none => .ok { state with data := state.data.update fields }

def settable (k : String) : Bool := k ≠ "state" && !hasFrameworkPrefix k

theorem updateError?_eq_none_iff {fields : Dict String Value} :
    updateError? fields = none ↔ ∀ k ∈ fields.keys, settable k = true := by
  have hstate : fields.contains "state" = true ↔ "state" ∈ fields.keys := Dict.contains_iff
  unfold updateError?
  split_ifs with h
  · simp only [false_iff, not_forall]
    exact ⟨"state", hstate.mp h, by simp [settable]⟩
  · rw [Option.map_eq_none_iff, List.find?_eq_none]
    apply forall₂_congr
    intro k hk
    have hne : k ≠ "state" := fun he => h (hstate.mpr (he ▸ hk))
    simp [settable, hne]

theorem updateBusiness_ok_iff {state t : WorkflowState} {fields : Dict String Value} :
    updateBusiness state fields = .ok t ↔
      (∀ k ∈ fields.keys, settable k = true) ∧ t = { state with data := state.data.update fields } := by
  rw [← updateError?_eq_none_iff]
  unfold updateBusiness
  cases h : updateError? fields with
  | none => simp [eq_comm]
  | some e => simp

def updateFramework (state : WorkflowState) (f : FrameworkState → FrameworkState) : WorkflowState :=
  { state with flow := f state.flow }

end GraphSkillRuntime
