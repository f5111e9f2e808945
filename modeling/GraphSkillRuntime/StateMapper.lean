import GraphSkillRuntime.Schema
import GraphSkillRuntime.State

namespace GraphSkillRuntime

open OrderedDict

inductive MapperError where
  | fatal (detail code : String) (phaseId fieldPath : Option String)
  | valueError (detail : String)
  | typeError (detail : String)
  deriving DecidableEq

def mappingFailed : String := "[F-v3-runtime-state-mapping-failed]"

abbrev PhaseValidator := Dict String Value → Dict String Value → String → Except String Value

structure StateMapper where
  inputSchema : Option Schema
  outputSchema : Option Schema
  phaseId : String
  validatorDowngradeHook : Option (String → String → Bool) := none

/-- What a phase node hands back: the state of its own agent graph, or a mapping of updates. -/
inductive NodeResult where
  | workflowState (state : WorkflowState)
  | updates (data : Option Value) (fields : Dict String Value) (flow : Option FlowUpdate)
      (messages : List Value)
  | notMapping

structure PhaseDelta where
  data : Dict String Value
  flow : FlowDelta
  messages : List Value
  deriving DecidableEq

def filterRuntimeInputs (rawInputs : Dict String Value) (schema : Option Schema) : Dict String Value :=
  match schemaProperties schema with
  | [] => rawInputs
  | keys => rawInputs.restrict (· ∈ keys)

namespace StateMapper

def selectDeclaredInputs (m : StateMapper) (state : WorkflowState) : WorkflowState where
  data := filterRuntimeInputs (state.data.erase "phase_outputs") m.inputSchema
  flow := { state.flow with workingMemory := .dict [] }
  messages := []

end StateMapper

def projectFullData (after before : BusinessData) (outputSchema : Option Schema) (phaseId : String) :
    Dict String Value :=
  match (dictAt after "phase_outputs").bind (dictAt · phaseId) with
  | some ownOutputs => ownOutputs
  | none =>
    match schemaProperties outputSchema with
    | [] => (after.erase "phase_outputs").filter (fun k v =>
        match before.get? k with | some b => !(b == v) | none => !(Value.null == v))
    | keys => after.restrict (· ∈ keys)

def flatUpdates (outputSchema : Option Schema) (phaseId : String) (updates : Dict String Value) :
    Dict String Value :=
  if updates.contains "phase_outputs" || updates.contains "inputs" then
    let flat :=
      match dictAt updates "phase_outputs" with
      | some phaseOutputs =>
        match dictAt phaseOutputs phaseId with
        | some ownOutputs => ownOutputs
        | none =>
          match schemaProperties outputSchema with
          | [] => (phaseOutputs.entries.filterMap (fun e => e.2.asDict?)).foldl Dict.update ∅
          | keys => updates.restrict (· ∈ keys)
      | none => ∅
    if flat.entries.isEmpty then (dictAt updates "inputs").getD flat else flat
  else updates

section

variable (V : Draft202012)

def undeclaredKeys (updates : Dict String Value) (schema : Option Schema) : List String :=
  match schemaProperties schema with
  | [] => []
  | allowed => updates.keys.filter (· ∉ allowed)

def validatePhaseUpdatesAgainstSchema (updates : Dict String Value) (schema : Option Schema)
    (code phaseId : String) : Except MapperError Unit :=
  match sortKeys (undeclaredKeys updates schema) with
  | key :: rest => .error (.fatal ("phase wrote undeclared keys: " ++ ", ".intercalate (key :: rest))
      code (some phaseId) (some key))
  | [] =>
    match schema with
    | none => .ok ()
    | some s =>
      if s.entries.isEmpty then .ok ()
      else
        match V.checkSchema (.ofDict s) with
        | some message => .error (.fatal ("phase output schema invalid: " ++ message) code (some phaseId) none)
        | none =>
          match V.iterErrors (withOptionalFieldsNullable (.ofDict s)) (.ofDict updates) with
          | [] => .ok ()
          | (message, path) :: _ =>
            .error (.fatal ("phase output schema validation failed: " ++ message) code (some phaseId)
              (if path.isEmpty then none else some (".".intercalate path)))

def runPhaseValidator (validator : PhaseValidator) (output stateSlice : Dict String Value)
    (phaseId : String) (outputSchema : Option Schema) (code : String)
    (downgradeHook : Option (String → String → Bool)) : Except MapperError (Dict String Value) :=
  match validator output stateSlice phaseId with
  | .error raised =>
    let detail := "phase validator failed: " ++ raised
    if (downgradeHook.map (· phaseId detail)).getD false then .ok output
    else .error (.fatal detail code (some phaseId) none)
  | .ok .null => .ok output
  | .ok (.dict kvs) => do
    validatePhaseUpdatesAgainstSchema V (Dict.ofList kvs) outputSchema code phaseId
    .ok (Dict.ofList kvs)
  | .ok result => .error (.fatal
      ("phase validator returned " ++ result.typeName ++ ", expected None or dict") code
        (some phaseId) none)

def refuseFrameworkKeys (updates : Dict String Value) : Except MapperError Unit :=
  match updates.keys.find? hasFrameworkPrefix with
  | some k => .error (.valueError
      ("BusinessData 不允许 _ 前缀字段: '" ++ k ++ "' (框架元字段必须用 update_framework)"))
  | none => .ok ()

def phaseDataDelta (phaseId : String) (outputs : Dict String Value) : Dict String Value :=
  outputs.set "phase_outputs" (.ofDict (Dict.single phaseId (.ofDict outputs)))

def phaseFlowDelta (phaseId executionId : String) (before : FrameworkState) :
    Option FlowUpdate → FlowDelta
  | some (.full after) =>
    { flowDiff before after with
      currentPhase := some phaseId
      phaseExecutionIds :=
        if executionId = "" then (flowDiff before after).phaseExecutionIds
        else some (Dict.single phaseId [executionId]) }
  | some (.delta fields) =>
    { fields with
      currentPhase := some phaseId
      phaseExecutionIds :=
        if executionId = "" then fields.phaseExecutionIds
        else some (Dict.single phaseId [executionId]) }
  | none =>
    { currentPhase := some phaseId
      phaseExecutionIds :=
        if executionId = "" then none else some (Dict.single phaseId [executionId]) }

structure PhaseHooks where
  stateSlice : Dict String Value := ∅
  validator : Option PhaseValidator := none
  validatorErrorCode : String := "[F-v3-agent-validator-failed]"
  executionId : String := ""

namespace StateMapper

def updatesOf (m : StateMapper) (before : BusinessData) : NodeResult → Dict String Value
  | .workflowState after => projectFullData after.data before m.outputSchema m.phaseId
  | .updates (some data) _ _ _ => data.asDict?.getD ∅
  | .updates none fields _ _ => fields
  | .notMapping => ∅

def validatedOutputs (m : StateMapper) (hooks : PhaseHooks) (flat : Dict String Value) :
    Except MapperError (Dict String Value) :=
  match hooks.validator with
  | some validator =>
    runPhaseValidator V validator flat hooks.stateSlice m.phaseId m.outputSchema
      hooks.validatorErrorCode m.validatorDowngradeHook
  | none => .ok flat

def acceptUpdates (m : StateMapper) (hooks : PhaseHooks) (updates : Dict String Value) :
    Except MapperError (Dict String Value) := do
  let flat := flatUpdates m.outputSchema m.phaseId updates
  validatePhaseUpdatesAgainstSchema V flat m.outputSchema mappingFailed m.phaseId
  let outputs ← m.validatedOutputs V hooks flat
  refuseFrameworkKeys outputs
  return outputs

def wrapPhaseOutput (m : StateMapper) (hooks : PhaseHooks) (state : WorkflowState)
    (result : NodeResult) : Except MapperError PhaseDelta :=
  match result with
  | .notMapping => .ok
      { data := Dict.single "phase_outputs" (.ofDict (Dict.single m.phaseId (.ofDict ∅)))
        flow := { currentPhase := some m.phaseId }
        messages := [] }
  | .workflowState after => do
    let outputs ← m.acceptUpdates V hooks (m.updatesOf state.data result)
    return { data := phaseDataDelta m.phaseId outputs
             flow := phaseFlowDelta m.phaseId hooks.executionId state.flow (some (.full after.flow))
             messages := after.messages }
  | .updates _ _ flow messages => do
    let outputs ← m.acceptUpdates V hooks (m.updatesOf state.data result)
    return { data := phaseDataDelta m.phaseId outputs
             flow := phaseFlowDelta m.phaseId hooks.executionId state.flow flow
             messages := messages }

end StateMapper

end

end GraphSkillRuntime
