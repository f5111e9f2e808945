import GraphSkillRuntime.Iterate

namespace GraphSkillRuntime

open OrderedDict

def isObjectSchema (schema : Dict String Value) : Bool :=
  match schema.get? "type" with
  | some (.str "object") => true
  | some (.list types) => types.any (fun t => t == .str "object") || (dictAt schema "properties").isSome
  | _ => (dictAt schema "properties").isSome

def missingNames (required : Option Value) (data : Dict String Value) (path : String) : List String :=
  match required with
  | some (.list names) => names.filterMap (fun n =>
      match n with
      | .str name => if data.contains name then none else some (path ++ name)
      | _ => none)
  | _ => []

mutual

def missingRequiredPaths (data : Value) (path : String) : Value → List String
  | .dict schema =>
    let dataMap := (data.asDict?).getD ∅
    sortKeys (missingNames ((Dict.ofList schema).get? "required") dataMap path ++
      missingInSchema dataMap path schema)
  | _ => []

def missingInSchema (dataMap : Dict String Value) (path : String) : List (String × Value) → List String
  | [] => []
  | (k, v) :: rest =>
    (if k = "properties" then missingInProperties dataMap path v else []) ++
      missingInSchema dataMap path rest

def missingInProperties (dataMap : Dict String Value) (path : String) : Value → List String
  | .dict properties => missingInFields dataMap path properties
  | _ => []

def missingInFields (dataMap : Dict String Value) (path : String) : List (String × Value) → List String
  | [] => []
  | (name, subschema) :: rest =>
    (match dataMap.get? name with
      | some v =>
        if (subschema.asDict?).any isObjectSchema then
          missingRequiredPaths v (path ++ name ++ ".") subschema
        else []
      | none => []) ++ missingInFields dataMap path rest

end

def missingRequiredInputs (filtered : Dict String Value) (schema : Option Schema) : List String :=
  match schema with
  | none => []
  | some s => missingRequiredPaths (.ofDict filtered) "" (.ofDict s)

def asFatal {α : Type} : Except MapperError α → Except MapperError α
  | .error (.valueError detail) => .error (.fatal detail mappingFailed none none)
  | r => r

theorem asFatal_ok {α : Type} {r : Except MapperError α} {a : α} (h : asFatal r = .ok a) :
    r = .ok a := by
  cases r with
  | ok b => exact h
  | error e => cases e <;> simp [asFatal] at h

abbrev PhaseNode := WorkflowState → Except MapperError NodeResult

namespace StateMapper

def requireDeclaredInputs (m : StateMapper) (phaseInput : WorkflowState) : Except MapperError Unit :=
  match missingRequiredInputs phaseInput.data m.inputSchema with
  | [] => .ok ()
  | path :: rest => .error (.fatal
      ("phase required input fields missing from blackboard: " ++ ", ".intercalate (path :: rest))
      mappingFailed (some m.phaseId) (some path))

end StateMapper

structure PhaseWrapper where
  mapper : StateMapper
  validator : Option PhaseValidator := none
  validatorErrorCode : String := "[F-v3-agent-validator-failed]"

namespace PhaseWrapper

def hooks (w : PhaseWrapper) (executionId : String) (state : WorkflowState) : PhaseHooks where
  stateSlice := (w.mapper.selectDeclaredInputs state).data
  validator := w.validator
  validatorErrorCode := w.validatorErrorCode
  executionId := executionId

def wrap (w : PhaseWrapper) (V : Draft202012) (node : PhaseNode) (executionId : String)
    (state : WorkflowState) : Except MapperError PhaseDelta :=
  asFatal do
    let phaseInput := w.mapper.selectDeclaredInputs state
    w.mapper.requireDeclaredInputs phaseInput
    let result ← node phaseInput
    w.mapper.wrapPhaseOutput V (w.hooks executionId state) state result

theorem wrap_ok {w : PhaseWrapper} {V : Draft202012} {node : PhaseNode} {executionId : String}
    {state : WorkflowState} {delta : PhaseDelta} (h : w.wrap V node executionId state = .ok delta) :
    w.mapper.requireDeclaredInputs (w.mapper.selectDeclaredInputs state) = .ok () ∧
      ∃ result, node (w.mapper.selectDeclaredInputs state) = .ok result ∧
        w.mapper.wrapPhaseOutput V (w.hooks executionId state) state result = .ok delta := by
  unfold wrap at h
  obtain ⟨_, hreq, h⟩ := bind_ok (asFatal_ok h)
  obtain ⟨result, hnode, h⟩ := bind_ok h
  exact ⟨hreq, result, hnode, h⟩

end PhaseWrapper

def currentSubagentDepth (flow : FrameworkState) : Int := flow.subagentDepth

def childFlow (parentFlow : FrameworkState) : FrameworkState :=
  { parentFlow with subagentDepth := currentSubagentDepth parentFlow + 1 }

abbrev GraphRunner := WorkflowState → Except MapperError WorkflowState

def childState (phaseInput : WorkflowState) : WorkflowState where
  data := phaseInput.data
  flow := childFlow phaseInput.flow
  messages := []

def subgraphResult (childInput : Dict String Value) (final : WorkflowState) : NodeResult :=
  .updates (some (.ofDict (dictDelta childInput final.data))) ∅ (some (.full final.flow)) []

def subgraphNode (invoke : GraphRunner) : PhaseNode := fun phaseInput => do
  let final ← invoke (childState phaseInput)
  return subgraphResult phaseInput.data final

theorem subgraphNode_ok {invoke : GraphRunner} {phaseInput : WorkflowState} {result : NodeResult}
    (h : subgraphNode invoke phaseInput = .ok result) :
    ∃ final, invoke (childState phaseInput) = .ok final ∧
      result = subgraphResult phaseInput.data final := by
  obtain ⟨final, hi, h⟩ := bind_ok h
  exact ⟨final, hi, (Except.ok.inj h).symm⟩

end GraphSkillRuntime
