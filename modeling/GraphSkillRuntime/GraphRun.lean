import GraphSkillRuntime.PhaseWrapper

namespace GraphSkillRuntime

open OrderedDict

/-! Phases as the assembler builds them, and whole graphs run superstep by superstep. -/

def batchItemProperty : Value → Value
  | .dict kvs =>
    let prop := Dict.ofList kvs
    match prop.get? "type", dictAt prop "items" with
    | some (.str "array"), some items => .ofDict items
    | _, _ => .dict kvs
  | v => v

def batchItemOutputSchema (outputSchema : Option Schema) : Option Schema :=
  outputSchema.map (fun schema =>
    match dictAt schema "properties" with
    | some properties =>
      (schema.set "properties" (.ofDict (properties.mapValues (fun _ => batchItemProperty)))).erase "required"
    | none => schema)

structure InputFile where
  field : String
  read : String → Except String Value

def workspaceDir (flow : FrameworkState) : Option String :=
  match flow.persistentStorageConfig.bind (·.get? "workspace_dir") with
  | some (.str dir) => if dir = "" then none else some dir
  | _ => none

def injectInputFile (phaseId dir : String) (state : WorkflowState) (file : InputFile) :
    Except MapperError WorkflowState :=
  if hasFrameworkPrefix file.field then
    .error (.fatal ("file input target field '" ++ file.field ++ "' is not a business field")
      mappingFailed (some phaseId) (some file.field))
  else
    match file.read dir with
    | .error detail => .error (.fatal detail mappingFailed (some phaseId) (some file.field))
    | .ok content => liftUpdateError (updateBusiness state (Dict.single file.field content))

def injectDeclaredInputFiles (phaseId : String) (files : List InputFile) (state : WorkflowState) :
    Except MapperError WorkflowState :=
  if files.isEmpty then .ok state
  else
    match workspaceDir state.flow with
    | none => .error (.fatal "workspace_dir is required for declarative file input" mappingFailed
        (some phaseId) none)
    | some dir => files.foldlM (injectInputFile phaseId dir) state

structure PhaseSpec where
  phaseId : String
  inputSchema : Option Schema := none
  outputSchema : Option Schema := none
  iterate : Option IterateSpec := none
  validator : Option PhaseValidator := none
  validatorErrorCode : String := "[F-v3-agent-validator-failed]"
  validatorDowngradeHook : Option (String → String → Bool) := none
  inputFiles : List InputFile := []
  executionId : Nat → String := fun _ => ""

namespace PhaseSpec

def mapperOutputSchema (spec : PhaseSpec) : Option Schema :=
  match spec.iterate with
  | some { mode := .batch, .. } => batchItemOutputSchema spec.outputSchema
  | _ => spec.outputSchema

def wrapper (spec : PhaseSpec) : PhaseWrapper where
  mapper :=
    { inputSchema := spec.inputSchema
      outputSchema := spec.mapperOutputSchema
      phaseId := spec.phaseId
      validatorDowngradeHook := spec.validatorDowngradeHook }
  validator := spec.validator
  validatorErrorCode := spec.validatorErrorCode

variable (V : Draft202012)

def runner (spec : PhaseSpec) (node : PhaseNode) : IndexedNode := fun index state => do
  let state ← injectDeclaredInputFiles spec.phaseId spec.inputFiles state
  spec.wrapper.wrap V node (spec.executionId index) state

def run (spec : PhaseSpec) (node : PhaseNode) (state : WorkflowState) : Except MapperError PhaseDelta :=
  match spec.iterate with
  | none => spec.runner V node 0 state
  | some iterate => iteratePhase (spec.runner V node) spec.phaseId iterate spec.outputSchema state

end PhaseSpec

structure LogicAction where
  location : String
  run : Dict String Value → Except MapperError Value

def validateLogicUpdateKeys (updates : Dict String Value) (outputKeys : Option (List String))
    (location : String) : Except MapperError Unit :=
  match outputKeys with
  | none => .ok ()
  | some keys =>
    match updates.keys.find? (· ∉ keys) with
    | none => .ok ()
    | some key => .error (.fatal (location ++ " action wrote undeclared output key '" ++ key ++ "'")
        "[F-v3-logic-output-field-undeclared]" none none)

def runAction (before : Dict String Value) (outputKeys : Option (List String)) (updates : Dict String Value)
    (action : LogicAction) : Except MapperError (Dict String Value) := do
  match ← action.run (before.update updates) with
  | .dict kvs => do
    validateLogicUpdateKeys (Dict.ofList kvs) outputKeys action.location
    return updates.update (Dict.ofList kvs)
  | result => .error (.fatal (action.location ++ " action returned " ++ result.typeName ++ ", expected dict")
      "[F-v3-logic-action-return-invalid]" none none)

def logicNode (actions : List LogicAction) (outputKeys : Option (List String)) : PhaseNode := fun state => do
  let updates ← actions.foldlM (runAction state.data outputKeys) ∅
  return .updates (if updates.entries.isEmpty then none else some (.ofDict updates)) ∅ none []

structure AgentWrites where
  finishTaskResult : Option (Dict String Value)
  ioErrors : List String
  workingMemory : Value
  ambiguityReports : List (Dict String Value)
  subagentValidationRetries : Dict String Int

def AgentWrites.apply (writes : AgentWrites) (flow : FrameworkState) : FrameworkState :=
  { flow with
    finishTaskResult := writes.finishTaskResult
    ioErrors := writes.ioErrors
    workingMemory := writes.workingMemory
    ambiguityReports := writes.ambiguityReports
    subagentValidationRetries := writes.subagentValidationRetries }

structure AgentOutcome where
  data : BusinessData
  writes : AgentWrites
  messages : List Value

def agentNode (agent : WorkflowState → Except MapperError AgentOutcome) : PhaseNode := fun state => do
  let outcome ← agent state
  return .workflowState
    { data := outcome.data
      flow := outcome.writes.apply state.flow
      messages := outcome.messages }

inductive LeafNode where
  | logic (actions : List LogicAction)
  | agent (agent : WorkflowState → Except MapperError AgentOutcome)

def LeafNode.node (outputSchema : Option Schema) : LeafNode → PhaseNode
  | logic actions => logicNode actions (schemaOutputKeys outputSchema)
  | agent a => agentNode a

structure GraphFrame where
  iterate : Option IterateSpec := none
  outputSchema : Option Schema := none
  terminalPhaseIds : List String := []

def graphIterateSignal (mode : String) (namespaces : List String) (workingMemory : Value) : Value :=
  let memory : Dict String Value :=
    match workingMemory with
    | .dict kvs => Dict.ofList kvs
    | v => Dict.single "value" v
  let executions :=
    match memory.get? "iterate_executions" with
    | some (.list xs) => xs
    | _ => []
  let execution : Value := .dict [("scope", .str "graph"), ("mode", .str mode),
    ("checkpoint_ns", .list (namespaces.map .str))]
  .ofDict (memory.set "iterate_executions" (.list (executions ++ [execution])))

def withGraphIterateSignal (mode : String) (namespaces : List String) (state : WorkflowState) :
    WorkflowState :=
  updateFramework state (fun flow =>
    { flow with workingMemory := graphIterateSignal mode namespaces flow.workingMemory })

section GraphIterate

variable (graph : GraphRunner)

def graphBatchItem (base : WorkflowState) (itemVar : String) (outputKeys : Option (List String))
    (item : Value) : Except MapperError (Dict String Value) := do
  let child ← liftUpdateError (updateBusiness base (Dict.single itemVar item))
  let result ← graph child
  return phaseResultPayload child (.full result.data) outputKeys

def iterationNamespaces (n : Nat) : List String := (List.range n).map (fun i => iterationNamespace (i + 1))

def runGraphBatchIterate (frame : GraphFrame) (iterate : IterateSpec) (state : WorkflowState) :
    Except MapperError WorkflowState := do
  let outputKeys := schemaOutputKeys frame.outputSchema
  let resolved ← resolveIterateItems state iterate.overField
  let items := applyIterateRange resolved iterate.range
  let payloads ← items.mapM (graphBatchItem graph state iterate.itemVar outputKeys)
  let payload :=
    if payloads.isEmpty then emptyBatchPayload outputKeys else aggregateBatchPayloads payloads
  let final ← withPhaseOutputs state (terminalPhaseOutputs frame.terminalPhaseIds payload)
  return withGraphIterateSignal "batch" (iterationNamespaces items.length) final

structure GraphLoop where
  acc : Value
  loopState : WorkflowState

def graphLoopRound (iterate : IterateSpec) (accumulate : IterateAccumulateSpec)
    (outputKeys : Option (List String)) (r : GraphLoop) (item : Value) : Except MapperError GraphLoop := do
  let child ← liftUpdateError (updateBusiness r.loopState
    ((Dict.single iterate.itemVar item).set accumulate.var r.acc))
  let result ← graph child
  match (phaseResultPayload child (.full result.data) outputKeys).get? accumulate.from_ with
  | none =>
    iterateMergeFatal ("graph loop iterate output missing accumulate.from '" ++ accumulate.from_ ++ "'")
  | some piece =>
    let acc ← mergeAccumulator r.acc piece accumulate.merge
    -- The next round starts from the whole state of this one, flow included.
    let loopState ← liftUpdateError (updateBusiness result (Dict.single accumulate.var acc))
    return ⟨acc, loopState⟩

def runGraphLoopIterate (frame : GraphFrame) (iterate : IterateSpec) (accumulate : IterateAccumulateSpec)
    (state : WorkflowState) : Except MapperError WorkflowState := do
  let outputKeys := schemaOutputKeys frame.outputSchema
  let resolved ← resolveIterateItems state iterate.overField
  let items := applyIterateRange resolved iterate.range
  let loopState ← liftUpdateError (updateBusiness state (Dict.single accumulate.var accumulate.init))
  let last ← items.foldlM (graphLoopRound graph iterate accumulate outputKeys) ⟨accumulate.init, loopState⟩
  let final ← withPhaseOutputs state
    (terminalPhaseOutputs frame.terminalPhaseIds (Dict.single accumulate.var last.acc))
  return withGraphIterateSignal "loop" (iterationNamespaces items.length) final

def GraphFrame.invoke (frame : GraphFrame) (state : WorkflowState) : Except MapperError WorkflowState :=
  match frame.iterate with
  | none => graph state
  | some iterate =>
    match iterate.mode with
    | .batch => runGraphBatchIterate graph frame iterate state
    | .loop accumulate => runGraphLoopIterate graph frame iterate accumulate state

end GraphIterate

/-- A phase together with how its nested graphs are scheduled: the supersteps of a subgraph, in order. -/
inductive Phase where
  | leaf (spec : PhaseSpec) (node : LeafNode)
  | subgraph (spec : PhaseSpec) (frame : GraphFrame) (steps : List (List Phase))

namespace Phase

def spec : Phase → PhaseSpec
  | leaf spec _ => spec
  | subgraph spec _ _ => spec

end Phase

def foldDeltas (state : WorkflowState) (deltas : List PhaseDelta) : WorkflowState :=
  deltas.foldl (fun state delta => applyDelta state delta.data delta.flow) state

mutual

def Phase.run (V : Draft202012) : Phase → WorkflowState → Except MapperError PhaseDelta
  | .leaf spec node => spec.run V (node.node spec.outputSchema)
  | .subgraph spec frame steps => spec.run V (subgraphNode (frame.invoke (runSteps V steps)))

def runSteps (V : Draft202012) : List (List Phase) → GraphRunner
  | [] => fun state => .ok state
  | step :: steps => fun state => do
    let deltas ← runPhases V step state
    runSteps V steps (foldDeltas state deltas)

def runPhases (V : Draft202012) : List Phase → WorkflowState → Except MapperError (List PhaseDelta)
  | [] => fun _ => .ok []
  | phase :: phases => fun state => do
    let delta ← phase.run V state
    let deltas ← runPhases V phases state
    return delta :: deltas

end

def superstep (V : Draft202012) (state : WorkflowState) (step : List Phase) : Option WorkflowState :=
  match runPhases V step state with
  | .ok deltas => some (foldDeltas state deltas)
  | .error _ => none

end GraphSkillRuntime
