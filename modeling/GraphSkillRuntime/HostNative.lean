import GraphSkillRuntime.PhaseFrame

namespace GraphSkillRuntime

open OrderedDict

structure RuntimeErrorPayload where
  code : String
  message : String
  deriving DecidableEq

inductive AgentStatus where
  | completed
  | failed
  | cancelled
  deriving DecidableEq

structure AgentResult where
  taskId : String
  status : AgentStatus
  output : Option (Dict String Value) := none
  error : Option RuntimeErrorPayload := none
  executorId : String
  provenance : Dict String Value := ∅
  completed_output : status = .completed → output.isSome := by decide
  terminal_error : status ≠ .completed → error.isSome := by decide
  deriving DecidableEq

def AgentResult.completedOutput (r : AgentResult) : Option (Dict String Value) :=
  if r.status = .completed then r.output else none

structure PhaseAddress where
  graphId : String
  phaseId : String
  deriving DecidableEq

structure AgentTask where
  taskId : String
  runId : String
  address : PhaseAddress
  inputs : Dict String Value
  outputSchema : Schema
  deadline : Option String
  deriving DecidableEq

structure RunRequest where
  runId : String
  inputs : Dict String Value
  deriving DecidableEq

inductive RunMode where
  | run
  | resume
  deriving DecidableEq

inductive RunStatus where
  | completed
  | failed (error : RuntimeErrorPayload)
  | paused
  | agentRequired (task : AgentTask) (checkpointRef : String)
  deriving DecidableEq

structure RunResult where
  status : RunStatus
  runId : String
  mode : RunMode
  request : RunRequest
  outputs : Dict String Value
  deriving DecidableEq

structure AgentHandoffRecord where
  checkpointRef : String
  task : AgentTask
  checkpointId : String
  checkpointNs : String
  requiredResponse : RunResult
  resultHash : Option String := none
  response : Option RunResult := none
  deriving DecidableEq

structure Checkpoint where
  checkpointId : String
  checkpointNs : String
  next : List String
  values : WorkflowState

structure ExternalPhaseCompletion where
  taskId : String
  phaseId : String
  resultHash : String
  output : Dict String Value

def validateAgentResult (V : Draft202012) (task : AgentTask) (result : AgentResult) : Except String Unit :=
  if result.taskId ≠ task.taskId then
    .error ("AgentResult task_id '" ++ result.taskId ++ "' does not match task '" ++ task.taskId ++ "'")
  else
    match result.completedOutput with
    | none => .ok ()
    | some output =>
      match V.checkSchema (.ofDict task.outputSchema) with
      | some message => .error ("AgentResult output does not satisfy the task schema: " ++ message)
      | none =>
        if V.isValid (.ofDict task.outputSchema) (.ofDict output) then .ok ()
        else .error ("AgentResult output does not satisfy the task schema: " ++
          V.bestMatch (.ofDict task.outputSchema) (.ofDict output))

def completionFlow (completion : ExternalPhaseCompletion) : FlowDelta where
  phaseExecutionIds := some (Dict.single completion.phaseId ["host-agent:" ++ completion.taskId])
  agentResultHashes := some (Dict.single completion.taskId completion.resultHash)

def marker (graph : Option Checkpoint) (taskId : String) : Option String :=
  graph.bind (·.values.flow.agentResultHashes.get? taskId)

/-- Where the continued run starts from: the state that already carries this result, or a fresh
checkpoint that applies it. `newId` and `next` are what the graph library answers. -/
inductive Applied where
  | already
  | updated (checkpoint : Checkpoint)

def applyExternalPhaseCompletion (graph : Option Checkpoint) (runId expectedId expectedNs : String)
    (completion : ExternalPhaseCompletion) (newId : String) (next : List String) :
    Except String Applied :=
  match graph with
  | none => .error ("run '" ++ runId ++ "' has no durable graph checkpoint")
  | some latest =>
    match latest.values.flow.agentResultHashes.get? completion.taskId with
    | some appliedHash =>
      if appliedHash ≠ completion.resultHash then
        .error ("task '" ++ completion.taskId ++ "' already has a different durable result")
      else .ok .already
    | none =>
      if expectedId ≠ latest.checkpointId ∨ expectedNs ≠ latest.checkpointNs then
        .error ("the run advanced beyond the checkpoint that owns this AgentTask " ++
          "without recording its result")
      else if latest.next ≠ [completion.phaseId] then
        .error ("task phase '" ++ completion.phaseId ++
          "' is not the sole pending phase; pending phases: " ++
          (if latest.next.isEmpty then "<none>" else ", ".intercalate latest.next))
      else if completion.output.contains "phase_outputs" then
        .error "AgentResult output cannot use reserved field 'phase_outputs'"
      else .ok (.updated
        { checkpointId := newId
          checkpointNs := latest.checkpointNs
          next := next
          values := applyDelta latest.values (phaseDataDelta completion.phaseId completion.output)
            (completionFlow completion) })

end GraphSkillRuntime
