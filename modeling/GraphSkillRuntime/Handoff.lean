import GraphSkillRuntime.HostNative
import GraphSkillRuntime.Runs

namespace GraphSkillRuntime

open OrderedDict

/-!
The handoff table and the checkpoint database as two durable stores, with the calls that move them.
A submission keeps the write lock of the table from its first step to its commit; the graph moves in
between, and every other call may interleave. A call that dies simply takes no further step.
-/

structure PhaseIo where
  inputs : Schema
  outputs : Schema

structure TaskIdentity where
  runId : String
  address : PhaseAddress
  checkpointId : String
  checkpointNs : String
  deriving DecidableEq

structure HostRuntime where
  V : Draft202012
  request : RunRequest
  graphId : String
  phases : Dict String PhaseIo
  resultHash : AgentResult → String
  taskId : TaskIdentity → String

section Store

variable (rows : List AgentHandoffRecord)

def load (checkpointRef : String) : Option AgentHandoffRecord :=
  rows.find? (fun row => row.checkpointRef = checkpointRef)

def sameRequired (left right : AgentHandoffRecord) : Bool :=
  left.checkpointRef = right.checkpointRef ∧ left.task = right.task ∧
    left.checkpointId = right.checkpointId ∧ left.checkpointNs = right.checkpointNs ∧
    left.requiredResponse = right.requiredResponse

def sameIdentity (record row : AgentHandoffRecord) : Bool :=
  row.checkpointRef = record.checkpointRef ∨ row.task.taskId = record.task.taskId

def insertRequired (record : AgentHandoffRecord) : Except String (List AgentHandoffRecord) :=
  match rows.find? (sameIdentity record) with
  | none => .ok (rows ++ [record])
  | some row =>
    if sameRequired row record then .ok rows
    else .error "AgentTask identity already exists with different durable content"

def isActive (runId : String) (row : AgentHandoffRecord) : Bool :=
  row.task.runId = runId ∧ row.response = none

def recoverRun (runId : String) : Option RunResult :=
  match rows.reverse.find? (isActive runId) with
  | some row => some row.requiredResponse
  | none => rows.reverse.findSome? (fun row => if row.task.runId = runId then row.response else none)

def setResponse (checkpointRef resultHash : String) (response : RunResult) : List AgentHandoffRecord :=
  rows.map (fun row =>
    if row.checkpointRef = checkpointRef then
      { row with resultHash := some resultHash, response := some response }
    else row)

end Store

abbrev EngineDelta := {delta : PhaseDelta // delta.flow.agentResultHashes = none}

structure Superstep where
  deltas : List EngineDelta
  newId : String
  next : List String

def Superstep.values (s : Superstep) (values : WorkflowState) : WorkflowState :=
  s.deltas.foldl (fun values delta => applyDelta values delta.1.data delta.1.flow) values

def Superstep.apply (s : Superstep) (latest : Checkpoint) : Checkpoint where
  checkpointId := s.newId
  checkpointNs := latest.checkpointNs
  next := s.next
  values := s.values latest.values

inductive Stage where
  | opened
  | applied
  deriving DecidableEq

structure Submission where
  checkpointRef : String
  result : AgentResult
  stage : Stage

inductive RunStage where
  | checkedStore
  | executing (started : Bool)
  | putting (record : AgentHandoffRecord)

inductive Event where
  | applied (taskId : String)
  | returned (checkpointRef : String) (response : RunResult)
  | rejected (checkpointRef resultHash : String)
  deriving DecidableEq

structure System where
  rows : List AgentHandoffRecord
  graph : Option Checkpoint
  issued : List String
  submission : Option Submission
  runs : List RunStage
  log : List Event

inductive Conclusion where
  | stopped (deadline : Option String)
  | raised (error : RuntimeErrorPayload)

inductive Action where
  | submitBegin (checkpointRef : String) (result : AgentResult)
  | engineFails (error : RuntimeErrorPayload)
  | applyCompletion (newId : String) (next : List String)
  | superstep (s : Superstep)
  | submitCommit (conclusion : Conclusion)
  | submitAbort
  | runBegin
  | runRecover (i : Nat) (deadline : Option String)
  | runStart (i : Nat) (newId : String) (next : List String)
  | runSuperstep (i : Nat) (s : Superstep)
  | runPause (i : Nat) (deadline : Option String)
  | runPut (i : Nat)
  | runDrop (i : Nat)

inductive Entry where
  | cached (response : RunResult)
  | opened

namespace HostRuntime

variable (rt : HostRuntime)

def phaseInputs (schema : Schema) (context : BusinessData) : Except String (Dict String Value) :=
  let selected :=
    match dictAt schema "properties" with
    | some properties => context.restrict (· ∈ properties.keys)
    | none => context.erase "phase_outputs"
  match rt.V.checkSchema (.ofDict schema) with
  | some message => .error ("paused Agent phase inputs do not satisfy its JSON Schema: " ++ message)
  | none =>
    if rt.V.isValid (.ofDict schema) (.ofDict selected) then .ok selected
    else .error ("paused Agent phase inputs do not satisfy its JSON Schema: " ++
      rt.V.bestMatch (.ofDict schema) (.ofDict selected))

def identity (latest : Checkpoint) (phaseId : String) : TaskIdentity where
  runId := rt.request.runId
  address := ⟨rt.graphId, phaseId⟩
  checkpointId := latest.checkpointId
  checkpointNs := latest.checkpointNs

def checkpointRef (identity : TaskIdentity) : String := "gskill-handoff-v1:" ++ rt.taskId identity

def handoffTask (latest : Checkpoint) (phaseId : String) (io : PhaseIo) (inputs : Dict String Value)
    (deadline : Option String) : AgentTask where
  taskId := rt.taskId (rt.identity latest phaseId)
  runId := rt.request.runId
  address := ⟨rt.graphId, phaseId⟩
  inputs := inputs
  outputSchema := io.outputs
  deadline := deadline

def handoffRecord (mode : RunMode) (latest : Checkpoint) (task : AgentTask) : AgentHandoffRecord where
  checkpointRef := rt.checkpointRef (rt.identity latest task.address.phaseId)
  task := task
  checkpointId := latest.checkpointId
  checkpointNs := latest.checkpointNs
  requiredResponse :=
    { status := .agentRequired task (rt.checkpointRef (rt.identity latest task.address.phaseId))
      runId := rt.request.runId
      mode := mode
      request := rt.request
      outputs := latest.values.data }

def buildAgentHandoff (mode : RunMode) (deadline : Option String) (latest : Checkpoint) :
    Except String AgentHandoffRecord :=
  match latest.next with
  | [] => .error "the engine did not stop at an Agent phase"
  | phaseId :: _ =>
    match rt.phases.get? phaseId with
    | none => .error ("engine paused before non-Agent phase '" ++ phaseId ++ "'")
    | some io =>
      if latest.checkpointId = "" then .error "Agent pause has no durable checkpoint id"
      else do
        let inputs ← rt.phaseInputs io.inputs latest.values.data
        return rt.handoffRecord mode latest (rt.handoffTask latest phaseId io inputs deadline)

def validateRecordOwner (record : AgentHandoffRecord) : Except String Unit :=
  if record.task.runId ≠ rt.request.runId then .error "checkpoint_ref belongs to a different run"
  else if record.requiredResponse.request ≠ rt.request then
    .error "checkpoint_ref belongs to a different immutable run request"
  else .ok ()

def submitEntry (rows : List AgentHandoffRecord) (checkpointRef : String) (result : AgentResult) :
    Except String Entry :=
  match load rows checkpointRef with
  | none => .error ("unknown Agent handoff checkpoint_ref '" ++ checkpointRef ++ "'")
  | some record => do
    rt.validateRecordOwner record
    validateAgentResult rt.V record.task result
    match record.response with
    | some response =>
      if record.resultHash ≠ some (rt.resultHash result) then
        .error "this AgentTask already completed with a different result"
      else .ok (.cached response)
    | none => .ok .opened

def resumeResult (status : RunStatus) (outputs : Dict String Value) : RunResult where
  status := status
  runId := rt.request.runId
  mode := .resume
  request := rt.request
  outputs := outputs

end HostRuntime

namespace System

def logged (s : System) (event : Event) : System := { s with log := s.log ++ [event] }

/-- The transaction is rolled back; what the graph wrote stays. -/
def rejected (s : System) (checkpointRef resultHash : String) : System :=
  { s with submission := none, log := s.log ++ [.rejected checkpointRef resultHash] }

def commit (s : System) (rows : List AgentHandoffRecord) (checkpointRef resultHash : String)
    (response : RunResult) : System :=
  { s with
    rows := setResponse rows checkpointRef resultHash response
    submission := none
    log := s.log ++ [.returned checkpointRef response] }

def setRun (s : System) (i : Nat) (stage : RunStage) : System := { s with runs := s.runs.set i stage }

def dropRun (s : System) (i : Nat) : System := { s with runs := s.runs.eraseIdx i }

def runPut (s : System) (i : Nat) (record : AgentHandoffRecord) : System :=
  match insertRequired s.rows record with
  | .ok rows => { s.dropRun i with rows := rows }
  | .error _ => s.dropRun i

end System

namespace HostRuntime

variable (rt : HostRuntime)

def submitBegin (s : System) (checkpointRef : String) (result : AgentResult) : System :=
  match rt.submitEntry s.rows checkpointRef result with
  | .error _ => s.logged (.rejected checkpointRef (rt.resultHash result))
  | .ok (.cached response) => s.logged (.returned checkpointRef response)
  | .ok .opened => { s with submission := some ⟨checkpointRef, result, .opened⟩ }

def applyCompletion (s : System) (sub : Submission) (record : AgentHandoffRecord)
    (output : Dict String Value) (newId : String) (next : List String) : System :=
  let completion : ExternalPhaseCompletion :=
    { taskId := sub.result.taskId
      phaseId := record.task.address.phaseId
      resultHash := rt.resultHash sub.result
      output := output }
  match applyExternalPhaseCompletion s.graph rt.request.runId record.checkpointId record.checkpointNs
      completion newId next with
  | .error _ => s.rejected sub.checkpointRef (rt.resultHash sub.result)
  | .ok .already => { s with submission := some { sub with stage := .applied } }
  | .ok (.updated checkpoint) =>
    { s with
      graph := some checkpoint
      issued := newId :: s.issued
      submission := some { sub with stage := .applied }
      log := s.log ++ [.applied sub.result.taskId] }

def submitCommit (s : System) (sub : Submission) (latest : Checkpoint) : Conclusion → System
  | .raised error =>
    s.commit s.rows sub.checkpointRef (rt.resultHash sub.result)
      (rt.resumeResult (.failed error) ∅)
  | .stopped deadline =>
    if latest.next = [] then
      s.commit s.rows sub.checkpointRef (rt.resultHash sub.result)
        (rt.resumeResult .completed latest.values.data)
    else
      match rt.buildAgentHandoff .resume deadline latest with
      | .error _ => s.rejected sub.checkpointRef (rt.resultHash sub.result)
      | .ok record =>
        match insertRequired s.rows record with
        | .error _ => s.rejected sub.checkpointRef (rt.resultHash sub.result)
        | .ok rows =>
          s.commit rows sub.checkpointRef (rt.resultHash sub.result) record.requiredResponse

def commitUnapplied (s : System) (sub : Submission) (record : AgentHandoffRecord)
    (error : RuntimeErrorPayload) (outputs : Dict String Value) : System :=
  s.commit s.rows record.checkpointRef (rt.resultHash sub.result)
    (rt.resumeResult (.failed error) outputs)

def initialCheckpoint (newId : String) (next : List String) : Checkpoint where
  checkpointId := newId
  checkpointNs := ""
  next := next
  values := { data := rt.request.inputs, flow := { runId := some rt.request.runId }, messages := [] }

def isRecoverable (latest : Checkpoint) : Bool :=
  match latest.next with
  | [phaseId] => rt.phases.contains phaseId
  | _ => false

def runRecover (s : System) (i : Nat) (deadline : Option String) : System :=
  match s.graph with
  | none => s.setRun i (.executing false)
  | some latest =>
    if rt.isRecoverable latest then
      match rt.buildAgentHandoff .run deadline latest with
      | .ok record => s.setRun i (.putting record)
      | .error _ => s.dropRun i
    else s.dropRun i

def step (s : System) : Action → Option System
  | .submitBegin checkpointRef result =>
    if s.submission.isSome then none else some (rt.submitBegin s checkpointRef result)
  | .engineFails error =>
    match s.submission with
    | some ⟨checkpointRef, result, .opened⟩ =>
      match load s.rows checkpointRef, result.completedOutput with
      | some record, some _ =>
        some (rt.commitUnapplied s ⟨checkpointRef, result, .opened⟩ record error ∅)
      | _, _ => none
    | _ => none
  | .applyCompletion newId next =>
    match s.submission with
    | some ⟨checkpointRef, result, .opened⟩ =>
      match load s.rows checkpointRef, result.completedOutput with
      | some record, some output =>
        if newId ∈ s.issued then none
        else some (rt.applyCompletion s ⟨checkpointRef, result, .opened⟩ record output newId next)
      | _, _ => none
    | _ => none
  | .superstep move =>
    match s.submission, s.graph with
    | some ⟨_, _, .applied⟩, some latest =>
      if move.newId ∈ s.issued then none
      else some { s with graph := some (move.apply latest), issued := move.newId :: s.issued }
    | _, _ => none
  | .submitCommit conclusion =>
    match s.submission, s.graph with
    | some ⟨checkpointRef, result, .applied⟩, some latest =>
      some (rt.submitCommit s ⟨checkpointRef, result, .applied⟩ latest conclusion)
    | some ⟨checkpointRef, result, .opened⟩, _ =>
      match load s.rows checkpointRef, result.completedOutput, result.error with
      | some record, none, some error => some (rt.commitUnapplied s ⟨checkpointRef, result, .opened⟩
          record error record.requiredResponse.outputs)
      | _, _, _ => none
    | _, _ => none
  | .submitAbort => some { s with submission := none }
  | .runBegin =>
    match recoverRun s.rows rt.request.runId with
    | some _ => some s
    | none => some { s with runs := s.runs ++ [.checkedStore] }
  | .runRecover i deadline =>
    match s.runs[i]? with
    | some .checkedStore => some (rt.runRecover s i deadline)
    | _ => none
  | .runStart i newId next =>
    match s.runs[i]? with
    | some (.executing false) =>
      if newId ∈ s.issued then none
      else some { s.setRun i (.executing true) with
        graph := some (rt.initialCheckpoint newId next)
        issued := newId :: s.issued }
    | _ => none
  | .runSuperstep i move =>
    match s.runs[i]?, s.graph with
    | some (.executing true), some latest =>
      if move.newId ∈ s.issued then none
      else some { s with graph := some (move.apply latest), issued := move.newId :: s.issued }
    | _, _ => none
  | .runPause i deadline =>
    match s.runs[i]?, s.graph with
    | some (.executing true), some latest =>
      match rt.buildAgentHandoff .run deadline latest with
      | .ok record => some (s.setRun i (.putting record))
      | .error _ => some (s.dropRun i)
    | _, _ => none
  | .runPut i =>
    match s.runs[i]? with
    | some (.putting record) => if s.submission.isSome then none else some (s.runPut i record)
    | _ => none
  | .runDrop i => some (s.dropRun i)

end HostRuntime

end GraphSkillRuntime
