import GraphSkillRuntime.Runs

/-!
The transition segment between one phase execution and the next, the wrappers that open and close it
around a phase, and the runs these wrappers take part in.
-/

namespace GraphSkillRuntime.EdgeSegments

open Runs

structure EdgeTransition where
  transitionId : ℕ
  fromPhases : List String
  toPhase : String
  toPhaseExecutionId : ℕ
  branchIndex : Option ℕ
  operationCount : ℕ := 0
  closed : Bool := false
  deriving DecidableEq

inductive EventBody where
  | edgeStart (transition : EdgeTransition)
  | edgeEnd (transition : EdgeTransition)
  | phaseStart (phaseName : String) (phaseExecutionId : ℕ)
  | phaseEnd (phaseName : String) (phaseExecutionId : ℕ) (completed : Bool)
  | inputDispatch (transitionId : Option ℕ) (fromPhases : List String) (toPhase : String)
      (branchIndex : Option ℕ)
  | inputFileInjected (transitionId : Option ℕ) (fromPhases : List String) (toPhase : String)
  | blackboardReduce (transitionId : Option ℕ) (fromPhases : List String) (toPhase : String)
  | other
  deriving DecidableEq

/-- The subgraph path pairs each enclosing SUBGRAPH phase with the execution of it that is running; the
stamp on an event keeps the names alone. -/
structure Event where
  body : EventBody
  subgraphPath : List (String × Option ℕ)
  deriving DecidableEq

structure Context where
  activeEdgeTransition : Option ℕ := none
  activePhaseExecution : Option ℕ := none
  activeBranchIndex : Option ℕ := none
  activeSubgraphPath : List (String × Option ℕ) := []

/-- Ids are drawn from a counter, as every `uuid4` is new. `returned` notes the executions whose
`wrap_phase_output` returned, which no event of the run but `phase_end` says. -/
structure RunState where
  drawn : ℕ := 0
  transition : ℕ → Option EdgeTransition := fun _ => none
  returned : List ℕ := []
  log : List Event := []
  context : Context := {}

/-- What a call does to the run, and whether it returned or raised. -/
abbrev Action := RunState → Bool × RunState

namespace Action

def andThen (a b : Action) : Action := fun s =>
  match a s with
  | (true, s) => b s
  | (false, s) => (false, s)

def finally_ (a : Action) (f : RunState → RunState) : Action := fun s => ((a s).1, f (a s).2)

def check (ok : Bool) : Action := fun s => (ok, s)

end Action

namespace RunState

def emit (s : RunState) (body : EventBody) : RunState :=
  { s with log := s.log ++ [{ body, subgraphPath := s.context.activeSubgraphPath }] }

def activeTransition (s : RunState) : Option EdgeTransition :=
  s.context.activeEdgeTransition.bind s.transition

def store (s : RunState) (tr : EdgeTransition) : RunState :=
  { s with transition := Function.update s.transition tr.transitionId (some tr) }

def transitionIdentity (s : RunState) : Option ℕ × List String :=
  match s.activeTransition with
  | none => (none, [])
  | some tr => (some tr.transitionId, tr.fromPhases)

def recordEdgeOperation (s : RunState) : RunState :=
  match s.activeTransition with
  | none => s
  | some tr => s.store { tr with operationCount := tr.operationCount + 1 }

def closeEdgeTransition (s : RunState) : RunState :=
  match s.activeTransition with
  | none => s
  | some tr =>
    if tr.closed then s
    else (s.store { tr with closed := true }).emit (.edgeEnd { tr with closed := true })

def activePhaseExecutionId (s : RunState) : ℕ × RunState :=
  match s.activeTransition with
  | some tr => (tr.toPhaseExecutionId, s)
  | none => (s.drawn, { s with drawn := s.drawn + 1 })

/-- The lifecycle's `opened`: the transition ends where the phase begins. -/
def opened (s : RunState) (phaseId : String) : ℕ × RunState :=
  let (executionId, s) := s.closeEdgeTransition.activePhaseExecutionId
  (executionId, s.emit (.phaseStart phaseId executionId))

def ended (s : RunState) (phaseId : String) (executionId : ℕ) (completed : Bool) : RunState :=
  s.emit (.phaseEnd phaseId executionId completed)

def emitBlackboardReduce (s : RunState) (toPhase : String) : RunState :=
  let (transitionId, fromPhases) := s.transitionIdentity
  s.recordEdgeOperation.emit (.blackboardReduce transitionId fromPhases toPhase)

end RunState

open Action RunState

/-- The steps of a phase execution around its node, each with whether it returned: the declared input
files in order, the projection that is reported and the one that is handed on, the check of the required
inputs, and the output validation with the author's validator. -/
structure PhaseSteps where
  phaseId : String
  upstreamPhases : List String
  inputFiles : List Bool
  dispatched : Bool
  selected : Bool
  required : Bool
  outputWrapped : Bool

def wrapEdgeTransition (phaseId : String) (upstreamPhases : List String) (node : Action) : Action :=
  fun s =>
    let tr : EdgeTransition :=
      { transitionId := s.drawn, fromPhases := upstreamPhases, toPhase := phaseId,
        toPhaseExecutionId := s.drawn + 1, branchIndex := s.context.activeBranchIndex }
    let token := s.context
    let entered := { s.store tr with
      drawn := s.drawn + 2
      context := { s.context with
        activeEdgeTransition := some tr.transitionId
        activePhaseExecution := some tr.toPhaseExecutionId } }
    finally_ node (fun s =>
      let s := s.closeEdgeTransition
      { s with context := { s.context with
          activeEdgeTransition := token.activeEdgeTransition
          activePhaseExecution := token.activePhaseExecution } }) (entered.emit (.edgeStart tr))

def injectDeclaredInputFiles (phaseId : String) : List Bool → Action
  | [], s => (true, s)
  | false :: _, s => (false, s)
  | true :: files, s =>
    let (transitionId, fromPhases) := s.transitionIdentity
    injectDeclaredInputFiles phaseId files
      (s.recordEdgeOperation.emit (.inputFileInjected transitionId fromPhases phaseId))

def emitInputDispatch (phaseId : String) (dispatched : Bool) : Action := fun s =>
  if dispatched then
    let (transitionId, fromPhases) := s.transitionIdentity
    (true, s.recordEdgeOperation.emit
      (.inputDispatch transitionId fromPhases phaseId s.context.activeBranchIndex))
  else (false, s)

/-- The output validation and the author's validator of one execution. -/
def wrapPhaseOutput (executionId : ℕ) (outputWrapped : Bool) : Action := fun s =>
  if outputWrapped then (true, { s with returned := executionId :: s.returned }) else (false, s)

/-- `PhaseWrapper.wrap`: the status is `completed` once every step of the `try` is through, and an
execution that opened ends in the `finally`. -/
def wrapPhase (steps : PhaseSteps) (node : Action) : Action := fun s =>
  if steps.selected then
    let (executionId, s) := s.opened steps.phaseId
    let (completed, s) := andThen (andThen (check steps.required) node)
      (wrapPhaseOutput executionId steps.outputWrapped) s
    (completed, s.ended steps.phaseId executionId completed)
  else (false, s)

def wrapPhaseRuntimeNode (steps : PhaseSteps) (node : Action) : Action :=
  wrapEdgeTransition steps.phaseId steps.upstreamPhases <|
    andThen (injectDeclaredInputFiles steps.phaseId steps.inputFiles) <|
      andThen (emitInputDispatch steps.phaseId steps.dispatched) (wrapPhase steps node)

def runWithIterationContext (index : ℕ) (action : Action) : Action := fun s =>
  let token := s.context.activeBranchIndex
  finally_ action (fun s => { s with context := { s.context with activeBranchIndex := token } })
    { s with context := { s.context with activeBranchIndex := some index } }

def subgraphNode (phaseName : String) (child : Action) : Action := fun s =>
  let token := s.context.activeSubgraphPath
  finally_ child (fun s => { s with context := { s.context with activeSubgraphPath := token } })
    { s with context := { s.context with
        activeSubgraphPath := token ++ [(phaseName, s.context.activePhaseExecution)] } }

/-- Two calls on threads of their own, each on a copy of the context, joined before the caller goes on.
They write to one log as the schedule has it and share nothing that both change: the transition they
start in, if any, is closed. -/
def inThreads (schedule : List Bool) (a b : Action) : Action := fun s =>
  let left := a { s with log := [] }
  let right := b { left.2 with log := [], context := s.context }
  (left.1 && right.1,
    { right.2 with log := s.log ++ weave schedule left.2.log right.2.log, context := s.context })

inductive Plan where
  | skip
  | fail
  | other
  | seq (p q : Plan)
  | par (schedule : List Bool) (p q : Plan)
  | iteration (index : ℕ) (p : Plan)
  | reduce (toPhase : String)
  | phase (steps : PhaseSteps) (node : Plan)
  | subgraph (phaseName : String) (child : Plan)

namespace Plan

def run : Plan → Action
  | skip => check true
  | fail => check false
  | other => fun s => (true, s.emit .other)
  | seq p q => andThen p.run q.run
  | par schedule p q => inThreads schedule p.run q.run
  | iteration index p => runWithIterationContext index p.run
  | reduce toPhase => fun s => (true, s.emitBlackboardReduce toPhase)
  | phase steps node => wrapPhaseRuntimeNode steps node.run
  | subgraph phaseName child => subgraphNode phaseName child.run

/-- Rounds from the given index on, each with whether its output had the accumulated field. The reducer
reports after the round's own call returned. -/
def loopRounds (toPhase : String) (round : Plan → Plan) : ℕ → List (Plan × Bool) → Plan
  | _, [] => skip
  | index, (p, merged) :: rounds =>
    seq (iteration index (round p))
      (seq (if merged then reduce toPhase else fail) (loopRounds toPhase round (index + 1) rounds))

def batchItems (item : Plan → Plan) : ℕ → List (Plan × List Bool) → Plan
  | _, [] => skip
  | index, (p, schedule) :: items =>
    par schedule (iteration index (item p)) (batchItems item (index + 1) items)

def loopIteratePhase (steps : PhaseSteps) : List (Plan × Bool) → Plan :=
  loopRounds steps.phaseId (phase steps) 1

def batchIteratePhase (steps : PhaseSteps) : List (Plan × List Bool) → Plan :=
  batchItems (phase steps) 1

def subgraphPhase (steps : PhaseSteps) (child : Plan) : Plan :=
  phase steps (subgraph steps.phaseId child)

/-- A run of the plan from the root of a process: no context variable is set. -/
def trace (p : Plan) : RunState := (p.run {}).2

end Plan

end GraphSkillRuntime.EdgeSegments
