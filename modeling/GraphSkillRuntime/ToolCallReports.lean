import GraphSkillRuntime.AgentMessages
import GraphSkillRuntime.LaneNamespaces

/-!
The closing reports of tool calls: one reporter belongs to the tracing middleware, another to the agent
node, which sweeps the finished message list.
-/

namespace GraphSkillRuntime

open OrderedDict

/-- A call without an id is reported under a fresh uuid, which is `none` here: no call of the run has
it. -/
structure ToolCallEvent where
  toolCallId : Option String
  phaseName : String
  toolName : String
  args : Dict String Value
  result : String
  parentNodeId : Option String
  nodeType : Option String

inductive TraceEvent where
  | toolCallStarted (toolCallId : Option String) (phaseName toolName : String) (args : Dict String Value)
  | toolCall (event : ToolCallEvent)

structure StepReporter where
  phaseName : String
  reportedToolCalls : List String := []

namespace StepReporter

variable (r : StepReporter)

def finished (toolCallId : Option String) (toolName : String) (args : Dict String Value) (result : String) :
    StepReporter × ToolCallEvent :=
  ({ r with reportedToolCalls := toolCallId.toList ++ r.reportedToolCalls },
   { toolCallId := toolCallId
     phaseName := r.phaseName
     toolName := toolName
     args := args
     result := result
     parentNodeId := none
     nodeType := some "tool" })

def completedToolCall (toolCallId : Option String) (toolName : String) (args : Dict String Value)
    (result parentNodeId : String) : List ToolCallEvent :=
  if toolCallId.any (· ∈ r.reportedToolCalls) then []
  else
    [{ toolCallId := toolCallId
       phaseName := r.phaseName
       toolName := toolName
       args := args
       result := result
       parentNodeId := some parentNodeId
       nodeType := some "agent" }]

end StepReporter

inductive ToolAnswer where
  | message (content : Value) (isError : Bool)
  | command (messages : List Message)

inductive TraceStep where
  | model (id : Option String) (content : Value) (calls : List ToolCall)
  | tool (call : ToolCall) (answer : ToolAnswer)
  | rewrite (messages : List Message)

/-- One execution of the agent phase. `lane` is the conversation that the checkpoint lane already
holds. -/
structure AgentPass where
  lane : List Message
  inputMessages : List Message
  steps : List TraceStep
  returned : Bool

def TraceStep.executed : TraceStep → Option (ToolCall × ToolAnswer)
  | .tool call answer => some (call, answer)
  | _ => none

def stepMessages (messages : List Message) : TraceStep → List Message
  | .model id content calls => messages ++ [.ai id content calls]
  | .tool call (.message content isError) =>
    messages ++ [.tool none (some call.name) content (call.id.getD "") isError]
  | .tool _ (.command added) => messages ++ added
  | .rewrite messages => messages

namespace AgentPass

def resMessages (pass : AgentPass) : List Message := pass.steps.foldl stepMessages (pass.lane ++ pass.inputMessages)

def newMessages (pass : AgentPass) : List Message := pass.resMessages.drop pass.inputMessages.length

def executed (pass : AgentPass) : List (ToolCall × ToolAnswer) := pass.steps.filterMap TraceStep.executed

end AgentPass

def Message.toolCallId : Message → Option String
  | .tool _ _ _ toolCallId _ => some toolCallId
  | _ => none

def Message.content : Message → Value
  | .human _ _ content | .ai _ content _ | .tool _ _ content _ _ => content

structure PhaseTracing where
  phaseId : String
  toolNames : List String
  printer : Printer

structure Reporters where
  middleware : StepReporter
  node : StepReporter

namespace PhaseTracing

variable (T : PhaseTracing)

def resultContent : Value → String
  | .str s => s
  | content => T.printer.dumps content

/-- `TracingMiddleware.wrap_tool_call`: a tool that answers with a command leaves its step open. -/
def traceStep (r : Reporters) : TraceStep → Reporters × List TraceEvent
  | .tool call answer =>
    let started := TraceEvent.toolCallStarted (truthy? call.id) r.middleware.phaseName call.name call.args
    match answer with
    | .message content _ =>
      let (middleware, event) :=
        r.middleware.finished (truthy? call.id) call.name call.args (T.resultContent content)
      ({ r with middleware := middleware }, [started, .toolCall event])
    | .command _ => (r, [started])
  | _ => (r, [])

def traceSteps : Reporters → List TraceStep → Reporters × List TraceEvent
  | r, [] => (r, [])
  | r, step :: steps =>
    let (r, events) := T.traceStep r step
    let (r, rest) := traceSteps r steps
    (r, events ++ rest)

def followResult (toolCallId : Option String) (rest : List Message) : String :=
  match rest.find? (fun msg => msg.toolCallId = toolCallId) with
  | some msg => T.printer.str msg.content
  | none => ""

def sweep (node : StepReporter) : List Message → List ToolCallEvent
  | [] => []
  | msg :: rest =>
    msg.toolCalls.flatMap (fun call => node.completedToolCall (truthy? call.id) call.name call.args
      (T.followResult call.id rest) T.phaseId) ++ sweep node rest

def knowsTools (messages : List Message) : Bool :=
  messages.all (fun msg => msg.toolCalls.all (·.name ∈ T.toolNames))

def tracePass (r : Reporters) (pass : AgentPass) : Reporters × List TraceEvent :=
  let (r, events) := T.traceSteps r pass.steps
  (r, events ++
    if pass.returned && T.knowsTools pass.newMessages then
      (T.sweep r.node pass.newMessages).map TraceEvent.toolCall
    else [])

def traceRun : Reporters → List AgentPass → List TraceEvent
  | _, [] => []
  | r, pass :: passes =>
    let (r, events) := T.tracePass r pass
    events ++ traceRun r passes

def start : Reporters := ⟨⟨T.phaseId, []⟩, ⟨T.phaseId, []⟩⟩

def sweptCalls (pass : AgentPass) : List ToolCall :=
  if pass.returned && T.knowsTools pass.newMessages then pass.newMessages.flatMap Message.toolCalls else []

end PhaseTracing

def reports (id : String) : TraceEvent → Bool
  | .toolCall event => event.toolCallId = some id
  | .toolCallStarted .. => false

def carries (id : String) (call : ToolCall) : Bool := call.id = some id

def ToolAnswer.isCommand : ToolAnswer → Bool
  | .command _ => true
  | .message .. => false

def OneReportPerCall (T : PhaseTracing) (passes : List AgentPass) : Prop :=
  ∀ id, id ≠ "" → (T.traceRun T.start passes).countP (reports id) =
    (passes.flatMap AgentPass.executed).countP (fun e => carries id e.1)

/-- The sweeps find a call once for each time that a call of its id was answered with a command. -/
def SweepsFindCommands (T : PhaseTracing) (passes : List AgentPass) : Prop :=
  ∀ id, id ≠ "" → (passes.flatMap T.sweptCalls).countP (carries id) =
    (passes.flatMap AgentPass.executed).countP (fun e => carries id e.1 && e.2.isCommand)

structure AnsweredTurn where
  id : Option String
  content : Value
  answered : List (ToolCall × ToolAnswer)

def AnsweredTurn.steps (turn : AnsweredTurn) : List TraceStep :=
  .model turn.id turn.content (turn.answered.map Prod.fst) ::
    turn.answered.map fun e => .tool e.1 e.2

/-- An execution on a fresh lane that keeps its conversation and returns with it. -/
structure AgentPass.Whole (T : PhaseTracing) (pass : AgentPass) : Prop where
  lane : pass.lane = []
  returned : pass.returned = true
  knows : T.knowsTools pass.newMessages = true
  turns : ∃ turns : List AnsweredTurn, pass.steps = turns.flatMap AnsweredTurn.steps
  replies : ∀ call added, .tool call (.command added) ∈ pass.steps → ∀ msg ∈ added, msg.toolCalls = []

theorem truthy?_eq_some_iff {id : String} (hid : id ≠ "") (callId : Option String) :
    truthy? callId = some id ↔ callId = some id := by
  unfold truthy?
  split
  · split <;> simp_all [eq_comm]
  · simp

namespace PhaseTracing

variable (T : PhaseTracing)

theorem traceStep_node (r : Reporters) (step : TraceStep) : (T.traceStep r step).1.node = r.node := by
  cases step with
  | tool call answer => cases answer <;> rfl
  | model id content calls => rfl
  | rewrite messages => rfl

theorem traceSteps_node (r : Reporters) (steps : List TraceStep) :
    (T.traceSteps r steps).1.node = r.node := by
  induction steps generalizing r with
  | nil => rfl
  | cons step steps ih => exact (ih _).trans (T.traceStep_node r step)

theorem countP_traceStep {id : String} (hid : id ≠ "") (r : Reporters) (step : TraceStep) :
    (T.traceStep r step).2.countP (reports id) =
      step.executed.toList.countP (fun e => carries id e.1 && !e.2.isCommand) := by
  cases step with
  | model callId content calls => rfl
  | rewrite messages => rfl
  | tool call answer =>
    cases answer with
    | command added => simp [traceStep, TraceStep.executed, reports, ToolAnswer.isCommand]
    | message content isError =>
      simp [traceStep, TraceStep.executed, reports, ToolAnswer.isCommand, StepReporter.finished,
        carries, truthy?_eq_some_iff hid]

theorem countP_traceSteps {id : String} (hid : id ≠ "") (r : Reporters) (steps : List TraceStep) :
    (T.traceSteps r steps).2.countP (reports id) =
      (steps.filterMap TraceStep.executed).countP (fun e => carries id e.1 && !e.2.isCommand) := by
  induction steps generalizing r with
  | nil => rfl
  | cons step steps ih =>
    have hstep := T.countP_traceStep hid r step
    have hcons : (step :: steps).filterMap TraceStep.executed =
        step.executed.toList ++ steps.filterMap TraceStep.executed := by
      cases h : step.executed <;> simp [h]
    rw [hcons, List.countP_append, ← hstep, ← ih (T.traceStep r step).1, ← List.countP_append]
    rfl

theorem countP_sweep {id : String} (hid : id ≠ "") {node : StepReporter} (hn : node.reportedToolCalls = [])
    (messages : List Message) :
    ((T.sweep node messages).map TraceEvent.toolCall).countP (reports id) =
      (messages.flatMap Message.toolCalls).countP (carries id) := by
  have hone (callId : Option String) (name : String) (args : Dict String Value) (result parent : String) :
      ((node.completedToolCall callId name args result parent).map TraceEvent.toolCall).countP (reports id) =
        if callId = some id then 1 else 0 := by
    have hany : (callId.any (· ∈ node.reportedToolCalls)) = false := by cases callId <;> simp [hn]
    simp [StepReporter.completedToolCall, hany, reports, List.countP_cons]
  have hcalls (rest : List Message) (calls : List ToolCall) :
      ((calls.flatMap fun call => node.completedToolCall (truthy? call.id) call.name call.args
        (T.followResult call.id rest) T.phaseId).map TraceEvent.toolCall).countP (reports id) =
        calls.countP (carries id) := by
    induction calls with
    | nil => rfl
    | cons call calls ih =>
      rw [List.flatMap_cons, List.map_append, List.countP_append, hone, ih, List.countP_cons, Nat.add_comm]
      simp only [carries, decide_eq_true_eq, truthy?_eq_some_iff hid]
  induction messages with
  | nil => rfl
  | cons msg rest ih =>
    rw [sweep, List.map_append, List.countP_append, hcalls, ih, List.flatMap_cons, List.countP_append]

theorem countP_tracePass {id : String} (hid : id ≠ "") {r : Reporters} (hn : r.node.reportedToolCalls = [])
    (pass : AgentPass) :
    (T.tracePass r pass).2.countP (reports id) =
      pass.executed.countP (fun e => carries id e.1 && !e.2.isCommand) +
        (T.sweptCalls pass).countP (carries id) := by
  have hnode : (T.traceSteps r pass.steps).1.node.reportedToolCalls = [] := by rw [T.traceSteps_node, hn]
  simp only [tracePass, List.countP_append, T.countP_traceSteps hid, sweptCalls]
  split
  · rw [T.countP_sweep hid hnode]
    rfl
  · rfl

theorem countP_traceRun {id : String} (hid : id ≠ "") {r : Reporters} (hn : r.node.reportedToolCalls = [])
    (passes : List AgentPass) :
    (T.traceRun r passes).countP (reports id) =
      (passes.flatMap AgentPass.executed).countP (fun e => carries id e.1 && !e.2.isCommand) +
        (passes.flatMap T.sweptCalls).countP (carries id) := by
  induction passes generalizing r with
  | nil => rfl
  | cons pass passes ih =>
    have hnode : (T.tracePass r pass).1.node.reportedToolCalls = [] := by
      rw [← hn]
      exact congrArg _ (T.traceSteps_node r pass.steps)
    have htail := ih hnode
    simp only [traceRun, List.flatMap_cons, List.countP_append, T.countP_tracePass hid hn, htail]
    omega

end PhaseTracing

theorem countP_executed_split (id : String) (executed : List (ToolCall × ToolAnswer)) :
    executed.countP (fun e => carries id e.1) =
      executed.countP (fun e => carries id e.1 && !e.2.isCommand) +
        executed.countP (fun e => carries id e.1 && e.2.isCommand) := by
  induction executed with
  | nil => rfl
  | cons e executed ih =>
    simp only [List.countP_cons, ih]
    cases carries id e.1 <;> cases e.2.isCommand <;> simp <;> omega

theorem oneReportPerCall_iff (T : PhaseTracing) (passes : List AgentPass) :
    OneReportPerCall T passes ↔ SweepsFindCommands T passes := by
  apply forall₂_congr
  intro id hid
  rw [T.countP_traceRun hid (r := T.start) rfl, countP_executed_split]
  omega

/-! An execution that keeps its whole conversation: the sweep finds what was executed. -/

def TraceStep.added : TraceStep → List Message
  | .model id content calls => [.ai id content calls]
  | .tool call (.message content isError) => [.tool none (some call.name) content (call.id.getD "") isError]
  | .tool _ (.command added) => added
  | .rewrite _ => []

theorem stepMessages_eq {step : TraceStep} (h : ∀ messages, step ≠ .rewrite messages) (messages : List Message) :
    stepMessages messages step = messages ++ step.added := by
  cases step with
  | model id content calls => rfl
  | tool call answer => cases answer <;> rfl
  | rewrite replacement => exact absurd rfl (h replacement)

theorem foldl_stepMessages {steps : List TraceStep} (h : ∀ messages, .rewrite messages ∉ steps)
    (messages : List Message) :
    steps.foldl stepMessages messages = messages ++ steps.flatMap TraceStep.added := by
  induction steps generalizing messages with
  | nil => simp
  | cons step steps ih =>
    have hstep : ∀ replacement, step ≠ .rewrite replacement := by
      intro replacement he
      exact h replacement (he ▸ List.mem_cons_self)
    have htail : ∀ replacement, .rewrite replacement ∉ steps := by
      intro replacement hm
      exact h replacement (List.mem_cons_of_mem _ hm)
    rw [List.foldl_cons, stepMessages_eq hstep, ih htail, List.flatMap_cons, List.append_assoc]

namespace AnsweredTurn

theorem no_rewrite (turn : AnsweredTurn) (messages : List Message) : .rewrite messages ∉ turn.steps := by
  simp [steps]

theorem executed_steps (turn : AnsweredTurn) : turn.steps.filterMap TraceStep.executed = turn.answered := by
  have hcomp : TraceStep.executed ∘ (fun e : ToolCall × ToolAnswer => TraceStep.tool e.1 e.2) = some := rfl
  rw [steps, List.filterMap_cons_none rfl, List.filterMap_map, hcomp, List.filterMap_some]

theorem toolCalls_added (turn : AnsweredTurn)
    (h : ∀ call added, .tool call (.command added) ∈ turn.steps → ∀ msg ∈ added, msg.toolCalls = []) :
    (turn.steps.flatMap TraceStep.added).flatMap Message.toolCalls = turn.answered.map Prod.fst := by
  have hrest : (turn.answered.map fun e => TraceStep.tool e.1 e.2).flatMap
      (fun step => step.added.flatMap Message.toolCalls) = [] := by
    rw [List.flatMap_eq_nil_iff]
    intro step hstep
    obtain ⟨⟨call, answer⟩, hm, rfl⟩ := List.mem_map.1 hstep
    cases answer with
    | message content isError => rfl
    | command added =>
      rw [TraceStep.added, List.flatMap_eq_nil_iff]
      exact h call added (List.mem_cons_of_mem _ hstep)
  rw [List.flatMap_assoc, steps, List.flatMap_cons, hrest]
  simp [TraceStep.added, Message.toolCalls]

end AnsweredTurn

namespace AgentPass

variable {T : PhaseTracing} {pass : AgentPass}

theorem Whole.sweptCalls_eq (h : pass.Whole T) : T.sweptCalls pass = pass.executed.map Prod.fst := by
  obtain ⟨turns, hturns⟩ := h.turns
  have hrewrite : ∀ messages, .rewrite messages ∉ pass.steps := by
    intro messages hm
    rw [hturns, List.mem_flatMap] at hm
    obtain ⟨turn, _, hm⟩ := hm
    exact turn.no_rewrite messages hm
  have hnew : pass.newMessages = pass.steps.flatMap TraceStep.added := by
    rw [newMessages, resMessages, foldl_stepMessages hrewrite, h.lane, List.nil_append, List.drop_left]
  have hreplies := h.replies
  have hcalls : (pass.steps.flatMap TraceStep.added).flatMap Message.toolCalls =
      pass.executed.map Prod.fst := by
    rw [executed, hturns]
    rw [hturns] at hreplies
    clear hturns hrewrite hnew h
    induction turns with
    | nil => rfl
    | cons turn turns ih =>
      have hhead := turn.toolCalls_added fun call added hm =>
        hreplies call added (List.mem_append_left _ hm)
      have htail := ih fun call added hm => hreplies call added (List.mem_append_right _ hm)
      rw [List.flatMap_cons, List.flatMap_append, List.flatMap_append, hhead, htail, List.filterMap_append,
        List.map_append, turn.executed_steps]
  rw [PhaseTracing.sweptCalls, h.returned, h.knows, Bool.and_self, if_pos rfl, hnew, hcalls]

end AgentPass

theorem sweepsFindCommands_iff_of_whole {T : PhaseTracing} {passes : List AgentPass}
    (h : ∀ pass ∈ passes, pass.Whole T) :
    SweepsFindCommands T passes ↔
      ∀ e ∈ passes.flatMap AgentPass.executed, ∀ id, id ≠ "" → e.1.id = some id → e.2.isCommand = true := by
  have hswept : passes.flatMap T.sweptCalls = (passes.flatMap AgentPass.executed).map Prod.fst := by
    rw [List.map_flatMap]
    exact List.flatMap_congr fun pass hp => (h pass hp).sweptCalls_eq
  have hcount (id : String) : (passes.flatMap T.sweptCalls).countP (carries id) =
      (passes.flatMap AgentPass.executed).countP (fun e => carries id e.1) := by
    rw [hswept, List.countP_map]
    rfl
  have hzero (id : String) :
      ((passes.flatMap T.sweptCalls).countP (carries id) =
        (passes.flatMap AgentPass.executed).countP (fun e => carries id e.1 && e.2.isCommand)) ↔
      ∀ e ∈ passes.flatMap AgentPass.executed, e.1.id = some id → e.2.isCommand = true := by
    rw [hcount, countP_executed_split, Nat.add_eq_right, List.countP_eq_zero]
    simp [carries]
  constructor
  · intro hs e he id hid hcall
    exact (hzero id).1 (hs id hid) e he hcall
  · intro hs id hid
    exact (hzero id).2 fun e he => hs e he id hid

/-- The closing reports of an agent phase are one for each executed call exactly when the sweeps find
the calls answered with a command and no other; over whole executions, exactly when no tool answers
with a message. -/
theorem closing_reports_iff (T : PhaseTracing) (passes : List AgentPass) :
    (OneReportPerCall T passes ↔ SweepsFindCommands T passes) ∧
      ((∀ pass ∈ passes, pass.Whole T) → (OneReportPerCall T passes ↔
        ∀ e ∈ passes.flatMap AgentPass.executed, ∀ id, id ≠ "" → e.1.id = some id →
          e.2.isCommand = true)) := by
  refine ⟨oneReportPerCall_iff T passes, ?_⟩
  intro h
  rw [oneReportPerCall_iff, sweepsFindCommands_iff_of_whole h]

def finishPass : AgentPass where
  lane := []
  inputMessages := [.human none none (.str "find it")]
  steps :=
    [.model none (.str "") [⟨some "call-1", "finish_task", ∅⟩],
     .tool ⟨some "call-1", "finish_task", ∅⟩
       (.command [.tool none (some "finish_task") (.str "accepted") "call-1" false])]
  returned := true

def finishTracing : PhaseTracing where
  phaseId := "write"
  toolNames := ["finish_task"]
  printer := plainPrinter

theorem command_answer_reported_once :
    finishPass.Whole finishTracing ∧ OneReportPerCall finishTracing [finishPass] := by
  have hwhole : finishPass.Whole finishTracing := by
    refine ⟨rfl, rfl, by decide, ⟨[⟨none, .str "", [(_, .command _)]⟩], rfl⟩, ?_⟩
    intro call added hm
    simp only [finishPass, List.mem_cons, List.not_mem_nil, or_false, reduceCtorEq, false_or,
      TraceStep.tool.injEq, ToolAnswer.command.injEq] at hm
    intro msg hmsg
    rw [hm.2, List.mem_singleton] at hmsg
    rw [hmsg]
    rfl
  refine ⟨hwhole, ((closing_reports_iff finishTracing [finishPass]).2 ?_).2 ?_⟩
  · intro pass hp
    rwa [List.mem_singleton.1 hp]
  · intro e he id hid hcall
    have hmem : e ∈ finishPass.executed := by simpa using he
    simp only [AgentPass.executed, finishPass, List.filterMap_cons, List.filterMap_nil, TraceStep.executed,
      List.mem_singleton] at hmem
    rw [hmem]
    rfl

/-- A search that answers with a message: the middleware closes the call and the sweep reports it again. -/
def searchPass : AgentPass where
  lane := []
  inputMessages := [.human none none (.str "find it")]
  steps :=
    [.model none (.str "") [⟨some "call-1", "search", ∅⟩],
     .tool ⟨some "call-1", "search", ∅⟩ (.message (.str "found") false),
     .model none (.str "done") []]
  returned := true

def searchTracing : PhaseTracing where
  phaseId := "write"
  toolNames := ["search"]
  printer := plainPrinter

theorem message_answer_reported_twice :
    (searchTracing.traceRun searchTracing.start [searchPass]).countP (reports "call-1") = 2 ∧
      searchPass.executed.countP (fun e => carries "call-1" e.1) = 1 ∧
      ¬ OneReportPerCall searchTracing [searchPass] := by
  have htwo : (searchTracing.traceRun searchTracing.start [searchPass]).countP (reports "call-1") = 2 := by
    decide
  have hone : searchPass.executed.countP (fun e => carries "call-1" e.1) = 1 := by decide
  refine ⟨htwo, hone, ?_⟩
  intro h
  have hcount := h "call-1" (by decide)
  rw [htwo, List.flatMap_singleton, hone] at hcount
  exact absurd hcount (by decide)

end GraphSkillRuntime
