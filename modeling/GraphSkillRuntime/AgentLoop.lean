import GraphSkillRuntime.CognitiveFlow
import GraphSkillRuntime.ExitControl
import GraphSkillRuntime.StateMapper

/-!
The loop of one agent phase execution: the hooks of the exit gate around the model and its tools, and
the executions of a run one after the other.
-/

namespace GraphSkillRuntime

open OrderedDict

/-- The nodes of the agent graph. A goto out of a tool activates the model beside the node that the
edge out of the tools leads to. -/
inductive LoopNode where
  | beforeModel
  | model
  | afterModel
  | tools (calls : List ToolCall)
  | afterAgent
  deriving DecidableEq

inductive LoopEnd where
  | exitSuccess
  | fatal (detail : String)
  | raised (message : String)
  deriving DecidableEq

/-- What is outside the runtime in one tool call: the clock, and the answer of a tool that the
cognitive middleware passes on. -/
structure ToolEnv where
  timestamp : String := ""
  messages : List Message := []
  gotoModel : Bool := false

inductive LoopEvent where
  | beforeModel (lane : Nat)
  | model (lane : Nat) (id : Option String) (content : Value) (calls : List ToolCall)
  | afterModel (lane : Nat)
  /-- The calls in the order in which they pass the finish gate; `commit` is the order of the writes. -/
  | tools (lane : Nat) (order : List (ToolCall × ToolEnv))
      (commit : { f : List CognitiveFlow.CognitiveAnswer → List CognitiveFlow.CognitiveAnswer //
        ∀ answers, (f answers).Perm answers })
  | afterAgent (lane : Nat)
  | rewrite (messages : List Message)

structure LoopState where
  state : AgentState
  budgets : ExitBudgets
  gate : Option String
  active : List LoopNode := [.beforeModel]
  modelTurns : Nat := 0
  accepted : Bool := false
  ended : Option LoopEnd := none

structure AgentLoop where
  phaseName : String
  key : String
  maxIterations : Nat
  maxNudges : Nat := 1
  ioSpecs : List IODef
  printer : Printer
  validateFinishArgs : Dict String Value → Except String FinishValidation
  businessTools : List String := []

def cognitiveCall (entry : ToolCall × ToolEnv) : Option (String × CognitiveCall) :=
  let call (c : CognitiveCall) := some (entry.1.id.getD "", c)
  if entry.1.name = "update_working_memory" then call (.updateWorkingMemory entry.1.args)
  else if entry.1.name = "log_ambiguity" then call (.logAmbiguity entry.1.args entry.2.timestamp)
  else if entry.1.name = "finish_task" then call (.finishTask entry.1.args)
  else none

/-- The tools that every agent phase mounts, with their `return_direct`. -/
def frameworkTools : List (String × Bool) :=
  [("ask_clarification", true), ("update_working_memory", false), ("log_ambiguity", false), ("finish_task", true)]

def lastAiToolCalls (messages : List Message) : List ToolCall :=
  match messages.reverse.find? (fun msg => match msg with | .ai .. => true | _ => false) with
  | some last => last.toolCalls
  | none => []

def nudgeMessages : Option String → List Message
  | some text => [.human none none (.str text)]
  | none => []

def commitData (data : BusinessData) (answers : List CognitiveFlow.CognitiveAnswer) : BusinessData :=
  answers.foldl (fun data answer =>
    match answer.command.data with
    | some written => mergeBusinessChannel data (.full written)
    | none => data) data

namespace AgentLoop

variable (L : AgentLoop)

def exit : ExitControl := ⟨L.phaseName, L.maxNudges, L.printer⟩

def cognitive : CognitiveFlow := ⟨L.phaseName, L.ioSpecs, L.printer, L.validateFinishArgs⟩

def returnDirect? (name : String) : Option Bool :=
  (frameworkTools.lookup name).or (if name ∈ L.businessTools then some false else none)

def allReturnDirect (calls : List ToolCall) : Bool :=
  let mounted := calls.filterMap (L.returnDirect? ·.name)
  !mounted.isEmpty && mounted.all id

def say (s : LoopState) (messages : List Message) : LoopState :=
  { s with state := { s.state with messages := s.state.messages ++ messages } }

def stepBeforeModel (s : LoopState) (lane : Nat) : LoopState :=
  let (answer, budgets) := L.exit.beforeModel s.budgets L.key L.maxIterations s.state.flow
  match answer with
  | .fatal detail => { s with budgets := budgets, ended := some (.fatal detail) }
  | _ => { s with budgets := budgets, active := s.active.set lane .model }

def stepModel (s : LoopState) (lane : Nat) (message : Message) : LoopState :=
  { say s [message] with modelTurns := s.modelTurns + 1, active := s.active.set lane .afterModel }

def stepAfterModel (s : LoopState) (lane : Nat) : LoopState :=
  let (answer, budgets) := L.exit.afterModel s.budgets L.key s.state.flow s.state.messages
  match answer with
  | .backToModel _ nudge =>
    { say s (nudgeMessages nudge) with budgets := budgets, active := s.active.set lane .beforeModel }
  | _ =>
    { s with
      budgets := budgets
      active := s.active.set lane
        (match lastAiToolCalls s.state.messages with
          | [] => .afterAgent
          | calls => .tools calls) }

def stepTools (s : LoopState) (lane : Nat) (order : List (ToolCall × ToolEnv))
    (commit : List CognitiveFlow.CognitiveAnswer → List CognitiveFlow.CognitiveAnswer) : LoopState :=
  match L.cognitive.handleTurn s.state s.gate (order.filterMap cognitiveCall) with
  | .error message => { s with ended := some (.raised message) }
  | .ok (gate, answers) =>
    let passedOn := order.filter (fun entry => (cognitiveCall entry).isNone)
    let goto := answers.any (·.command.gotoModel) || passedOn.any (·.2.gotoModel)
    { s with
      state :=
        { data := commitData s.state.data (commit answers)
          flow := commitAnswers s.state.flow (commit answers)
          messages := s.state.messages ++ (commit answers).flatMap (·.command.messages) ++
            passedOn.flatMap (·.2.messages) }
      gate := gate
      accepted := s.accepted || !(acceptedMarkers answers).isEmpty
      active := s.active.set lane
        (if L.allReturnDirect (order.map Prod.fst) then .afterAgent else .beforeModel) ++
          if goto then [.model] else [] }

def stepAfterAgent (s : LoopState) (lane : Nat) : LoopState :=
  let (answer, budgets) := L.exit.afterAgent s.budgets L.key L.maxIterations s.state.flow s.state.messages
  match answer with
  | .exitSuccess => { s with budgets := budgets, ended := some .exitSuccess }
  | .fatal detail => { s with budgets := budgets, ended := some (.fatal detail) }
  | .backToModel _ nudge =>
    { say s (nudgeMessages nudge) with budgets := budgets, active := s.active.set lane .beforeModel }
  | .pass => { s with budgets := budgets }

/-- One node of the agent graph fires; nothing does once the execution has ended. -/
def step (s : LoopState) (event : LoopEvent) : Option LoopState :=
  if s.ended.isSome then none
  else
    match event with
    | .beforeModel lane => if s.active[lane]? = some .beforeModel then some (L.stepBeforeModel s lane) else none
    | .model lane id content calls =>
      if s.active[lane]? = some .model then some (stepModel s lane (.ai id content calls)) else none
    | .afterModel lane => if s.active[lane]? = some .afterModel then some (L.stepAfterModel s lane) else none
    | .tools lane order commit =>
      match s.active[lane]? with
      | some (.tools calls) =>
        if (order.map Prod.fst).Perm calls then some (L.stepTools s lane order commit.1) else none
      | _ => none
    | .afterAgent lane => if s.active[lane]? = some .afterAgent then some (L.stepAfterAgent s lane) else none
    | .rewrite messages => some { s with state := { s.state with messages := messages } }

end AgentLoop

/-- What the middleware of one phase node remembers from execution to execution. -/
structure MiddlewareInstance where
  budgets : ExitBudgets := {}
  gate : Option String := none

structure AgentExecution where
  node : String
  loop : AgentLoop
  executionId : String
  data : BusinessData
  messages : List Message
  events : List LoopEvent

structure ExecutionRecord where
  loop : AgentLoop
  reached : LoopState

structure RunState where
  flow : FrameworkState
  instances : String → MiddlewareInstance
  log : List ExecutionRecord

inductive RunStep where
  | execution (e : AgentExecution)
  /-- Whatever else the graphs do to the flow: other phases, loop rounds, entering and leaving a
  subgraph. -/
  | graph (flow : FrameworkState)

def AgentExecution.start (e : AgentExecution) (g : RunState) : LoopState where
  state := ⟨e.data, { g.flow with workingMemory := .dict [] }, e.messages⟩
  budgets := (g.instances e.node).budgets
  gate := (g.instances e.node).gate

def AgentExecution.resultFlow (e : AgentExecution) (g : RunState) (s : LoopState) : FrameworkState :=
  mergeFlowChannel g.flow (.delta (phaseFlowDelta e.loop.phaseName e.executionId g.flow
    (some (.full { s.state.flow with subagentValidationRetries := g.flow.subagentValidationRetries }))))

/-- An execution may stop anywhere: the events are those of the part that took place. -/
def runStep (g : RunState) : RunStep → Option RunState
  | .execution e => (Runs.exec e.loop.step (e.start g) e.events).map fun s =>
      { flow := e.resultFlow g s
        instances := fun node => if node = e.node then ⟨s.budgets, s.gate⟩ else g.instances node
        log := g.log ++ [⟨e.loop, s⟩] }
  | .graph flow => some { g with flow := flow }

def ExecutionRecord.ExitsFresh (r : ExecutionRecord) : Prop :=
  r.reached.ended = some .exitSuccess → r.reached.accepted = true

def ExecutionRecord.WithinBudget (r : ExecutionRecord) : Prop :=
  r.reached.modelTurns ≤ r.loop.maxIterations

/-- No tool sends the loop back to the model by a goto, and an accepted submission shares its turn only with calls that
return directly. -/
def AgentLoop.OrderlyTurn (L : AgentLoop) (s : LoopState) : LoopEvent → Prop
  | .tools _ order _ =>
    (∀ entry ∈ order, cognitiveCall entry = none → entry.2.gotoModel = false) ∧
    ∀ gate answers, L.cognitive.handleTurn s.state s.gate (order.filterMap cognitiveCall) = .ok (gate, answers) →
      (∀ answer ∈ answers, answer.command.gotoModel = false) ∧
      (acceptedMarkers answers ≠ [] → L.allReturnDirect (order.map Prod.fst) = true)
  | _ => True

/-- The flow that the execution starts from holds no qualified marker under the phase's own name. -/
def StartsFresh (g : RunState) : RunStep → Prop
  | .execution e => e.loop.exit.hasValidFinish g.flow = false
  | .graph _ => True

def StartsFreshAndOrderly (g : RunState) : RunStep → Prop
  | .execution e => e.loop.exit.hasValidFinish g.flow = false ∧
      ∃ s, Runs.Run e.loop.step e.loop.OrderlyTurn (e.start g) e.events s
  | .graph _ => True

section Turns

variable {L : AgentLoop} {state : AgentState} {gate gate' : Option String}
  {calls : List (String × CognitiveCall)} {answers order : List CognitiveFlow.CognitiveAnswer}

theorem commitAnswers_cases (h : L.cognitive.handleTurn state gate calls = .ok (gate', answers))
    (hperm : order.Perm answers) :
    (∃ write : FlowWrite, write.Carried state.flow (commitAnswers state.flow order) ∧
      (∀ plan, write = .plan plan → plan ∈ calls.filterMap (L.cognitive.plan? ·.2)) ∧
      (∀ entry, write = .record entry → entry ∈ calls.filterMap (L.cognitive.recordOf ·.2)) ∧
      ∀ marker, write = .marker marker → marker ∈ acceptedMarkers answers) ∨
    (acceptedMarkers answers = [] ∧ commitAnswers state.flow order = state.flow) := by
  obtain ⟨writes, hcarried, hplans, hrecords, hmarkers⟩ := handleTurn_writes h
  rw [CognitiveTurn.commitAnswers_eq]
  rcases Runs.foldl_lastWriter (fun a : CognitiveFlow.CognitiveAnswer => a.command.flow) order state.flow with
    ⟨answer, hmem, hw⟩ | ⟨hnone, hkeep⟩
  · have hwritten : _ ∈ answers.filterMap (·.command.flow) :=
      List.mem_filterMap.mpr ⟨answer, hperm.mem_iff.mp hmem, hw⟩
    obtain ⟨write, hwrite, hc⟩ := exists_mem_of_forall₂ hcarried hwritten
    refine Or.inl ⟨write, hc, ?_, ?_, ?_⟩
    · rintro plan rfl
      rw [hplans]
      exact List.mem_filterMap.mpr ⟨_, hwrite, rfl⟩
    · rintro entry rfl
      rw [hrecords]
      exact List.mem_filterMap.mpr ⟨_, hwrite, rfl⟩
    · rintro marker rfl
      rw [hmarkers]
      exact List.mem_filterMap.mpr ⟨_, hwrite, rfl⟩
  · have hempty : answers.filterMap (·.command.flow) = [] :=
      List.filterMap_eq_nil_iff.mpr fun a ha => hnone a (hperm.mem_iff.mpr ha)
    rw [hempty, List.forall₂_nil_right_iff] at hcarried
    subst hcarried
    exact Or.inr ⟨hmarkers, hkeep⟩

theorem mem_admittedMarkers {m : CognitiveFlow} {messages : List Message} {marker : Dict String Value}
    (h : marker ∈ m.admittedMarkers messages gate calls) : ∃ args items, marker = m.finishResult args items := by
  have hvalid : marker ∈ calls.filterMap (m.validMarker ·.2) := by
    unfold CognitiveFlow.admittedMarkers at h
    split at h
    · exact h
    · split_ifs at h
      · cases h
      · exact List.mem_of_mem_take h
  obtain ⟨call, -, hcall⟩ := List.mem_filterMap.mp hvalid
  unfold CognitiveFlow.validMarker at hcall
  split at hcall
  · split at hcall
    · exact ⟨_, _, (Option.some.inj hcall).symm⟩
    · cases hcall
  · cases hcall

theorem hasValidFinish_congr {flow flow' : FrameworkState}
    (h : flow.finishTaskResult = flow'.finishTaskResult) :
    L.exit.hasValidFinish flow = L.exit.hasValidFinish flow' := by
  simp only [ExitControl.hasValidFinish, ExitControl.ownFinishPayload, h]

theorem hasValidFinish_finishResult {flow : FrameworkState} {args : Dict String Value}
    {items : List (Dict String Value)}
    (h : flow.finishTaskResult = some (L.cognitive.finishResult args items)) :
    L.exit.hasValidFinish flow = true := by
  have hname : (L.cognitive.finishResult args items).get? "phase_name" = some (.str L.phaseName) := by
    simp [CognitiveFlow.finishResult, Dict.get?_ofList, Dict.find, AgentLoop.cognitive]
  have hpassed : (L.cognitive.finishResult args items).get? "schema_validation" = some (.str "passed") := by
    simp [CognitiveFlow.finishResult, Dict.get?_ofList, Dict.find]
  simp only [ExitControl.hasValidFinish, ExitControl.ownFinishPayload, h, Option.filter, hname]
  have hself : (some (Value.str L.phaseName) == some (Value.str L.exit.phaseName)) = true := by
    simp [AgentLoop.exit]
  rw [if_pos hself]
  simp only [hpassed]
  decide

theorem commitAnswers_finish (h : L.cognitive.handleTurn state gate calls = .ok (gate', answers))
    (hperm : order.Perm answers) (hnone : acceptedMarkers answers = []) :
    (commitAnswers state.flow order).finishTaskResult = state.flow.finishTaskResult := by
  rcases commitAnswers_cases h hperm with ⟨write, hc, -, -, hmarker⟩ | ⟨-, hkeep⟩
  · cases write with
    | plan text => exact hc.marker
    | record entry => exact hc.marker
    | marker result =>
      have hmem := hmarker result rfl
      rw [hnone] at hmem
      cases hmem
  · rw [hkeep]

theorem commitAnswers_valid (h : L.cognitive.handleTurn state gate calls = .ok (gate', answers))
    (hperm : order.Perm answers) (hsome : acceptedMarkers answers ≠ [])
    (hfinish : ∀ call ∈ calls, ∃ args, call.2 = .finishTask args) :
    L.exit.hasValidFinish (commitAnswers state.flow order) = true := by
  have hplans : calls.filterMap (L.cognitive.plan? ·.2) = [] := by
    apply List.filterMap_eq_nil_iff.mpr
    intro call hcall
    obtain ⟨args, hargs⟩ := hfinish call hcall
    rw [hargs]
    rfl
  have hrecords : calls.filterMap (L.cognitive.recordOf ·.2) = [] := by
    apply List.filterMap_eq_nil_iff.mpr
    intro call hcall
    obtain ⟨args, hargs⟩ := hfinish call hcall
    rw [hargs]
    rfl
  rcases commitAnswers_cases h hperm with ⟨write, hc, hplan, hrecord, hmarker⟩ | ⟨hnone, -⟩
  · cases write with
    | plan text =>
      have hmem := hplan text rfl
      rw [hplans] at hmem
      cases hmem
    | record entry =>
      have hmem := hrecord entry rfl
      rw [hrecords] at hmem
      cases hmem
    | marker result =>
      have hmem := hmarker result rfl
      rw [acceptedMarkers_eq_admitted h] at hmem
      obtain ⟨args, items, rfl⟩ := mem_admittedMarkers hmem
      exact hasValidFinish_finishResult hc.marker
  · exact absurd hnone hsome

end Turns

section Steps

variable {L : AgentLoop} {s t : LoopState} {event : LoopEvent} {lane : Nat}

def Fires (L : AgentLoop) (s t : LoopState) : LoopEvent → Prop
  | .beforeModel lane => s.active[lane]? = some .beforeModel ∧ t = L.stepBeforeModel s lane
  | .model lane id content calls =>
    s.active[lane]? = some .model ∧ t = AgentLoop.stepModel s lane (.ai id content calls)
  | .afterModel lane => s.active[lane]? = some .afterModel ∧ t = L.stepAfterModel s lane
  | .tools lane order commit => ∃ calls, s.active[lane]? = some (.tools calls) ∧
      (order.map Prod.fst).Perm calls ∧ t = L.stepTools s lane order commit.1
  | .afterAgent lane => s.active[lane]? = some .afterAgent ∧ t = L.stepAfterAgent s lane
  | .rewrite messages => t = { s with state := { s.state with messages := messages } }

theorem step_inversion (h : L.step s event = some t) : s.ended = none ∧ Fires L s t event := by
  by_cases hended : s.ended.isSome = true
  · simp [AgentLoop.step, hended] at h
  · refine ⟨by simpa using hended, ?_⟩
    cases event with
    | tools lane order commit =>
      simp only [AgentLoop.step, if_neg hended] at h
      split at h
      · rename_i calls hactive
        split_ifs at h with hperm
        exact ⟨calls, hactive, hperm, (Option.some.inj h).symm⟩
      · cases h
    | rewrite messages =>
      simp only [AgentLoop.step, if_neg hended] at h
      exact (Option.some.inj h).symm
    | _ =>
      simp only [AgentLoop.step, if_neg hended] at h
      split_ifs at h with hactive
      exact ⟨hactive, (Option.some.inj h).symm⟩

structure SameMarker (s t : LoopState) : Prop where
  flow : t.state.flow = s.state.flow
  accepted : t.accepted = s.accepted

theorem stepBeforeModel_spec (L : AgentLoop) (s : LoopState) (lane : Nat) :
    SameMarker s (L.stepBeforeModel s lane) ∧ (L.stepBeforeModel s lane).modelTurns = s.modelTurns ∧
    ((∃ detail, (L.stepBeforeModel s lane).ended = some (.fatal detail)) ∨
      (L.stepBeforeModel s lane).ended = s.ended ∧
      (L.stepBeforeModel s lane).active = s.active.set lane .model ∧
      (L.stepBeforeModel s lane).budgets.iteration L.key = s.budgets.iteration L.key + 1 ∧
      (L.exit.hasValidFinish s.state.flow = false → s.budgets.iteration L.key + 1 ≤ L.maxIterations)) := by
  have hcount := L.exit.beforeModel_iteration s.budgets L.key L.maxIterations s.state.flow
  have hanswer := L.exit.beforeModel_answer s.budgets L.key L.maxIterations s.state.flow
  unfold AgentLoop.stepBeforeModel
  simp only
  split
  · exact ⟨⟨rfl, rfl⟩, rfl, Or.inl ⟨_, rfl⟩⟩
  · rename_i hpass
    have hbudget := (hanswer.resolve_left (fun ⟨detail, hfatal⟩ => hpass detail hfatal)).2
    exact ⟨⟨rfl, rfl⟩, rfl, Or.inr ⟨rfl, rfl, hcount, hbudget⟩⟩

theorem stepAfterModel_spec (L : AgentLoop) (s : LoopState) (lane : Nat) :
    SameMarker s (L.stepAfterModel s lane) ∧ (L.stepAfterModel s lane).modelTurns = s.modelTurns ∧
      (L.stepAfterModel s lane).ended = s.ended ∧
      (L.stepAfterModel s lane).budgets.iteration L.key = s.budgets.iteration L.key ∧
      ∃ node, node ≠ .model ∧ (L.stepAfterModel s lane).active = s.active.set lane node := by
  have hcount := L.exit.afterModel_iteration s.budgets L.key s.state.flow s.state.messages
  unfold AgentLoop.stepAfterModel
  simp only
  split
  · exact ⟨⟨rfl, rfl⟩, rfl, rfl, hcount, .beforeModel, by simp, rfl⟩
  · refine ⟨⟨rfl, rfl⟩, rfl, rfl, hcount, _, ?_, rfl⟩
    split <;> simp

theorem stepAfterAgent_spec (L : AgentLoop) (s : LoopState) (lane : Nat) :
    SameMarker s (L.stepAfterAgent s lane) ∧ (L.stepAfterAgent s lane).modelTurns = s.modelTurns ∧
      (L.stepAfterAgent s lane).budgets.iteration L.key = s.budgets.iteration L.key ∧
      ((L.exit.hasValidFinish s.state.flow = true ∧ (L.stepAfterAgent s lane).ended = some .exitSuccess) ∨
        L.exit.hasValidFinish s.state.flow = false ∧
        ((∃ detail, (L.stepAfterAgent s lane).ended = some (.fatal detail)) ∨
          (L.stepAfterAgent s lane).ended = s.ended ∧
          (L.stepAfterAgent s lane).active = s.active.set lane .beforeModel)) := by
  have hcount := L.exit.afterAgent_iteration s.budgets L.key L.maxIterations s.state.flow s.state.messages
  have hanswer := L.exit.afterAgent_answer s.budgets L.key L.maxIterations s.state.flow s.state.messages
  unfold AgentLoop.stepAfterAgent
  simp only
  split <;> rename_i heq <;> rw [heq] at hanswer
  · have hvalid := (hanswer.resolve_right (fun h => h.2)).1
    exact ⟨⟨rfl, rfl⟩, rfl, hcount, Or.inl ⟨hvalid, rfl⟩⟩
  · have hvalid := (hanswer.resolve_left (by simp)).1
    exact ⟨⟨rfl, rfl⟩, rfl, hcount, Or.inr ⟨hvalid, Or.inl ⟨_, rfl⟩⟩⟩
  · have hvalid := (hanswer.resolve_left (by simp)).1
    exact ⟨⟨rfl, rfl⟩, rfl, hcount, Or.inr ⟨hvalid, Or.inr ⟨rfl, rfl⟩⟩⟩
  · exact absurd hanswer (by simp [ExitControl.Refuses])

end Steps

section Freshness

variable {L : AgentLoop} {s t : LoopState} {event : LoopEvent}

structure FreshExit (L : AgentLoop) (s : LoopState) : Prop where
  marker : L.exit.hasValidFinish s.state.flow = true → s.accepted = true
  exit : s.ended = some .exitSuccess → s.accepted = true

theorem FreshExit.of_sameMarker (hs : FreshExit L s) (h : SameMarker s t)
    (hexit : t.ended = some .exitSuccess → L.exit.hasValidFinish s.state.flow = true) : FreshExit L t := by
  constructor
  · rw [h.flow, h.accepted]
    exact hs.marker
  · intro hended
    rw [h.accepted]
    exact hs.marker (hexit hended)

theorem stepTools_freshExit (hs : FreshExit L s) (hnone : s.ended = none) (lane : Nat)
    (order : List (ToolCall × ToolEnv))
    (commit : { f : List CognitiveFlow.CognitiveAnswer → List CognitiveFlow.CognitiveAnswer //
      ∀ answers, (f answers).Perm answers }) : FreshExit L (L.stepTools s lane order commit.1) := by
  unfold AgentLoop.stepTools
  split
  · exact hs.of_sameMarker ⟨rfl, rfl⟩ (by simp)
  · rename_i gate answers hturn
    refine ⟨?_, ?_⟩
    · intro hvalid
      by_cases hempty : acceptedMarkers answers = []
      · have hkeep := commitAnswers_finish hturn (commit.2 answers) hempty
        have hold : s.accepted = true := hs.marker ((hasValidFinish_congr hkeep) ▸ hvalid)
        simp [hold]
      · simp [hempty]
    · intro hended
      simp [hnone] at hended

theorem step_freshExit (hs : FreshExit L s) (h : L.step s event = some t) : FreshExit L t := by
  obtain ⟨hnone, hfires⟩ := step_inversion h
  cases event with
  | beforeModel lane =>
    obtain ⟨-, rfl⟩ := hfires
    obtain ⟨hsame, -, ⟨detail, hfatal⟩ | ⟨hended, -⟩⟩ := stepBeforeModel_spec L s lane
    · exact hs.of_sameMarker hsame (by simp [hfatal])
    · exact hs.of_sameMarker hsame (by simp [hended, hnone])
  | model lane id content calls =>
    obtain ⟨-, rfl⟩ := hfires
    exact hs.of_sameMarker ⟨rfl, rfl⟩ (by simp [AgentLoop.stepModel, AgentLoop.say, hnone])
  | afterModel lane =>
    obtain ⟨-, rfl⟩ := hfires
    obtain ⟨hsame, -, hended, -⟩ := stepAfterModel_spec L s lane
    exact hs.of_sameMarker hsame (by simp [hended, hnone])
  | tools lane order commit =>
    obtain ⟨calls, -, -, rfl⟩ := hfires
    exact stepTools_freshExit hs hnone lane order commit
  | afterAgent lane =>
    obtain ⟨-, rfl⟩ := hfires
    obtain ⟨hsame, -, -, ⟨hvalid, -⟩ | ⟨-, ⟨detail, hfatal⟩ | ⟨hended, -⟩⟩⟩ := stepAfterAgent_spec L s lane
    · exact hs.of_sameMarker hsame (fun _ => hvalid)
    · exact hs.of_sameMarker hsame (by simp [hfatal])
    · exact hs.of_sameMarker hsame (by simp [hended, hnone])
  | rewrite messages =>
    obtain rfl := hfires
    exact hs.of_sameMarker ⟨rfl, rfl⟩ (by simp [hnone])

end Freshness

section Budget

variable {L : AgentLoop} {s t : LoopState} {event : LoopEvent}

def CountedAt (L : AgentLoop) (s : LoopState) : LoopNode → Prop
  | .model => s.modelTurns + 1 ≤ s.budgets.iteration L.key ∧ s.budgets.iteration L.key ≤ L.maxIterations
  | _ => s.modelTurns ≤ s.budgets.iteration L.key

structure InBudget (L : AgentLoop) (s : LoopState) : Prop where
  turns : s.modelTurns ≤ L.maxIterations
  lane : s.ended = none → ∃ node, s.active = [node] ∧
    ((L.exit.hasValidFinish s.state.flow = true ∧ node = .afterAgent) ∨
      (L.exit.hasValidFinish s.state.flow = false ∧ CountedAt L s node))

theorem active_single {node node' : LoopNode} {lane : Nat} (h : [node][lane]? = some node') :
    lane = 0 ∧ node = node' := by
  cases lane with
  | zero => exact ⟨rfl, by simpa using h⟩
  | succ n => simp at h

theorem InBudget.at_node (hs : InBudget L s) (hnone : s.ended = none) {lane : Nat} {node : LoopNode}
    (h : s.active[lane]? = some node) :
    lane = 0 ∧ s.active = [node] ∧
      ((L.exit.hasValidFinish s.state.flow = true ∧ node = .afterAgent) ∨
        (L.exit.hasValidFinish s.state.flow = false ∧ CountedAt L s node)) := by
  obtain ⟨node', hactive, hcases⟩ := hs.lane hnone
  rw [hactive] at h
  obtain ⟨rfl, rfl⟩ := active_single h
  exact ⟨rfl, hactive, hcases⟩

theorem InBudget.of_ended (hturns : t.modelTurns ≤ L.maxIterations) (h : t.ended ≠ none) : InBudget L t :=
  ⟨hturns, fun hnone => absurd hnone h⟩

theorem cognitiveCall_finish {order : List (ToolCall × ToolEnv)}
    (h : L.allReturnDirect (order.map Prod.fst) = true) :
    ∀ call ∈ order.filterMap cognitiveCall, ∃ args, call.2 = .finishTask args := by
  intro call hcall
  obtain ⟨entry, hentry, hc⟩ := List.mem_filterMap.mp hcall
  rw [AgentLoop.allReturnDirect, Bool.and_eq_true] at h
  have hdirect : ∀ direct, L.returnDirect? entry.1.name = some direct → direct = true := by
    intro direct hname
    exact List.all_eq_true.mp h.2 direct (List.mem_filterMap.mpr ⟨entry.1, List.mem_map_of_mem hentry, hname⟩)
  unfold cognitiveCall at hc
  split_ifs at hc with hmemory hambiguity
  · have hfalse : L.returnDirect? entry.1.name = some false := by rw [hmemory]; rfl
    exact absurd (hdirect false hfalse) (by decide)
  · have hfalse : L.returnDirect? entry.1.name = some false := by rw [hambiguity]; rfl
    exact absurd (hdirect false hfalse) (by decide)
  · obtain rfl := Option.some.inj hc
    exact ⟨_, rfl⟩

theorem stepTools_inBudget (hs : InBudget L s) (hnone : s.ended = none) {lane : Nat} {calls : List ToolCall}
    {order : List (ToolCall × ToolEnv)}
    {commit : { f : List CognitiveFlow.CognitiveAnswer → List CognitiveFlow.CognitiveAnswer //
      ∀ answers, (f answers).Perm answers }}
    (horderly : L.OrderlyTurn s (.tools lane order commit)) (hactive : s.active[lane]? = some (.tools calls)) :
    InBudget L (L.stepTools s lane order commit.1) := by
  obtain ⟨rfl, hsingle, ⟨-, hnode⟩ | ⟨hvalid, hcount⟩⟩ := hs.at_node hnone hactive
  · cases hnode
  · unfold AgentLoop.stepTools
    split
    · exact InBudget.of_ended hs.turns (by simp)
    · rename_i gate answers hturn
      obtain ⟨hpassed, hanswered⟩ := horderly
      obtain ⟨hnogoto, hdirect⟩ := hanswered gate answers hturn
      have hgoto : (answers.any (·.command.gotoModel) ||
          (order.filter (fun entry => (cognitiveCall entry).isNone)).any (·.2.gotoModel)) = false := by
        simp only [Bool.or_eq_false_iff, List.any_eq_false, List.mem_filter, Bool.not_eq_true, and_imp,
          Option.isNone_iff_eq_none]
        exact ⟨hnogoto, fun entry hmem hc => hpassed entry hmem hc⟩
      refine ⟨hs.turns, fun _ => ?_⟩
      simp only [hsingle, hgoto, List.set_cons_zero, Bool.false_eq_true, if_false, List.append_nil]
      by_cases hempty : acceptedMarkers answers = []
      · have hkeep := hasValidFinish_congr (L := L) (commitAnswers_finish hturn (commit.2 answers) hempty)
        refine ⟨_, rfl, Or.inr ⟨hkeep.trans hvalid, ?_⟩⟩
        split_ifs <;> exact hcount
      · refine ⟨.afterAgent, by rw [if_pos (hdirect hempty)], Or.inl ⟨?_, rfl⟩⟩
        exact commitAnswers_valid hturn (commit.2 answers) hempty (cognitiveCall_finish (hdirect hempty))

theorem step_inBudget (hs : InBudget L s) (horderly : L.OrderlyTurn s event) (h : L.step s event = some t) :
    InBudget L t := by
  obtain ⟨hnone, hfires⟩ := step_inversion h
  cases event with
  | beforeModel lane =>
    obtain ⟨hactive, rfl⟩ := hfires
    obtain ⟨rfl, hsingle, ⟨-, hnode⟩ | ⟨hvalid, hcount⟩⟩ := hs.at_node hnone hactive
    · cases hnode
    · obtain ⟨hsame, hturns, ⟨detail, hfatal⟩ | ⟨hended, hnext, hiter, hmax⟩⟩ := stepBeforeModel_spec L s 0
      · exact InBudget.of_ended (hturns ▸ hs.turns) (by simp [hfatal])
      · refine ⟨hturns ▸ hs.turns, fun _ => ⟨.model, by rw [hnext, hsingle]; rfl, Or.inr ⟨?_, ?_⟩⟩⟩
        · rw [hsame.flow]
          exact hvalid
        · have hcounted : s.modelTurns ≤ s.budgets.iteration L.key := hcount
          have hbound := hmax hvalid
          simp only [CountedAt, hturns, hiter]
          omega
  | model lane id content calls =>
    obtain ⟨hactive, rfl⟩ := hfires
    obtain ⟨rfl, hsingle, ⟨-, hnode⟩ | ⟨hvalid, hcount⟩⟩ := hs.at_node hnone hactive
    · cases hnode
    · obtain ⟨hlow, hhigh⟩ : s.modelTurns + 1 ≤ s.budgets.iteration L.key ∧
          s.budgets.iteration L.key ≤ L.maxIterations := hcount
      refine ⟨hlow.trans hhigh, fun _ => ⟨.afterModel, ?_, Or.inr ⟨hvalid, hlow⟩⟩⟩
      simp [AgentLoop.stepModel, hsingle]
  | afterModel lane =>
    obtain ⟨hactive, rfl⟩ := hfires
    obtain ⟨rfl, hsingle, ⟨-, hnode⟩ | ⟨hvalid, hcount⟩⟩ := hs.at_node hnone hactive
    · cases hnode
    · obtain ⟨hsame, hturns, hended, hiter, node, hne, hnext⟩ := stepAfterModel_spec L s 0
      refine ⟨hturns ▸ hs.turns, fun _ => ⟨node, by rw [hnext, hsingle]; rfl, Or.inr ⟨?_, ?_⟩⟩⟩
      · rw [hsame.flow]
        exact hvalid
      · have hcounted : s.modelTurns ≤ s.budgets.iteration L.key := hcount
        cases node with
        | model => exact absurd rfl hne
        | _ => simpa only [CountedAt, hturns, hiter] using hcounted
  | tools lane order commit =>
    obtain ⟨calls, hactive, -, rfl⟩ := hfires
    exact stepTools_inBudget hs hnone horderly hactive
  | afterAgent lane =>
    obtain ⟨hactive, rfl⟩ := hfires
    obtain ⟨rfl, hsingle, hcases⟩ := hs.at_node hnone hactive
    obtain ⟨hsame, hturns, hiter, ⟨-, hexit⟩ | ⟨hvalid, ⟨detail, hfatal⟩ | ⟨hended, hnext⟩⟩⟩ :=
      stepAfterAgent_spec L s 0
    · exact InBudget.of_ended (hturns ▸ hs.turns) (by simp [hexit])
    · exact InBudget.of_ended (hturns ▸ hs.turns) (by simp [hfatal])
    · obtain ⟨hvalid', -⟩ | ⟨-, hcount⟩ := hcases
      · rw [hvalid] at hvalid'
        cases hvalid'
      · have hcounted : s.modelTurns ≤ s.budgets.iteration L.key := hcount
        refine ⟨hturns ▸ hs.turns, fun _ => ⟨.beforeModel, by rw [hnext, hsingle]; rfl, Or.inr ⟨?_, ?_⟩⟩⟩
        · rw [hsame.flow]
          exact hvalid
        · simpa only [CountedAt, hturns, hiter] using hcounted
  | rewrite messages =>
    obtain rfl := hfires
    exact ⟨hs.turns, hs.lane⟩

end Budget

section Executions

variable {g g' : RunState} {e : AgentExecution} {s : LoopState}

theorem start_hasValidFinish (e : AgentExecution) (g : RunState) :
    e.loop.exit.hasValidFinish (e.start g).state.flow = e.loop.exit.hasValidFinish g.flow :=
  hasValidFinish_congr rfl

theorem execution_exitsFresh (hfresh : e.loop.exit.hasValidFinish g.flow = false)
    (h : Runs.exec e.loop.step (e.start g) e.events = some s) : ExecutionRecord.ExitsFresh ⟨e.loop, s⟩ := by
  have hstart : FreshExit e.loop (e.start g) := by
    constructor
    · rw [start_hasValidFinish, hfresh]
      simp
    · simp [AgentExecution.start]
  have hrun : Runs.Run e.loop.step (fun _ _ => True) (e.start g) e.events s :=
    Runs.Run.of_exec (fun _ _ _ => trivial) h
  exact (hrun.invariant (fun _ _ _ hs _ => step_freshExit hs) hstart).exit

theorem execution_withinBudget (hfresh : e.loop.exit.hasValidFinish g.flow = false)
    (h : Runs.Run e.loop.step e.loop.OrderlyTurn (e.start g) e.events s) :
    ExecutionRecord.WithinBudget ⟨e.loop, s⟩ := by
  have hstart : InBudget e.loop (e.start g) := by
    refine ⟨Nat.zero_le _, fun _ => ⟨.beforeModel, rfl, Or.inr ⟨?_, Nat.zero_le _⟩⟩⟩
    rw [start_hasValidFinish, hfresh]
  exact (h.invariant (fun _ _ _ => step_inBudget) hstart).turns

theorem runStep_log {guard : RunState → RunStep → Prop} {P : ExecutionRecord → Prop} {a : RunStep}
    (hexec : ∀ g e s, guard g (.execution e) → Runs.exec e.loop.step (e.start g) e.events = some s → P ⟨e.loop, s⟩)
    (hlog : ∀ r ∈ g.log, P r) (hguard : guard g a) (h : runStep g a = some g') : ∀ r ∈ g'.log, P r := by
  cases a with
  | graph flow =>
    obtain rfl := Option.some.inj h
    exact hlog
  | execution e =>
    obtain ⟨s, hs, rfl⟩ := Option.map_eq_some_iff.mp h
    intro r hr
    rcases List.mem_append.mp hr with hr | hr
    · exact hlog r hr
    · rw [List.mem_singleton.mp hr]
      exact hexec g e s hguard hs

end Executions

/-- In every run whose executions start without a qualified marker of their own phase, an execution that
ends in `exit_success` had a submission accepted; and where no tool turn of theirs sends the loop back
by a goto or mixes an accepted submission with calls that do not return directly, none makes more than
`max_iterations` model turns. -/
theorem exit_gate_over_runs (flow : FrameworkState) (instances : String → MiddlewareInstance)
    (steps : List RunStep) (g : RunState) :
    (Runs.Run runStep StartsFresh ⟨flow, instances, []⟩ steps g → ∀ r ∈ g.log, r.ExitsFresh) ∧
      (Runs.Run runStep StartsFreshAndOrderly ⟨flow, instances, []⟩ steps g →
        ∀ r ∈ g.log, r.ExitsFresh ∧ r.WithinBudget) := by
  constructor
  · intro h
    refine h.invariant (I := fun g => ∀ r ∈ g.log, r.ExitsFresh) (fun g a g' hlog hguard hstep => ?_) (by simp)
    exact runStep_log (fun _ _ _ => execution_exitsFresh) hlog hguard hstep
  · intro h
    refine h.invariant (I := fun g => ∀ r ∈ g.log, r.ExitsFresh ∧ r.WithinBudget)
      (fun g a g' hlog hguard hstep => ?_) (by simp)
    refine runStep_log (P := fun r => r.ExitsFresh ∧ r.WithinBudget) ?_ hlog hguard hstep
    rintro g e s ⟨hfresh, t, hrun⟩ hs
    obtain rfl : t = s := Option.some.inj (hrun.exec_eq.symm.trans hs)
    exact ⟨execution_exitsFresh hfresh hs, execution_withinBudget hfresh hrun⟩

def writeLoop (ns : String) : AgentLoop where
  phaseName := "write"
  key := "run-1|" ++ ns ++ ".agent:write"
  maxIterations := 3
  ioSpecs := []
  printer := plainPrinter
  validateFinishArgs _ := .ok (.passed [∅])

def submitCall : ToolCall := ⟨some "call-1", "finish_task", Dict.single "business_data_md" (.str "## chapter")⟩

def submittingRound : AgentExecution where
  node := "write"
  loop := writeLoop "iter1"
  executionId := "write#1"
  data := ∅
  messages := []
  events :=
    [.beforeModel 0, .model 0 (some "turn-1") (.str "") [submitCall], .afterModel 0,
     .tools 0 [(submitCall, {})] ⟨id, fun _ => List.Perm.refl _⟩, .afterAgent 0]

theorem submittingRound_orderly : ∃ s, Runs.Run submittingRound.loop.step submittingRound.loop.OrderlyTurn
    (submittingRound.start ⟨{}, fun _ => {}, []⟩) submittingRound.events s := by
  refine ⟨_, .cons trivial rfl (.cons trivial rfl (.cons trivial rfl (.cons ?_ rfl (.cons trivial rfl (.nil _)))))⟩
  refine ⟨by simp [cognitiveCall, submitCall], ?_⟩
  intro gate answers hturn
  obtain ⟨-, rfl⟩ := Prod.mk.inj (Except.ok.inj hturn)
  exact ⟨by simp, fun _ => rfl⟩

theorem submitting_round_within_budget :
    ∃ g, Runs.Run runStep StartsFreshAndOrderly ⟨{}, fun _ => {}, []⟩ [.execution submittingRound] g ∧
      Runs.Run runStep StartsFresh ⟨{}, fun _ => {}, []⟩ [.execution submittingRound] g ∧
      (∃ r ∈ g.log, r.reached.ended = some .exitSuccess) ∧ (∀ r ∈ g.log, r.ExitsFresh) ∧
      ∀ r ∈ g.log, r.ExitsFresh ∧ r.WithinBudget := by
  have horderly : Runs.Run runStep StartsFreshAndOrderly ⟨{}, fun _ => {}, []⟩ [.execution submittingRound] _ :=
    .cons ⟨rfl, submittingRound_orderly⟩ rfl (.nil _)
  have hfresh : Runs.Run runStep StartsFresh ⟨{}, fun _ => {}, []⟩ [.execution submittingRound] _ :=
    .cons rfl rfl (.nil _)
  exact ⟨_, horderly, hfresh, ⟨_, List.mem_cons_self .., rfl⟩, (exit_gate_over_runs _ _ _ _).1 hfresh,
    (exit_gate_over_runs _ _ _ _).2 horderly⟩

def talkingRound : AgentExecution where
  node := "write"
  loop := writeLoop "iter2"
  executionId := "write#2"
  data := ∅
  messages := []
  events := [.beforeModel 0, .model 0 (some "turn-2") (.str "all done") [], .afterModel 0, .afterAgent 0]

theorem second_round_exits_on_the_first_marker :
    ∃ g, Runs.exec runStep ⟨{}, fun _ => {}, []⟩ [.execution submittingRound, .execution talkingRound] = some g ∧
      ¬ ∀ r ∈ g.log, r.ExitsFresh ∧ r.WithinBudget := by
  refine ⟨_, rfl, ?_⟩
  intro h
  have hstale := (h _ (List.mem_cons_of_mem _ (List.mem_cons_self ..))).1 rfl
  cases hstale

end GraphSkillRuntime
