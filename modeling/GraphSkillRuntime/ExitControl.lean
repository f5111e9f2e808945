import GraphSkillRuntime.AgentMessages

/-! The exit gate of an agent phase and the nudge policy it consults. -/

namespace GraphSkillRuntime

open OrderedDict

@[simp] theorem Value.str_beq (s t : String) : (Value.str s == Value.str t) = (s == t) := by
  simp [BEq.beq, Value.eqv]

def planningNudge : String :=
  "[系统提示] 在执行任何业务工具之前，你必须先调用 update_working_memory 记录你的执行计划。计划应包含：\n" ++
  "1. 本阶段的目标是什么\n" ++
  "2. 你打算按什么顺序执行哪些步骤\n" ++
  "3. 每步需要什么数据（如果需要从上下文或工具获取，写明）\n" ++
  "4. 预期产出是什么\n" ++
  "请现在调用 update_working_memory。"

def selfcheckNudge : String :=
  "[系统提示] 你调用了 finish_task，但缺少必要字段。请重新调用 finish_task，并提供：" ++
  "diagnostics_md（自检诊断 Markdown，逐条对照计划说明质量结论）" ++
  "+ business_data_md（业务输出 Markdown，遵循 phase 的 output_schema）。"

def buildStandardNudgeText (nudgeCount : Nat) (latestContent : String) : String :=
  if nudgeCount = 1 then
    "[系统提示] 你输出了文本但未调用 finish_task。" ++
    "如果任务已完成，请调用 finish_task 并在 reasoning 中逐条自检计划完成度；如果未完成，请继续使用工具。"
  else if nudgeCount = 2 then
    "[系统警告] 这是第二次提醒。你必须调用工具（如 finish_task）来推进状态，纯文本输出是无效的。请立即修正。" ++
    "\n你的无效输出: " ++ .ofList (latestContent.toList.take 600)
  else
    "[严重警告] 你的行为已偏离规范！必须立即调用 finish_task 结束本阶段，否则任务将被强制终止。"

def minFinishReasoningLen : Nat := 30

inductive NudgeKind where
  | planning
  | selfcheck
  | standard
  deriving DecidableEq

structure NudgeDecision where
  text : Option String
  kind : Option NudgeKind := none
  count : Nat := 0
  counted : Bool := false
  budgetExhausted : Bool := false
  deriving DecidableEq

def noNudge : NudgeDecision := { text := none }

/-- The counters of `NudgePolicy`. -/
structure NudgePolicy where
  planning : Nat := 0
  selfcheck : Nat := 0
  standard : Nat := 0
  total : Nat := 0
  deriving DecidableEq

namespace NudgePolicy

def counter (policy : NudgePolicy) : NudgeKind → Nat
  | .planning => policy.planning
  | .selfcheck => policy.selfcheck
  | .standard => policy.standard

def count (policy : NudgePolicy) : NudgeKind → NudgePolicy
  | .planning => { policy with planning := policy.planning + 1, total := policy.total + 1 }
  | .selfcheck => { policy with selfcheck := policy.selfcheck + 1, total := policy.total + 1 }
  | .standard => { policy with standard := policy.standard + 1, total := policy.total + 1 }

def mayConsume (policy : NudgePolicy) (maxNudges : Nat) (kind : NudgeKind) : Bool :=
  policy.counter kind < maxNudges && policy.total < maxNudges * 2

/-- Either budget gate may block the nudge; it counts only when it fires. -/
def nudge (policy : NudgePolicy) (maxNudges : Nat) (kind : NudgeKind) (text : Nat → String) :
    NudgeDecision × NudgePolicy :=
  if policy.mayConsume maxNudges kind then
    let policy := policy.count kind
    ({ text := some (text (policy.counter kind)), kind := some kind, count := policy.counter kind,
       counted := true }, policy)
  else ({ text := none, kind := some kind, budgetExhausted := true }, policy)

def hasStructuredSelfcheck (P : Printer) (payload : Dict String Value) : Bool :=
  let text (key : String) : String := strip (P.str ((payload.get? key).getD (.str "")))
  (text "business_data_md" ≠ "" && payload.get? "schema_validation" == some (.str "passed")) ||
    minFinishReasoningLen ≤ (text "diagnostics_md").length ||
    minFinishReasoningLen ≤ (text "reasoning").length

def trySelfcheck (policy : NudgePolicy) (P : Printer) (maxNudges : Nat) (payload : Dict String Value) :
    NudgeDecision × NudgePolicy :=
  if payload.get? "schema_validation" == some (.str "failed") then
    ({ text := some (P.str ((payload.get? "validation_error_text").getD (.str "Schema validation failed.")))
       kind := some .selfcheck
       count := policy.selfcheck }, policy)
  else if hasStructuredSelfcheck P payload then (noNudge, policy)
  else policy.nudge maxNudges .selfcheck (fun _ => selfcheckNudge)

def tryPlanning (policy : NudgePolicy) (maxNudges : Nat) (latestContent : String)
    (hasToolCalls hasPlan : Bool) : NudgeDecision × NudgePolicy :=
  if latestContent = "" || hasToolCalls || hasPlan then (noNudge, policy)
  else policy.nudge maxNudges .planning (fun _ => planningNudge)

def tryStandard (policy : NudgePolicy) (maxNudges : Nat) (latestContent : String)
    (hasToolCalls : Bool) : NudgeDecision × NudgePolicy :=
  if latestContent = "" || hasToolCalls then (noNudge, policy)
  else policy.nudge maxNudges .standard (buildStandardNudgeText · latestContent)

def countsText (policy : NudgePolicy) : String :=
  "\x7b'planning': " ++ toString policy.planning ++ ", 'selfcheck': " ++ toString policy.selfcheck ++
    ", 'standard': " ++ toString policy.standard ++ ", 'total': " ++ toString policy.total ++ "\x7d"

end NudgePolicy

def blockText (P : Printer) : Value → String
  | .dict kvs => P.str (((Dict.ofList kvs).get? "text").getD (.str ""))
  | block => P.str block

def latestAiText (P : Printer) (messages : List Message) : String :=
  match messages.getLast? with
  | some (.ai _ (.str text) _) => text
  | some (.ai _ (.list blocks) _) => "".intercalate (blocks.map (blockText P))
  | _ => ""

def lastHasToolCalls (messages : List Message) : Bool :=
  match messages.getLast? with
  | some last => !last.toolCalls.isEmpty
  | none => false

inductive AgentExitDecision where
  | exitSuccess
  | continueNudged
  | continueToolWork
  | continueOpen
  deriving DecidableEq

/-- What a hook of the exit gate answers; `nudge` carries the message it sends the model back with. -/
inductive ExitAnswer where
  | pass
  | exitSuccess
  | fatal (detail : String)
  | backToModel (decision : AgentExitDecision) (nudge : Option String)
  deriving DecidableEq

structure ExitControl where
  phaseName : String
  maxNudges : Nat := 1
  printer : Printer

structure ExitBudgets where
  iterations : Dict String Nat := ∅
  policies : Dict String NudgePolicy := ∅

namespace ExitBudgets

def iteration (b : ExitBudgets) (key : String) : Nat := (b.iterations.get? key).getD 0

def policy (b : ExitBudgets) (key : String) : NudgePolicy := (b.policies.get? key).getD {}

def countTurn (b : ExitBudgets) (key : String) : ExitBudgets :=
  { b with iterations := b.iterations.set key (b.iteration key + 1) }

def setPolicy (b : ExitBudgets) (key : String) (policy : NudgePolicy) : ExitBudgets :=
  { b with policies := b.policies.set key policy }

variable (b : ExitBudgets) (key other : String) (nudges : NudgePolicy)

@[simp] theorem iteration_countTurn :
    (b.countTurn key).iteration other = if key = other then b.iteration key + 1 else b.iteration other := by
  unfold iteration countTurn
  rw [Dict.get?_set]
  split_ifs <;> rfl

@[simp] theorem policy_countTurn : (b.countTurn key).policy other = b.policy other := rfl

@[simp] theorem iteration_setPolicy : (b.setPolicy key nudges).iteration other = b.iteration other := rfl

@[simp] theorem policy_setPolicy :
    (b.setPolicy key nudges).policy other = if key = other then nudges else b.policy other := by
  unfold policy setPolicy
  rw [Dict.get?_set]
  split_ifs <;> rfl

end ExitBudgets

namespace ExitControl

variable (c : ExitControl)

def ownFinishPayload (flow : FrameworkState) : Option (Dict String Value) :=
  flow.finishTaskResult.filter (fun marker => marker.get? "phase_name" == some (.str c.phaseName))

def hasValidFinish (flow : FrameworkState) : Bool :=
  match c.ownFinishPayload flow with
  | some marker => marker.get? "schema_validation" == some (.str "passed")
  | none => false

def workingMemoryHasPlan (flow : FrameworkState) : Bool :=
  match flow.workingMemory.asDict? with
  | some memory => memory.contains "plan"
  | none => false

def fatalError (reason : String) : ExitAnswer :=
  .fatal ("[F-v3-agent-exit-control-failed] Phase '" ++ c.phaseName ++ "' failed: " ++ reason)

def iterationsReached (maxIterations : Nat) : ExitAnswer :=
  c.fatalError ("max iterations (" ++ toString maxIterations ++ ") reached without a valid finish_task marker.")

def nudgeBudgetError (policy : NudgePolicy) (currentIteration : Nat) : ExitAnswer :=
  c.fatalError ("nudge budget exhausted (counts=" ++ policy.countsText ++ ", max_nudges=" ++
    toString c.maxNudges ++ ") after " ++ toString currentIteration ++
    " iteration(s) without a valid finish_task marker.")

def beforeModel (b : ExitBudgets) (key : String) (maxIterations : Nat) (flow : FrameworkState) :
    ExitAnswer × ExitBudgets :=
  let b := b.countTurn key
  (if !c.hasValidFinish flow && maxIterations < b.iteration key then c.iterationsReached maxIterations
   else .pass, b)

def afterModel (b : ExitBudgets) (key : String) (flow : FrameworkState) (messages : List Message) :
    ExitAnswer × ExitBudgets :=
  if c.hasValidFinish flow then (.pass, b)
  else
    let (decision, policy) := (b.policy key).tryPlanning c.maxNudges (latestAiText c.printer messages)
      (lastHasToolCalls messages) (workingMemoryHasPlan flow)
    (match decision.text with
      | some text => .backToModel .continueNudged (some text)
      | none => .pass, b.setPolicy key policy)

def standardGate (policy : NudgePolicy) (currentIteration : Nat) (messages : List Message) :
    ExitAnswer × NudgePolicy :=
  let (decision, policy) := policy.tryStandard c.maxNudges (latestAiText c.printer messages) false
  match decision.text with
  | some text => (.backToModel .continueNudged (some text), policy)
  | none =>
    if decision.budgetExhausted then (c.nudgeBudgetError policy currentIteration, policy)
    else (.backToModel .continueOpen none, policy)

def governNoFinishExit (policy : NudgePolicy) (currentIteration : Nat) (flow : FrameworkState)
    (messages : List Message) : ExitAnswer × NudgePolicy :=
  if lastHasToolCalls messages then (.backToModel .continueToolWork none, policy)
  else
    match c.ownFinishPayload flow with
    | none => c.standardGate policy currentIteration messages
    | some payload =>
      let (decision, policy) := policy.trySelfcheck c.printer c.maxNudges payload
      match decision.text with
      | some text => (.backToModel .continueNudged (some text), policy)
      | none =>
        if decision.budgetExhausted then (c.nudgeBudgetError policy currentIteration, policy)
        else c.standardGate policy currentIteration messages

def afterAgent (b : ExitBudgets) (key : String) (maxIterations : Nat) (flow : FrameworkState)
    (messages : List Message) : ExitAnswer × ExitBudgets :=
  if c.hasValidFinish flow then (.exitSuccess, b)
  else if maxIterations ≤ b.iteration key then (c.iterationsReached maxIterations, b)
  else
    let (answer, policy) := c.governNoFinishExit (b.policy key) (b.iteration key) flow messages
    (answer, b.setPolicy key policy)

section Answers

variable (c : ExitControl) (b : ExitBudgets) (key : String) (maxIterations : Nat) (flow : FrameworkState)
  (messages : List Message)

/-- Without a qualified marker the gate fails the phase or sends the model back. -/
def Refuses : ExitAnswer → Prop
  | .fatal _ | .backToModel .. => True
  | _ => False

theorem standardGate_refuses (policy : NudgePolicy) (iteration : Nat) :
    Refuses (c.standardGate policy iteration messages).1 := by
  unfold standardGate
  simp only
  split
  · trivial
  · split_ifs <;> trivial

theorem governNoFinishExit_refuses (policy : NudgePolicy) (iteration : Nat) :
    Refuses (c.governNoFinishExit policy iteration flow messages).1 := by
  unfold governNoFinishExit
  split_ifs
  · trivial
  · split
    · exact c.standardGate_refuses messages policy iteration
    · simp only
      split
      · trivial
      · split_ifs
        · trivial
        · exact c.standardGate_refuses messages _ iteration

theorem afterAgent_answer :
    (c.hasValidFinish flow = true ∧ (c.afterAgent b key maxIterations flow messages).1 = .exitSuccess) ∨
      (c.hasValidFinish flow = false ∧ Refuses (c.afterAgent b key maxIterations flow messages).1) := by
  unfold afterAgent
  split_ifs with hvalid hmax
  · exact Or.inl ⟨hvalid, rfl⟩
  · exact Or.inr ⟨by simpa using hvalid, trivial⟩
  · exact Or.inr ⟨by simpa using hvalid, c.governNoFinishExit_refuses flow messages _ _⟩

theorem afterAgent_iteration : (c.afterAgent b key maxIterations flow messages).2.iteration key = b.iteration key := by
  unfold afterAgent
  split_ifs <;> simp

theorem afterModel_iteration : (c.afterModel b key flow messages).2.iteration key = b.iteration key := by
  unfold afterModel
  split_ifs <;> simp

theorem beforeModel_iteration : (c.beforeModel b key maxIterations flow).2.iteration key = b.iteration key + 1 := by
  simp [beforeModel]

theorem beforeModel_answer :
    (∃ detail, (c.beforeModel b key maxIterations flow).1 = .fatal detail) ∨
      ((c.beforeModel b key maxIterations flow).1 = .pass ∧
        (c.hasValidFinish flow = false → b.iteration key + 1 ≤ maxIterations)) := by
  unfold beforeModel
  simp only [ExitBudgets.iteration_countTurn, if_true]
  by_cases hover : (!c.hasValidFinish flow && decide (maxIterations < b.iteration key + 1)) = true
  · rw [if_pos hover]
    exact Or.inl ⟨_, rfl⟩
  · rw [if_neg hover]
    refine Or.inr ⟨rfl, ?_⟩
    intro hvalid
    simpa [hvalid] using hover

end Answers

end ExitControl

end GraphSkillRuntime
