import GraphSkillRuntime.CognitiveFlow
import GraphSkillRuntime.ExitControl
import Mathlib.Logic.Function.Basic

/-!
The middleware instance of one agent phase, shared by the invocations that run through it at the same
time.
-/

namespace GraphSkillRuntime

open OrderedDict

def isToolMessage : Message → Bool
  | .tool .. => true
  | _ => false

def nameOr (name : Option String) (default : String) : String :=
  match name with
  | some "" | none => default
  | some name => name

structure LoopDetection where
  loopWindow : Nat := 5
  loopThreshold : Nat := 3
  phaseName : String
  printer : Printer

namespace LoopDetection

variable (l : LoopDetection)

def stringifyContent : Value → String
  | .str s => s
  | content => l.printer.dumps content

def toolMessageSignature (msg : Message) : String × String :=
  match msg with
  | .tool _ name content _ _ => (nameOr name "unknown", l.stringifyContent content)
  | .human _ _ content | .ai _ content _ => ("unknown", l.stringifyContent content)

def recentToolMessages (messages : List Message) : List Message :=
  (messages.reverse.filter isToolMessage).take (max 1 l.loopWindow)

def signatureCounts (messages : List Message) : Dict (String × String) Nat :=
  messages.foldl (fun counts msg =>
    counts.set (l.toolMessageSignature msg) ((counts.get? (l.toolMessageSignature msg)).getD 0 + 1)) ∅

def findRepeatedSignature (messages : List Message) : Option ((String × String) × Nat) :=
  (l.signatureCounts (l.recentToolMessages messages)).entries.find? (fun e => max 2 l.loopThreshold ≤ e.2)

def diagnostic (toolName : String) (count : Nat) : String :=
  "<loop_detection_diagnostic>\n检测到死循环！工具 `" ++ toolName ++ "` 在 phase `" ++ l.phaseName ++
    "` 中连续或滑窗内重复执行了 " ++ toString count ++
    " 次，且返回内容无进展。\n请调整执行路径或切换工具。\n</loop_detection_diagnostic>"

/-- The diagnostic that `after_model` injects, with the signature it remembers afterwards. -/
def afterModel (last : Option (String × String)) (messages : List Message) :
    Option String × Option (String × String) :=
  match l.findRepeatedSignature messages with
  | none => (none, last)
  | some (signature, count) =>
    if last = some signature then (none, last)
    else (some (l.diagnostic signature.1 count), some signature)

end LoopDetection

structure ExecutionControl where
  deadEndThreshold : Nat := 3
  printer : Printer

namespace ExecutionControl

variable (e : ExecutionControl)

def failureStreak : List Message → Option (String × String) → Nat → Option (String × String) × Nat
  | [], streak, count => (streak, count)
  | .tool _ name content _ isError :: rest, streak, count =>
    if !isError then (streak, count)
    else
      match streak with
      | none => failureStreak rest
          (some (nameOr name "unknown", .ofList ((e.printer.str content).toList.take 300))) (count + 1)
      | some (toolName, _) =>
        if nameOr name "unknown" ≠ toolName then (streak, count) else failureStreak rest streak (count + 1)
  | msg :: rest, streak, count =>
    if msg.name = some "dead_end_warning" then (streak, count) else failureStreak rest streak count

def deadEndWarning (toolName : String) (count : Nat) (latestError : String) : String :=
  "<dead_end_warning>\n工具 `" ++ toolName ++ "` 已连续失败 " ++ toString count ++
    " 次。不要机械地重复同一路径。\n请优先检查:\n1. 输入格式是否错误\n2. 是否应该切换工具或改用已有上下文\n" ++
    "3. 是否应先更新 working memory 再继续\n最近错误: " ++ latestError ++ "\n</dead_end_warning>"

def afterModel (messages : List Message) : Option String :=
  match e.failureStreak messages.reverse none 0 with
  | (some (toolName, latestError), count) =>
    if count < max 1 e.deadEndThreshold then none else some (deadEndWarning toolName count latestError)
  | (none, _) => none

end ExecutionControl

structure PhaseMiddleware where
  cognitive : CognitiveFlow
  execution : ExecutionControl
  loop : LoopDetection
  exit : ExitControl

/-- What the instances of the chain remember between two hooks. The budgets and turn counts are kept per
invocation key; the diagnosed signature and the accepted turn have one slot each. -/
structure MiddlewareState where
  budgets : ExitBudgets := {}
  iterations : Dict String Nat := ∅
  lastDiagnosticSignature : Option (String × String) := none
  acceptedFinishTurnKey : Option String := none

inductive LaneStep where
  | executionBeforeModel
  | exitBeforeModel (maxIterations : Nat) (flow : FrameworkState)
  | executionAfterModel (messages : List Message)
  | loopAfterModel (messages : List Message)
  | exitAfterModel (flow : FrameworkState) (messages : List Message)
  | exitAfterAgent (maxIterations : Nat) (flow : FrameworkState) (messages : List Message)
  | finishTask (args : Dict String Value) (state : AgentState) (toolCallId : String)

inductive LaneDecision where
  | iteration (n : Nat)
  | exit (answer : ExitAnswer)
  | deadEnd (warning : Option String)
  | loop (diagnostic : Option String)
  | finish (verdict : FinishVerdict)
  | raised (message : String)
  deriving DecidableEq

namespace PhaseMiddleware

variable (mw : PhaseMiddleware)

def step (s : MiddlewareState) (key : String) : LaneStep → LaneDecision × MiddlewareState
  | .executionBeforeModel =>
    let n := (s.iterations.get? key).getD 0 + 1
    (.iteration n, { s with iterations := s.iterations.set key n })
  | .exitBeforeModel maxIterations flow =>
    let (answer, budgets) := mw.exit.beforeModel s.budgets key maxIterations flow
    (.exit answer, { s with budgets := budgets })
  | .executionAfterModel messages => (.deadEnd (mw.execution.afterModel messages), s)
  | .loopAfterModel messages =>
    let (diagnostic, last) := mw.loop.afterModel s.lastDiagnosticSignature messages
    (.loop diagnostic, { s with lastDiagnosticSignature := last })
  | .exitAfterModel flow messages =>
    let (answer, budgets) := mw.exit.afterModel s.budgets key flow messages
    (.exit answer, { s with budgets := budgets })
  | .exitAfterAgent maxIterations flow messages =>
    let (answer, budgets) := mw.exit.afterAgent s.budgets key maxIterations flow messages
    (.exit answer, { s with budgets := budgets })
  | .finishTask args state toolCallId =>
    match mw.cognitive.handleFinishTask s.acceptedFinishTurnKey args state toolCallId with
    | .ok outcome => (.finish outcome.verdict, { s with acceptedFinishTurnKey := outcome.gate })
    | .error message => (.raised message, s)

/-- The steps of several invocations, each with the key of the one that takes it, and what they are
answered. -/
def run : MiddlewareState → List (String × LaneStep) → List (String × LaneStep × LaneDecision)
  | _, [] => []
  | s, (key, step) :: steps => (key, step, (mw.step s key step).1) :: run (mw.step s key step).2 steps

end PhaseMiddleware

def laneTrace (key : String) (trace : List (String × LaneStep × LaneDecision)) : List (LaneStep × LaneDecision) :=
  (trace.filter (·.1 = key)).map Prod.snd

def laneSteps (key : String) (steps : List (String × LaneStep)) : List (String × LaneStep) :=
  steps.filter (·.1 = key)

def finishTurn? : LaneStep → Option (Option String)
  | .finishTask _ state _ => some (finishTurnKey state.messages)
  | _ => none

def Accepted (e : LaneStep × LaneDecision) : Prop := e.2 = .finish .accepted

def OneAcceptancePerTurn (trace : List (LaneStep × LaneDecision)) : Prop :=
  ∀ before first between second after turn,
    trace = before ++ first :: (between ++ second :: after) →
    finishTurn? first.1 = some (some turn) → finishTurn? second.1 = some (some turn) →
    (∀ e ∈ between, finishTurn? e.1 = none ∨ finishTurn? e.1 = some (some turn)) →
    ¬ (Accepted first ∧ Accepted second)

/-- Every invocation is answered as it would be alone, with middleware of its own. -/
structure LanesApart (mw : PhaseMiddleware) (steps : List (String × LaneStep)) : Prop where
  asAlone : ∀ key, laneTrace key (mw.run {} steps) = laneTrace key (mw.run {} (laneSteps key steps))
  oneAcceptance : ∀ key, OneAcceptancePerTurn (laneTrace key (mw.run {} steps))

def SlotsAgree (mw : PhaseMiddleware) (shared own : MiddlewareState) : LaneStep → Prop
  | .loopAfterModel messages => ∀ signature count,
      mw.loop.findRepeatedSignature messages = some (signature, count) →
      (shared.lastDiagnosticSignature = some signature ↔ own.lastDiagnosticSignature = some signature)
  | .finishTask _ state _ => ∀ turn, finishTurnKey state.messages = some turn →
      (shared.acceptedFinishTurnKey = some turn ↔ own.acceptedFinishTurnKey = some turn)
  | _ => True

namespace PhaseMiddleware

variable (mw : PhaseMiddleware)

def after (s : MiddlewareState) (steps : List (String × LaneStep)) : MiddlewareState :=
  steps.foldl (fun s e => (mw.step s e.1 e.2).2) s

def finding? : LaneStep → Option (String × String)
  | .loopAfterModel messages => (mw.loop.findRepeatedSignature messages).map Prod.fst
  | _ => none

/-- The schema gate takes the submission, and its hoist goes through. -/
def passes (args : Dict String Value) (state : AgentState) : Bool :=
  match mw.cognitive.validateFinishArgs args with
  | .ok (.passed items) =>
    let marker := mw.cognitive.finishResult args items
    (mw.cognitive.applyIoHoist state.data { state.flow with finishTaskResult := some marker } marker).toBool
  | _ => false

def passing? : LaneStep → Option (Option String)
  | .finishTask args state _ => if mw.passes args state then some (finishTurnKey state.messages) else none
  | _ => none

def lastFinding (steps : List (String × LaneStep)) : Option (String × String) :=
  (steps.filterMap (mw.finding? ·.2)).getLast?

def lastPassing (steps : List (String × LaneStep)) : Option String :=
  (steps.filterMap (mw.passing? ·.2)).getLast?.join

/-- A signature that the step finds is the last one found by anyone exactly if it is the last one its own invocation
found, and the turn of a submission is that of the last one that passed exactly if it is so among its invocation's. -/
def Undisturbed (before : List (String × LaneStep)) (key : String) : LaneStep → Prop
  | .loopAfterModel messages => ∀ signature count,
      mw.loop.findRepeatedSignature messages = some (signature, count) →
      (mw.lastFinding before = some signature ↔ mw.lastFinding (laneSteps key before) = some signature)
  | .finishTask _ state _ => ∀ turn, finishTurnKey state.messages = some turn →
      (mw.lastPassing before = some turn ↔ mw.lastPassing (laneSteps key before) = some turn)
  | _ => True

end PhaseMiddleware

structure ExitBudgets.SameAt (key : String) (b d : ExitBudgets) : Prop where
  iteration : b.iteration key = d.iteration key
  policy : b.policy key = d.policy key

structure LocalTo (key : String) (hook : ExitBudgets → ExitAnswer × ExitBudgets) : Prop where
  answer : ∀ b d, b.SameAt key d → (hook b).1 = (hook d).1
  own : ∀ b d, b.SameAt key d → (hook b).2.SameAt key (hook d).2
  frame : ∀ b other, key ≠ other → (hook b).2.SameAt other b

namespace ExitControl

variable (c : ExitControl) (key : String) (maxIterations : Nat) (flow : FrameworkState)
  (messages : List Message)

theorem beforeModel_local : LocalTo key (c.beforeModel · key maxIterations flow) := by
  constructor
  · intro b d h
    simp [beforeModel, h.iteration]
  · intro b d h
    constructor
    · simp [beforeModel, h.iteration]
    · simpa [beforeModel] using h.policy
  · intro b other hne
    constructor <;> simp [beforeModel, hne]

theorem afterModel_local : LocalTo key (c.afterModel · key flow messages) := by
  constructor
  · intro b d h
    unfold afterModel
    split_ifs
    · rfl
    · simp only [h.policy]
  · intro b d h
    unfold afterModel
    split_ifs
    · exact h
    · constructor
      · simpa using h.iteration
      · simp [h.policy]
  · intro b other hne
    unfold afterModel
    split_ifs
    · exact ⟨rfl, rfl⟩
    · constructor <;> simp [hne]

theorem afterAgent_local : LocalTo key (c.afterAgent · key maxIterations flow messages) := by
  constructor
  · intro b d h
    unfold afterAgent
    rw [h.iteration, h.policy]
    split_ifs <;> rfl
  · intro b d h
    unfold afterAgent
    rw [h.iteration, h.policy]
    split_ifs
    · exact h
    · exact h
    · constructor
      · simpa using h.iteration
      · simp
  · intro b other hne
    unfold afterAgent
    split_ifs
    · exact ⟨rfl, rfl⟩
    · exact ⟨rfl, rfl⟩
    · constructor <;> simp [hne]

end ExitControl

structure SameCounts (key : String) (s t : MiddlewareState) : Prop where
  iterations : (s.iterations.get? key).getD 0 = (t.iterations.get? key).getD 0
  budgets : s.budgets.SameAt key t.budgets

theorem SameCounts.refl (key : String) (s : MiddlewareState) : SameCounts key s s := ⟨rfl, rfl, rfl⟩

theorem SameCounts.trans {key : String} {s t u : MiddlewareState} (h : SameCounts key s t)
    (h' : SameCounts key t u) : SameCounts key s u :=
  ⟨h.iterations.trans h'.iterations, h.budgets.iteration.trans h'.budgets.iteration,
    h.budgets.policy.trans h'.budgets.policy⟩

section Steps

variable {mw : PhaseMiddleware} {s t : MiddlewareState} {key other : String} {step : LaneStep}

theorem step_sameCounts (h : SameCounts key s t) :
    SameCounts key (mw.step s key step).2 (mw.step t key step).2 := by
  cases step with
  | executionBeforeModel => exact ⟨by simp [PhaseMiddleware.step, h.iterations], h.budgets⟩
  | exitBeforeModel maxIterations flow =>
    exact ⟨h.iterations, (mw.exit.beforeModel_local key maxIterations flow).own _ _ h.budgets⟩
  | executionAfterModel messages => exact h
  | loopAfterModel messages => exact ⟨h.iterations, h.budgets⟩
  | exitAfterModel flow messages =>
    exact ⟨h.iterations, (mw.exit.afterModel_local key flow messages).own _ _ h.budgets⟩
  | exitAfterAgent maxIterations flow messages =>
    exact ⟨h.iterations, (mw.exit.afterAgent_local key maxIterations flow messages).own _ _ h.budgets⟩
  | finishTask args state toolCallId =>
    simp only [PhaseMiddleware.step]
    split <;> split <;> exact ⟨h.iterations, h.budgets⟩

theorem step_frame (hne : key ≠ other) : SameCounts other (mw.step s key step).2 s := by
  cases step with
  | executionBeforeModel => exact ⟨by simp [PhaseMiddleware.step, hne], rfl, rfl⟩
  | exitBeforeModel maxIterations flow =>
    exact ⟨rfl, (mw.exit.beforeModel_local key maxIterations flow).frame _ _ hne⟩
  | executionAfterModel messages => exact SameCounts.refl _ _
  | loopAfterModel messages => exact ⟨rfl, rfl, rfl⟩
  | exitAfterModel flow messages =>
    exact ⟨rfl, (mw.exit.afterModel_local key flow messages).frame _ _ hne⟩
  | exitAfterAgent maxIterations flow messages =>
    exact ⟨rfl, (mw.exit.afterAgent_local key maxIterations flow messages).frame _ _ hne⟩
  | finishTask args state toolCallId =>
    simp only [PhaseMiddleware.step]
    split <;> exact ⟨rfl, rfl, rfl⟩

theorem loop_afterModel_iff {l : LoopDetection} {last last' : Option (String × String)}
    {messages : List Message} :
    (l.afterModel last messages).1 = (l.afterModel last' messages).1 ↔
      ∀ signature count, l.findRepeatedSignature messages = some (signature, count) →
        (last = some signature ↔ last' = some signature) := by
  unfold LoopDetection.afterModel
  cases h : l.findRepeatedSignature messages with
  | none => simp
  | some found =>
    obtain ⟨signature, count⟩ := found
    simp only [Option.some.injEq, Prod.mk.injEq, and_imp]
    by_cases hl : last = some signature <;> by_cases hl' : last' = some signature <;> simp [hl, hl']

def TurnClosed (gate : Option String) (state : AgentState) : Prop :=
  finishTurnKey state.messages ≠ none ∧ finishTurnKey state.messages = gate

section Finish

variable {args : Dict String Value} {state : AgentState} {toolCallId : String}

theorem step_finishTask_closed (h : TurnClosed s.acceptedFinishTurnKey state) :
    mw.step s key (.finishTask args state toolCallId) = (.finish .duplicate, s) := by
  unfold TurnClosed at h
  simp only [PhaseMiddleware.step, CognitiveFlow.handleFinishTask]
  rw [if_pos h]
  rfl

theorem step_finishTask_open (h : ¬ TurnClosed s.acceptedFinishTurnKey state) :
    (mw.step s key (.finishTask args state toolCallId)).1 ≠ .finish .duplicate ∧
      ((mw.step s key (.finishTask args state toolCallId)).1 = .finish .accepted →
        (mw.step s key (.finishTask args state toolCallId)).2.acceptedFinishTurnKey =
          finishTurnKey state.messages) := by
  simp only [PhaseMiddleware.step]
  split
  · rename_i outcome hout
    rcases handleFinishTask_cases hout with
      ⟨hclosed, rfl⟩ | ⟨-, errors, -, rfl⟩ | ⟨-, items, errors, command, -, rfl, -⟩
    · exact absurd hclosed h
    · simp
    · simp
  · simp

theorem step_finishTask_open_eq (hs : ¬ TurnClosed s.acceptedFinishTurnKey state)
    (ht : ¬ TurnClosed t.acceptedFinishTurnKey state) :
    (mw.step s key (.finishTask args state toolCallId)).1 =
      (mw.step t key (.finishTask args state toolCallId)).1 := by
  unfold TurnClosed at hs ht
  simp only [PhaseMiddleware.step, CognitiveFlow.handleFinishTask]
  rw [if_neg hs, if_neg ht]
  cases mw.cognitive.validateFinishArgs args with
  | error message => rfl
  | ok validation =>
    cases validation with
    | failed errors => rfl
    | passed items =>
      simp only [bind, Except.bind]
      split <;> simp_all

theorem finishTask_decision_iff :
    (mw.step s key (.finishTask args state toolCallId)).1 =
        (mw.step t key (.finishTask args state toolCallId)).1 ↔
      (TurnClosed s.acceptedFinishTurnKey state ↔ TurnClosed t.acceptedFinishTurnKey state) := by
  by_cases hs : TurnClosed s.acceptedFinishTurnKey state
  · rw [step_finishTask_closed hs]
    by_cases ht : TurnClosed t.acceptedFinishTurnKey state
    · rw [step_finishTask_closed ht]
      simp [hs, ht]
    · simp [hs, ht, (step_finishTask_open ht).1.symm]
  · by_cases ht : TurnClosed t.acceptedFinishTurnKey state
    · rw [step_finishTask_closed ht]
      simp [hs, ht, (step_finishTask_open hs).1]
    · simp [hs, ht, step_finishTask_open_eq hs ht]

theorem turnClosed_iff (gate gate' : Option String) (state : AgentState) :
    (TurnClosed gate state ↔ TurnClosed gate' state) ↔
      ∀ turn, finishTurnKey state.messages = some turn → (gate = some turn ↔ gate' = some turn) := by
  unfold TurnClosed
  cases finishTurnKey state.messages with
  | none => simp
  | some turn => simp [eq_comm]

end Finish

theorem step_decision_iff (h : SameCounts key s t) :
    (mw.step s key step).1 = (mw.step t key step).1 ↔ SlotsAgree mw s t step := by
  cases step with
  | executionBeforeModel => simp [PhaseMiddleware.step, SlotsAgree, h.iterations]
  | exitBeforeModel maxIterations flow =>
    have hsame := (mw.exit.beforeModel_local key maxIterations flow).answer _ _ h.budgets
    simpa [PhaseMiddleware.step, SlotsAgree] using hsame
  | executionAfterModel messages => simp [PhaseMiddleware.step, SlotsAgree]
  | loopAfterModel messages =>
    simp only [PhaseMiddleware.step, SlotsAgree, LaneDecision.loop.injEq]
    exact loop_afterModel_iff
  | exitAfterModel flow messages =>
    have hsame := (mw.exit.afterModel_local key flow messages).answer _ _ h.budgets
    simpa [PhaseMiddleware.step, SlotsAgree] using hsame
  | exitAfterAgent maxIterations flow messages =>
    have hsame := (mw.exit.afterAgent_local key maxIterations flow messages).answer _ _ h.budgets
    simpa [PhaseMiddleware.step, SlotsAgree] using hsame
  | finishTask args state toolCallId =>
    rw [finishTask_decision_iff, turnClosed_iff]
    rfl

end Steps

section Runs

variable {mw : PhaseMiddleware}

theorem laneTrace_run_cons (key : String) (s : MiddlewareState) (other : String) (step : LaneStep)
    (steps : List (String × LaneStep)) :
    laneTrace key (mw.run s ((other, step) :: steps)) =
      if other = key then (step, (mw.step s other step).1) :: laneTrace key (mw.run (mw.step s other step).2 steps)
      else laneTrace key (mw.run (mw.step s other step).2 steps) := by
  unfold laneTrace
  by_cases h : other = key <;> simp [PhaseMiddleware.run, h]

theorem laneSteps_cons (key other : String) (step : LaneStep) (steps : List (String × LaneStep)) :
    laneSteps key ((other, step) :: steps) =
      if other = key then (other, step) :: laneSteps key steps else laneSteps key steps := by
  unfold laneSteps
  by_cases h : other = key <;> simp [h]

theorem asAlone_iff (steps : List (String × LaneStep)) (shared : MiddlewareState)
    (own : String → MiddlewareState) (h : ∀ key, SameCounts key shared (own key)) :
    (∀ key, laneTrace key (mw.run shared steps) = laneTrace key (mw.run (own key) (laneSteps key steps))) ↔
      ∀ before e after, steps = before ++ e :: after →
        SlotsAgree mw (mw.after shared before) (mw.after (own e.1) (laneSteps e.1 before)) e.2 := by
  induction steps generalizing shared own with
  | nil => simp [laneSteps, PhaseMiddleware.run]
  | cons entry steps ih =>
    obtain ⟨key, step⟩ := entry
    have hnext : ∀ other, SameCounts other (mw.step shared key step).2
        (Function.update own key (mw.step (own key) key step).2 other) := by
      intro other
      by_cases hk : key = other
      · subst hk
        rw [Function.update_self]
        exact step_sameCounts (h key)
      · rw [Function.update_of_ne (Ne.symm hk)]
        exact (step_frame hk).trans (h other)
    have hown : ∀ other before, mw.after (own other) (laneSteps other ((key, step) :: before)) =
        mw.after (Function.update own key (mw.step (own key) key step).2 other) (laneSteps other before) := by
      intro other before
      rw [laneSteps_cons]
      by_cases hk : key = other
      · subst hk
        rw [if_pos rfl, Function.update_self]
        rfl
      · rw [if_neg hk, Function.update_of_ne (Ne.symm hk)]
    have hsplits : (∀ before e after, (key, step) :: steps = before ++ e :: after →
        SlotsAgree mw (mw.after shared before) (mw.after (own e.1) (laneSteps e.1 before)) e.2) ↔
        SlotsAgree mw shared (own key) step ∧ ∀ key', laneTrace key' (mw.run (mw.step shared key step).2 steps) =
          laneTrace key' (mw.run (Function.update own key (mw.step (own key) key step).2 key')
            (laneSteps key' steps)) := by
      rw [ih _ _ hnext, Runs.forall_splits_cons]
      simp only [hown]
      rfl
    rw [hsplits, ← step_decision_iff (h key)]
    constructor
    · intro hall
      have hkey := hall key
      rw [laneTrace_run_cons, laneSteps_cons, if_pos rfl, if_pos rfl, laneTrace_run_cons, if_pos rfl,
        List.cons.injEq] at hkey
      refine ⟨(Prod.mk.inj hkey.1).2, ?_⟩
      intro other
      by_cases hk : key = other
      · subst hk
        rw [Function.update_self]
        exact hkey.2
      · have hother := hall other
        rw [laneTrace_run_cons, laneSteps_cons, if_neg hk, if_neg hk] at hother
        rw [Function.update_of_ne (Ne.symm hk)]
        exact hother
    · rintro ⟨hdecision, htails⟩ other
      have htail := htails other
      by_cases hk : key = other
      · subst hk
        rw [Function.update_self] at htail
        rw [laneTrace_run_cons, laneSteps_cons, if_pos rfl, if_pos rfl, laneTrace_run_cons, if_pos rfl,
          hdecision, htail]
      · rw [Function.update_of_ne (Ne.symm hk)] at htail
        rw [laneTrace_run_cons, laneSteps_cons, if_neg hk, if_neg hk]
        exact htail

/-- One invocation on middleware in state `s`, alone. -/
def PhaseMiddleware.soloTrace (mw : PhaseMiddleware) (key : String) :
    MiddlewareState → List LaneStep → List (LaneStep × LaneDecision)
  | _, [] => []
  | s, step :: steps => (step, (mw.step s key step).1) :: mw.soloTrace key (mw.step s key step).2 steps

theorem laneTrace_laneSteps (key : String) (s : MiddlewareState) (steps : List (String × LaneStep)) :
    laneTrace key (mw.run s (laneSteps key steps)) =
      mw.soloTrace key s ((laneSteps key steps).map Prod.snd) := by
  induction steps generalizing s with
  | nil => rfl
  | cons entry steps ih =>
    obtain ⟨other, step⟩ := entry
    rw [laneSteps_cons]
    by_cases h : other = key
    · subst h
      rw [if_pos rfl, laneTrace_run_cons, if_pos rfl, ih]
      rfl
    · rw [if_neg h]
      exact ih s

theorem step_keeps_slot {key : String} {s : MiddlewareState} {step : LaneStep} {turn : String}
    (hs : s.acceptedFinishTurnKey = some turn)
    (h : finishTurn? step = none ∨ finishTurn? step = some (some turn)) :
    (mw.step s key step).2.acceptedFinishTurnKey = some turn := by
  cases step with
  | finishTask args state toolCallId =>
    have hkey : finishTurnKey state.messages = some turn := by simpa [finishTurn?] using h
    rw [step_finishTask_closed ⟨by simp [hkey], hkey.trans hs.symm⟩]
    exact hs
  | _ => exact hs

theorem accepted_inversion {key : String} {s : MiddlewareState} {step : LaneStep} {turn : String}
    (hturn : finishTurn? step = some (some turn)) (h : (mw.step s key step).1 = .finish .accepted) :
    s.acceptedFinishTurnKey ≠ some turn ∧
      (mw.step s key step).2.acceptedFinishTurnKey = some turn := by
  cases step with
  | finishTask args state toolCallId =>
    have hkey : finishTurnKey state.messages = some turn := by simpa [finishTurn?] using hturn
    by_cases hclosed : TurnClosed s.acceptedFinishTurnKey state
    · rw [step_finishTask_closed hclosed] at h
      cases h
    · refine ⟨?_, ((step_finishTask_open hclosed).2 h).trans hkey⟩
      intro hs
      exact hclosed ⟨by simp [hkey], hkey.trans hs.symm⟩
  | _ => cases hturn

theorem no_acceptance_in_closed_turn {key turn : String} {s : MiddlewareState} {steps : List LaneStep}
    {between after : List (LaneStep × LaneDecision)} {second : LaneStep × LaneDecision}
    (hs : s.acceptedFinishTurnKey = some turn)
    (htrace : mw.soloTrace key s steps = between ++ second :: after)
    (hturn : finishTurn? second.1 = some (some turn))
    (hbetween : ∀ e ∈ between, finishTurn? e.1 = none ∨ finishTurn? e.1 = some (some turn)) :
    ¬ Accepted second := by
  induction between generalizing s steps with
  | nil =>
    cases steps with
    | nil => cases htrace
    | cons step steps =>
      obtain ⟨rfl, -⟩ := List.cons.inj htrace
      intro haccepted
      exact (accepted_inversion hturn haccepted).1 hs
  | cons e between ih =>
    cases steps with
    | nil => cases htrace
    | cons step steps =>
      obtain ⟨rfl, htail⟩ := List.cons.inj htrace
      exact ih (step_keeps_slot hs (hbetween _ (List.mem_cons_self ..))) htail
        (fun e he => hbetween e (List.mem_cons_of_mem _ he))

theorem soloTrace_oneAcceptance (key : String) (s : MiddlewareState) (steps : List LaneStep) :
    OneAcceptancePerTurn (mw.soloTrace key s steps) := by
  intro before first between second after turn htrace hfirst hsecond hbetween haccepted
  induction before generalizing s steps with
  | nil =>
    cases steps with
    | nil => cases htrace
    | cons step steps =>
      obtain ⟨rfl, htail⟩ := List.cons.inj htrace
      exact no_acceptance_in_closed_turn (accepted_inversion hfirst haccepted.1).2 htail hsecond hbetween
        haccepted.2
  | cons e before ih =>
    cases steps with
    | nil => cases htrace
    | cons step steps => exact ih _ steps (List.cons.inj htrace).2

end Runs

section Slots

variable (mw : PhaseMiddleware)

theorem step_lastDiagnostic (s : MiddlewareState) (key : String) (step : LaneStep) :
    (mw.step s key step).2.lastDiagnosticSignature = ((mw.finding? step).map some).getD s.lastDiagnosticSignature := by
  cases step with
  | loopAfterModel messages =>
    simp only [PhaseMiddleware.step, PhaseMiddleware.finding?, LoopDetection.afterModel]
    cases mw.loop.findRepeatedSignature messages with
    | none => rfl
    | some found =>
      obtain ⟨signature, count⟩ := found
      dsimp only
      split_ifs with hlast
      · exact hlast
      · rfl
  | finishTask args state toolCallId =>
    simp only [PhaseMiddleware.step]
    split <;> rfl
  | _ => rfl

theorem step_acceptedFinishTurnKey (s : MiddlewareState) (key : String) (step : LaneStep) :
    (mw.step s key step).2.acceptedFinishTurnKey = (mw.passing? step).getD s.acceptedFinishTurnKey := by
  cases step with
  | finishTask args state toolCallId =>
    by_cases hclosed : TurnClosed s.acceptedFinishTurnKey state
    · rw [step_finishTask_closed hclosed, PhaseMiddleware.passing?]
      split_ifs
      · exact hclosed.2.symm
      · rfl
    · unfold TurnClosed at hclosed
      unfold PhaseMiddleware.passing? PhaseMiddleware.passes
      simp only [PhaseMiddleware.step, CognitiveFlow.handleFinishTask]
      rw [if_neg hclosed]
      cases hvalid : mw.cognitive.validateFinishArgs args with
      | error message => rfl
      | ok validation =>
        cases validation with
        | failed errors => rfl
        | passed items =>
          obtain ⟨hoisted, hhoist⟩ : ∃ hoisted, mw.cognitive.applyIoHoist state.data
              { state.flow with finishTaskResult := some (mw.cognitive.finishResult args items) }
              (mw.cognitive.finishResult args items) = hoisted := ⟨_, rfl⟩
          simp only [bind, Except.bind, hhoist]
          cases hoisted <;> rfl
  | _ => rfl

theorem after_lastDiagnostic (steps : List (String × LaneStep)) :
    (mw.after {} steps).lastDiagnosticSignature = mw.lastFinding steps := by
  have hslot := @Runs.foldl_slot _ _ (fun e => (mw.finding? e.2).map some) _ (fun s e => (mw.step s e.1 e.2).2)
    MiddlewareState.lastDiagnosticSignature (fun s e => step_lastDiagnostic mw s e.1 e.2) steps {}
  have hmap : steps.filterMap (fun e => (mw.finding? e.2).map some) =
      (steps.filterMap (mw.finding? ·.2)).map some := by
    rw [List.map_filterMap]
  rw [PhaseMiddleware.after, hslot, hmap, List.getLast?_map, PhaseMiddleware.lastFinding]
  cases (steps.filterMap (mw.finding? ·.2)).getLast? <;> rfl

theorem after_acceptedFinishTurnKey (steps : List (String × LaneStep)) :
    (mw.after {} steps).acceptedFinishTurnKey = mw.lastPassing steps := by
  have hslot := @Runs.foldl_slot _ _ (fun e => mw.passing? e.2) _ (fun s e => (mw.step s e.1 e.2).2)
    MiddlewareState.acceptedFinishTurnKey (fun s e => step_acceptedFinishTurnKey mw s e.1 e.2) steps {}
  rw [PhaseMiddleware.after, hslot, PhaseMiddleware.lastPassing]
  cases (steps.filterMap (mw.passing? ·.2)).getLast? <;> rfl

end Slots

/-- In every interleaving the invocations are answered as they would be alone if and only if every loop check and every
submission is undisturbed by what the others found and submitted before it. -/
theorem lanes_apart_iff (mw : PhaseMiddleware) (steps : List (String × LaneStep)) :
    LanesApart mw steps ↔
      ∀ before key step after, steps = before ++ (key, step) :: after → mw.Undisturbed before key step := by
  have halone := @asAlone_iff mw steps {} (fun _ => {}) (fun key => SameCounts.refl key _)
  have hslots : ∀ before key step, SlotsAgree mw (mw.after {} before) (mw.after {} (laneSteps key before)) step ↔
      mw.Undisturbed before key step := by
    intro before key step
    cases step with
    | _ => simp only [SlotsAgree, PhaseMiddleware.Undisturbed, after_lastDiagnostic, after_acceptedFinishTurnKey]
  simp only [Prod.forall, hslots] at halone
  rw [← halone]
  constructor
  · exact LanesApart.asAlone
  · intro h
    refine ⟨h, fun key => ?_⟩
    rw [h key, laneTrace_laneSteps]
    exact soloTrace_oneAcceptance key {} _

def draftingMiddleware : PhaseMiddleware where
  cognitive := draftingFlow
  execution := { printer := plainPrinter }
  loop := { phaseName := "draft", printer := plainPrinter }
  exit := { phaseName := "draft", printer := plainPrinter }

def stuckMessages : List Message := List.replicate 3 (.tool none (some "search") (.str "no result") "" false)

theorem second_item_loses_its_diagnostic :
    ¬ LanesApart draftingMiddleware
      [("run-1|iter1.agent:draft", .loopAfterModel stuckMessages),
       ("run-1|iter2.agent:draft", .loopAfterModel stuckMessages)] := by
  intro h
  have hsecond := congrArg (List.map Prod.snd) (h.asAlone "run-1|iter2.agent:draft")
  revert hsecond
  decide

end GraphSkillRuntime
