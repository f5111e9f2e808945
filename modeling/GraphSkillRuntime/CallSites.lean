import GraphSkillRuntime.LaneNamespaces
import GraphSkillRuntime.MiddlewareLanes
import GraphSkillRuntime.PhaseWrapper

/-! The call sites of agent phase executions in one run, and the lanes they get. -/

namespace GraphSkillRuntime

open OrderedDict

/-- What an execution is nested in: an iteration item, a SUBGRAPH phase, or an item of a subagent call
(calls are numbered over the run). -/
inductive CallFrame where
  | item (index : Nat)
  | subgraph (phaseId : String)
  | subagent (call item : Nat)
  deriving DecidableEq

namespace CallFrame

def context : CallFrame → Option Frame
  | item index => some (.phaseItem index)
  | subgraph phaseId => some (.subgraph phaseId)
  | subagent _ _ => none

def enter (flow : FrameworkState) : CallFrame → FrameworkState
  | item _ => flow
  | subgraph _ => childFlow flow
  | subagent _ _ => childFlow flow

def isCall : CallFrame → Bool
  | item _ => false
  | subgraph _ | subagent _ _ => true

end CallFrame

/-- An execution of an agent phase in the run of `thread`: the flow of the run carries the thread id, and
so does a config that names one. -/
structure AgentSite (thread : String) where
  phase : AgentPhase
  frames : List CallFrame
  flow : FrameworkState
  config : Option RunnableConfig
  runThread : truthy? flow.threadId = some thread
  configThread : ∀ t, truthy? (config.bind RunnableConfig.threadId) = some t → t = thread

def agentInvocationKey (config : RunnableConfig) : String :=
  (truthy? config.threadId).getD "default" ++ "|" ++
    ((config.configurable.bind Configurable.agentInvocationId).getD "")

namespace AgentSite

variable {thread : String} (a : AgentSite thread)

def nesting : List Frame := a.frames.filterMap CallFrame.context

/-- The sequence of SUBGRAPH phases and subagent items from the root. -/
def callPath : List CallFrame := a.frames.filter CallFrame.isCall

def flowThreadId : Option String := (a.frames.foldl CallFrame.enter a.flow).threadId

def innerConfig : RunnableConfig := runNested a.nesting (a.phase.innerConfig a.config a.flowThreadId) {}

def lane : RunnableConfig :=
  runNested a.nesting
    (fun ctx => a.phase.checkpointer.wrapConfig ctx (a.phase.innerConfig a.config a.flowThreadId ctx)) {}

def invocationKey : String := agentInvocationKey a.innerConfig

/-- The item index of the innermost iteration around the execution. -/
def innermostItem : Option Nat := innermost a.nesting

end AgentSite

structure Apart {thread : String} (a b : AgentSite thread) : Prop where
  lanes : (a.lane.threadId, a.lane.checkpointNs) ≠ (b.lane.threadId, b.lane.checkpointNs)
  keys : a.invocationKey ≠ b.invocationKey
  conversation : ∀ (ν : Type) (store : Dict (Option String × Option String) ν) (checkpoint : ν),
    (store.set (a.lane.threadId, a.lane.checkpointNs) checkpoint).get? (b.lane.threadId, b.lane.checkpointNs) =
      store.get? (b.lane.threadId, b.lane.checkpointNs)
  budgets : ∀ (c : ExitControl) (spent : ExitBudgets) maxIterations flow messages,
    (c.beforeModel spent a.invocationKey maxIterations flow).2.SameAt b.invocationKey spent ∧
      (c.afterModel spent a.invocationKey flow messages).2.SameAt b.invocationKey spent ∧
      (c.afterAgent spent a.invocationKey maxIterations flow messages).2.SameAt b.invocationKey spent

def CallSitesApart {thread : String} (run : List (AgentSite thread)) : Prop :=
  ∀ a ∈ run, ∀ b ∈ run, a.callPath ≠ b.callPath → Apart a b

section Lanes

variable {thread : String} {a b : AgentSite thread}

theorem enter_threadId (flow : FrameworkState) (frame : CallFrame) :
    (CallFrame.enter flow frame).threadId = flow.threadId := by
  cases frame <;> rfl

theorem flowThreadId_eq (a : AgentSite thread) : a.flowThreadId = a.flow.threadId := by
  exact Runs.foldl_invariant (I := fun flow => flow.threadId = a.flow.threadId)
    (fun flow frame _ h => (enter_threadId flow frame).trans h) rfl

theorem truthy?_ne_empty {s : Option String} {t : String} (h : truthy? s = some t) : t ≠ "" := by
  unfold truthy? at h
  split at h
  · split_ifs at h with he
    obtain rfl := Option.some.inj h
    exact he
  · cases h

theorem lane_checkpointNs (a : AgentSite thread) : a.lane.checkpointNs = some (a.phase.lane a.innermostItem) := by
  unfold AgentSite.lane AgentSite.innermostItem
  rw [runNested_eq]
  exact AgentPhase.checkpointNs_wrap_innerConfig _ _ _

theorem innerConfig_threadId (a : AgentSite thread) (ctx : LaneContext) :
    (a.phase.innerConfig a.config a.flowThreadId ctx).threadId = some thread := by
  have hflow : truthy? a.flowThreadId = some thread := by rw [flowThreadId_eq, a.runThread]
  have hname : (truthy? (a.config.bind RunnableConfig.threadId)).getD
      ((truthy? a.flowThreadId).getD "default") = thread := by
    cases hc : truthy? (a.config.bind RunnableConfig.threadId) with
    | none => simp [hflow]
    | some t => simp [a.configThread t hc]
  have hread : ((a.config.getD {}).configurable.getD {}).threadId = a.config.bind RunnableConfig.threadId := by
    cases hconf : a.config with
    | none => rfl
    | some config => cases hcon : config.configurable <;> simp [RunnableConfig.threadId, hcon]
  simp only [AgentPhase.innerConfig, RunnableConfig.threadId, Option.bind_some, hread, hname]

theorem invocationKey_eq (a : AgentSite thread) :
    a.invocationKey = thread ++ "|" ++ a.phase.lane a.innermostItem := by
  have hthread : truthy? (some thread) = some thread := by simp [truthy?, truthy?_ne_empty a.runThread]
  unfold AgentSite.invocationKey AgentSite.innerConfig AgentSite.innermostItem agentInvocationKey
  rw [runNested_eq, innerConfig_threadId, hthread]
  rfl

theorem append_dot_inj {s t x y : String} (hs : '.' ∉ s.toList) (ht : '.' ∉ t.toList)
    (h : s ++ "." ++ x = t ++ "." ++ y) : s = t ∧ x = y := by
  have htake : ∀ {u v : String}, '.' ∉ u.toList →
      (u ++ "." ++ v).toList.takeWhile (· ≠ '.') = u.toList := by
    intro u v hu
    have hall : ∀ c ∈ u.toList, decide (c ≠ '.') = true := by
      intro c hc
      simpa using fun he : c = '.' => hu (he ▸ hc)
    have hlist : (u ++ "." ++ v).toList = u.toList ++ '.' :: v.toList := by simp
    rw [hlist, List.takeWhile_append_of_pos hall]
    simp
  have hst : s.toList = t.toList := by rw [← htake hs, h, htake ht]
  obtain rfl := String.toList_inj.mp hst
  exact ⟨rfl, (String.append_right_inj _).mp h⟩

theorem dot_notMem_iterationNamespace (i : Nat) : '.' ∉ (iterationNamespace i).toList := by
  intro h
  rw [iterationNamespace, String.toList_append, List.mem_append] at h
  rcases h with h | h
  · simp at h
  · have hdigit := Nat.isDigit_of_mem_toDigits (b := 10) (n := i) (by omega) (by omega)
      (show '.' ∈ Nat.toDigits 10 i by rw [← Nat.toList_repr]; exact h)
    simp at hdigit

theorem targetNs_inj {p q : AgentPhase} (h : p.targetNs = q.targetNs) : p.phaseId = q.phaseId :=
  (String.append_right_inj "agent:").mp h

theorem targetNs_ne_item (p q : AgentPhase) (i : Nat) :
    p.targetNs ≠ iterationNamespace i ++ "." ++ q.targetNs := by
  intro h
  have hhead := congrArg (fun s => s.toList.head?) h
  simp [AgentPhase.targetNs, iterationNamespace] at hhead

theorem lane_eq_iff {p q : AgentPhase} {i j : Option Nat} :
    p.lane i = q.lane j ↔ p.phaseId = q.phaseId ∧ i = j := by
  constructor
  · intro h
    match i, j with
    | none, none =>
      rw [AgentPhase.lane_none, AgentPhase.lane_none] at h
      exact ⟨targetNs_inj h, rfl⟩
    | none, some j =>
      rw [AgentPhase.lane_none, AgentPhase.lane_some] at h
      exact absurd h (targetNs_ne_item p q j)
    | some i, none =>
      rw [AgentPhase.lane_none, AgentPhase.lane_some] at h
      exact absurd h.symm (targetNs_ne_item q p i)
    | some i, some j =>
      rw [AgentPhase.lane_some, AgentPhase.lane_some] at h
      obtain ⟨hitem, htarget⟩ := append_dot_inj (dot_notMem_iterationNamespace i)
        (dot_notMem_iterationNamespace j) h
      exact ⟨targetNs_inj htarget, congrArg some (iterationNamespace_inj hitem)⟩
  · rintro ⟨hphase, rfl⟩
    unfold AgentPhase.lane AgentPhase.checkpointNs AgentPhase.targetNs
    rw [hphase]

theorem apart_iff (a b : AgentSite thread) :
    Apart a b ↔ a.phase.phaseId ≠ b.phase.phaseId ∨ a.innermostItem ≠ b.innermostItem := by
  rw [← not_and_or, ← lane_eq_iff]
  constructor
  · intro h he
    exact h.keys (by rw [invocationKey_eq, invocationKey_eq, he])
  · intro hne
    have hlanes : (a.lane.threadId, a.lane.checkpointNs) ≠ (b.lane.threadId, b.lane.checkpointNs) := by
      rw [lane_checkpointNs, lane_checkpointNs]
      exact fun h => hne (Option.some.inj (Prod.mk.inj h).2)
    have hkeys : a.invocationKey ≠ b.invocationKey := by
      rw [invocationKey_eq, invocationKey_eq]
      exact fun h => hne ((String.append_right_inj _).mp h)
    refine ⟨hlanes, hkeys, ?_, ?_⟩
    · intro ν store checkpoint
      rw [Dict.get?_set, if_neg hlanes]
    · intro c spent maxIterations flow messages
      exact ⟨(c.beforeModel_local _ maxIterations flow).frame spent _ hkeys,
        (c.afterModel_local _ flow messages).frame spent _ hkeys,
        (c.afterAgent_local _ maxIterations flow messages).frame spent _ hkeys⟩

end Lanes

/-- The lanes of a run separate its call sites exactly where the executions of different call sites
differ in the phase id or in the innermost item index. -/
theorem call_sites_apart_iff (thread : String) (run : List (AgentSite thread)) :
    CallSitesApart run ↔ ∀ a ∈ run, ∀ b ∈ run, a.callPath ≠ b.callPath →
      a.phase.phaseId ≠ b.phase.phaseId ∨ a.innermostItem ≠ b.innermostItem := by
  unfold CallSitesApart
  simp only [apart_iff]

/-- The `write` phase of a registry graph, reached through a SUBGRAPH phase of the root. -/
def writeUnder (subgraphId : String) : AgentSite "run-1" where
  phase := writeAgent
  frames := [.subgraph subgraphId]
  flow := { threadId := some "run-1" }
  config := none
  runThread := rfl
  configThread := by simp [truthy?]

theorem shared_registry_graph_shares_a_lane : ¬ CallSitesApart [writeUnder "draft", writeUnder "revise"] := by
  intro h
  have hdiffer := (apart_iff _ _).mp
    (h (writeUnder "draft") (by simp) (writeUnder "revise") (by simp) (by decide))
  revert hdiffer
  decide

end GraphSkillRuntime
