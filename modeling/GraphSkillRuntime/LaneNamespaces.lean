import GraphSkillRuntime.Iterate

namespace GraphSkillRuntime

open OrderedDict

/-! The checkpoint lane of an agent phase inside nested iterations. -/

structure LaneContext where
  outerNs : String := ""
  branchIndex : Option Nat := none

def runWithIterationContext {α : Type} (index : Nat) (ns : String) (action : LaneContext → α) :
    LaneContext → α :=
  fun _ => action { outerNs := ns, branchIndex := some index }

inductive Frame where
  | graphItem (index : Nat)
  | phaseItem (index : Nat)
  | subgraph (phaseId : String)
  deriving DecidableEq

namespace Frame

def index? : Frame → Option Nat
  | graphItem index => some index
  | phaseItem index => some index
  | subgraph _ => none

def run {α : Type} (action : LaneContext → α) : Frame → LaneContext → α
  | graphItem index => runWithIterationContext index (iterationNamespace index) action
  | phaseItem index => runWithIterationContext index (iterationNamespace index) action
  | subgraph _ => action

end Frame

def runNested {α : Type} (frames : List Frame) (action : LaneContext → α) : LaneContext → α :=
  frames.foldr (fun frame inner => frame.run inner) action

def coordinates (frames : List Frame) : List Nat := frames.filterMap Frame.index?

def innermost (frames : List Frame) : Option Nat := (coordinates frames).getLast?

def laneContext (ctx : LaneContext) : Option Nat → LaneContext
  | some index => { outerNs := iterationNamespace index, branchIndex := some index }
  | none => ctx

structure Configurable where
  threadId : Option String := none
  checkpointNs : Option (Option String) := none
  agentInvocationId : Option String := none
  maxIterations : Option Nat := none
  other : Dict String Value := ∅
  deriving DecidableEq

structure RunnableConfig where
  configurable : Option Configurable := none
  recursionLimit : Option Nat := none
  other : Dict String Value := ∅
  deriving DecidableEq

namespace RunnableConfig

def checkpointNs (config : RunnableConfig) : Option String :=
  (config.configurable.bind Configurable.checkpointNs).join

def setCheckpointNs (config : RunnableConfig) (ns : Option String) : RunnableConfig :=
  { config with configurable := some { config.configurable.getD {} with checkpointNs := some ns } }

def threadId (config : RunnableConfig) : Option String := config.configurable.bind Configurable.threadId

end RunnableConfig

def truthy? : Option String → Option String
  | some s => if s = "" then none else some s
  | none => none

def laneOf (outer name : String) : String := if outer = "" then name else outer ++ "." ++ name

structure AgentPhase where
  phaseId : String
  maxIterations : Nat
  nodesPerTurn : Nat

namespace AgentPhase

def targetNs (phase : AgentPhase) : String := "agent:" ++ phase.phaseId

def checkpointNs (phase : AgentPhase) (ctx : LaneContext) : String := laneOf ctx.outerNs phase.targetNs

def innerConfig (phase : AgentPhase) (config : Option RunnableConfig) (flowThreadId : Option String)
    (ctx : LaneContext) : RunnableConfig :=
  let config := config.getD {}
  let configurable := config.configurable.getD {}
  let threadId := (truthy? configurable.threadId).getD ((truthy? flowThreadId).getD "default")
  { config with
    configurable := some
      { configurable with
        threadId := some threadId
        checkpointNs := some (some (phase.checkpointNs ctx))
        agentInvocationId := some (phase.checkpointNs ctx)
        maxIterations := some phase.maxIterations }
    recursionLimit := some ((phase.maxIterations + 1) * phase.nodesPerTurn) }

def partialStateConfig (phase : AgentPhase) (config : Option RunnableConfig)
    (flowThreadId : Option String) (ctx : LaneContext) : RunnableConfig :=
  (phase.innerConfig config flowThreadId ctx).setCheckpointNs (some "")

end AgentPhase

structure NamespaceCheckpointer where
  targetNs : String

namespace NamespaceCheckpointer

def wrapNs (n : NamespaceCheckpointer) (outer : String) (ns : Option String) : String :=
  let ns := (truthy? ns).getD n.targetNs
  if outer ≠ "" ∧ ns ≠ "" ∧ startsWith ns (outer ++ ".") = false then outer ++ "." ++ ns else ns

def stripOuter (outer ns : String) : String :=
  if outer ≠ "" ∧ ns ≠ "" ∧ startsWith ns (outer ++ ".") = true then
    String.ofList (ns.toList.drop (outer.length + 1))
  else ns

def unwrapNs (n : NamespaceCheckpointer) (outer : String) (ns : Option String) : Option String :=
  let ns := ns.map (stripOuter outer)
  if ns = some n.targetNs then some "" else ns

def wrapConfig (n : NamespaceCheckpointer) (ctx : LaneContext) (config : RunnableConfig) :
    RunnableConfig :=
  config.setCheckpointNs (some (n.wrapNs ctx.outerNs config.checkpointNs))

def unwrapConfig (n : NamespaceCheckpointer) (ctx : LaneContext) (config : RunnableConfig) :
    RunnableConfig :=
  config.setCheckpointNs (n.unwrapNs ctx.outerNs config.checkpointNs)

def put {ν : Type} (n : NamespaceCheckpointer) (ctx : LaneContext) (config : RunnableConfig) (checkpoint : ν)
    (store : Dict (Option String × Option String) ν) : Dict (Option String × Option String) ν :=
  store.set ((n.wrapConfig ctx config).threadId, (n.wrapConfig ctx config).checkpointNs) checkpoint

def getTuple {ν : Type} (n : NamespaceCheckpointer) (ctx : LaneContext) (config : RunnableConfig)
    (store : Dict (Option String × Option String) ν) : Option ν :=
  store.get? ((n.wrapConfig ctx config).threadId, (n.wrapConfig ctx config).checkpointNs)

end NamespaceCheckpointer

section Frames

variable {α : Type}

theorem innermost_cons (frame : Frame) (frames : List Frame) :
    innermost (frame :: frames) = (innermost frames).or frame.index? := by
  unfold innermost coordinates
  cases hi : frame.index? with
  | none => rw [List.filterMap_cons_none hi, Option.or_none]
  | some index =>
    rw [List.filterMap_cons_some hi, List.getLast?_cons]
    cases (frames.filterMap Frame.index?).getLast? <;> rfl

theorem Frame.run_eq (action : LaneContext → α) (frame : Frame) (ctx : LaneContext) :
    frame.run action ctx = action (laneContext ctx frame.index?) := by
  cases frame <;> rfl

theorem laneContext_or (ctx : LaneContext) (inner outer : Option Nat) :
    laneContext (laneContext ctx outer) inner = laneContext ctx (inner.or outer) := by
  cases inner <;> rfl

theorem runNested_eq (frames : List Frame) (action : LaneContext → α) (ctx : LaneContext) :
    runNested frames action ctx = action (laneContext ctx (innermost frames)) := by
  induction frames generalizing ctx with
  | nil => rfl
  | cons frame frames ih =>
    have hcons : runNested (frame :: frames) action = frame.run (runNested frames action) := rfl
    rw [hcons, Frame.run_eq, ih, laneContext_or, innermost_cons]

end Frames

section Names

theorem iterationNamespace_inj {i j : Nat} (h : iterationNamespace i = iterationNamespace j) : i = j := by
  have hrepr : i.repr = j.repr := (String.append_right_inj "iter").mp h
  have hdigits : Nat.toDigits 10 i = Nat.toDigits 10 j := by
    rw [← Nat.toList_repr, ← Nat.toList_repr, hrepr]
  have hi : Nat.ofDigitChars 10 (Nat.toDigits 10 i) 0 = i := Nat.ofDigitChars_ten_toDigits
  rwa [hdigits, Nat.ofDigitChars_ten_toDigits, eq_comm] at hi

theorem iterationNamespace_ne_empty (i : Nat) : iterationNamespace i ≠ "" := by
  intro h
  have hlen := congrArg String.length h
  simp [iterationNamespace] at hlen

theorem startsWith_targetNs (phase : AgentPhase) (i : Nat) :
    startsWith phase.targetNs (iterationNamespace i ++ ".") = false := by
  rw [Bool.eq_false_iff]
  intro h
  obtain ⟨t, ht⟩ := startsWith_iff.mp h
  have hhead := congrArg (fun s => s.toList.head?) ht
  simp [AgentPhase.targetNs, iterationNamespace] at hhead

theorem drop_lane (outer name : String) :
    String.ofList ((outer ++ "." ++ name).toList.drop (outer.length + 1)) = name := by
  have hlen : outer.length + 1 = (outer.toList ++ ['.']).length := by simp [String.length_toList]
  have hlist : (outer ++ "." ++ name).toList = (outer.toList ++ ['.']) ++ name.toList := by simp
  rw [hlist, hlen, List.drop_left, String.ofList_toList]

theorem targetNs_ne_empty (phase : AgentPhase) : phase.targetNs ≠ "" := by
  intro h
  have hlen := congrArg String.length h
  simp [AgentPhase.targetNs] at hlen

theorem lane_ne (outer name : String) : outer ++ "." ++ name ≠ name := by
  intro h
  have hlen := congrArg String.length h
  simp only [String.length_append] at hlen
  have hdot : ".".length = 1 := rfl
  omega

end Names

theorem append_ne_empty {s t : String} (h : t ≠ "") : s ++ t ≠ "" := by
  intro he
  have hlist := congrArg String.toList he
  rw [String.toList_append, String.toList_empty, List.append_eq_nil_iff] at hlist
  exact h (String.toList_inj.mp hlist.2)

namespace NamespaceCheckpointer

variable {n : NamespaceCheckpointer} {outer : String}

theorem stripOuter_laneOf {name : String} (hn : name ≠ "") : stripOuter outer (laneOf outer name) = name := by
  unfold stripOuter laneOf
  by_cases ho : outer = ""
  · simp [ho]
  · have hs : startsWith (outer ++ "." ++ name) (outer ++ ".") = true := startsWith_iff.mpr ⟨name, rfl⟩
    rw [if_neg ho, if_pos ⟨ho, append_ne_empty hn, hs⟩, drop_lane]

theorem wrapNs_of_unmarked {ns : Option String} (ht : n.targetNs ≠ "")
    (hp : outer ≠ "" → startsWith ((truthy? ns).getD n.targetNs) (outer ++ ".") = false) :
    n.wrapNs outer ns = laneOf outer ((truthy? ns).getD n.targetNs) := by
  have hne : (truthy? ns).getD n.targetNs ≠ "" := by
    unfold truthy?
    split
    · split_ifs with hs
      · exact ht
      · exact hs
    · exact ht
  unfold wrapNs laneOf
  by_cases ho : outer = ""
  · simp [ho]
  · rw [if_pos ⟨ho, hne, hp ho⟩, if_neg ho]

theorem wrapNs_laneOf (ht : n.targetNs ≠ "") :
    n.wrapNs outer (some (laneOf outer n.targetNs)) = laneOf outer n.targetNs := by
  by_cases ho : outer = ""
  · subst ho
    rw [wrapNs_of_unmarked ht (fun h => absurd rfl h)]
    simp [laneOf, truthy?, ht]
  · have hs : startsWith (outer ++ "." ++ n.targetNs) (outer ++ ".") = true :=
      startsWith_iff.mpr ⟨n.targetNs, rfl⟩
    have hne : outer ++ "." ++ n.targetNs ≠ "" := append_ne_empty ht
    unfold wrapNs laneOf truthy?
    rw [if_neg ho]
    simp only [if_neg hne, Option.getD_some, hs]
    simp

theorem unwrapNs_wrapNs {s : String} (ht : n.targetNs ≠ "") (hs : s ≠ n.targetNs)
    (hp : outer ≠ "" → startsWith ((truthy? (some s)).getD n.targetNs) (outer ++ ".") = false) :
    n.unwrapNs outer (some (n.wrapNs outer (some s))) = some s := by
  rw [wrapNs_of_unmarked ht hp]
  unfold unwrapNs
  rw [Option.map_some]
  by_cases he : s = ""
  · subst he
    have htarget : (truthy? (some "")).getD n.targetNs = n.targetNs := rfl
    rw [htarget, stripOuter_laneOf ht, if_pos rfl]
  · have hself : (truthy? (some s)).getD n.targetNs = s := by simp [truthy?, he]
    rw [hself, stripOuter_laneOf he]
    exact if_neg (fun h => hs (Option.some.inj h))

end NamespaceCheckpointer

namespace AgentPhase

variable {phase : AgentPhase}

def checkpointer (phase : AgentPhase) : NamespaceCheckpointer := ⟨phase.targetNs⟩

def lane (phase : AgentPhase) (index : Option Nat) : String := phase.checkpointNs (laneContext {} index)

theorem lane_none : phase.lane none = phase.targetNs := rfl

theorem lane_some (i : Nat) : phase.lane (some i) = iterationNamespace i ++ "." ++ phase.targetNs := by
  show laneOf (iterationNamespace i) phase.targetNs = _
  exact if_neg (iterationNamespace_ne_empty i)

theorem lane_injective : Function.Injective phase.lane := by
  intro index index' h
  match index, index' with
  | none, none => rfl
  | none, some i =>
    rw [lane_none, lane_some] at h
    exact absurd h.symm (lane_ne _ _)
  | some i, none =>
    rw [lane_none, lane_some] at h
    exact absurd h (lane_ne _ _)
  | some i, some j =>
    rw [lane_some, lane_some, String.append_left_inj, String.append_left_inj] at h
    rw [iterationNamespace_inj h]

theorem startsWith_targetNs_of_outer {index : Option Nat} (ho : (laneContext {} index).outerNs ≠ "") :
    startsWith phase.targetNs ((laneContext {} index).outerNs ++ ".") = false := by
  cases index with
  | none => exact absurd rfl ho
  | some i => exact startsWith_targetNs phase i

theorem checkpointNs_wrap_innerConfig (config : Option RunnableConfig) (thread : Option String)
    (index : Option Nat) :
    (phase.checkpointer.wrapConfig (laneContext {} index)
      (phase.innerConfig config thread (laneContext {} index))).checkpointNs = some (phase.lane index) :=
  congrArg some (NamespaceCheckpointer.wrapNs_laneOf (targetNs_ne_empty phase))

theorem checkpointNs_wrap_partialStateConfig (config : Option RunnableConfig) (thread : Option String)
    (index : Option Nat) :
    (phase.checkpointer.wrapConfig (laneContext {} index)
      (phase.partialStateConfig config thread (laneContext {} index))).checkpointNs =
      some (phase.lane index) :=
  congrArg some (NamespaceCheckpointer.wrapNs_of_unmarked (targetNs_ne_empty phase)
    startsWith_targetNs_of_outer)

end AgentPhase

/-- Two executions of an agent phase that share no checkpoint: neither the run of the agent nor the
reading of its partial state finds what the other execution has put. -/
structure LaneIsolated (phase : AgentPhase) (frames frames' : List Frame) : Prop where
  checkpointNs : ∀ config thread config' thread',
    (runNested frames (phase.innerConfig config thread) {}).checkpointNs ≠
      (runNested frames' (phase.innerConfig config' thread') {}).checkpointNs
  invocationId : ∀ config thread config' thread',
    (runNested frames (phase.innerConfig config thread) {}).configurable.map Configurable.agentInvocationId ≠
      (runNested frames' (phase.innerConfig config' thread') {}).configurable.map
        Configurable.agentInvocationId
  resumes : ∀ (ν : Type) (store : Dict (Option String × Option String) ν) (checkpoint : ν) config thread
      config' thread',
    let after := runNested frames
      (fun ctx => phase.checkpointer.put ctx (phase.innerConfig config thread ctx) checkpoint store) {}
    ∀ read ∈ [phase.innerConfig config' thread', phase.partialStateConfig config' thread'],
      runNested frames' (fun ctx => phase.checkpointer.getTuple ctx (read ctx) after) {} =
        runNested frames' (fun ctx => phase.checkpointer.getTuple ctx (read ctx) store) {}

theorem laneIsolated_of_innermost_ne {phase : AgentPhase} {frames frames' : List Frame}
    (h : innermost frames ≠ innermost frames') : LaneIsolated phase frames frames' := by
  have hlane : phase.lane (innermost frames) ≠ phase.lane (innermost frames') :=
    fun he => h (AgentPhase.lane_injective he)
  constructor
  case checkpointNs =>
    intro config thread config' thread'
    rw [runNested_eq, runNested_eq]
    exact fun he => hlane (Option.some.inj he)
  case invocationId =>
    intro config thread config' thread'
    rw [runNested_eq, runNested_eq]
    exact fun he => hlane (Option.some.inj (Option.some.inj he))
  case resumes =>
    intro ν store checkpoint config thread config' thread' after read hread
    have hns : (phase.checkpointer.wrapConfig (laneContext {} (innermost frames'))
        (read (laneContext {} (innermost frames')))).checkpointNs =
        some (phase.lane (innermost frames')) := by
      simp only [List.mem_cons, List.not_mem_nil, or_false] at hread
      rcases hread with rfl | rfl
      · exact AgentPhase.checkpointNs_wrap_innerConfig _ _ _
      · exact AgentPhase.checkpointNs_wrap_partialStateConfig _ _ _
    simp only [after, runNested_eq, NamespaceCheckpointer.getTuple, NamespaceCheckpointer.put,
      AgentPhase.checkpointNs_wrap_innerConfig, hns]
    rw [Dict.get?_set, if_neg]
    exact fun he => hlane (Option.some.inj (congrArg Prod.snd he))

/-- The namespace is neither the agent's own name nor already that of the active iteration. -/
def Unmarked (phase : AgentPhase) (frames : List Frame) (ns : String) : Prop :=
  ns ≠ phase.targetNs ∧ ∀ i, innermost frames = some i → startsWith ns (iterationNamespace i ++ ".") = false

theorem unwrapConfig_wrapConfig {phase : AgentPhase} {frames : List Frame} {config : RunnableConfig}
    {configurable : Configurable} {ns : String} (hc : config.configurable = some configurable)
    (hns : configurable.checkpointNs = some (some ns)) (hu : Unmarked phase frames ns) :
    runNested frames (fun ctx => phase.checkpointer.unwrapConfig ctx (phase.checkpointer.wrapConfig ctx config))
      {} = config := by
  rw [runNested_eq]
  have hp : (laneContext {} (innermost frames)).outerNs ≠ "" →
      startsWith ((truthy? (some ns)).getD phase.checkpointer.targetNs)
        ((laneContext {} (innermost frames)).outerNs ++ ".") = false := by
    intro ho
    by_cases he : ns = ""
    · subst he
      exact AgentPhase.startsWith_targetNs_of_outer ho
    · have hself : (truthy? (some ns)).getD phase.checkpointer.targetNs = ns := by simp [truthy?, he]
      rw [hself]
      cases hi : innermost frames with
      | none =>
        rw [hi] at ho
        exact absurd rfl ho
      | some i => exact hu.2 i hi
  have hround : phase.checkpointer.unwrapNs _ (some (phase.checkpointer.wrapNs _ (some ns))) = some ns :=
    NamespaceCheckpointer.unwrapNs_wrapNs (targetNs_ne_empty phase) hu.1 hp
  have hread : config.checkpointNs = some ns := by simp [RunnableConfig.checkpointNs, hc, hns]
  obtain ⟨_, limit, other⟩ := config
  obtain ⟨thread, _, invocation, turns, rest⟩ := configurable
  subst hc hns
  simp only [NamespaceCheckpointer.unwrapConfig, NamespaceCheckpointer.wrapConfig,
    RunnableConfig.setCheckpointNs, hread]
  simpa [RunnableConfig.checkpointNs] using hround

theorem agent_lanes_by_innermost_index (phase : AgentPhase) (frames frames' : List Frame) :
    (innermost frames ≠ innermost frames' → LaneIsolated phase frames frames') ∧
      ∀ config configurable ns, config.configurable = some configurable →
        configurable.checkpointNs = some (some ns) → Unmarked phase frames ns →
        runNested frames
          (fun ctx => phase.checkpointer.unwrapConfig ctx (phase.checkpointer.wrapConfig ctx config)) {} =
            config :=
  ⟨laneIsolated_of_innermost_ne, fun _ _ _ hc hns hu => unwrapConfig_wrapConfig hc hns hu⟩

def writeAgent : AgentPhase where
  phaseId := "write"
  maxIterations := 3
  nodesPerTurn := 6

theorem agent_lanes_first_chapters :
    LaneIsolated writeAgent [.graphItem 1, .subgraph "draft", .phaseItem 1]
        [.graphItem 1, .subgraph "draft", .phaseItem 2] ∧
      runNested [.graphItem 1, .subgraph "draft", .phaseItem 1]
        (fun ctx => writeAgent.checkpointer.unwrapConfig ctx (writeAgent.checkpointer.wrapConfig ctx
          { configurable := some { checkpointNs := some (some "") } })) {} =
        { configurable := some { checkpointNs := some (some "") } } := by
  have h := agent_lanes_by_innermost_index writeAgent [.graphItem 1, .subgraph "draft", .phaseItem 1]
    [.graphItem 1, .subgraph "draft", .phaseItem 2]
  refine ⟨h.1 (by decide), h.2 _ _ "" rfl rfl ⟨by decide, ?_⟩⟩
  intro i hi
  obtain rfl : 1 = i := Option.some.inj hi
  decide

theorem nested_items_share_a_lane :
    (coordinates [.graphItem 1, .phaseItem 2] ≠ coordinates [.graphItem 2, .phaseItem 2] ∧
      ¬ LaneIsolated writeAgent [.graphItem 1, .phaseItem 2] [.graphItem 2, .phaseItem 2]) ∧
    runNested [] (fun ctx => writeAgent.checkpointer.unwrapConfig ctx (writeAgent.checkpointer.wrapConfig ctx
      { configurable := some { checkpointNs := some (some "agent:write") } })) {} ≠
      { configurable := some { checkpointNs := some (some "agent:write") } } := by
  refine ⟨⟨by decide, fun h => ?_⟩, by decide⟩
  exact h.checkpointNs none none none none rfl

end GraphSkillRuntime
