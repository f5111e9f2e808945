import GraphSkillRuntime.AgentMessages

/-! Where a run's unanswered human question is reported to wait, and which call an answer sent there is attached to. -/

namespace GraphSkillRuntime.HitlCheckpoints

open OrderedDict

/-- A stored checkpoint; of the channel values, the three that are looked at. `pregelTasks` holds the tasks' arguments,
and a channel that is absent holds null. -/
structure CheckpointTuple where
  configId : Option String
  storedId : Option String
  configNs : Option String
  interrupt : Value
  pregelTasks : Value
  messages : List Message

structure HitlInterruptCheckpoint where
  checkpointId : String
  checkpointNs : String
  phaseName : String
  question : Option String
  clarificationType : Option String
  options : List String

def hitlToolName : String := "ask_clarification"

def CheckpointTuple.id (t : CheckpointTuple) : String :=
  match t.configId with
  | some id => if id = "" then t.storedId.getD "" else id
  | none => t.storedId.getD ""

def CheckpointTuple.ns (t : CheckpointTuple) : String := t.configNs.getD ""

def aiToolCalls (messages : List Message) : Dict (Option String) ToolCall :=
  Dict.ofList ((messages.flatMap Message.toolCalls).map (fun call => (call.id, call)))

def answeredId? : Message → Option String
  | .tool _ _ _ toolCallId _ => if toolCallId = "" then none else some toolCallId
  | _ => none

def pendingToolCalls (messages : List Message) : List ToolCall :=
  ((aiToolCalls messages).entries.filter
    (fun e => e.1.all (fun id => !(messages.filterMap answeredId?).contains id))).map Prod.snd

def hitlToolCallFromMessages (messages : List Message) : Option ToolCall :=
  (pendingToolCalls messages).find? (fun call => call.name == hitlToolName)

def taskCandidates : Value → List Value
  | .dict kvs => [((Dict.ofList kvs).get? "tool_call").getD .null]
  | .list candidates => candidates
  | _ => []

def phaseNameFromCheckpointNs (ns : String) : Option String :=
  match ((ns.splitOn ".").filter (fun part => part ≠ "")).reverse.find? (fun part => "agent:".isPrefixOf part) with
  | some part => let name := (part.drop 6).toString; if name = "" then none else some name
  | none => if ns = "" then none else some ns

def latestByNamespace (checkpoints : List CheckpointTuple) : List CheckpointTuple :=
  checkpoints.foldl (fun latest t => if (latest.map CheckpointTuple.ns).contains t.ns then latest else latest ++ [t]) []

section

variable (P : Printer)

/-- `str(value) if value is not None else None`. -/
def optionalText (value : Option Value) : Option String :=
  match value with
  | none | some .null => none
  | some v => some (P.str v)

def normaliseOptions : Option Value → List String
  | some (.list options) => options.map P.str
  | _ => []

def isHitlCall : Value → Option (Dict String Value)
  | .dict kvs =>
    let call := Dict.ofList kvs
    if argText P call "name" = hitlToolName then some call else none
  | _ => none

def hitlToolCallFromPregelTasks : Value → Option (Dict String Value)
  | .list args => (args.flatMap taskCandidates).findSome? (isHitlCall P)
  | _ => none

def interruptPayload (value : Value) : Option (Dict String Value) :=
  let candidates := match value with
    | .list xs => xs
    | v => if v.truthy then [v] else []
  match candidates with
  | [] => none
  | .dict kvs :: _ => some (Dict.ofList kvs)
  | .null :: _ => none
  | raw :: _ => some (Dict.ofList
      [("question", .str (P.str raw)), ("clarification_type", .str "missing_info"), ("options", .list [])])

def hitlCheckpointFromToolCall (t : CheckpointTuple) (args : Dict String Value) : Option HitlInterruptCheckpoint :=
  if t.id = "" then none
  else some {
    checkpointId := t.id
    checkpointNs := t.ns
    phaseName := (phaseNameFromCheckpointNs t.ns).getD ""
    question := optionalText P (args.get? "question")
    clarificationType := optionalText P (args.get? "clarification_type")
    options := normaliseOptions P (args.get? "options") }

def hitlCheckpointFromInterruptPayload (t : CheckpointTuple) (payload : Dict String Value) :
    Option HitlInterruptCheckpoint :=
  let named := argText P payload "phase_name"
  if t.id = "" then none
  else some {
    checkpointId := t.id
    checkpointNs := t.ns
    phaseName := if named = "" then (phaseNameFromCheckpointNs t.ns).getD "" else named
    question := optionalText P (payload.get? "question")
    clarificationType := optionalText P (payload.get? "clarification_type")
    options := normaliseOptions P (payload.get? "options") }

def payloadAt (resultPayload : Option (Dict String Value)) (t : CheckpointTuple) : Option (Dict String Value) :=
  match interruptPayload P t.interrupt with
  | some payload => if payload.entries.isEmpty then resultPayload else some payload
  | none => resultPayload

def hitlAt (resultPayload : Option (Dict String Value)) (t : CheckpointTuple) : Option HitlInterruptCheckpoint :=
  ((payloadAt P resultPayload t).bind (hitlCheckpointFromInterruptPayload P t)).or
    (((hitlToolCallFromPregelTasks P t.pregelTasks).bind
        (fun call => hitlCheckpointFromToolCall P t ((dictAt call "args").getD ∅))).or
      ((hitlToolCallFromMessages t.messages).bind (fun call => hitlCheckpointFromToolCall P t call.args)))

/-- The run's checkpoints come newest first; `result` is the `__interrupt__` entry of the run's result. -/
def findHitlInterruptCheckpoint (checkpoints : List CheckpointTuple) (result : Value) :
    Option HitlInterruptCheckpoint :=
  (latestByNamespace checkpoints).findSome? (hitlAt P (interruptPayload P result))

end

inductive ResumeError where
  | noPendingCall
  | mismatch (requested single : String)
  | toolCallIdRequired
  | notPending (requested : String)
  deriving DecidableEq

def selectPendingToolCallId (pending : List ToolCall) (requested : Option String) : Except ResumeError String :=
  let asked := requested.filter (fun id => id ≠ "")
  match pending with
  | [] => .error .noPendingCall
  | [single] =>
    let singleId := single.id.getD "None"
    match asked with
    | some id => if some id = single.id then .ok singleId else .error (.mismatch id singleId)
    | none => .ok singleId
  | _ =>
    match asked with
    | none => .error .toolCallIdRequired
    | some id => if (pending.map ToolCall.id).contains (some id) then .ok id else .error (.notPending id)

/-- The checkpoint's messages hold an unanswered question to a human. -/
def asks (t : CheckpointTuple) : Bool := (hitlToolCallFromMessages t.messages).isSome

def newerLatest (checkpoints : List CheckpointTuple) : List CheckpointTuple :=
  (latestByNamespace checkpoints).takeWhile (fun t => !asks t)

/-- The question is reported at `c`, and an answer sent there is taken for any call that asks it. -/
structure LocatedAt (P : Printer) (checkpoints : List CheckpointTuple) (result : Value) (c : CheckpointTuple) :
    Prop where
  found : ∃ h, findHitlInterruptCheckpoint P checkpoints result = some h ∧ h.checkpointId = c.id ∧ h.checkpointNs = c.ns
  accepted : ∀ call ∈ pendingToolCalls c.messages, call.name = hitlToolName →
    ∃ id, call.id = some id ∧ selectPendingToolCallId (pendingToolCalls c.messages) call.id = .ok id

def Silent (P : Printer) (result : Value) (t : CheckpointTuple) : Prop :=
  t.id = "" ∨ payloadAt P (interruptPayload P result) t = none ∧ hitlToolCallFromPregelTasks P t.pregelTasks = none

structure Locatable (P : Printer) (checkpoints : List CheckpointTuple) (result : Value) (c : CheckpointTuple) :
    Prop where
  identified : c.id ≠ ""
  newer_silent : ∀ t ∈ newerLatest checkpoints, Silent P result t
  answerable : ∀ call ∈ pendingToolCalls c.messages, call.name = hitlToolName →
    ∃ id, call.id = some id ∧ (id ≠ "" ∨ (pendingToolCalls c.messages).length = 1)

theorem latestByNamespace_nodup (checkpoints : List CheckpointTuple) :
    ((latestByNamespace checkpoints).map CheckpointTuple.ns).Nodup := by
  have hfold : ∀ latest : List CheckpointTuple, (latest.map CheckpointTuple.ns).Nodup →
      ((checkpoints.foldl (fun latest t =>
        if (latest.map CheckpointTuple.ns).contains t.ns then latest else latest ++ [t]) latest).map
          CheckpointTuple.ns).Nodup := by
    induction checkpoints with
    | nil => exact fun _ h => h
    | cons t checkpoints ih =>
      intro latest h
      rw [List.foldl_cons]
      apply ih
      split_ifs with hseen
      · exact h
      · rw [List.map_append, List.map_singleton, ← List.concat_eq_append]
        apply h.concat
        simpa using hseen
  exact hfold [] List.nodup_nil

section

variable {P : Printer} {payload : Option (Dict String Value)} {t : CheckpointTuple}

theorem hitlCheckpointFromToolCall_eq_some {args : Dict String Value} {h : HitlInterruptCheckpoint}
    (hsome : hitlCheckpointFromToolCall P t args = some h) : h.checkpointId = t.id ∧ h.checkpointNs = t.ns := by
  unfold hitlCheckpointFromToolCall at hsome
  split_ifs at hsome
  cases hsome
  exact ⟨rfl, rfl⟩

theorem hitlCheckpointFromInterruptPayload_eq_some {payload : Dict String Value} {h : HitlInterruptCheckpoint}
    (hsome : hitlCheckpointFromInterruptPayload P t payload = some h) :
    h.checkpointId = t.id ∧ h.checkpointNs = t.ns := by
  unfold hitlCheckpointFromInterruptPayload at hsome
  dsimp only at hsome
  split_ifs at hsome <;> cases hsome <;> exact ⟨rfl, rfl⟩

theorem hitlAt_eq_some {h : HitlInterruptCheckpoint} (hsome : hitlAt P payload t = some h) :
    h.checkpointId = t.id ∧ h.checkpointNs = t.ns := by
  rcases Option.or_eq_some_iff.mp hsome with hs | ⟨-, hs⟩
  · obtain ⟨_, -, hs⟩ := Option.bind_eq_some_iff.mp hs
    exact hitlCheckpointFromInterruptPayload_eq_some hs
  · rcases Option.or_eq_some_iff.mp hs with hs | ⟨-, hs⟩ <;>
      obtain ⟨_, -, hs⟩ := Option.bind_eq_some_iff.mp hs <;>
      exact hitlCheckpointFromToolCall_eq_some hs

theorem hitlAt_eq_none : hitlAt P payload t = none ↔
    t.id = "" ∨
      (payloadAt P payload t = none ∧ hitlToolCallFromPregelTasks P t.pregelTasks = none ∧ asks t = false) := by
  simp only [hitlAt, Option.or_eq_none_iff, Option.bind_eq_none_iff, hitlCheckpointFromInterruptPayload,
    hitlCheckpointFromToolCall, asks, Option.isSome_eq_false_iff, Option.isNone_iff_eq_none]
  by_cases hid : t.id = ""
  · simp [hid]
  · simp [hid, Option.eq_none_iff_forall_ne_some]

end

theorem select_accepts_iff {pending : List ToolCall} {call : ToolCall} (hcall : call ∈ pending) :
    (∃ id, call.id = some id ∧ selectPendingToolCallId pending call.id = .ok id) ↔
      ∃ id, call.id = some id ∧ (id ≠ "" ∨ pending.length = 1) := by
  apply exists_congr
  intro id
  apply and_congr_right
  intro hid
  rw [hid]
  match pending, hcall with
  | [single], hcall =>
    obtain rfl := List.mem_singleton.mp hcall
    by_cases hempty : id = "" <;> simp [selectPendingToolCallId, hid, hempty, Option.filter]
  | first :: second :: rest, hcall =>
    have hmem : some id ∈ (first :: second :: rest).map ToolCall.id := List.mem_map.mpr ⟨call, hcall, hid⟩
    have hcontains : ((first :: second :: rest).map ToolCall.id).contains (some id) = true := by
      rw [List.contains_eq_mem]
      exact decide_eq_true hmem
    by_cases hempty : id = ""
    · simp [selectPendingToolCallId, hempty, Option.filter]
    · have hasked : (some id).filter (fun id => id ≠ "") = some id := by simp [Option.filter, hempty]
      simp only [selectPendingToolCallId, hasked, hcontains, if_true]
      simp [hempty]

theorem hitl_located_iff (P : Printer) (checkpoints : List CheckpointTuple) (result : Value) (c : CheckpointTuple)
    (hasks : (latestByNamespace checkpoints).filter asks = [c]) :
    LocatedAt P checkpoints result c ↔ Locatable P checkpoints result c := by
  obtain ⟨pre, post, hlatest, hpre, hc, -⟩ := List.filter_eq_cons_iff.mp hasks
  have hnewer : newerLatest checkpoints = pre := by
    rw [newerLatest, hlatest, List.takeWhile_append_of_pos (by simpa using hpre),
      List.takeWhile_cons_of_neg (by simp [hc]), List.append_nil]
  have hsilent : ∀ t ∈ pre, hitlAt P (interruptPayload P result) t = none ↔ Silent P result t := by
    intro t ht
    have hquiet : asks t = false := by simpa using hpre t ht
    simp [hitlAt_eq_none, Silent, hquiet]
  have hns : ∀ t ∈ pre ++ post, t.ns ≠ c.ns := by
    intro t ht heq
    have hnodup := latestByNamespace_nodup checkpoints
    rw [hlatest, List.map_append, List.map_cons] at hnodup
    apply (List.nodup_middle.mp hnodup).notMem
    rw [← List.map_append, ← heq]
    exact List.mem_map_of_mem ht
  have hfound : (∃ h, findHitlInterruptCheckpoint P checkpoints result = some h ∧ h.checkpointId = c.id ∧
      h.checkpointNs = c.ns) ↔ c.id ≠ "" ∧ ∀ t ∈ pre, Silent P result t := by
    rw [findHitlInterruptCheckpoint, hlatest, List.findSome?_append, List.findSome?_cons]
    constructor
    · rintro ⟨h, hfind, -, hhns⟩
      -- a report from any other checkpoint names another namespace
      have helsewhere : ∀ ts : List CheckpointTuple, (∀ t ∈ ts, t ∈ pre ++ post) →
          ts.findSome? (hitlAt P (interruptPayload P result)) ≠ some h := by
        intro ts hts hsome
        obtain ⟨t, ht, hat⟩ := List.exists_of_findSome?_eq_some hsome
        exact hns t (hts t ht) ((hitlAt_eq_some hat).2.symm.trans hhns)
      rcases Option.or_eq_some_iff.mp hfind with hfind | ⟨hnone, hfind⟩
      · exact absurd hfind (helsewhere pre (fun t => List.mem_append_left post))
      · refine ⟨fun hid => ?_, fun t ht => (hsilent t ht).mp (List.findSome?_eq_none_iff.mp hnone t ht)⟩
        have hcnone : hitlAt P (interruptPayload P result) c = none := hitlAt_eq_none.mpr (.inl hid)
        rw [hcnone] at hfind
        exact helsewhere post (fun t => List.mem_append_right pre) hfind
    · rintro ⟨hid, hquiet⟩
      have hnone : pre.findSome? (hitlAt P (interruptPayload P result)) = none :=
        List.findSome?_eq_none_iff.mpr (fun t ht => (hsilent t ht).mpr (hquiet t ht))
      have hcsome : hitlAt P (interruptPayload P result) c ≠ none := by
        rw [ne_eq, hitlAt_eq_none, hc]
        simp [hid]
      obtain ⟨h, hat⟩ := Option.ne_none_iff_exists'.mp hcsome
      exact ⟨h, by rw [hnone, hat]; rfl, hitlAt_eq_some hat⟩
  constructor
  · rintro ⟨hfind, haccepted⟩
    obtain ⟨hid, hquiet⟩ := hfound.mp hfind
    exact ⟨hid, hnewer ▸ hquiet, fun call hcall hname => (select_accepts_iff hcall).mp (haccepted call hcall hname)⟩
  · rintro ⟨hid, hquiet, hanswerable⟩
    refine ⟨hfound.mpr ⟨hid, hnewer ▸ hquiet⟩, fun call hcall hname => ?_⟩
    exact (select_accepts_iff hcall).mpr (hanswerable call hcall hname)

/-! ### Two lanes

The lane `agent:main` asked; the lane `agent:notes` stored a later checkpoint and asks nothing. -/

def questionArgs : Dict String Value := Dict.ofList [("question", .str "Pick one?")]

def askingLane : CheckpointTuple where
  configId := some "1"
  storedId := some "1"
  configNs := some "agent:main"
  interrupt := .null
  pregelTasks := .null
  messages := [.ai none (.str "") [⟨some "ask-1", hitlToolName, questionArgs⟩]]

def quietLane : CheckpointTuple where
  configId := some "2"
  storedId := some "2"
  configNs := some "agent:notes"
  interrupt := .null
  pregelTasks := .null
  messages := [.human none none (.str "go on")]

theorem lanes_ask : (latestByNamespace [quietLane, askingLane]).filter asks = [askingLane] := by
  rfl

theorem hitl_located_lanes : LocatedAt plainPrinter [quietLane, askingLane] .null askingLane := by
  apply (hitl_located_iff plainPrinter [quietLane, askingLane] .null askingLane lanes_ask).mpr
  refine ⟨by decide, ?_, ?_⟩
  · intro t ht
    have hnewer : newerLatest [quietLane, askingLane] = [quietLane] := rfl
    rw [hnewer] at ht
    obtain rfl := List.mem_singleton.mp ht
    exact .inr ⟨rfl, rfl⟩
  · intro call hcall _
    have hpending : pendingToolCalls askingLane.messages = [⟨some "ask-1", hitlToolName, questionArgs⟩] := rfl
    rw [hpending] at hcall ⊢
    obtain rfl := List.mem_singleton.mp hcall
    exact ⟨"ask-1", rfl, .inr rfl⟩

theorem result_payload_misplaces_question :
    ¬LocatedAt plainPrinter [quietLane, askingLane] (.list [.dict [("question", .str "Pick one?")]]) askingLane := by
  rintro ⟨⟨h, hfind, hid, -⟩, -⟩
  have hreported : (findHitlInterruptCheckpoint plainPrinter [quietLane, askingLane]
      (.list [.dict [("question", .str "Pick one?")]])).map HitlInterruptCheckpoint.checkpointId = some "2" := rfl
  rw [hfind, Option.map_some, hid] at hreported
  exact absurd hreported (by decide)

end GraphSkillRuntime.HitlCheckpoints
