import GraphSkillRuntime.AgentMessages
import GraphSkillRuntime.Runs

/-! The tool calls that `CognitiveFlowMiddleware` answers out of the flow state. -/

namespace GraphSkillRuntime

open OrderedDict

structure IODef where
  sourceField : String
  targetField : String
  hoistPath : Option String := none
  required : Bool := true

inductive PathToken where
  | key (name : String)
  | index (n : Nat)

def pythonInt (s : String) : Option Int :=
  let digits (cs : List Char) : Option Nat :=
    let groups := cs.splitOn '_'
    if groups.all (fun g => !g.isEmpty && g.all Char.isDigit) then (String.ofList groups.flatten).toNat?
    else none
  match (strip s).toList with
  | '-' :: cs => (digits cs).map (fun n => -(n : Int))
  | '+' :: cs => (digits cs).map Int.ofNat
  | cs => (digits cs).map Int.ofNat

/-- `_split_brackets`; an open bracket that nothing closes makes the part invalid. -/
def splitBrackets : List Char → Nat → List Char × Option (List (List Char))
  | [], _ => ([], some [])
  | _, 0 => ([], none)
  | c :: cs, fuel + 1 =>
    if c = '[' then
      if ']' ∈ cs then
        let rest := splitBrackets ((cs.dropWhile (· ≠ ']')).drop 1) fuel
        (rest.1, rest.2.map (cs.takeWhile (· ≠ ']') :: ·))
      else ([], none)
    else
      let rest := splitBrackets cs fuel
      (c :: rest.1, rest.2)

def parseIndex (raw : List Char) : Option PathToken :=
  match pythonInt (.ofList raw) with
  | some (.ofNat n) => some (.index n)
  | _ => none

def parsePart (part : List Char) : Option (List PathToken) :=
  match part, splitBrackets part part.length with
  | [], _ => none
  | _, (_, none) => none
  | _, (key, some raws) => do
    let indices ← raws.mapM parseIndex
    return (if key.isEmpty then [] else [.key (.ofList key)]) ++ indices

def parsePath (path : String) : Option (List PathToken) := do
  let parts ← (path.toList.splitOn '.').mapM parsePart
  return parts.flatten

def followToken (current : Value) : PathToken → Option Value
  | .key name => current.asDict?.bind (·.get? name)
  | .index n => match current with | .list xs => xs[n]? | _ => none

def resolvePath (value : Value) (path : String) : Option Value := do
  let tokens ← parsePath path
  tokens.foldlM followToken value

namespace IODef

def extract (spec : IODef) (source : Dict String Value) : Option Value :=
  match spec.hoistPath with
  | some path =>
    if path = "" then source.get? spec.sourceField
    else if path = spec.sourceField || startsWith path (spec.sourceField ++ ".") ||
        startsWith path (spec.sourceField ++ "[") then
      resolvePath (.ofDict source) path
    else
      match source.get? spec.sourceField with
      | none => resolvePath (.ofDict source) path
      | some root =>
        resolvePath root (if startsWith path "." then .ofList (path.toList.drop 1) else path)
  | none => source.get? spec.sourceField

end IODef

/-- The type of what `BusinessData.get` answers, with the reserved names it has an answer of its own
for. -/
def targetType (data : BusinessData) (field : String) : Option String :=
  if field = "phase_outputs" then some "PhaseOutputsCompat"
  else if field = "inputs" || field = "scratch" then some "dict"
  else match data.get? field with
    | none | some .null => none
    | some v => some v.typeName

def isInstance (v : Value) (type : String) : Bool :=
  v.typeName == type || (v.typeName == "bool" && type == "int")

structure HoistResult where
  newBusinessData : BusinessData
  ioErrors : List String

def hoistErrors (data : BusinessData) (spec : IODef) : Option Value → List String
  | none =>
    if spec.required then ["required io.output '" ++ spec.sourceField ++ "' missing in source_data"] else []
  | some value =>
    match targetType data spec.targetField with
    | none => []
    | some type =>
      if value = .null || isInstance value type then []
      else ["io.output '" ++ spec.sourceField ++ "' type mismatch for target '" ++ spec.targetField ++
        "': expected " ++ type ++ ", got " ++ value.typeName]

def resolveHoist (specs : List IODef) (source : Dict String Value) (data : BusinessData) : HoistResult :=
  { newBusinessData := data.update (Dict.ofList (specs.filterMap (fun spec =>
      (spec.extract source).map (fun v => (spec.targetField, v)))))
    ioErrors := specs.flatMap (fun spec => hoistErrors data spec (spec.extract source)) }

inductive FinishVerdict where
  | accepted
  | rejected
  | duplicate
  deriving DecidableEq

/-- What `_validate_finish_args` says of a submission. -/
inductive FinishValidation where
  | passed (parsedItems : List (Dict String Value))
  | failed (errors : List String)

structure CognitiveFlow where
  phaseName : String
  ioSpecs : List IODef
  printer : Printer
  /-- The schema gate; it raises where the phase has no compiled output schema. -/
  validateFinishArgs : Dict String Value → Except String FinishValidation

inductive CognitiveCall where
  | updateWorkingMemory (args : Dict String Value)
  | logAmbiguity (args : Dict String Value) (timestamp : String)
  | finishTask (args : Dict String Value)

def finishTurnKey (messages : List Message) : Option String :=
  messages.getLast?.map (fun last =>
    match last.id with
    | some id => if id = "" then "len:" ++ toString messages.length else id
    | none => "len:" ++ toString messages.length)

def workingMemoryPlanKey : String := "plan"

def recordedPlan (flow : FrameworkState) : Option Value :=
  flow.workingMemory.asDict?.bind (·.get? workingMemoryPlanKey)

namespace CognitiveFlow

variable (m : CognitiveFlow)

def planOf (args : Dict String Value) : String := argText m.printer args "plan"

def workingMemoryUpdate (args : Dict String Value) (flow : FrameworkState) : FrameworkState :=
  { flow with workingMemory := .ofDict ((flow.workingMemory.asDict?.getD ∅).set workingMemoryPlanKey
      (.str (m.planOf args))) }

def handleUpdateWorkingMemory (args : Dict String Value) (state : AgentState) (toolCallId : String) :
    Command where
  flow := some (m.workingMemoryUpdate args state.flow)
  messages := [.tool none (some "update_working_memory") (.str "WORKING_MEMORY_UPDATED") toolCallId false]

def ambiguityRecord (args : Dict String Value) (timestamp : String) : Dict String Value :=
  Dict.ofList
    [("timestamp", .str timestamp),
     ("phase", .str m.phaseName),
     ("type", .str (argText m.printer args "ambiguity_type")),
     ("question", .str (argText m.printer args "question")),
     ("decision", .str (argText m.printer args "decision")),
     ("reason", .str (argText m.printer args "reason"))]

def ambiguityUpdate (args : Dict String Value) (timestamp : String) (flow : FrameworkState) :
    FrameworkState :=
  { flow with ambiguityReports := flow.ambiguityReports ++ [m.ambiguityRecord args timestamp] }

def handleLogAmbiguity (args : Dict String Value) (timestamp : String) (state : AgentState)
    (toolCallId : String) : Command where
  flow := some (m.ambiguityUpdate args timestamp state.flow)
  messages := [.tool none (some "log_ambiguity")
    (.str (m.printer.dumps (.dict
      [("status", .str "recorded"),
       ("index", .num state.flow.ambiguityReports.length),
       ("type", .str (argText m.printer args "ambiguity_type"))])))
    toolCallId false]

def duplicateFinishResponse (toolCallId : String) : Command where
  messages := [.tool none (some "finish_task")
    (.str "[提交已接受] 本轮的另一个 finish_task 已被接受,此重复提交被忽略。") toolCallId false]

def rejectFinish (toolCallId : String) (errors : List String) : Command where
  messages := [.tool none (some "finish_task")
    (.str ("[提交已被系统驳回] 当前任务仍未结束，请继续修正并重新提交！" ++ "\n" ++ "\n".intercalate errors))
    toolCallId true]
  gotoModel := true

def finishResult (args : Dict String Value) (parsedItems : List (Dict String Value)) : Dict String Value :=
  Dict.ofList
    [("phase_name", .str m.phaseName),
     ("reasoning", .str (strip (argText m.printer args "reasoning"))),
     ("diagnostics_md", .str (strip (argText m.printer args "diagnostics_md"))),
     ("business_data_md", .str (strip (argText m.printer args "business_data_md"))),
     ("schema_validation", .str "passed"),
     ("business_data_parsed", .list (parsedItems.map .ofDict))]

def applyIoHoist (data : BusinessData) (flow : FrameworkState) (marker : Dict String Value) :
    Except String (BusinessData × FrameworkState) :=
  let result := resolveHoist m.ioSpecs marker data
  let flow := if result.ioErrors.isEmpty then flow
    else { flow with ioErrors := flow.ioErrors ++ result.ioErrors }
  if dictEqv result.newBusinessData data then .ok (data, flow)
  else
    match updateError? result.newBusinessData with
    | some e => .error e.text
    | none => .ok (data.update result.newBusinessData, flow)

structure FinishOutcome where
  verdict : FinishVerdict
  /-- `_accepted_finish_turn_key` after the call. -/
  gate : Option String
  marker : Option (Dict String Value)
  command : Command

def handleFinishTask (gate : Option String) (args : Dict String Value) (state : AgentState)
    (toolCallId : String) : Except String FinishOutcome := do
  let turnKey := finishTurnKey state.messages
  if turnKey ≠ none ∧ turnKey = gate then
    return ⟨.duplicate, gate, none, duplicateFinishResponse toolCallId⟩
  match ← m.validateFinishArgs args with
  | .failed errors => return ⟨.rejected, gate, none, rejectFinish toolCallId errors⟩
  | .passed parsedItems =>
    let marker := m.finishResult args parsedItems
    let (data, flow) ← m.applyIoHoist state.data { state.flow with finishTaskResult := some marker } marker
    return ⟨.accepted, turnKey, some marker,
      { data := some data
        flow := some flow
        messages := [.tool none (some "finish_task") (.str "PHASE_COMPLETE") toolCallId false] }⟩

/-- What one cognitive call answered; `marker` is the one an accepted submission left in the flow. -/
structure CognitiveAnswer where
  verdict : Option FinishVerdict := none
  marker : Option (Dict String Value) := none
  command : Command

/-- One call of a turn, with the turn gate before and after it; every call reads the same `state`. -/
def handleCall (gate : Option String) (state : AgentState) (toolCallId : String) :
    CognitiveCall → Except String (Option String × CognitiveAnswer)
  | .updateWorkingMemory args => .ok (gate, { command := m.handleUpdateWorkingMemory args state toolCallId })
  | .logAmbiguity args timestamp =>
    .ok (gate, { command := m.handleLogAmbiguity args timestamp state toolCallId })
  | .finishTask args => do
    let outcome ← m.handleFinishTask gate args state toolCallId
    return (outcome.gate,
      { verdict := some outcome.verdict, marker := outcome.marker, command := outcome.command })

def handleTurn (state : AgentState) : Option String → List (String × CognitiveCall) →
    Except String (Option String × List CognitiveAnswer)
  | gate, [] => .ok (gate, [])
  | gate, (toolCallId, call) :: calls => do
    let (gate, answer) ← m.handleCall gate state toolCallId call
    let (gate, answers) ← handleTurn state gate calls
    return (gate, answer :: answers)

def recordOf : CognitiveCall → Option (Dict String Value)
  | .logAmbiguity args timestamp => some (m.ambiguityRecord args timestamp)
  | _ => none

def plan? : CognitiveCall → Option Value
  | .updateWorkingMemory args => some (.str (m.planOf args))
  | _ => none

def validMarker : CognitiveCall → Option (Dict String Value)
  | .finishTask args =>
    match m.validateFinishArgs args with
    | .ok (.passed parsedItems) => some (m.finishResult args parsedItems)
    | _ => none
  | _ => none

/-- The markers the turn gate lets through: it closes behind the first one, and is closed from the
start where the turn already had one accepted. -/
def admittedMarkers (messages : List Message) (gate : Option String) (calls : List (String × CognitiveCall)) :
    List (Dict String Value) :=
  match finishTurnKey messages with
  | none => calls.filterMap (m.validMarker ·.2)
  | some key => if gate = some key then [] else (calls.filterMap (m.validMarker ·.2)).take 1

end CognitiveFlow

def CognitiveFlow.CognitiveAnswer.acceptedMarker (answer : CognitiveFlow.CognitiveAnswer) :
    Option (Dict String Value) :=
  match answer.verdict with
  | some .accepted => answer.marker
  | _ => none

def acceptedMarkers (answers : List CognitiveFlow.CognitiveAnswer) : List (Dict String Value) :=
  answers.filterMap CognitiveFlow.CognitiveAnswer.acceptedMarker

def commitAnswers (flow : FrameworkState) (answers : List CognitiveFlow.CognitiveAnswer) : FrameworkState :=
  answers.foldl (fun flow answer =>
    match answer.command.flow with
    | some written => mergeFlowChannel flow (.full written)
    | none => flow) flow

structure CognitiveTurn (m : CognitiveFlow) where
  state : AgentState
  gate : Option String
  calls : List (String × CognitiveCall)
  nextGate : Option String
  answers : List CognitiveFlow.CognitiveAnswer
  handled : m.handleTurn state gate calls = .ok (nextGate, answers)

namespace CognitiveTurn

variable {m : CognitiveFlow} (turn : CognitiveTurn m)

def records : List (Dict String Value) := turn.calls.filterMap (m.recordOf ·.2)

def plans : List Value := turn.calls.filterMap (m.plan? ·.2)

structure KeepsUpdates (flow : FrameworkState) : Prop where
  records : (turn.state.flow.ambiguityReports ++ turn.records).Subperm flow.ambiguityReports
  plan : turn.plans ≠ [] → ∃ plan ∈ turn.plans, recordedPlan flow = some plan
  marker : acceptedMarkers turn.answers ≠ [] →
    ∃ marker ∈ acceptedMarkers turn.answers, flow.finishTaskResult = some marker

def admitted : List (Dict String Value) := m.admittedMarkers turn.state.messages turn.gate turn.calls

/-- One ambiguity log stands alone; plans and a submission meet only where the flow already held one of
each. -/
def SeparateUpdates : Prop :=
  (turn.records = [] ∧
    (turn.plans ≠ [] → turn.admitted ≠ [] →
      (∃ plan ∈ turn.plans, recordedPlan turn.state.flow = some plan) ∧
      ∃ marker ∈ turn.admitted, turn.state.flow.finishTaskResult = some marker)) ∨
  (turn.records.length = 1 ∧ turn.plans = [] ∧ turn.admitted = [])

end CognitiveTurn

section Outcomes

variable {m : CognitiveFlow} {state : AgentState} {gate gate' : Option String} {toolCallId : String}
  {args : Dict String Value} {outcome : CognitiveFlow.FinishOutcome}

theorem applyIoHoist_flow {data data' : BusinessData} {flow flow' : FrameworkState} {marker : Dict String Value}
    (h : m.applyIoHoist data flow marker = .ok (data', flow')) :
    ∃ errors, flow' = { flow with ioErrors := errors } := by
  have hflow : flow' = if (resolveHoist m.ioSpecs marker data).ioErrors.isEmpty then flow
      else { flow with ioErrors := flow.ioErrors ++ (resolveHoist m.ioSpecs marker data).ioErrors } := by
    unfold CognitiveFlow.applyIoHoist at h
    simp only at h
    split at h
    · exact (congrArg Prod.snd (Except.ok.inj h)).symm
    · split at h
      · cases h
      · exact (congrArg Prod.snd (Except.ok.inj h)).symm
  rw [hflow]
  split_ifs
  · exact ⟨flow.ioErrors, rfl⟩
  · exact ⟨_, rfl⟩

theorem handleFinishTask_cases (h : m.handleFinishTask gate args state toolCallId = .ok outcome) :
    ((finishTurnKey state.messages ≠ none ∧ finishTurnKey state.messages = gate) ∧
      outcome = ⟨.duplicate, gate, none, CognitiveFlow.duplicateFinishResponse toolCallId⟩) ∨
    (¬ (finishTurnKey state.messages ≠ none ∧ finishTurnKey state.messages = gate) ∧
      ∃ errors, m.validateFinishArgs args = .ok (.failed errors) ∧
        outcome = ⟨.rejected, gate, none, CognitiveFlow.rejectFinish toolCallId errors⟩) ∨
    (¬ (finishTurnKey state.messages ≠ none ∧ finishTurnKey state.messages = gate) ∧
      ∃ items errors command, m.validateFinishArgs args = .ok (.passed items) ∧
        outcome = ⟨.accepted, finishTurnKey state.messages, some (m.finishResult args items), command⟩ ∧
        command.flow = some
          { state.flow with finishTaskResult := some (m.finishResult args items), ioErrors := errors }) := by
  unfold CognitiveFlow.handleFinishTask at h
  simp only at h
  split at h
  · rename_i hclosed
    exact Or.inl ⟨hclosed, (Except.ok.inj h).symm⟩
  · rename_i hopen
    obtain ⟨validation, hv, h⟩ := bind_ok h
    cases validation with
    | failed errors => exact Or.inr (Or.inl ⟨hopen, errors, hv, (Except.ok.inj h).symm⟩)
    | passed items =>
      obtain ⟨⟨data, flow⟩, hhoist, h⟩ := bind_ok h
      obtain ⟨errors, rfl⟩ := applyIoHoist_flow hhoist
      exact Or.inr (Or.inr ⟨hopen, items, errors, _, hv, (Except.ok.inj h).symm, rfl⟩)

end Outcomes

section Writes

inductive FlowWrite where
  | plan (text : Value)
  | record (entry : Dict String Value)
  | marker (result : Dict String Value)

namespace FlowWrite

def plan? : FlowWrite → Option Value
  | .plan text => some text
  | _ => none

def record? : FlowWrite → Option (Dict String Value)
  | .record entry => some entry
  | _ => none

def marker? : FlowWrite → Option (Dict String Value)
  | .marker result => some result
  | _ => none

structure Carried (before : FrameworkState) (write : FlowWrite) (flow : FrameworkState) : Prop where
  reports : flow.ambiguityReports = before.ambiguityReports ++ write.record?.toList
  plan : recordedPlan flow = write.plan?.or (recordedPlan before)
  marker : flow.finishTaskResult = write.marker?.or before.finishTaskResult

end FlowWrite

variable {m : CognitiveFlow} {state : AgentState} {gate gate' : Option String} {toolCallId : String}
  {call : CognitiveCall} {answer : CognitiveFlow.CognitiveAnswer}

theorem recordedPlan_workingMemoryUpdate (args : Dict String Value) (flow : FrameworkState) :
    recordedPlan (m.workingMemoryUpdate args flow) = some (.str (m.planOf args)) := by
  simp [recordedPlan, CognitiveFlow.workingMemoryUpdate]

theorem handleCall_writes (h : m.handleCall gate state toolCallId call = .ok (gate', answer)) :
    ∃ writes : List FlowWrite,
      List.Forall₂ (FlowWrite.Carried state.flow) writes answer.command.flow.toList ∧
      (m.plan? call).toList = writes.filterMap FlowWrite.plan? ∧
      (m.recordOf call).toList = writes.filterMap FlowWrite.record? ∧
      answer.acceptedMarker.toList = writes.filterMap FlowWrite.marker? := by
  cases call with
  | updateWorkingMemory args =>
    obtain ⟨rfl, rfl⟩ := Prod.mk.inj (Except.ok.inj h)
    refine ⟨[.plan (.str (m.planOf args))], .cons ⟨?_, ?_, ?_⟩ .nil, rfl, rfl, rfl⟩
    · simp [CognitiveFlow.workingMemoryUpdate, FlowWrite.record?]
    · simp [recordedPlan_workingMemoryUpdate, FlowWrite.plan?]
    · simp [CognitiveFlow.workingMemoryUpdate, FlowWrite.marker?]
  | logAmbiguity args timestamp =>
    obtain ⟨rfl, rfl⟩ := Prod.mk.inj (Except.ok.inj h)
    exact ⟨[.record (m.ambiguityRecord args timestamp)], .cons ⟨rfl, rfl, rfl⟩ .nil, rfl, rfl, rfl⟩
  | finishTask args =>
    obtain ⟨outcome, hout, h⟩ := bind_ok h
    obtain ⟨rfl, rfl⟩ := Prod.mk.inj (Except.ok.inj h)
    rcases handleFinishTask_cases hout with
      ⟨-, rfl⟩ | ⟨-, errors, -, rfl⟩ | ⟨-, items, errors, command, -, rfl, hflow⟩
    · exact ⟨[], .nil, rfl, rfl, rfl⟩
    · exact ⟨[], .nil, rfl, rfl, rfl⟩
    · refine ⟨[.marker (m.finishResult args items)], ?_, rfl, rfl, rfl⟩
      simp only [hflow]
      exact .cons ⟨(List.append_nil _).symm, rfl, rfl⟩ .nil

theorem filterMap_cons_toList {α β : Type} (f : α → Option β) (a : α) (as : List α) :
    (a :: as).filterMap f = (f a).toList ++ as.filterMap f := by
  cases h : f a <;> simp [h]

theorem handleTurn_writes {calls : List (String × CognitiveCall)} {answers : List CognitiveFlow.CognitiveAnswer}
    (h : m.handleTurn state gate calls = .ok (gate', answers)) :
    ∃ writes : List FlowWrite,
      List.Forall₂ (FlowWrite.Carried state.flow) writes (answers.filterMap (·.command.flow)) ∧
      calls.filterMap (m.plan? ·.2) = writes.filterMap FlowWrite.plan? ∧
      calls.filterMap (m.recordOf ·.2) = writes.filterMap FlowWrite.record? ∧
      acceptedMarkers answers = writes.filterMap FlowWrite.marker? := by
  induction calls generalizing gate answers with
  | nil =>
    obtain ⟨rfl, rfl⟩ := Prod.mk.inj (Except.ok.inj h)
    exact ⟨[], List.Forall₂.nil, rfl, rfl, rfl⟩
  | cons call calls ih =>
    obtain ⟨⟨mid, answer⟩, hcall, h⟩ := bind_ok h
    obtain ⟨⟨last, rest⟩, hrest, h⟩ := bind_ok h
    obtain ⟨rfl, rfl⟩ := Prod.mk.inj (Except.ok.inj h)
    obtain ⟨written, hrel, hplan, hrecord, hmarker⟩ := handleCall_writes hcall
    obtain ⟨writes, hrels, hplans, hrecords, hmarkers⟩ := ih hrest
    refine ⟨written ++ writes, ?_, ?_, ?_, ?_⟩
    · rw [filterMap_cons_toList]
      exact List.rel_append hrel hrels
    · rw [filterMap_cons_toList, hplan, hplans, List.filterMap_append]
    · rw [filterMap_cons_toList, hrecord, hrecords, List.filterMap_append]
    · rw [acceptedMarkers, filterMap_cons_toList, hmarker, ← acceptedMarkers, hmarkers, List.filterMap_append]

theorem handleCall_gate (h : m.handleCall gate state toolCallId call = .ok (gate', answer)) :
    (answer.acceptedMarker = none ∧ gate' = gate ∧
      (m.validMarker call = none ∨
        finishTurnKey state.messages ≠ none ∧ finishTurnKey state.messages = gate)) ∨
    (answer.acceptedMarker = m.validMarker call ∧ m.validMarker call ≠ none ∧
      gate' = finishTurnKey state.messages ∧
      ¬ (finishTurnKey state.messages ≠ none ∧ finishTurnKey state.messages = gate)) := by
  cases call with
  | updateWorkingMemory args =>
    obtain ⟨rfl, rfl⟩ := Prod.mk.inj (Except.ok.inj h)
    exact Or.inl ⟨rfl, rfl, Or.inl rfl⟩
  | logAmbiguity args timestamp =>
    obtain ⟨rfl, rfl⟩ := Prod.mk.inj (Except.ok.inj h)
    exact Or.inl ⟨rfl, rfl, Or.inl rfl⟩
  | finishTask args =>
    obtain ⟨outcome, hout, h⟩ := bind_ok h
    obtain ⟨rfl, rfl⟩ := Prod.mk.inj (Except.ok.inj h)
    rcases handleFinishTask_cases hout with
      ⟨hclosed, rfl⟩ | ⟨-, errors, hv, rfl⟩ | ⟨hopen, items, errors, command, hv, rfl, -⟩
    · exact Or.inl ⟨rfl, rfl, Or.inr hclosed⟩
    · exact Or.inl ⟨rfl, rfl, Or.inl (by simp [CognitiveFlow.validMarker, hv])⟩
    · refine Or.inr ⟨?_, ?_, rfl, hopen⟩
      · simp [CognitiveFlow.validMarker, hv, CognitiveFlow.CognitiveAnswer.acceptedMarker]
      · simp [CognitiveFlow.validMarker, hv]

theorem acceptedMarkers_eq_admitted {calls : List (String × CognitiveCall)}
    {answers : List CognitiveFlow.CognitiveAnswer}
    (h : m.handleTurn state gate calls = .ok (gate', answers)) :
    acceptedMarkers answers = m.admittedMarkers state.messages gate calls := by
  induction calls generalizing gate answers with
  | nil =>
    obtain ⟨rfl, rfl⟩ := Prod.mk.inj (Except.ok.inj h)
    unfold CognitiveFlow.admittedMarkers
    split <;> simp [acceptedMarkers]
  | cons call calls ih =>
    obtain ⟨⟨mid, answer⟩, hcall, h⟩ := bind_ok h
    obtain ⟨⟨last, rest⟩, hrest, h⟩ := bind_ok h
    obtain ⟨rfl, rfl⟩ := Prod.mk.inj (Except.ok.inj h)
    rw [acceptedMarkers, filterMap_cons_toList, ← acceptedMarkers, ih hrest]
    unfold CognitiveFlow.admittedMarkers
    rw [filterMap_cons_toList]
    cases hkey : finishTurnKey state.messages with
    | none =>
      rcases handleCall_gate hcall with ⟨hnone, -, hvalid⟩ | ⟨hacc, -, -, -⟩
      · have hv : m.validMarker call.2 = none := hvalid.resolve_right (by simp [hkey])
        simp [hnone, hv]
      · simp [hacc]
    | some key =>
      rcases handleCall_gate hcall with ⟨hnone, rfl, hvalid⟩ | ⟨hacc, hsome, rfl, hopen⟩
      · by_cases hg : mid = some key
        · simp [hnone, hg]
        · have hv : m.validMarker call.2 = none := hvalid.resolve_right (by simpa [hkey] using Ne.symm hg)
          simp [hnone, hv]
      · obtain ⟨marker, hmarker⟩ := Option.ne_none_iff_exists'.mp hsome
        have hg : gate ≠ some key := by simpa [hkey, eq_comm] using hopen
        simp [hacc, hmarker, hkey, hg]

end Writes

namespace CognitiveTurn

variable {m : CognitiveFlow} (turn : CognitiveTurn m)

theorem commitAnswers_eq (flow : FrameworkState) (answers : List CognitiveFlow.CognitiveAnswer) :
    commitAnswers flow answers = answers.foldl (fun b a => a.command.flow.getD b) flow := by
  unfold commitAnswers
  congr 1
  funext flow answer
  cases answer.command.flow <;> rfl

def KeptBy (before : FrameworkState) (writes : List FlowWrite) (write : FlowWrite) : Prop :=
  writes.filterMap FlowWrite.record? = write.record?.toList ∧
  (writes.filterMap FlowWrite.plan? ≠ [] → ∃ plan ∈ writes.filterMap FlowWrite.plan?,
    write.plan?.or (recordedPlan before) = some plan) ∧
  (writes.filterMap FlowWrite.marker? ≠ [] → ∃ marker ∈ writes.filterMap FlowWrite.marker?,
    write.marker?.or before.finishTaskResult = some marker)

def SeparateWrites (before : FrameworkState) (writes : List FlowWrite) : Prop :=
  (writes.filterMap FlowWrite.record? = [] ∧
    (writes.filterMap FlowWrite.plan? ≠ [] → writes.filterMap FlowWrite.marker? ≠ [] →
      (∃ plan ∈ writes.filterMap FlowWrite.plan?, recordedPlan before = some plan) ∧
      ∃ marker ∈ writes.filterMap FlowWrite.marker?, before.finishTaskResult = some marker)) ∨
  ((writes.filterMap FlowWrite.record?).length = 1 ∧ writes.filterMap FlowWrite.plan? = [] ∧
    writes.filterMap FlowWrite.marker? = [])

theorem keptBy_all_iff (before : FrameworkState) (writes : List FlowWrite) :
    (∀ write ∈ writes, KeptBy before writes write) ↔ SeparateWrites before writes := by
  have hplanned : ∀ {plan}, plan ∈ writes.filterMap FlowWrite.plan? → FlowWrite.plan plan ∈ writes := by
    intro plan hp
    obtain ⟨write, hmem, hw⟩ := List.mem_filterMap.mp hp
    cases write <;> simp_all [FlowWrite.plan?]
  have hrecorded : ∀ {entry}, entry ∈ writes.filterMap FlowWrite.record? → FlowWrite.record entry ∈ writes := by
    intro entry hp
    obtain ⟨write, hmem, hw⟩ := List.mem_filterMap.mp hp
    cases write <;> simp_all [FlowWrite.record?]
  have hmarked : ∀ {marker}, marker ∈ writes.filterMap FlowWrite.marker? → FlowWrite.marker marker ∈ writes := by
    intro marker hp
    obtain ⟨write, hmem, hw⟩ := List.mem_filterMap.mp hp
    cases write <;> simp_all [FlowWrite.marker?]
  constructor
  · intro h
    cases hrec : writes.filterMap FlowWrite.record? with
    | nil =>
      refine Or.inl ⟨hrec, ?_⟩
      intro hp hm
      obtain ⟨plan, hplan⟩ := List.exists_mem_of_ne_nil _ hp
      obtain ⟨marker, hmarker⟩ := List.exists_mem_of_ne_nil _ hm
      exact ⟨(h _ (hmarked hmarker)).2.1 hp, (h _ (hplanned hplan)).2.2 hm⟩
    | cons entry entries =>
      have hentry : entry ∈ writes.filterMap FlowWrite.record? := by simp [hrec]
      refine Or.inr ⟨?_, ?_, ?_⟩
      · rw [(h _ (hrecorded hentry)).1]
        rfl
      · by_contra hp
        obtain ⟨plan, hplan⟩ := List.exists_mem_of_ne_nil _ hp
        have hnone := (h _ (hplanned hplan)).1
        simp [hrec, FlowWrite.record?] at hnone
      · by_contra hm
        obtain ⟨marker, hmarker⟩ := List.exists_mem_of_ne_nil _ hm
        have hnone := (h _ (hmarked hmarker)).1
        simp [hrec, FlowWrite.record?] at hnone
  · rintro (⟨hrec, hboth⟩ | ⟨hone, hp, hm⟩) write hmem
    · cases write with
      | plan text =>
        have hp : text ∈ writes.filterMap FlowWrite.plan? := List.mem_filterMap.mpr ⟨_, hmem, rfl⟩
        exact ⟨hrec, fun _ => ⟨text, hp, rfl⟩, fun hm => (hboth (List.ne_nil_of_mem hp) hm).2⟩
      | record entry =>
        have hr : entry ∈ writes.filterMap FlowWrite.record? := List.mem_filterMap.mpr ⟨_, hmem, rfl⟩
        rw [hrec] at hr
        cases hr
      | marker result =>
        have hm : result ∈ writes.filterMap FlowWrite.marker? := List.mem_filterMap.mpr ⟨_, hmem, rfl⟩
        exact ⟨hrec, fun hp => (hboth hp (List.ne_nil_of_mem hm)).1, fun _ => ⟨result, hm, rfl⟩⟩
    · cases write with
      | plan text =>
        have hp' : text ∈ writes.filterMap FlowWrite.plan? := List.mem_filterMap.mpr ⟨_, hmem, rfl⟩
        rw [hp] at hp'
        cases hp'
      | record entry =>
        have hr : entry ∈ writes.filterMap FlowWrite.record? := List.mem_filterMap.mpr ⟨_, hmem, rfl⟩
        obtain ⟨only, honly⟩ := List.length_eq_one_iff.mp hone
        rw [honly, List.mem_singleton] at hr
        subst hr
        exact ⟨honly, fun hp' => absurd hp hp', fun hm' => absurd hm hm'⟩
      | marker result =>
        have hm' : result ∈ writes.filterMap FlowWrite.marker? := List.mem_filterMap.mpr ⟨_, hmem, rfl⟩
        rw [hm] at hm'
        cases hm'

theorem append_subperm_append_iff {α : Type} {before records : List α} {written : Option α}
    (hmem : ∀ record, written = some record → record ∈ records) :
    (before ++ records).Subperm (before ++ written.toList) ↔ records = written.toList := by
  constructor
  · intro h
    have hsub : records.Subperm written.toList := (List.subperm_append_left before).mp h
    have hlen := hsub.length_le
    cases written with
    | none => exact List.subperm_nil.mp hsub
    | some record =>
      have hrec := hmem record rfl
      cases records with
      | nil => cases hrec
      | cons r rs =>
        simp only [Option.toList_some, List.length_cons, List.length_nil] at hlen
        obtain rfl : rs = [] := List.length_eq_zero_iff.mp (by omega)
        simp_all
  · rintro rfl
    exact List.Subperm.refl _

theorem keepsUpdates_iff {writes : List FlowWrite} {write : FlowWrite} {flow : FrameworkState}
    (hplans : turn.plans = writes.filterMap FlowWrite.plan?)
    (hrecords : turn.records = writes.filterMap FlowWrite.record?)
    (hmarkers : acceptedMarkers turn.answers = writes.filterMap FlowWrite.marker?)
    (hmem : write ∈ writes) (hc : write.Carried turn.state.flow flow) :
    turn.KeepsUpdates flow ↔ KeptBy turn.state.flow writes write := by
  have hentry : ∀ record, write.record? = some record → record ∈ writes.filterMap FlowWrite.record? :=
    fun record hr => List.mem_filterMap.mpr ⟨write, hmem, hr⟩
  constructor
  · rintro ⟨hreports, hplan, hmarker⟩
    rw [hc.reports, hrecords, append_subperm_append_iff hentry] at hreports
    rw [hplans, hc.plan] at hplan
    rw [hmarkers, hc.marker] at hmarker
    exact ⟨hreports, hplan, hmarker⟩
  · rintro ⟨hreports, hplan, hmarker⟩
    constructor
    · rwa [hc.reports, hrecords, append_subperm_append_iff hentry]
    · rwa [hplans, hc.plan]
    · rwa [hmarkers, hc.marker]

theorem turn_keeps_updates_iff (m : CognitiveFlow) (turn : CognitiveTurn m) :
    (∀ order, order.Perm turn.answers → turn.KeepsUpdates (commitAnswers turn.state.flow order)) ↔
      turn.SeparateUpdates := by
  obtain ⟨writes, hcarried, hplans, hrecords, hmarkers⟩ := handleTurn_writes turn.handled
  have hadmitted : turn.admitted = writes.filterMap FlowWrite.marker? := by
    rw [← hmarkers]
    exact (acceptedMarkers_eq_admitted turn.handled).symm
  have hseparate : turn.SeparateUpdates ↔ SeparateWrites turn.state.flow writes := by
    unfold SeparateUpdates SeparateWrites
    rw [hadmitted, show turn.plans = _ from hplans, show turn.records = _ from hrecords]
  have hall := forall_mem_iff_of_forall₂ hcarried fun write hmem flow hc =>
    (keepsUpdates_iff turn hplans hrecords hmarkers hmem hc).symm
  simp only [commitAnswers_eq]
  rw [Runs.forall_perm_foldl_lastWriter_iff (P := turn.KeepsUpdates), hseparate, ← keptBy_all_iff, hall]
  · constructor
    · intro h flow hflow
      obtain ⟨answer, hmem, hw⟩ := List.mem_filterMap.mp hflow
      exact h answer hmem flow hw
    · intro h answer hmem flow hw
      exact h flow (List.mem_filterMap.mpr ⟨answer, hmem, hw⟩)
  · intro hnone
    have hempty : turn.answers.filterMap (·.command.flow) = [] := List.filterMap_eq_nil_iff.mpr hnone
    rw [hempty, List.forall₂_nil_right_iff] at hcarried
    subst hcarried
    refine ⟨?_, fun h => absurd hplans h, fun h => absurd hmarkers h⟩
    rw [show turn.records = [] from hrecords, List.append_nil]

end CognitiveTurn

def draftingFlow : CognitiveFlow where
  phaseName := "draft"
  ioSpecs := []
  printer := plainPrinter
  validateFinishArgs _ := .ok (.passed [∅])

def planAndLog : CognitiveTurn draftingFlow where
  state := ⟨∅, {}, [.ai (some "turn-1") (.str "") []]⟩
  gate := none
  calls :=
    [("call-1", .updateWorkingMemory (Dict.single "plan" (.str "outline, then write"))),
     ("call-2", .logAmbiguity (Dict.single "question" (.str "which tense?")) "2026-08-15T10:19:55+00:00")]
  nextGate := none
  answers :=
    [{ command := draftingFlow.handleUpdateWorkingMemory (Dict.single "plan" (.str "outline, then write"))
         ⟨∅, {}, [.ai (some "turn-1") (.str "") []]⟩ "call-1" },
     { command := draftingFlow.handleLogAmbiguity (Dict.single "question" (.str "which tense?"))
         "2026-08-15T10:19:55+00:00" ⟨∅, {}, [.ai (some "turn-1") (.str "") []]⟩ "call-2" }]
  handled := rfl

theorem plan_lost_beside_a_log : ¬ ∀ order, order.Perm planAndLog.answers →
    planAndLog.KeepsUpdates (commitAnswers planAndLog.state.flow order) := by
  intro h
  obtain ⟨plan, -, hplan⟩ := (h _ (List.Perm.refl _)).plan (List.cons_ne_nil _ _)
  have hlost : recordedPlan (commitAnswers planAndLog.state.flow planAndLog.answers) = none := rfl
  rw [hlost] at hplan
  cases hplan

end GraphSkillRuntime
