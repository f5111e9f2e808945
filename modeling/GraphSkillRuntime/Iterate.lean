import GraphSkillRuntime.StateMapper

namespace GraphSkillRuntime

open OrderedDict

inductive MergeMode where
  | append
  | extend
  | merge
  | replace
  deriving DecidableEq

structure IterateAccumulateSpec where
  var : String
  init : Value
  from_ : String
  merge : MergeMode

inductive IterateMode where
  | batch
  | loop (accumulate : IterateAccumulateSpec)

structure IterateSpec where
  mode : IterateMode
  overField : String
  itemVar : String
  range : Option {r : Int × Int // r.1 ≤ r.2} := none
  concurrency : {n : Nat // 1 ≤ n} := ⟨1, Nat.one_pos⟩

def iterateMergeFatal {α : Type} (message : String) : Except MapperError α :=
  .error (.fatal message mappingFailed none none)

/-- `BusinessData.get`: the three reserved aliases answer with mappings, whatever is stored. -/
def businessGet (data : BusinessData) (key : String) : Option Value :=
  if key = "phase_outputs" then some (.ofDict ((dictAt data "phase_outputs").getD ∅))
  else if key = "inputs" then some (.ofDict data)
  else if key = "scratch" then some (.dict [])
  else data.get? key

def resolveIterateItems (state : WorkflowState) (fieldName : String) : Except MapperError (List Value) :=
  match businessGet state.data fieldName with
  | some (.list items) => .ok items
  | _ => .error (.fatal ("iterate over field '" ++ fieldName ++ "' must resolve to list")
      "[F-v3-iterate-over-not-list]" none (some fieldName))

def applyIterateRange (items : List Value) : Option {r : Int × Int // r.1 ≤ r.2} → List Value
  | none => items
  | some ⟨(start, stop), _⟩ =>
    let startIndex := (max start 1 - 1).toNat
    let stopIndex := if stop < 0 then items.length - (-stop).toNat else stop.toNat
    (items.take stopIndex).drop startIndex

def fieldChanged (before : Dict String Value) (k : String) (v : Value) : Bool :=
  match before.get? k with
  | some b => !(b == v)
  | none => true

def dictDelta (before after : Dict String Value) : Dict String Value := after.filter (fieldChanged before)

@[simp] theorem get?_dictDelta (before after : Dict String Value) (k : String) :
    (dictDelta before after).get? k = (after.get? k).filter (fieldChanged before k) :=
  Dict.get?_filter _ _ _

def schemaOutputKeys (schema : Option Schema) : Option (List String) :=
  match schema.bind (·.get? "properties") with
  | none => none
  | some (.dict properties) => some (Dict.ofList properties).keys
  | some _ => some []

def phaseResultPayload (before : WorkflowState) (result : DataUpdate) (outputKeys : Option (List String)) :
    Dict String Value :=
  match result, outputKeys with
  | .delta data, none => data.erase "phase_outputs"
  | .delta data, some keys => (data.erase "phase_outputs").restrict (· ∈ keys)
  | .full data, none => (dictDelta before.data data).erase "phase_outputs"
  | .full data, some keys => data.restrict (· ∈ keys)

def phaseOutputsDelta (phaseOutputs : Dict String (Dict String Value))
    (phaseExecutionIds : Dict String (List String)) : PhaseDelta where
  data := ((phaseOutputs.entries.map Prod.snd).foldl Dict.update ∅).set "phase_outputs"
    (.ofDict (phaseOutputs.mapValues (fun _ payload => .ofDict payload)))
  flow := { phaseExecutionIds := some phaseExecutionIds }
  messages := []

def terminalPhaseOutputs (phaseIds : List String) (payload : Dict String Value) :
    Dict String (Dict String Value) :=
  match phaseIds with
  | [] => Dict.single "output" payload
  | phaseIds => Dict.ofList (phaseIds.map (fun phaseId => (phaseId, payload)))

def liftUpdateError {α : Type} : Except UpdateError α → Except MapperError α
  | .ok a => .ok a
  | .error (.valueError detail) => .error (.valueError detail)
  | .error (.typeError detail) => .error (.typeError detail)

theorem liftUpdateError_ok {α : Type} {r : Except UpdateError α} {a : α} (h : liftUpdateError r = .ok a) :
    r = .ok a := by
  cases r with
  | ok b => exact congrArg Except.ok (Except.ok.inj h)
  | error e => cases e <;> cases h

theorem updated_of_ok {state t : WorkflowState} {fields : Dict String Value}
    (h : liftUpdateError (updateBusiness state fields) = .ok t) :
    (∀ k ∈ fields.keys, settable k = true) ∧ t = { state with data := state.data.update fields } :=
  updateBusiness_ok_iff.mp (liftUpdateError_ok h)

def withPhaseOutputs (state : WorkflowState) (phaseOutputs : Dict String (Dict String Value)) :
    Except MapperError WorkflowState :=
  let mergedOutputs := ((dictAt state.data "phase_outputs").getD ∅).update
    (phaseOutputs.mapValues (fun _ payload => .ofDict payload))
  let dataUpdates := (phaseOutputs.entries.map Prod.snd).foldl Dict.update ∅
  liftUpdateError (updateBusiness state (dataUpdates.set "phase_outputs" (.ofDict mergedOutputs)))

def mergeAccumulator (current piece : Value) : MergeMode → Except MapperError Value
  | .append =>
    match current with
    | .list xs => .ok (.list (xs ++ [piece]))
    | _ => iterateMergeFatal "append accumulator must be a list"
  | .extend =>
    match current, piece with
    | .list xs, .list ys => .ok (.list (xs ++ ys))
    | _, _ => iterateMergeFatal "extend accumulator and piece must be lists"
  | .merge =>
    match current, piece with
    | .dict xs, .dict ys => .ok (.ofDict ((Dict.ofList xs).update (Dict.ofList ys)))
    | _, _ => iterateMergeFatal "merge accumulator and piece must be objects"
  | .replace => .ok piece

def iterationNamespace (index : Nat) : String := "iter" ++ toString index

def emptyBatchPayload (outputKeys : Option (List String)) : Dict String Value :=
  Dict.ofList ((outputKeys.getD []).map (fun key => (key, .list [])))

def appendPayload (aggregated : Dict String (List Value)) (payload : Dict String Value) :
    Dict String (List Value) :=
  payload.entries.foldl (fun acc e => acc.set e.1 ((acc.get? e.1).getD [] ++ [e.2])) aggregated

def aggregateBatchPayloads (itemPayloads : List (Dict String Value)) : Dict String Value :=
  (itemPayloads.foldl appendPayload ∅).mapValues (fun _ values => .list values)

section

abbrev IndexedNode := Nat → WorkflowState → Except MapperError PhaseDelta

variable (node : IndexedNode)

def batchItem (base : WorkflowState) (itemVar : String) (outputKeys : Option (List String))
    (phaseId : String) (index : Nat) (item : Value) :
    Except MapperError (Dict String Value × List String) := do
  let child ← liftUpdateError (updateBusiness base (Dict.single itemVar item))
  let result ← node index child
  let executions := (result.flow.phaseExecutionIds.bind (·.get? phaseId)).getD []
  return (phaseResultPayload child (.delta result.data) outputKeys, executions)

def batchItems (base : WorkflowState) (itemVar : String) (outputKeys : Option (List String))
    (phaseId : String) : Nat → List Value → Except MapperError (List (Dict String Value × List String))
  | _, [] => .ok []
  | index, item :: items => do
    let first ← batchItem node base itemVar outputKeys phaseId index item
    let rest ← batchItems base itemVar outputKeys phaseId (index + 1) items
    return first :: rest

def batchPhase (phaseId : String) (iterate : IterateSpec) (outputSchema : Option Schema)
    (state : WorkflowState) : Except MapperError PhaseDelta := do
  let outputKeys := schemaOutputKeys outputSchema
  let items ← resolveIterateItems state iterate.overField
  let results ← batchItems node state iterate.itemVar outputKeys phaseId 1
    (applyIterateRange items iterate.range)
  let payload :=
    if results.isEmpty then emptyBatchPayload outputKeys
    else aggregateBatchPayloads (results.map Prod.fst)
  return phaseOutputsDelta (Dict.single phaseId payload)
    (Dict.single phaseId (results.flatMap Prod.snd))

structure LoopRound where
  acc : Value
  loopState : WorkflowState
  executions : List String

def loopRound (phaseId : String) (iterate : IterateSpec) (accumulate : IterateAccumulateSpec)
    (outputKeys : Option (List String)) (index : Nat) (item : Value) (r : LoopRound) :
    Except MapperError LoopRound := do
  let child ← liftUpdateError (updateBusiness r.loopState
    ((Dict.single iterate.itemVar item).set accumulate.var r.acc))
  let result ← node index child
  let payload := phaseResultPayload child (.delta result.data) outputKeys
  match payload.get? accumulate.from_ with
  | none => iterateMergeFatal ("loop iterate output missing accumulate.from '" ++ accumulate.from_ ++ "'")
  | some piece =>
    let acc ← mergeAccumulator r.acc piece accumulate.merge
    let loopState ← liftUpdateError (updateBusiness r.loopState (Dict.single accumulate.var acc))
    return ⟨acc, loopState,
      r.executions ++ (result.flow.phaseExecutionIds.bind (·.get? phaseId)).getD []⟩

def loopRounds (phaseId : String) (iterate : IterateSpec) (accumulate : IterateAccumulateSpec)
    (outputKeys : Option (List String)) : Nat → List Value → LoopRound → Except MapperError LoopRound
  | _, [], r => .ok r
  | index, item :: items, r => do
    let next ← loopRound node phaseId iterate accumulate outputKeys index item r
    loopRounds phaseId iterate accumulate outputKeys (index + 1) items next

def loopPhase (phaseId : String) (iterate : IterateSpec) (accumulate : IterateAccumulateSpec)
    (outputSchema : Option Schema) (state : WorkflowState) : Except MapperError PhaseDelta := do
  let items ← resolveIterateItems state iterate.overField
  let loopState ← liftUpdateError (updateBusiness state (Dict.single accumulate.var accumulate.init))
  let last ← loopRounds node phaseId iterate accumulate (schemaOutputKeys outputSchema) 1
    (applyIterateRange items iterate.range) ⟨accumulate.init, loopState, []⟩
  return phaseOutputsDelta (Dict.single phaseId (Dict.single accumulate.var last.acc))
    (Dict.single phaseId last.executions)

def iteratePhase (phaseId : String) (iterate : IterateSpec) (outputSchema : Option Schema)
    (state : WorkflowState) : Except MapperError PhaseDelta :=
  match iterate.mode with
  | .batch => batchPhase node phaseId iterate outputSchema state
  | .loop accumulate => loopPhase node phaseId iterate accumulate outputSchema state

end

end GraphSkillRuntime
