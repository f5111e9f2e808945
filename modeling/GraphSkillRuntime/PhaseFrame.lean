import GraphSkillRuntime.Iterate

namespace GraphSkillRuntime

open OrderedDict

/-! What one phase delta does to the blackboard. -/

def phaseOutputAt (data : BusinessData) (phaseId : String) : Option Value :=
  (dictAt data "phase_outputs").bind (·.get? phaseId)

theorem phaseOutputAt_single (k q : String) (v : Value) :
    phaseOutputAt (Dict.single "phase_outputs" (.ofDict (Dict.single k v))) q = if k = q then some v else none := by
  rw [phaseOutputAt, dictAt, Dict.get?_single, if_pos rfl, Option.bind_some, Value.asDict?_ofDict, Option.bind_some,
    Dict.get?_single]

theorem find_some_mem {κ ν : Type} [DecidableEq κ] {es : List (κ × ν)} {k : κ} {v : ν}
    (h : Dict.find es k = some v) : (k, v) ∈ es := by
  induction es with
  | nil => simp [Dict.find] at h
  | cons e es ih =>
    simp only [Dict.find] at h
    split_ifs at h with hk
    · obtain rfl := Option.some.inj h
      exact List.mem_cons.mpr (Or.inl (Prod.ext hk.symm rfl))
    · exact List.mem_cons_of_mem e (ih h)

theorem sizeOf_get?_ofList {kvs : List (String × Value)} {k : String} {v : Value}
    (h : (Dict.ofList kvs).get? k = some v) : sizeOf v < sizeOf (Value.dict kvs) := by
  rw [Dict.get?_ofList] at h
  have hm : (k, v) ∈ kvs := List.mem_reverse.mp (find_some_mem h)
  have hlt := List.sizeOf_lt_of_mem hm
  have hpair : sizeOf (k, v) = 1 + sizeOf k + sizeOf v := rfl
  have hdict : sizeOf (Value.dict kvs) = 1 + sizeOf kvs := by simp
  omega

theorem sizeOf_get? {d : Dict String Value} {k : String} {v : Value} (h : d.get? k = some v) :
    sizeOf v < sizeOf (Value.ofDict d) := by
  apply sizeOf_get?_ofList (k := k)
  rwa [Dict.ofList_entries]

theorem sizeOf_asDict? {w v : Value} {d : Dict String Value} {k : String} (hd : w.asDict? = some d)
    (h : d.get? k = some v) : sizeOf v < sizeOf w := by
  cases w with
  | dict kvs =>
    obtain rfl := Option.some.inj hd
    exact sizeOf_get?_ofList h
  | _ => simp [Value.asDict?] at hd

theorem sizeOf_phaseOutputAt {data : BusinessData} {phaseId : String} {v w : Value}
    (hw : data.get? "phase_outputs" = some w) (h : phaseOutputAt data phaseId = some v) :
    sizeOf v < sizeOf w := by
  simp only [phaseOutputAt, dictAt, hw, Option.bind_some] at h
  obtain ⟨d, hd, hv⟩ := Option.bind_eq_some_iff.mp h
  exact sizeOf_asDict? hd hv

@[simp] theorem get?_phaseDataDelta (phaseId : String) (outputs : Dict String Value) (k : String) :
    (phaseDataDelta phaseId outputs).get? k =
      if "phase_outputs" = k then some (.ofDict (Dict.single phaseId (.ofDict outputs)))
      else outputs.get? k := Dict.get?_set _ _ _ _

theorem get?_mergePhaseOutputs (merged : BusinessData) (delta : Dict String Value) (k : String) :
    (mergePhaseOutputs merged delta).get? k =
      if "phase_outputs" = k then
        some (.ofDict (((dictAt merged "phase_outputs").getD ∅).update delta))
      else merged.get? k := Dict.get?_set _ _ _ _

theorem phaseOutputAt_mergePhaseOutputs (merged : BusinessData) (delta : Dict String Value) (q : String) :
    phaseOutputAt (mergePhaseOutputs merged delta) q = (delta.get? q).or (phaseOutputAt merged q) := by
  simp only [phaseOutputAt, dictAt, get?_mergePhaseOutputs, ↓reduceIte, Option.bind_some,
    Value.asDict?_ofDict, Dict.get?_update]
  cases (merged.get? "phase_outputs").bind Value.asDict? <;> simp

theorem mergeBusinessChannel_congr (current : BusinessData) {d e : Dict String Value} (h : d.Same e) :
    (mergeBusinessChannel current (.delta d)).Same (mergeBusinessChannel current (.delta e)) := by
  have hat : ∀ k, dictAt d k = dictAt e k := fun k => by rw [dictAt, dictAt, h k]
  have hc : ∀ k, d.contains k = e.contains k := fun k => by rw [Dict.contains, Dict.contains, h k]
  intro k
  simp only [mergeBusinessChannel, hc, hat]
  by_cases hi : e.contains "inputs" = true
  · simp only [hi, ↓reduceIte, coerceBusinessData, hc, hat, Bool.true_or]
  · simp only [hi, Bool.false_eq_true, ↓reduceIte]
    have hm : (current.update (d.erase "phase_outputs")).Same
        (current.update (e.erase "phase_outputs")) := by
      intro j
      simp only [Dict.get?_update, Dict.get?_erase, h j]
    cases dictAt e "phase_outputs" with
    | none => exact hm k
    | some delta =>
      simp only [get?_mergePhaseOutputs, hm k, dictAt, hm "phase_outputs"]

section

variable {phaseId : String} {outputs : Dict String Value} {current : BusinessData}

theorem dictAt_phaseDataDelta : dictAt (phaseDataDelta phaseId outputs) "phase_outputs" =
    some (Dict.single phaseId (Value.ofDict outputs)) := by
  simp [dictAt]

theorem get?_merge_phaseDataDelta (h : outputs.get? "inputs" = none) {k : String}
    (hk : k ≠ "phase_outputs") :
    (mergeBusinessChannel current (.delta (phaseDataDelta phaseId outputs))).get? k =
      (outputs.get? k).or (current.get? k) := by
  have hin : (phaseDataDelta phaseId outputs).contains "inputs" = false := by
    simp [Dict.contains, h]
  simp only [mergeBusinessChannel, hin, Bool.false_eq_true, ↓reduceIte, dictAt_phaseDataDelta,
    get?_mergePhaseOutputs, hk.symm, Dict.get?_update, Dict.get?_erase, hk, get?_phaseDataDelta]

theorem phaseOutputAt_merge_phaseDataDelta (h : outputs.get? "inputs" = none) (q : String) :
    phaseOutputAt (mergeBusinessChannel current (.delta (phaseDataDelta phaseId outputs))) q =
      if phaseId = q then some (.ofDict outputs) else phaseOutputAt current q := by
  have hin : (phaseDataDelta phaseId outputs).contains "inputs" = false := by
    simp [Dict.contains, h]
  have hkeep : phaseOutputAt (current.update ((phaseDataDelta phaseId outputs).erase "phase_outputs")) q =
      phaseOutputAt current q := by
    simp [phaseOutputAt, dictAt]
  simp only [mergeBusinessChannel, hin, Bool.false_eq_true, ↓reduceIte, dictAt_phaseDataDelta,
    phaseOutputAt_mergePhaseOutputs, hkeep, Dict.get?_single]
  split_ifs <;> simp

theorem get?_merge_phaseDataDelta_inputs {v : Value} (h : outputs.get? "inputs" = some v) (k : String) :
    (mergeBusinessChannel current (.delta (phaseDataDelta phaseId outputs))).get? k =
      (outputs.get? k).or ((v.asDict?.getD ∅).get? k) := by
  have hin : (phaseDataDelta phaseId outputs).contains "inputs" = true := by
    simp [Dict.contains, h]
  have hat : dictAt (phaseDataDelta phaseId outputs) "inputs" = v.asDict? := by
    simp [dictAt, h]
  have hone : (Dict.single phaseId (Value.ofDict outputs)).entries =
      [(phaseId, Value.ofDict outputs)] := rfl
  simp only [mergeBusinessChannel, hin, ↓reduceIte, coerceBusinessData, Bool.true_or, hat,
    dictAt_phaseDataDelta, hone, List.filterMap_cons, Value.asDict?_ofDict, List.filterMap_nil,
    List.foldl_cons, List.foldl_nil, Dict.get?_update]

end

/-- The frame of a phase step: the declared fields the payload carries are written, the phase's own
entry records the payload, and nothing else moves. -/
structure PhaseFrame (phaseId : String) (declared : List String) (payload : Dict String Value)
    (before after : BusinessData) : Prop where
  written : ∀ k ∈ declared, ∀ v, payload.get? k = some v → after.get? k = some v
  recorded : phaseOutputAt after phaseId = some (.ofDict payload)
  kept : ∀ k, k ≠ "phase_outputs" → (k ∉ declared ∨ payload.get? k = none) →
    after.get? k = before.get? k
  others : ∀ q, q ≠ phaseId → phaseOutputAt after q = phaseOutputAt before q

structure FrameSafe (declared : List String) (payload : Dict String Value) (before : BusinessData) :
    Prop where
  no_inputs : payload.get? "inputs" = none
  no_phase_outputs : "phase_outputs" ∈ declared → payload.get? "phase_outputs" = none
  carried : ∀ k v, k ≠ "phase_outputs" → payload.get? k = some v →
    k ∈ declared ∨ before.get? k = some v

theorem phaseFrame_congr {phaseId : String} {declared : List String} {payload : Dict String Value}
    {before after after' : BusinessData} (h : after.Same after') :
    PhaseFrame phaseId declared payload before after ↔
      PhaseFrame phaseId declared payload before after' := by
  have hat : ∀ q, phaseOutputAt after q = phaseOutputAt after' q := fun q => by
    rw [phaseOutputAt, phaseOutputAt, dictAt, dictAt, h]
  constructor
  · intro f
    refine ⟨fun k hk v hv => ?_, ?_, fun k hk hd => ?_, fun q hq => ?_⟩
    · rw [← h k]; exact f.written k hk v hv
    · rw [← hat]; exact f.recorded
    · rw [← h k]; exact f.kept k hk hd
    · rw [← hat]; exact f.others q hq
  · intro f
    refine ⟨fun k hk v hv => ?_, ?_, fun k hk hd => ?_, fun q hq => ?_⟩
    · rw [h k]; exact f.written k hk v hv
    · rw [hat]; exact f.recorded
    · rw [h k]; exact f.kept k hk hd
    · rw [hat]; exact f.others q hq

section

variable {phaseId : String} {declared : List String} {payload : Dict String Value}
variable {before : BusinessData}

theorem FrameSafe.phaseFrame (h : FrameSafe declared payload before) :
    PhaseFrame phaseId declared payload before
      (mergeBusinessChannel before (.delta (phaseDataDelta phaseId payload))) where
  written k hk v hv := by
    have hne : k ≠ "phase_outputs" := by
      rintro rfl
      simp [h.no_phase_outputs hk] at hv
    rw [get?_merge_phaseDataDelta h.no_inputs hne, hv, Option.some_or]
  recorded := by rw [phaseOutputAt_merge_phaseDataDelta h.no_inputs, if_pos rfl]
  kept k hk hd := by
    rw [get?_merge_phaseDataDelta h.no_inputs hk]
    cases hv : payload.get? k with
    | none => exact Option.none_or
    | some v =>
      have hnd : k ∉ declared := by
        rcases hd with hd | hd
        · exact hd
        · simp [hv] at hd
      rcases h.carried k v hk hv with hk' | hb
      · exact absurd hk' hnd
      · rw [hb, Option.some_or]
  others q hq := by rw [phaseOutputAt_merge_phaseDataDelta h.no_inputs, if_neg (Ne.symm hq)]

theorem PhaseFrame.no_inputs
    (h : PhaseFrame phaseId declared payload before
      (mergeBusinessChannel before (.delta (phaseDataDelta phaseId payload)))) :
    payload.get? "inputs" = none := by
  cases hin : payload.get? "inputs" with
  | none => rfl
  | some v =>
    exfalso
    have hget : (mergeBusinessChannel before (.delta (phaseDataDelta phaseId payload))).get?
        "phase_outputs" = _ := get?_merge_phaseDataDelta_inputs hin "phase_outputs"
    have hrec := h.recorded
    -- the entry holds the whole payload, and nothing of that size fits into one of its fields
    cases hpo : payload.get? "phase_outputs" with
    | some w =>
      rw [hpo, Option.some_or] at hget
      have h1 := sizeOf_phaseOutputAt hget hrec
      have h2 := sizeOf_get? hpo
      omega
    | none =>
      rw [hpo, Option.none_or] at hget
      cases hv : v.asDict? with
      | none => simp [phaseOutputAt, dictAt, hget, hv] at hrec
      | some d =>
        rw [hv, Option.getD_some] at hget
        cases hd : d.get? "phase_outputs" with
        | none => simp [phaseOutputAt, dictAt, hget, hd] at hrec
        | some w =>
          rw [hd] at hget
          have h1 := sizeOf_phaseOutputAt hget hrec
          have h2 := sizeOf_asDict? hv hd
          have h3 := sizeOf_get? hin
          omega

theorem PhaseFrame.no_phase_outputs
    (h : PhaseFrame phaseId declared payload before
      (mergeBusinessChannel before (.delta (phaseDataDelta phaseId payload))))
    (hd : "phase_outputs" ∈ declared) : payload.get? "phase_outputs" = none := by
  cases hpo : payload.get? "phase_outputs" with
  | none => rfl
  | some w =>
    exfalso
    have hget := h.written _ hd w hpo
    have h1 := sizeOf_phaseOutputAt hget h.recorded
    have h2 := sizeOf_get? hpo
    omega

theorem PhaseFrame.frameSafe
    (h : PhaseFrame phaseId declared payload before
      (mergeBusinessChannel before (.delta (phaseDataDelta phaseId payload)))) :
    FrameSafe declared payload before where
  no_inputs := h.no_inputs
  no_phase_outputs := h.no_phase_outputs
  carried k v hk hv := by
    by_cases hd : k ∈ declared
    · exact Or.inl hd
    · right
      have hkept := h.kept k hk (Or.inl hd)
      rw [get?_merge_phaseDataDelta h.no_inputs hk, hv, Option.some_or] at hkept
      exact hkept.symm

theorem phaseFrame_phaseDataDelta_iff :
    PhaseFrame phaseId declared payload before
      (mergeBusinessChannel before (.delta (phaseDataDelta phaseId payload))) ↔
      FrameSafe declared payload before :=
  ⟨PhaseFrame.frameSafe, FrameSafe.phaseFrame⟩

theorem phaseOutputsDelta_single (ids : Dict String (List String)) :
    (phaseOutputsDelta (Dict.single phaseId payload) ids).data.Same (phaseDataDelta phaseId payload) := by
  intro k
  have hmap : (Dict.single phaseId payload).mapValues (fun _ o => Value.ofDict o) =
      Dict.single phaseId (Value.ofDict payload) := rfl
  have hfold : (((Dict.single phaseId payload).entries.map Prod.snd).foldl Dict.update ∅).get? k =
      payload.get? k := by
    simp [Dict.single]
  simp only [phaseOutputsDelta, hmap, Dict.get?_set, hfold, get?_phaseDataDelta]

theorem phaseFrame_phaseOutputsDelta_iff (ids : Dict String (List String)) :
    PhaseFrame phaseId declared payload before
      (mergeBusinessChannel before
        (.delta (phaseOutputsDelta (Dict.single phaseId payload) ids).data)) ↔
      FrameSafe declared payload before := by
  rw [phaseFrame_congr (mergeBusinessChannel_congr before (phaseOutputsDelta_single ids))]
  exact phaseFrame_phaseDataDelta_iff

end

namespace StateMapper

/-- The mapping a node delivers: its own, opened from the wrapper shape, or the author validator's
replacement for it. -/
def delivered (m : StateMapper) (hooks : PhaseHooks) (before : BusinessData) (result : NodeResult) :
    Dict String Value :=
  let flat := flatUpdates m.outputSchema m.phaseId (m.updatesOf before result)
  match result, hooks.validator with
  | .notMapping, _ => ∅
  | _, none => flat
  | _, some validator =>
    match validator flat hooks.stateSlice m.phaseId with
    | .ok (.dict kvs) => Dict.ofList kvs
    | _ => flat

variable {V : Draft202012} {m : StateMapper} {hooks : PhaseHooks}

theorem runPhaseValidator_ok {validator : PhaseValidator} {output slice outputs : Dict String Value}
    {phaseId code : String} {schema : Option Schema} {hook : Option (String → String → Bool)}
    (h : runPhaseValidator V validator output slice phaseId schema code hook = .ok outputs) :
    outputs = match validator output slice phaseId with
      | .ok (.dict kvs) => Dict.ofList kvs
      | _ => output := by
  unfold runPhaseValidator at h
  cases hv : validator output slice phaseId with
  | error raised =>
    simp only [hv] at h
    split_ifs at h
    exact (Except.ok.inj h).symm
  | ok value =>
    cases value with
    | null =>
      simp only [hv] at h
      exact (Except.ok.inj h).symm
    | dict kvs =>
      simp only [hv] at h
      obtain ⟨_, _, h⟩ := bind_ok h
      exact (Except.ok.inj h).symm
    | _ => simp [hv] at h

theorem acceptUpdates_ok {updates outputs : Dict String Value}
    (h : m.acceptUpdates V hooks updates = .ok outputs) :
    m.validatedOutputs V hooks (flatUpdates m.outputSchema m.phaseId updates) = .ok outputs ∧
      validatePhaseUpdatesAgainstSchema V (flatUpdates m.outputSchema m.phaseId updates)
        m.outputSchema mappingFailed m.phaseId = .ok () ∧
      refuseFrameworkKeys outputs = .ok () := by
  unfold acceptUpdates at h
  obtain ⟨_, hs, h⟩ := bind_ok h
  obtain ⟨o, ho, h⟩ := bind_ok h
  obtain ⟨_, hr, h⟩ := bind_ok h
  obtain rfl := Except.ok.inj h
  exact ⟨ho, hs, hr⟩

theorem wrapPhaseOutput_ok {state : WorkflowState} {result : NodeResult} {delta : PhaseDelta}
    (h : m.wrapPhaseOutput V hooks state result = .ok delta) (hr : result ≠ .notMapping) :
    ∃ outputs, m.acceptUpdates V hooks (m.updatesOf state.data result) = .ok outputs ∧
      delta.data = phaseDataDelta m.phaseId outputs := by
  cases result with
  | notMapping => exact absurd rfl hr
  | workflowState after =>
    obtain ⟨outputs, ho, h⟩ := bind_ok h
    obtain rfl := Except.ok.inj h
    exact ⟨outputs, ho, rfl⟩
  | updates data fields flow messages =>
    obtain ⟨outputs, ho, h⟩ := bind_ok h
    obtain rfl := Except.ok.inj h
    exact ⟨outputs, ho, rfl⟩

theorem wrapPhaseOutput_delivered {state : WorkflowState} {result : NodeResult} {delta : PhaseDelta}
    (h : m.wrapPhaseOutput V hooks state result = .ok delta) :
    delta.data = phaseDataDelta m.phaseId (m.delivered hooks state.data result) := by
  by_cases hr : result = .notMapping
  · subst hr
    obtain rfl := Except.ok.inj h
    rfl
  · obtain ⟨outputs, ho, hd⟩ := wrapPhaseOutput_ok h hr
    obtain ⟨hv, -, -⟩ := acceptUpdates_ok ho
    have hout : outputs = m.delivered hooks state.data result := by
      unfold validatedOutputs at hv
      cases result with
      | notMapping => exact absurd rfl hr
      | _ =>
        cases hval : hooks.validator with
        | none =>
          simp only [hval] at hv
          simp only [delivered, hval]
          exact (Except.ok.inj hv).symm
        | some validator =>
          simp only [hval] at hv
          simp only [delivered, hval]
          exact runPhaseValidator_ok hv
    rw [hd, hout]

end StateMapper

def declaredOutputKeys (iterate : Option IterateSpec) (outputSchema : Option Schema) : List String :=
  match iterate.map IterateSpec.mode with
  | some (.loop accumulate) => [accumulate.var]
  | _ => schemaProperties outputSchema

theorem phaseStep_frame_iff (V : Draft202012) :
    (∀ (m : StateMapper) (hooks : PhaseHooks) (state : WorkflowState) (result : NodeResult)
      (delta : PhaseDelta) (current : BusinessData),
      m.wrapPhaseOutput V hooks state result = .ok delta →
      (PhaseFrame m.phaseId (declaredOutputKeys none m.outputSchema)
          (m.delivered hooks state.data result) current
          (mergeBusinessChannel current (.delta delta.data)) ↔
        FrameSafe (declaredOutputKeys none m.outputSchema)
          (m.delivered hooks state.data result) current)) ∧
    (∀ (phaseId : String) (iterate : IterateSpec) (outputSchema : Option Schema)
      (payload : Dict String Value) (ids : Dict String (List String)) (current : BusinessData),
      PhaseFrame phaseId (declaredOutputKeys (some iterate) outputSchema) payload current
          (mergeBusinessChannel current
            (.delta (phaseOutputsDelta (Dict.single phaseId payload) ids).data)) ↔
        FrameSafe (declaredOutputKeys (some iterate) outputSchema) payload current) := by
  constructor
  · intro m hooks state result delta current h
    rw [StateMapper.wrapPhaseOutput_delivered h]
    exact phaseFrame_phaseDataDelta_iff
  · intro phaseId iterate outputSchema payload ids current
    exact phaseFrame_phaseOutputsDelta_iff ids

def acceptingValidator : Draft202012 where
  checkSchema _ := none
  iterErrors _ _ := []
  bestMatch _ _ := ""

def draftMapper : StateMapper where
  inputSchema := none
  outputSchema := some (Dict.ofList [("type", .str "object"),
    ("properties", .dict [("draft", .dict [("type", .str "string")])])])
  phaseId := "write"

def draftState : WorkflowState where
  data := Dict.ofList [("topic", .str "tides"), ("draft", .str "")]
  flow := {}
  messages := []

def draftResult : NodeResult := .updates (some (.dict [("draft", .str "text")])) ∅ none []

theorem phaseStep_frame_draft :
    ∃ delta, draftMapper.wrapPhaseOutput acceptingValidator {} draftState draftResult = .ok delta ∧
      PhaseFrame "write" ["draft"] (Dict.single "draft" (.str "text")) draftState.data
        (mergeBusinessChannel draftState.data (.delta delta.data)) := by
  refine ⟨_, rfl, ?_⟩
  refine ((phaseStep_frame_iff acceptingValidator).1 draftMapper {} draftState draftResult _
    draftState.data rfl).mpr ⟨by decide, by decide, ?_⟩
  intro k v _ hv
  left
  change (Dict.single "draft" (Value.str "text")).get? k = some v at hv
  change k ∈ ["draft"]
  by_cases hk : "draft" = k
  · simp [hk]
  · simp [hk] at hv

def inputsLoop : IterateSpec where
  mode := .loop { var := "inputs", init := .list [], from_ := "piece", merge := .append }
  overField := "chapters"
  itemVar := "chapter"

def pieceSchema : Schema := Dict.ofList [("type", .str "object"),
  ("properties", .dict [("piece", .dict [("type", .str "string")])])]

def pieceNode : IndexedNode := fun _ _ => .ok
  { data := phaseDataDelta "loop" (Dict.single "piece" (.str "summary"))
    flow := {}
    messages := [] }

def chaptersState : WorkflowState where
  data := Dict.ofList [("chapters", .list [.str "one"]), ("topic", .str "tides")]
  flow := {}
  messages := []

theorem loop_accumulator_named_inputs_breaks_frame :
    validateInlineIoSchema acceptingValidator pieceSchema .output .agent = .ok pieceSchema ∧
    ∃ delta, iteratePhase pieceNode "loop" inputsLoop (some pieceSchema) chaptersState = .ok delta ∧
      ¬ PhaseFrame "loop" (declaredOutputKeys (some inputsLoop) (some pieceSchema))
        (Dict.single "inputs" (.list [.str "summary"])) chaptersState.data
        (mergeBusinessChannel chaptersState.data (.delta delta.data)) := by
  refine ⟨rfl, _, rfl, ?_⟩
  intro h
  have hkept := h.kept "topic" (by decide) (Or.inl (by decide))
  revert hkept
  decide

end GraphSkillRuntime
