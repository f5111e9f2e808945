import GraphSkillRuntime.PhaseFrame
import GraphSkillRuntime.PhaseWrapper

namespace GraphSkillRuntime

open OrderedDict

/-! What a parent graph records of a child graph's final blackboard. -/

def mergedPayloads (phaseOutputs : Dict String Value) : Dict String Value :=
  (phaseOutputs.entries.filterMap (fun e => e.2.asDict?)).foldl Dict.update ∅

def wrapperInputs (input final : BusinessData) : Dict String Value :=
  (((final.get? "inputs").filter (fieldChanged input "inputs")).bind Value.asDict?).getD ∅

def AllChanged (declared : List String) (input final : BusinessData) : Prop :=
  ∀ k ∈ declared, ∀ v, final.get? k = some v → fieldChanged input k v = true

def SomeChanged (declared : List String) (input final : BusinessData) : Prop :=
  ∃ k ∈ declared, ∃ v, final.get? k = some v ∧ fieldChanged input k v = true

def ChildAligned (declared : List String) (phaseId : String) (input final : BusinessData) : Prop :=
  let expected := final.restrict (· ∈ declared)
  match dictAt final "phase_outputs" with
  | some childOutputs =>
    match dictAt childOutputs phaseId with
    | some own =>
      (own.entries ≠ [] ∧ own.Same expected) ∨
        (own.entries = [] ∧ (wrapperInputs input final).Same expected)
    | none =>
      (declared ≠ [] ∧ SomeChanged declared input final ∧ AllChanged declared input final) ∨
        (declared ≠ [] ∧ ¬ SomeChanged declared input final ∧
          (wrapperInputs input final).Same expected) ∨
        (declared = [] ∧ (mergedPayloads childOutputs).entries = [] ∧
          (wrapperInputs input final).entries = [])
  | none =>
    (final.contains "phase_outputs" = true ∨ (dictDelta input final).contains "inputs" = true) ∧
        (wrapperInputs input final).Same expected ∨
      (final.contains "phase_outputs" = false ∧ (dictDelta input final).contains "inputs" = false ∧
        ∀ k v, final.get? k = some v → (k ∈ declared ↔ fieldChanged input k v = true))

section

variable {schema : Option Schema} {phaseId : String} {input final : BusinessData}

theorem get?_dictDelta_phaseOutputs (hin : input.get? "phase_outputs" = none) :
    (dictDelta input final).get? "phase_outputs" = final.get? "phase_outputs" := by
  rw [get?_dictDelta]
  cases final.get? "phase_outputs" <;> simp [fieldChanged, hin]

theorem restrict_dictDelta_same_iff (declared : List String) :
    ((dictDelta input final).restrict (· ∈ declared)).Same (final.restrict (· ∈ declared)) ↔
      AllChanged declared input final := by
  constructor
  · intro h k hk v hv
    have hk' := h k
    simp only [Dict.get?_restrict, get?_dictDelta, hk, decide_true, ↓reduceIte, hv] at hk'
    by_contra hc
    simp [hc] at hk'
  · intro h k
    simp only [Dict.get?_restrict, get?_dictDelta]
    by_cases hk : k ∈ declared
    · cases hv : final.get? k with
      | none => simp
      | some v => simp [hk, h k hk v hv]
    · simp [hk]

theorem restrict_dictDelta_empty_iff (declared : List String) :
    ((dictDelta input final).restrict (· ∈ declared)).entries = [] ↔
      ¬ SomeChanged declared input final := by
  rw [← Dict.same_empty_iff]
  constructor
  · rintro h ⟨k, hk, v, hv, hc⟩
    have hk' := h k
    simp [hk, hv, hc] at hk'
  · intro h k
    by_contra hne
    obtain ⟨v, hv⟩ := Option.ne_none_iff_exists'.mp hne
    simp only [Dict.get?_restrict, get?_dictDelta] at hv
    split_ifs at hv with hk
    obtain ⟨hf, hc⟩ := Option.filter_eq_some_iff.mp hv
    exact h ⟨k, by simpa using hk, v, hf, hc⟩

theorem wrapperInputs_eq :
    (dictAt (dictDelta input final) "inputs").getD ∅ = wrapperInputs input final := by
  rw [dictAt, get?_dictDelta]
  rfl

theorem contains_dictDelta_phaseOutputs (hin : input.get? "phase_outputs" = none) :
    (dictDelta input final).contains "phase_outputs" = final.contains "phase_outputs" := by
  rw [Dict.contains, get?_dictDelta_phaseOutputs hin, Dict.contains]

theorem dictDelta_same_iff (declared : List String) :
    (dictDelta input final).Same (final.restrict (· ∈ declared)) ↔
      ∀ k v, final.get? k = some v → (k ∈ declared ↔ fieldChanged input k v = true) := by
  constructor
  · intro h k v hv
    have hk := h k
    simp only [get?_dictDelta, Dict.get?_restrict, hv] at hk
    by_cases hd : k ∈ declared <;> by_cases hc : fieldChanged input k v = true <;> simp_all
  · intro h k
    simp only [get?_dictDelta, Dict.get?_restrict]
    cases hv : final.get? k with
    | none => simp
    | some v =>
      have hk := h k v hv
      by_cases hd : k ∈ declared
      · simp [hd, hk.mp hd]
      · have hc : ¬ fieldChanged input k v = true := fun hc => hd (hk.mpr hc)
        simp [hd, hc]

theorem orWrapper_same_iff (flat expected : Dict String Value) :
    (if flat.entries.isEmpty then (dictAt (dictDelta input final) "inputs").getD flat else flat).Same
        expected ↔
      (flat.entries ≠ [] ∧ flat.Same expected) ∨
        (flat.entries = [] ∧ (wrapperInputs input final).Same expected) := by
  by_cases he : flat.entries = []
  · have hflat : flat = ∅ := Dict.ext_entries he
    subst hflat
    rw [wrapperInputs_eq]
    simp [he]
  · simp [he]

theorem dictAt_dictDelta_phaseOutputs (hin : input.get? "phase_outputs" = none) :
    dictAt (dictDelta input final) "phase_outputs" = dictAt final "phase_outputs" := by
  rw [dictAt, get?_dictDelta_phaseOutputs hin, dictAt]

theorem flatUpdates_recorded_same_iff (hin : input.get? "phase_outputs" = none)
    {childOutputs : Dict String Value} (hco : dictAt final "phase_outputs" = some childOutputs) :
    (flatUpdates schema phaseId (dictDelta input final)).Same
        (final.restrict (· ∈ schemaProperties schema)) ↔
      ChildAligned (schemaProperties schema) phaseId input final := by
  have hfinal : final.contains "phase_outputs" = true := by
    rw [Dict.contains]
    obtain ⟨w, hw, -⟩ := Option.bind_eq_some_iff.mp hco
    simp [hw]
  unfold flatUpdates ChildAligned
  simp only [dictAt_dictDelta_phaseOutputs hin, contains_dictDelta_phaseOutputs hin, hco, hfinal,
    Bool.true_or, ↓reduceIte]
  cases dictAt childOutputs phaseId with
  | some own => exact orWrapper_same_iff own _
  | none =>
    rw [orWrapper_same_iff]
    cases hk : schemaProperties schema with
    | nil =>
      have hexp : (final.restrict (· ∈ ([] : List String))).Same ∅ := fun k => by simp
      have hmove : ∀ d : Dict String Value,
          d.Same (final.restrict (· ∈ ([] : List String))) ↔ d.entries = [] := fun d => by
        rw [← Dict.same_empty_iff]
        exact ⟨fun h => h.trans hexp, fun h => h.trans hexp.symm⟩
      simp only [hmove]
      simp [mergedPayloads]
    | cons key keys =>
      simp only
      rw [restrict_dictDelta_same_iff, Ne, restrict_dictDelta_empty_iff, not_not]
      simp

theorem flatUpdates_unrecorded_same_iff (hin : input.get? "phase_outputs" = none)
    (hco : dictAt final "phase_outputs" = none) :
    (flatUpdates schema phaseId (dictDelta input final)).Same
        (final.restrict (· ∈ schemaProperties schema)) ↔
      ChildAligned (schemaProperties schema) phaseId input final := by
  unfold flatUpdates ChildAligned
  simp only [dictAt_dictDelta_phaseOutputs hin, contains_dictDelta_phaseOutputs hin, hco]
  by_cases hcase : (final.contains "phase_outputs" || (dictDelta input final).contains "inputs") = true
  · have hor := Bool.or_eq_true_iff.mp hcase
    have hnot : ¬ (final.contains "phase_outputs" = false ∧
        (dictDelta input final).contains "inputs" = false ∧
        ∀ k v, final.get? k = some v →
          (k ∈ schemaProperties schema ↔ fieldChanged input k v = true)) := by
      rintro ⟨h1, h2, -⟩
      simp [h1, h2] at hor
    simp only [hcase, ↓reduceIte]
    rw [orWrapper_same_iff]
    constructor
    · rintro (⟨hne, -⟩ | ⟨-, h⟩)
      · exact absurd rfl hne
      · exact Or.inl ⟨hor, h⟩
    · rintro (⟨-, h⟩ | h)
      · exact Or.inr ⟨rfl, h⟩
      · exact absurd h hnot
  · obtain ⟨h1, h2⟩ := Bool.or_eq_false_iff.mp (Bool.not_eq_true _ ▸ hcase)
    simp only [hcase, Bool.false_eq_true, ↓reduceIte]
    rw [dictDelta_same_iff]
    simp [h1, h2]

theorem flatUpdates_dictDelta_same_iff (hin : input.get? "phase_outputs" = none) :
    (flatUpdates schema phaseId (dictDelta input final)).Same
        (final.restrict (· ∈ schemaProperties schema)) ↔
      ChildAligned (schemaProperties schema) phaseId input final := by
  cases hco : dictAt final "phase_outputs" with
  | some childOutputs => exact flatUpdates_recorded_same_iff hin hco
  | none => exact flatUpdates_unrecorded_same_iff hin hco

end

/-- What decides the entry: an author validator that replaces the outputs, else the child's state. -/
def SubgraphExact (w : PhaseWrapper) (input final : BusinessData) : Prop :=
  let declared := schemaProperties w.mapper.outputSchema
  match w.validator with
  | none => ChildAligned declared w.mapper.phaseId input final
  | some validator =>
    match validator (flatUpdates w.mapper.outputSchema w.mapper.phaseId (dictDelta input final)) input
        w.mapper.phaseId with
    | .ok (.dict kvs) => (Dict.ofList kvs).Same (final.restrict (· ∈ declared))
    | _ => ChildAligned declared w.mapper.phaseId input final

theorem selectDeclaredInputs_phaseOutputs (m : StateMapper) (state : WorkflowState) :
    (m.selectDeclaredInputs state).data.get? "phase_outputs" = none := by
  unfold StateMapper.selectDeclaredInputs filterRuntimeInputs
  cases schemaProperties m.inputSchema with
  | nil => simp
  | cons key keys => simp

theorem phaseOutputAt_phaseDataDelta (phaseId : String) (outputs : Dict String Value) :
    phaseOutputAt (phaseDataDelta phaseId outputs) phaseId = some (.ofDict outputs) := by
  simp [phaseOutputAt, dictAt]

theorem subgraph_outputs_exact_iff {w : PhaseWrapper} {V : Draft202012} {invoke : GraphRunner}
    {executionId : String} {state final : WorkflowState} {delta : PhaseDelta}
    (hchild : invoke (childState (w.mapper.selectDeclaredInputs state)) = .ok final)
    (h : w.wrap V (subgraphNode invoke) executionId state = .ok delta) :
    (∃ outputs, phaseOutputAt delta.data w.mapper.phaseId = some (.ofDict outputs) ∧
        outputs.Same (final.data.restrict (· ∈ schemaProperties w.mapper.outputSchema))) ↔
      SubgraphExact w (w.mapper.selectDeclaredInputs state).data final.data := by
  obtain ⟨-, result, hnode, hwrap⟩ := PhaseWrapper.wrap_ok h
  obtain ⟨final', hinv, rfl⟩ := subgraphNode_ok hnode
  obtain rfl : final = final' := Except.ok.inj (hchild.symm.trans hinv)
  rw [StateMapper.wrapPhaseOutput_delivered hwrap, phaseOutputAt_phaseDataDelta]
  have hflat : (flatUpdates w.mapper.outputSchema w.mapper.phaseId
      (dictDelta (w.mapper.selectDeclaredInputs state).data final.data)).Same _ ↔ _ :=
    flatUpdates_dictDelta_same_iff (selectDeclaredInputs_phaseOutputs w.mapper state)
  have hout : ∀ d expected : Dict String Value,
      (∃ outputs, some (Value.ofDict d) = some (Value.ofDict outputs) ∧ outputs.Same expected) ↔
        d.Same expected := by
    intro d expected
    constructor
    · rintro ⟨outputs, he, hs⟩
      rwa [Value.ofDict_inj (Option.some.inj he)]
    · exact fun hs => ⟨d, rfl, hs⟩
  rw [hout]
  unfold StateMapper.delivered SubgraphExact
  simp only [subgraphResult, PhaseWrapper.hooks, StateMapper.updatesOf, Value.asDict?_ofDict,
    Option.getD_some]
  cases w.validator with
  | none => exact hflat
  | some validator =>
    cases hv : validator (flatUpdates w.mapper.outputSchema w.mapper.phaseId
        (dictDelta (w.mapper.selectDeclaredInputs state).data final.data))
        (w.mapper.selectDeclaredInputs state).data w.mapper.phaseId with
    | error raised => simpa only [hv] using hflat
    | ok value =>
      cases value with
      | dict kvs => simp only [hv]
      | _ => simpa only [hv] using hflat

def refineWrapper : PhaseWrapper where
  mapper :=
    { inputSchema := some (Dict.ofList [("type", .str "object"),
        ("properties", .dict [("draft", .dict [("type", .str "string")])])])
      outputSchema := some (Dict.ofList [("type", .str "object"),
        ("properties", .dict [("draft", .dict [("type", .str "string")]),
          ("score", .dict [("type", .str "integer")])])])
      phaseId := "refine" }

def refineState : WorkflowState where
  data := Dict.ofList [("draft", .str "text")]
  flow := {}
  messages := []

def polishGraph (draft : String) : GraphRunner := fun state => .ok
  { state with
    data := Dict.ofList [("draft", .str draft), ("score", .num 1),
      ("phase_outputs", .dict [("polish", .dict [("draft", .str draft), ("score", .num 1)])])] }

theorem subgraph_outputs_changed_draft :
    ∃ delta, refineWrapper.wrap acceptingValidator (subgraphNode (polishGraph "better")) "e1" refineState =
        .ok delta ∧
      ∃ outputs, phaseOutputAt delta.data "refine" = some (.ofDict outputs) ∧
        outputs.Same (Dict.ofList [("draft", .str "better"), ("score", .num 1)]) := by
  have hchild : polishGraph "better" (childState (refineWrapper.mapper.selectDeclaredInputs refineState)) =
      .ok _ := rfl
  have hwrap : refineWrapper.wrap acceptingValidator (subgraphNode (polishGraph "better")) "e1" refineState =
      .ok _ := rfl
  refine ⟨_, rfl, (subgraph_outputs_exact_iff hchild hwrap).mpr (Or.inl ⟨by decide, ?_, ?_⟩)⟩
  · exact ⟨"score", by decide, .num 1, rfl, by decide⟩
  · intro k hk v hv
    change k ∈ ["draft", "score"] at hk
    rcases List.mem_pair.mp hk with rfl | rfl
    · obtain rfl := Option.some.inj hv
      decide
    · obtain rfl := Option.some.inj hv
      decide

theorem subgraph_drops_unchanged_draft :
    ∃ delta, refineWrapper.wrap acceptingValidator (subgraphNode (polishGraph "text")) "e1" refineState =
        .ok delta ∧
      ¬ ∃ outputs, phaseOutputAt delta.data "refine" = some (.ofDict outputs) ∧
        outputs.Same (Dict.ofList [("draft", .str "text"), ("score", .num 1)]) := by
  refine ⟨_, rfl, ?_⟩
  rintro ⟨outputs, ho, hs⟩
  have hrec := Value.ofDict_inj (Option.some.inj ho)
  have hdraft := hs "draft"
  rw [← hrec] at hdraft
  revert hdraft
  decide

end GraphSkillRuntime
