import GraphSkillRuntime.SkillGraph
import GraphSkillRuntime.PhaseFrame

namespace GraphSkillRuntime

open OrderedDict

/-! The deltas that a phase document lets through: the fields of the objects that its output gate takes. -/

structure PhaseCode (doc : PhaseDocument) where
  validator : Option PhaseValidator := none
  validator_declared : validator.isSome → doc.validator = true := by simp
  validatorDowngradeHook : Option (String → String → Bool) := none
  inputFiles : List InputFile := []
  executionId : Nat → String := fun _ => ""

namespace PhaseDocument

def spec (doc : PhaseDocument) (code : PhaseCode doc) : PhaseSpec where
  phaseId := doc.phaseName
  inputSchema := some doc.inputs
  outputSchema := some doc.outputs
  iterate := doc.iterate
  validator := code.validator
  validatorDowngradeHook := code.validatorDowngradeHook
  inputFiles := code.inputFiles
  executionId := code.executionId

def Produces (doc : PhaseDocument) (input : WorkflowState) (result : NodeResult) : Prop :=
  match doc.mode with
  | .logic => ∃ actions, logicNode actions (schemaOutputKeys (some doc.outputs)) input = .ok result
  | .agent => ∃ agent, agentNode agent input = .ok result
  | .subgraph => ∃ invoke, subgraphNode invoke input = .ok result

/-- What a node of the phase can hand back through the gate that the library `V` decides. -/
def NodeDelta (V : Draft202012) (doc : PhaseDocument) (delta : PhaseDelta) : Prop :=
  ∃ code hooks state input result, doc.Produces input result ∧ hooks.validator = code.validator ∧
    (doc.spec code).wrapper.mapper.wrapPhaseOutput V hooks state result = .ok delta

inductive AcceptedDelta (V : Draft202012) (doc : PhaseDocument) : PhaseDelta → Prop where
  | plain {delta : PhaseDelta} (hi : doc.iterate = none) (h : doc.NodeDelta V delta) : AcceptedDelta V doc delta
  | iterated {delta : PhaseDelta} {iterate : IterateSpec} {node : IndexedNode} {state : WorkflowState}
      (hi : doc.iterate = some iterate) (hn : ∀ index s d, node index s = .ok d → doc.NodeDelta V d)
      (h : iteratePhase node doc.phaseName iterate (some doc.outputs) state = .ok delta) :
      AcceptedDelta V doc delta

variable {V : Draft202012} {doc : PhaseDocument}

theorem nodeDelta_of_runner {code : PhaseCode doc} {node : PhaseNode} {index : Nat}
    {state : WorkflowState} {delta : PhaseDelta}
    (hn : ∀ input result, node input = .ok result → doc.Produces input result)
    (h : (doc.spec code).runner V node index state = .ok delta) : doc.NodeDelta V delta := by
  obtain ⟨injected, -, h⟩ := bind_ok h
  obtain ⟨-, result, hnode, hwrap⟩ := PhaseWrapper.wrap_ok h
  exact ⟨code, _, injected, _, result, hn _ _ hnode, rfl, hwrap⟩

theorem acceptedDelta_of_run {code : PhaseCode doc} {node : PhaseNode}
    {state : WorkflowState} {delta : PhaseDelta}
    (hn : ∀ input result, node input = .ok result → doc.Produces input result)
    (h : (doc.spec code).run V node state = .ok delta) : doc.AcceptedDelta V delta := by
  unfold PhaseSpec.run at h
  split at h
  · rename_i hi
    exact .plain hi (nodeDelta_of_runner hn h)
  · rename_i iterate hi
    exact .iterated hi (fun _ _ _ hd => nodeDelta_of_runner hn hd) h

def declared (doc : PhaseDocument) : List String := schemaProperties (some doc.outputs)

def accumulator (doc : PhaseDocument) : Option IterateAccumulateSpec :=
  match doc.iterate.map IterateSpec.mode with
  | some (.loop accumulate) => some accumulate
  | _ => none

def Accepts (V : Draft202012) (doc : PhaseDocument) (payload : Dict String Value) : Prop :=
  validatePhaseUpdatesAgainstSchema V payload (some doc.outputs) mappingFailed doc.phaseName = .ok ()

/-- The objects that a phase without iterate can deliver. The key check of a logic node stands before the gate, and
a validator, which may replace the payload, behind it. -/
structure Deliverable (V : Draft202012) (doc : PhaseDocument) (payload : Dict String Value) : Prop where
  accepted : doc.Accepts V payload
  business : ∀ k ∈ payload.keys, hasFrameworkPrefix k = false
  logic : doc.mode = .logic → (∀ k ∈ payload.keys, k ∈ doc.declared) ∨ (doc.validator = true ∧ doc.Accepts V ∅)

def Writes (V : Draft202012) (doc : PhaseDocument) (k : String) : Prop :=
  match doc.iterate.map IterateSpec.mode with
  | some (.loop accumulate) => k = accumulate.var
  | some .batch => k ∈ doc.declared
  | none => ∃ payload, doc.Deliverable V payload ∧ payload.contains k = true

def reservedAliases : List String := ["phase_outputs", "inputs", "scratch"]

/-- An iterate over a reserved alias never finds its list, and a loop needs an accumulator that can be set. -/
def Delivers (V : Draft202012) (doc : PhaseDocument) : Prop :=
  match doc.iterate with
  | none => ∃ payload, doc.Deliverable V payload
  | some iterate =>
    iterate.overField ∉ reservedAliases ∧ ∀ accumulate, iterate.mode = .loop accumulate → settable accumulate.var = true

theorem writes_plain (hi : doc.iterate = none) {k : String} :
    doc.Writes V k ↔ ∃ payload, doc.Deliverable V payload ∧ payload.contains k = true := by
  simp [Writes, hi]

theorem writes_batch {iterate : IterateSpec} (hi : doc.iterate = some iterate) (hm : iterate.mode = .batch)
    {k : String} : doc.Writes V k ↔ k ∈ doc.declared := by
  simp [Writes, hi, hm]

theorem writes_loop {iterate : IterateSpec} {accumulate : IterateAccumulateSpec} (hi : doc.iterate = some iterate)
    (hm : iterate.mode = .loop accumulate) {k : String} : doc.Writes V k ↔ k = accumulate.var := by
  simp [Writes, hi, hm]

end PhaseDocument

section Soundness

variable {V : Draft202012} {schema : Option Schema} {updates outputs : Dict String Value}

theorem declared_of_valid {code phaseId : String} (hs : schemaProperties schema ≠ [])
    (h : validatePhaseUpdatesAgainstSchema V updates schema code phaseId = .ok ()) :
    ∀ k ∈ updates.keys, k ∈ schemaProperties schema := by
  intro k hk
  by_contra hc
  have hmem : k ∈ sortKeys (undeclaredKeys updates schema) := by
    unfold undeclaredKeys
    split
    · rename_i he
      exact absurd he hs
    · simp [sortKeys, hk, hc]
  unfold validatePhaseUpdatesAgainstSchema at h
  split at h
  · cases h
  · rename_i hnil
    rw [hnil] at hmem
    simp at hmem

theorem validate_ok_of_code {code code' phaseId : String}
    (h : validatePhaseUpdatesAgainstSchema V updates schema code phaseId = .ok ()) :
    validatePhaseUpdatesAgainstSchema V updates schema code' phaseId = .ok () := by
  unfold validatePhaseUpdatesAgainstSchema at h ⊢
  cases hk : sortKeys (undeclaredKeys updates schema) with
  | cons key rest => simp [hk] at h
  | nil =>
    rw [hk] at h
    cases schema with
    | none => rfl
    | some s =>
      simp only at h ⊢
      split_ifs at h ⊢
      · rfl
      · cases hc : V.checkSchema (.ofDict s) with
        | some message => simp [hc] at h
        | none =>
          simp only [hc] at h ⊢
          cases he : V.iterErrors (withOptionalFieldsNullable (.ofDict s)) (.ofDict updates) with
          | nil => rfl
          | cons e es => simp [he] at h

theorem validated_cases {m : StateMapper} {hooks : PhaseHooks} {flat : Dict String Value}
    (h : m.validatedOutputs V hooks flat = .ok outputs) :
    outputs = flat ∨ hooks.validator.isSome = true ∧
      validatePhaseUpdatesAgainstSchema V outputs m.outputSchema mappingFailed m.phaseId = .ok () := by
  unfold StateMapper.validatedOutputs at h
  split at h
  · rename_i validator hv
    unfold runPhaseValidator at h
    split at h
    · simp only at h
      split_ifs at h
      exact .inl (Except.ok.inj h).symm
    · exact .inl (Except.ok.inj h).symm
    · obtain ⟨_, hvalid, h⟩ := bind_ok h
      rw [← Except.ok.inj h]
      exact .inr ⟨by rw [hv]; rfl, validate_ok_of_code hvalid⟩
    · cases h
  · exact .inl (Except.ok.inj h).symm

theorem business_of_accepted (h : refuseFrameworkKeys outputs = .ok ()) :
    ∀ k ∈ outputs.keys, hasFrameworkPrefix k = false := by
  unfold refuseFrameworkKeys at h
  split at h
  · cases h
  · rename_i hnone
    intro k hk
    simpa using List.find?_eq_none.mp hnone k hk

theorem validateLogicUpdateKeys_ok {keys : List String} {location : String}
    (h : validateLogicUpdateKeys updates (some keys) location = .ok ()) : ∀ k ∈ updates.keys, k ∈ keys := by
  unfold validateLogicUpdateKeys at h
  simp only at h
  split at h
  · rename_i hnone
    intro k hk
    simpa using List.find?_eq_none.mp hnone k hk
  · cases h

theorem runAction_keys {before : Dict String Value} {keys : List String} {action : LogicAction}
    (hu : ∀ k ∈ updates.keys, k ∈ keys) (h : runAction before (some keys) updates action = .ok outputs) :
    ∀ k ∈ outputs.keys, k ∈ keys := by
  obtain ⟨result, -, h⟩ := bind_ok h
  split at h
  · rename_i kvs
    obtain ⟨_, hval, h⟩ := bind_ok h
    rw [← Except.ok.inj h]
    intro k hk
    rw [Dict.mem_keys, Dict.get?_update] at hk
    by_cases hkv : k ∈ (Dict.ofList kvs).keys
    · exact validateLogicUpdateKeys_ok hval k hkv
    · rw [Dict.get?_eq_none.mpr hkv, Option.none_or] at hk
      exact hu k (Dict.mem_keys.mpr hk)
  · cases h

theorem logicNode_keys {actions : List LogicAction} {keys : List String} {input : WorkflowState}
    {result : NodeResult} {m : StateMapper} {before : BusinessData}
    (h : logicNode actions (some keys) input = .ok result) :
    ∀ k ∈ (m.updatesOf before result).keys, k ∈ keys := by
  obtain ⟨updates, hfold, h⟩ := bind_ok h
  have hkeys : ∀ k ∈ updates.keys, k ∈ keys :=
    foldlM_invariant (fun updates : Dict String Value => ∀ k ∈ updates.keys, k ∈ keys)
      (fun _ _ _ hb hc => runAction_keys hb hc) (by simp) hfold
  obtain rfl := Except.ok.inj h
  by_cases he : updates.entries.isEmpty
  · simp [he, StateMapper.updatesOf]
  · simpa [he, StateMapper.updatesOf] using hkeys

theorem contains_appendPayload (acc : Dict String (List Value)) (payload : Dict String Value) (k : String) :
    (appendPayload acc payload).contains k = true ↔ acc.contains k = true ∨ payload.contains k = true := by
  rw [@Dict.contains_iff _ _ _ payload, Dict.keys]
  unfold appendPayload
  generalize payload.entries = es
  induction es generalizing acc with
  | nil => simp
  | cons e es ih =>
    rw [List.foldl_cons, ih, Dict.contains_set, List.map_cons, List.mem_cons, eq_comm (a := k), or_assoc,
      or_left_comm]

theorem contains_aggregateBatchPayloads (payloads : List (Dict String Value)) (k : String) :
    (aggregateBatchPayloads payloads).contains k = true ↔ ∃ payload ∈ payloads, payload.contains k = true := by
  have hfold : ∀ acc : Dict String (List Value), (payloads.foldl appendPayload acc).contains k = true ↔
      acc.contains k = true ∨ ∃ payload ∈ payloads, payload.contains k = true := by
    induction payloads with
    | nil => simp
    | cons payload payloads ih =>
      intro acc
      rw [List.foldl_cons, ih, contains_appendPayload, List.exists_mem_cons_iff, or_assoc]
  rw [aggregateBatchPayloads, Dict.contains, Dict.get?_mapValues, Option.isSome_map, ← Dict.contains, hfold]
  simp [Dict.contains]

theorem emptyBatchPayload_keys (keys : List String) : ∀ k ∈ (emptyBatchPayload (some keys)).keys, k ∈ keys := by
  intro k hk
  rw [Dict.mem_keys, emptyBatchPayload, Dict.get?_ofList] at hk
  obtain ⟨v, hv⟩ := Option.isSome_iff_exists.mp hk
  have hm := List.mem_reverse.mp (find_some_mem hv)
  simp only [Option.getD_some, List.mem_map, Prod.mk.injEq] at hm
  obtain ⟨k', hk', rfl, -⟩ := hm
  exact hk'

theorem batchItems_keys {node : IndexedNode} {base : WorkflowState} {itemVar phaseId : String}
    {keys : List String} {index : Nat} {items : List Value} {results : List (Dict String Value × List String)}
    (h : batchItems node base itemVar (some keys) phaseId index items = .ok results) :
    ∀ result ∈ results, ∀ k ∈ result.1.keys, k ∈ keys := by
  induction items generalizing index results with
  | nil =>
    rw [← Except.ok.inj h]
    simp
  | cons item items ih =>
    obtain ⟨first, hfirst, h⟩ := bind_ok h
    obtain ⟨rest, hrest, h⟩ := bind_ok h
    obtain rfl := Except.ok.inj h
    intro result hm k hk
    rcases List.mem_cons.mp hm with rfl | hm
    · obtain ⟨child, -, hfirst⟩ := bind_ok hfirst
      obtain ⟨delta, -, hfirst⟩ := bind_ok hfirst
      obtain rfl := Except.ok.inj hfirst
      rw [Dict.mem_keys, phaseResultPayload, Dict.get?_restrict] at hk
      split_ifs at hk with hin
      · simpa using hin
      · simp at hk
    · exact ih hrest result hm k hk

theorem schemaOutputKeys_of_object {schema : Schema} (h : (dictAt schema "properties").isSome) :
    schemaOutputKeys (some schema) = some (schemaProperties (some schema)) := by
  obtain ⟨properties, hp⟩ := Option.isSome_iff_exists.mp h
  obtain ⟨v, hv, hd⟩ := Option.bind_eq_some_iff.mp hp
  cases v with
  | dict kvs =>
    obtain rfl := Option.some.inj hd
    simp only [schemaOutputKeys, schemaProperties, Option.bind_some, hv, hp]
  | _ => simp [Value.asDict?] at hd

end Soundness

namespace PhaseDocument

variable {V : Draft202012} {doc : PhaseDocument} {delta : PhaseDelta}

theorem schemaOutputKeys_outputs (doc : PhaseDocument) :
    schemaOutputKeys (some doc.outputs) = some doc.declared :=
  schemaOutputKeys_of_object doc.outputs_object

theorem outputSchema_mapper (code : PhaseCode doc) (hi : doc.iterate = none) :
    (doc.spec code).wrapper.mapper.outputSchema = some doc.outputs := by
  simp [PhaseSpec.wrapper, PhaseSpec.mapperOutputSchema, spec, hi]

theorem Produces.ne_notMapping {input : WorkflowState} {result : NodeResult} (h : doc.Produces input result) :
    result ≠ .notMapping := by
  unfold Produces at h
  split at h
  · obtain ⟨actions, h⟩ := h
    obtain ⟨updates, -, h⟩ := bind_ok h
    rw [← Except.ok.inj h]
    simp
  · obtain ⟨agent, h⟩ := h
    obtain ⟨outcome, -, h⟩ := bind_ok h
    rw [← Except.ok.inj h]
    simp
  · obtain ⟨invoke, h⟩ := h
    obtain ⟨final, -, rfl⟩ := subgraphNode_ok h
    simp [subgraphResult]

theorem Deliverable.writes (hi : doc.iterate = none) {payload : Dict String Value} (h : doc.Deliverable V payload) :
    ∀ k ∈ payload.keys, doc.Writes V k :=
  fun _ hk => (writes_plain hi).mpr ⟨payload, h, Dict.contains_iff.mpr hk⟩

theorem Accepts.declared {payload : Dict String Value} (h : doc.Accepts V payload) (hd : doc.declared ≠ []) :
    ∀ k ∈ payload.keys, k ∈ doc.declared :=
  declared_of_valid hd h

theorem logic_keys {code : PhaseCode doc} {hooks : PhaseHooks} {input : WorkflowState} {result : NodeResult}
    {m : StateMapper} {before : BusinessData} {outputs : Dict String Value} (hm : doc.mode = .logic)
    (hprod : doc.Produces input result) (hval : hooks.validator = code.validator)
    (hflat : doc.Accepts V (flatUpdates (some doc.outputs) doc.phaseName (m.updatesOf before result)))
    (hout : outputs = flatUpdates (some doc.outputs) doc.phaseName (m.updatesOf before result) ∨
      hooks.validator.isSome = true ∧ doc.Accepts V outputs) :
    (∀ k ∈ outputs.keys, k ∈ doc.declared) ∨ (doc.validator = true ∧ doc.Accepts V ∅) := by
  by_cases hd : doc.declared = []
  · simp only [Produces, hm, schemaOutputKeys_outputs, hd] at hprod
    obtain ⟨actions, hlogic⟩ := hprod
    have hempty : m.updatesOf before result = ∅ := by
      apply Dict.ext_entries
      apply (Dict.same_empty_iff _).mp
      intro key
      rw [Dict.get?_empty, Dict.get?_eq_none]
      exact fun hkey => absurd (logicNode_keys hlogic key hkey) (List.not_mem_nil)
    have hnothing : flatUpdates (some doc.outputs) doc.phaseName (m.updatesOf before result) = ∅ := by
      simp [hempty, flatUpdates, Dict.contains]
    rw [hnothing] at hflat hout
    rcases hout with rfl | ⟨hsome, -⟩
    · exact .inl (by simp)
    · exact .inr ⟨code.validator_declared (hval ▸ hsome), hflat⟩
  · rcases hout with rfl | ⟨-, hout⟩
    · exact .inl (hflat.declared hd)
    · exact .inl (hout.declared hd)

theorem NodeDelta.payload (hi : doc.iterate = none) (h : doc.NodeDelta V delta) :
    ∃ payload, delta.data = phaseDataDelta doc.phaseName payload ∧ doc.Deliverable V payload := by
  obtain ⟨code, hooks, state, input, result, hprod, hval, hwrap⟩ := h
  obtain ⟨outputs, haccept, hdata⟩ := StateMapper.wrapPhaseOutput_ok hwrap hprod.ne_notMapping
  obtain ⟨hvalidated, hflat, hbusiness⟩ := StateMapper.acceptUpdates_ok haccept
  have hcases := validated_cases hvalidated
  rw [outputSchema_mapper code hi] at hflat hcases
  refine ⟨outputs, hdata, ?_, business_of_accepted hbusiness, fun hm => logic_keys hm hprod hval hflat hcases⟩
  rcases hcases with rfl | ⟨-, houtputs⟩
  · exact hflat
  · exact houtputs

theorem batchPhase_payload {node : IndexedNode} {iterate : IterateSpec} {state : WorkflowState}
    (h : batchPhase node doc.phaseName iterate (some doc.outputs) state = .ok delta) :
    ∃ payload, delta.data.Same (phaseDataDelta doc.phaseName payload) ∧
      ∀ k ∈ payload.keys, k ∈ doc.declared := by
  unfold batchPhase at h
  rw [schemaOutputKeys_outputs] at h
  obtain ⟨items, -, h⟩ := bind_ok h
  obtain ⟨results, hresults, h⟩ := bind_ok h
  obtain rfl := Except.ok.inj h
  refine ⟨_, phaseOutputsDelta_single _, ?_⟩
  split_ifs
  · exact emptyBatchPayload_keys doc.declared
  · intro k hk
    obtain ⟨payload, hm, hc⟩ := (contains_aggregateBatchPayloads _ k).mp (Dict.contains_iff.mpr hk)
    obtain ⟨result, hr, rfl⟩ := List.mem_map.mp hm
    exact batchItems_keys hresults result hr k (Dict.contains_iff.mp hc)

theorem loopPhase_payload {node : IndexedNode} {iterate : IterateSpec} {accumulate : IterateAccumulateSpec}
    {state : WorkflowState}
    (h : loopPhase node doc.phaseName iterate accumulate (some doc.outputs) state = .ok delta) :
    ∃ acc, delta.data.Same (phaseDataDelta doc.phaseName (Dict.single accumulate.var acc)) := by
  unfold loopPhase at h
  obtain ⟨items, -, h⟩ := bind_ok h
  obtain ⟨loopState, -, h⟩ := bind_ok h
  obtain ⟨last, -, h⟩ := bind_ok h
  obtain rfl := Except.ok.inj h
  exact ⟨last.acc, phaseOutputsDelta_single _⟩

theorem AcceptedDelta.payload (h : doc.AcceptedDelta V delta) :
    ∃ payload, delta.data.Same (phaseDataDelta doc.phaseName payload) ∧ ∀ k ∈ payload.keys, doc.Writes V k := by
  cases h with
  | plain hi hn =>
    obtain ⟨payload, hdata, hdeliverable⟩ := hn.payload hi
    exact ⟨payload, hdata ▸ Dict.Same.refl _, hdeliverable.writes hi⟩
  | @iterated iterate node state hi _ hiter =>
    unfold iteratePhase at hiter
    split at hiter
    · rename_i hmode
      obtain ⟨payload, hdata, hkeys⟩ := batchPhase_payload hiter
      exact ⟨payload, hdata, fun k hk => (writes_batch hi hmode).mpr (hkeys k hk)⟩
    · rename_i accumulate hmode
      obtain ⟨acc, hdata⟩ := loopPhase_payload hiter
      refine ⟨_, hdata, fun k hk => (writes_loop hi hmode).mpr ?_⟩
      simpa [Dict.single, Dict.keys] using hk

theorem not_reserved_of_resolved {state : WorkflowState} {overField : String} {items : List Value}
    (h : resolveIterateItems state overField = .ok items) : overField ∉ reservedAliases := by
  intro hm
  simp only [reservedAliases, List.mem_cons, List.not_mem_nil, or_false] at hm
  rcases hm with rfl | rfl | rfl <;> simp [resolveIterateItems, businessGet, Value.ofDict] at h

theorem AcceptedDelta.delivers (h : doc.AcceptedDelta V delta) : doc.Delivers V := by
  cases h with
  | plain hi hn =>
    obtain ⟨payload, -, hdeliverable⟩ := hn.payload hi
    simp only [Delivers, hi]
    exact ⟨payload, hdeliverable⟩
  | @iterated iterate node state hi _ hiter =>
    simp only [Delivers, hi]
    unfold iteratePhase at hiter
    split at hiter
    · rename_i hmode
      unfold batchPhase at hiter
      obtain ⟨items, hitems, -⟩ := bind_ok hiter
      exact ⟨not_reserved_of_resolved hitems, by simp [hmode]⟩
    · rename_i accumulate hmode
      unfold loopPhase at hiter
      obtain ⟨items, hitems, hiter⟩ := bind_ok hiter
      obtain ⟨loopState, hloop, -⟩ := bind_ok hiter
      refine ⟨not_reserved_of_resolved hitems, fun other hother => ?_⟩
      obtain rfl := IterateMode.loop.inj (hmode.symm.trans hother)
      exact (updated_of_ok hloop).1 _ (by simp [Dict.single, Dict.keys])

end PhaseDocument

section Completeness

theorem refuse_business {updates : Dict String Value}
    (h : ∀ k ∈ updates.keys, hasFrameworkPrefix k = false) : refuseFrameworkKeys updates = .ok () := by
  have hnone : updates.keys.find? hasFrameworkPrefix = none := by
    rw [List.find?_eq_none]
    intro k hk
    simp [h k hk]
  simp [refuseFrameworkKeys, hnone]

theorem wrapPhaseOutput_of_accept {V : Draft202012} {m : StateMapper} {hooks : PhaseHooks} {state : WorkflowState}
    {result : NodeResult} {payload : Dict String Value} (hr : result ≠ .notMapping)
    (h : m.acceptUpdates V hooks (m.updatesOf state.data result) = .ok payload) :
    ∃ delta, m.wrapPhaseOutput V hooks state result = .ok delta ∧ delta.data = phaseDataDelta m.phaseId payload := by
  cases result with
  | notMapping => exact absurd rfl hr
  | workflowState after => exact ⟨_, by simp only [StateMapper.wrapPhaseOutput, h]; rfl, rfl⟩
  | updates data fields flow messages => exact ⟨_, by simp only [StateMapper.wrapPhaseOutput, h]; rfl, rfl⟩

theorem empty_update (d : Dict String Value) : (∅ : Dict String Value).update d = d := by
  apply Dict.ext_entries
  change d.entries.filter _ = d.entries
  simp

def wrapped (phaseId : String) (payload : Dict String Value) : Dict String Value :=
  Dict.single "phase_outputs" (.ofDict (Dict.single phaseId (.ofDict payload)))

theorem dictAt_single (k : String) (d : Dict String Value) : dictAt (Dict.single k (.ofDict d)) k = some d := by
  rw [dictAt, Dict.get?_single, if_pos rfl, Option.bind_some, Value.asDict?_ofDict]

theorem flatUpdates_wrapped {schema : Option Schema} {phaseId : String} {payload : Dict String Value}
    (hne : payload.entries ≠ []) : flatUpdates schema phaseId (wrapped phaseId payload) = payload := by
  have hcontains : (wrapped phaseId payload).contains "phase_outputs" = true := by simp [wrapped, Dict.contains]
  have houtputs : dictAt (wrapped phaseId payload) "phase_outputs" = some (Dict.single phaseId (.ofDict payload)) :=
    dictAt_single _ _
  simp [flatUpdates, hcontains, houtputs, dictAt_single, hne]

theorem flatUpdates_inputs {schema : Option Schema} {phaseId : String} (payload : Dict String Value) :
    flatUpdates schema phaseId (Dict.single "inputs" (.ofDict payload)) = payload := by
  have hinputs : (Dict.single "inputs" (Value.ofDict payload)).contains "inputs" = true := by simp [Dict.contains]
  have hnone : dictAt (Dict.single "inputs" (Value.ofDict payload)) "phase_outputs" = none := by simp [dictAt]
  have hempty : (∅ : Dict String Value).entries.isEmpty = true := rfl
  simp [flatUpdates, hinputs, hnone, hempty, dictAt_single]

theorem flatUpdates_plain {schema : Option Schema} {phaseId : String} {payload : Dict String Value}
    (houtputs : payload.contains "phase_outputs" = false) (hinputs : payload.contains "inputs" = false) :
    flatUpdates schema phaseId payload = payload := by
  simp [flatUpdates, houtputs, hinputs]

def emptyState : WorkflowState where
  data := ∅
  flow := {}
  messages := []

def silentWrites : AgentWrites where
  finishTaskResult := none
  ioErrors := []
  workingMemory := .dict []
  ambiguityReports := []
  subagentValidationRetries := ∅

namespace PhaseDocument

variable {V : Draft202012} {doc : PhaseDocument}

def Yields (doc : PhaseDocument) (result : NodeResult) (payload : Dict String Value) : Prop :=
  doc.Produces emptyState result ∧ ∀ m : StateMapper, m.outputSchema = some doc.outputs → m.phaseId = doc.phaseName →
    flatUpdates m.outputSchema m.phaseId (m.updatesOf ∅ result) = payload

theorem yields_nothing (doc : PhaseDocument) : ∃ result, doc.Yields result ∅ := by
  have hflat : ∀ m : StateMapper, flatUpdates m.outputSchema m.phaseId ∅ = ∅ := by
    intro m
    simp [flatUpdates, Dict.contains]
  unfold Yields Produces
  cases doc.mode with
  | logic => exact ⟨_, ⟨[], rfl⟩, fun m _ _ => hflat m⟩
  | agent =>
    refine ⟨_, ⟨fun _ => .ok ⟨∅, silentWrites, []⟩, rfl⟩, fun m _ _ => ?_⟩
    have hproject : projectFullData ∅ ∅ m.outputSchema m.phaseId = ∅ := by
      unfold projectFullData
      split
      · rename_i h
        simp [dictAt] at h
      · split <;> rfl
    rw [StateMapper.updatesOf, hproject, hflat]
  | subgraph => exact ⟨_, ⟨fun _ => .ok emptyState, rfl⟩, fun m _ _ => hflat m⟩

theorem yields_logic (hm : doc.mode = .logic) {updates payload : Dict String Value} (hne : updates.entries ≠ [])
    (hkeys : ∀ k ∈ updates.keys, k ∈ doc.declared)
    (hflat : flatUpdates (some doc.outputs) doc.phaseName updates = payload) : ∃ result, doc.Yields result payload := by
  unfold Yields Produces
  rw [hm]
  refine ⟨.updates (some (.ofDict updates)) ∅ none [],
    ⟨[{ location := "", run := fun _ => .ok (.dict updates.entries) }], ?_⟩, ?_⟩
  · have hcheck : validateLogicUpdateKeys updates (some doc.declared) "" = .ok () := by
      have hnone : updates.keys.find? (· ∉ doc.declared) = none := by
        rw [List.find?_eq_none]
        intro k hk
        simp [hkeys k hk]
      simp only [validateLogicUpdateKeys, hnone]
    simp only [logicNode, List.foldlM_cons, List.foldlM_nil, runAction, schemaOutputKeys_outputs]
    simp only [bind, Except.bind, Dict.ofList_entries, hcheck, empty_update, pure, Except.pure]
    rw [if_neg (by simpa using hne)]
  · intro m hs hid
    rw [StateMapper.updatesOf, Value.asDict?_ofDict, Option.getD_some, hs, hid, hflat]

theorem yields (doc : PhaseDocument) {payload : Dict String Value}
    (h : doc.mode = .logic → ∀ k ∈ payload.keys, k ∈ doc.declared) : ∃ result, doc.Yields result payload := by
  by_cases hne : payload.entries = []
  · obtain rfl : payload = ∅ := Dict.ext_entries hne
    exact doc.yields_nothing
  cases hm : doc.mode with
  | logic =>
    have hkeys := h hm
    cases houtputs : payload.contains "phase_outputs" with
    | true =>
      refine yields_logic hm (by simp [wrapped, Dict.single]) ?_ (flatUpdates_wrapped hne)
      simpa [wrapped, Dict.single, Dict.keys] using hkeys _ (Dict.contains_iff.mp houtputs)
    | false =>
      cases hinputs : payload.contains "inputs" with
      | true =>
        refine yields_logic hm (by simp [Dict.single]) ?_ (flatUpdates_inputs payload)
        simpa [Dict.single, Dict.keys] using hkeys _ (Dict.contains_iff.mp hinputs)
      | false => exact yields_logic hm hne hkeys (flatUpdates_plain houtputs hinputs)
  | agent =>
    unfold Yields Produces
    rw [hm]
    refine ⟨_, ⟨fun _ => .ok ⟨wrapped doc.phaseName (wrapped doc.phaseName payload), silentWrites, []⟩, rfl⟩, ?_⟩
    intro m _ hid
    have hproject : ∀ d, projectFullData (wrapped doc.phaseName d) ∅ m.outputSchema doc.phaseName = d := by
      intro d
      simp [projectFullData, wrapped, dictAt_single]
    rw [StateMapper.updatesOf, hid, hproject, flatUpdates_wrapped hne]
  | subgraph =>
    unfold Yields Produces
    rw [hm]
    refine ⟨_, ⟨fun _ => .ok { emptyState with data := wrapped doc.phaseName payload }, rfl⟩, ?_⟩
    intro m _ hid
    have hdelta : dictDelta ∅ (wrapped doc.phaseName payload) = wrapped doc.phaseName payload :=
      Dict.filter_single (by simp [fieldChanged])
    simp only [subgraphResult, StateMapper.updatesOf, Value.asDict?_ofDict, Option.getD_some]
    change flatUpdates _ _ (dictDelta ∅ (wrapped doc.phaseName payload)) = payload
    rw [hdelta, hid, flatUpdates_wrapped hne]

def replacing (payload : Dict String Value) : PhaseValidator := fun _ _ _ => .ok (.dict payload.entries)

theorem exists_plain (hi : doc.iterate = none) {payload : Dict String Value} (h : doc.Deliverable V payload) :
    ∃ delta, doc.AcceptedDelta V delta ∧ delta.data = phaseDataDelta doc.phaseName payload := by
  have hrefuse := refuse_business h.business
  have hdelta : ∀ (code : PhaseCode doc) (hooks : PhaseHooks) (result : NodeResult), doc.Produces emptyState result →
      hooks.validator = code.validator → (doc.spec code).wrapper.mapper.acceptUpdates V hooks
        ((doc.spec code).wrapper.mapper.updatesOf ∅ result) = .ok payload →
      ∃ delta, doc.AcceptedDelta V delta ∧ delta.data = phaseDataDelta doc.phaseName payload := by
    intro code hooks result hprod hval haccept
    obtain ⟨delta, hwrap, hdata⟩ := @wrapPhaseOutput_of_accept _ _ _ emptyState _ _ hprod.ne_notMapping haccept
    exact ⟨delta, .plain hi ⟨code, hooks, emptyState, emptyState, result, hprod, hval, hwrap⟩, hdata⟩
  by_cases hkeys : doc.mode = .logic → ∀ k ∈ payload.keys, k ∈ doc.declared
  · obtain ⟨result, hprod, hflat⟩ := doc.yields hkeys
    have hs := outputSchema_mapper ({} : PhaseCode doc) hi
    refine hdelta {} {} result hprod rfl ?_
    have haccepted : validatePhaseUpdatesAgainstSchema V payload (doc.spec {}).wrapper.mapper.outputSchema
        mappingFailed (doc.spec {}).wrapper.mapper.phaseId = .ok () := by
      rw [hs]
      exact h.accepted
    simp only [StateMapper.acceptUpdates, hflat _ hs rfl, haccepted, StateMapper.validatedOutputs, bind, Except.bind,
      hrefuse]
    rfl
  · -- only a validator puts undeclared fields behind a logic node, and it runs on the empty payload
    rw [Classical.not_imp] at hkeys
    obtain ⟨hval, hempty⟩ := (h.logic hkeys.1).resolve_left hkeys.2
    obtain ⟨result, hprod, hflat⟩ := doc.yields_nothing
    let code : PhaseCode doc := { validator := some (replacing payload), validator_declared := fun _ => hval }
    have hs := outputSchema_mapper code hi
    refine hdelta code { validator := some (replacing payload) } result hprod rfl ?_
    have haccepted : ∀ {updates}, doc.Accepts V updates → ∀ errorCode, validatePhaseUpdatesAgainstSchema V updates
        (doc.spec code).wrapper.mapper.outputSchema errorCode (doc.spec code).wrapper.mapper.phaseId = .ok () := by
      intro updates hupdates errorCode
      rw [hs]
      exact validate_ok_of_code hupdates
    simp only [StateMapper.acceptUpdates, hflat _ hs rfl, haccepted hempty, StateMapper.validatedOutputs,
      runPhaseValidator, replacing, Dict.ofList_entries, haccepted h.accepted, bind, Except.bind, hrefuse]
    rfl

theorem resolve_empty {overField : String} (h : overField ∉ reservedAliases) :
    resolveIterateItems { emptyState with data := Dict.single overField (.list []) } overField = .ok [] := by
  simp only [reservedAliases, List.mem_cons, List.not_mem_nil, or_false, not_or] at h
  simp [resolveIterateItems, businessGet, h.1, h.2.1, h.2.2]

theorem applyIterateRange_nil (range : Option {r : Int × Int // r.1 ≤ r.2}) :
    applyIterateRange [] range = [] := by
  cases range <;> simp [applyIterateRange]

theorem exists_loop (V : Draft202012) {iterate : IterateSpec} {accumulate : IterateAccumulateSpec}
    (hi : doc.iterate = some iterate) (hm : iterate.mode = .loop accumulate)
    (hover : iterate.overField ∉ reservedAliases) (hvar : settable accumulate.var = true) :
    ∃ delta, doc.AcceptedDelta V delta ∧
      delta.data.Same (phaseDataDelta doc.phaseName (Dict.single accumulate.var accumulate.init)) := by
  let state := { emptyState with data := Dict.single iterate.overField (.list []) }
  have hupdate : updateBusiness state (Dict.single accumulate.var accumulate.init) =
      .ok { state with data := state.data.update (Dict.single accumulate.var accumulate.init) } :=
    updateBusiness_ok_iff.mpr ⟨by simpa [Dict.single, Dict.keys] using hvar, rfl⟩
  have hrun : iteratePhase (fun _ _ => .error (.valueError "")) doc.phaseName iterate (some doc.outputs)
      state = .ok (phaseOutputsDelta (Dict.single doc.phaseName
        (Dict.single accumulate.var accumulate.init)) (Dict.single doc.phaseName [])) := by
    simp only [iteratePhase, hm, loopPhase, state, resolve_empty hover, hupdate, liftUpdateError, bind,
      Except.bind, applyIterateRange_nil, loopRounds]
    rfl
  exact ⟨_, .iterated hi (fun _ _ _ h => by cases h) hrun, phaseOutputsDelta_single _⟩

theorem exists_batch (V : Draft202012) {iterate : IterateSpec} (hi : doc.iterate = some iterate)
    (hm : iterate.mode = .batch) (hover : iterate.overField ∉ reservedAliases) :
    ∃ delta, doc.AcceptedDelta V delta ∧
      delta.data.Same (phaseDataDelta doc.phaseName (emptyBatchPayload (some doc.declared))) := by
  let state := { emptyState with data := Dict.single iterate.overField (.list []) }
  have hrun : iteratePhase (fun _ _ => .error (.valueError "")) doc.phaseName iterate (some doc.outputs)
      state = .ok (phaseOutputsDelta (Dict.single doc.phaseName (emptyBatchPayload (some doc.declared)))
        (Dict.single doc.phaseName [])) := by
    simp only [iteratePhase, hm, batchPhase, state, resolve_empty hover, schemaOutputKeys_outputs, bind,
      Except.bind, applyIterateRange_nil, batchItems]
    rfl
  exact ⟨_, .iterated hi (fun _ _ _ h => by cases h) hrun, phaseOutputsDelta_single _⟩

theorem mem_emptyBatchPayload {keys : List String} {k : String} (h : k ∈ keys) :
    ((emptyBatchPayload (some keys)).get? k).isSome := by
  rw [emptyBatchPayload, Dict.get?_ofList, Dict.find_isSome, ← List.map_reverse, List.map_map]
  simpa [Function.comp_def] using h

theorem exists_delta (hd : doc.Delivers V) : ∃ delta, doc.AcceptedDelta V delta := by
  unfold Delivers at hd
  split at hd
  · rename_i hi
    obtain ⟨payload, hpayload⟩ := hd
    exact (exists_plain hi hpayload).imp fun _ h => h.1
  · rename_i iterate hi
    cases hm : iterate.mode with
    | batch => exact (exists_batch V hi hm hd.1).imp fun _ h => h.1
    | loop accumulate => exact (exists_loop V hi hm hd.1 (hd.2 accumulate hm)).imp fun _ h => h.1

theorem exists_writing {k : String} (hd : doc.Delivers V) (hk : doc.Writes V k) (hne : k ≠ "phase_outputs") :
    ∃ delta, doc.AcceptedDelta V delta ∧ delta.data.contains k = true := by
  have hcontains : ∀ (payload : Dict String Value) (delta : PhaseDelta),
      delta.data.Same (phaseDataDelta doc.phaseName payload) → payload.contains k = true →
      delta.data.contains k = true := by
    intro payload delta hsame hs
    rw [Dict.contains, hsame k, get?_phaseDataDelta, if_neg hne.symm]
    exact hs
  unfold Delivers at hd
  split at hd
  · rename_i hi
    obtain ⟨payload, hpayload, hmem⟩ := (writes_plain hi).mp hk
    obtain ⟨delta, hacc, hdata⟩ := exists_plain hi hpayload
    exact ⟨delta, hacc, hcontains payload delta (hdata ▸ Dict.Same.refl _) hmem⟩
  · rename_i iterate hi
    cases hm : iterate.mode with
    | batch =>
      obtain ⟨delta, hacc, hsame⟩ := exists_batch V hi hm hd.1
      exact ⟨delta, hacc, hcontains _ _ hsame (mem_emptyBatchPayload ((writes_batch hi hm).mp hk))⟩
    | loop accumulate =>
      obtain ⟨delta, hacc, hsame⟩ := exists_loop V hi hm hd.1 (hd.2 accumulate hm)
      obtain rfl := (writes_loop hi hm).mp hk
      exact ⟨delta, hacc, hcontains _ _ hsame (by simp [Dict.contains])⟩

end PhaseDocument

end Completeness

end GraphSkillRuntime
