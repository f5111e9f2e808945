import GraphSkillRuntime.HostNative

namespace GraphSkillRuntime

open OrderedDict

/-! The host-native completion of an agent phase beside the embedded one. -/

def completionOf (record : AgentHandoffRecord) (result : AgentResult) (resultHash : String)
    (output : Dict String Value) : ExternalPhaseCompletion where
  taskId := result.taskId
  phaseId := record.task.address.phaseId
  resultHash := resultHash
  output := output

def hostPath (V : Draft202012) (record : AgentHandoffRecord) (result : AgentResult)
    (resultHash : String) (output : Dict String Value) (latest : Checkpoint) (newId : String)
    (next : List String) : Except String Checkpoint := do
  validateAgentResult V record.task result
  match ← applyExternalPhaseCompletion (some latest) record.task.runId record.checkpointId
      record.checkpointNs (completionOf record result resultHash output) newId next with
  | .already => .ok latest
  | .updated checkpoint => .ok checkpoint

structure PausedAt (record : AgentHandoffRecord) (latest : Checkpoint) : Prop where
  checkpointId : latest.checkpointId = record.checkpointId
  checkpointNs : latest.checkpointNs = record.checkpointNs
  next : latest.next = [record.task.address.phaseId]
  unmarked : latest.values.flow.agentResultHashes.get? record.task.taskId = none

/-- `jsonschema` takes the output by the task's schema as it stands. -/
def RawAdmits (V : Draft202012) (schema : Schema) (output : Dict String Value) : Prop :=
  V.checkSchema (.ofDict schema) = none ∧ V.isValid (.ofDict schema) (.ofDict output) = true

structure MapperAdmits (V : Draft202012) (schema : Schema) (payload : Dict String Value) : Prop where
  declared : schemaProperties (some schema) ≠ [] → ∀ k ∈ payload.keys, k ∈ schemaProperties (some schema)
  valid : schema.entries ≠ [] → V.checkSchema (.ofDict schema) = none ∧
    V.iterErrors (withOptionalFieldsNullable (.ofDict schema)) (.ofDict payload) = []

def Business (payload : Dict String Value) : Prop := ∀ k ∈ payload.keys, hasFrameworkPrefix k = false

inductive AuthorVerdict where
  | keeps
  | replaces (outputs : Dict String Value)
  | refuses

/-- What the author's validator says of a payload; a downgraded refusal keeps it. -/
def authorVerdict (m : StateMapper) (hooks : PhaseHooks) (payload : Dict String Value) : AuthorVerdict :=
  match hooks.validator with
  | none => .keeps
  | some validator =>
    match validator payload hooks.stateSlice m.phaseId with
    | .error raised =>
      if (m.validatorDowngradeHook.map (· m.phaseId ("phase validator failed: " ++ raised))).getD false then .keeps
      else .refuses
    | .ok .null => .keeps
    | .ok (.dict kvs) => .replaces (Dict.ofList kvs)
    | .ok _ => .refuses

def Refused (V : Draft202012) (schema : Schema) (verdict : AuthorVerdict) (payload : Dict String Value) : Prop :=
  ¬ MapperAdmits V schema payload ∨
    match verdict with
    | .keeps => ¬ Business payload
    | .replaces outputs => ¬ MapperAdmits V schema outputs ∨ ¬ Business outputs
    | .refuses => True

structure Unaltered (V : Draft202012) (schema : Schema) (verdict : AuthorVerdict) (output : Dict String Value) :
    Prop where
  declared : ∀ k ∈ output.keys, k ∈ schemaProperties (some schema)
  business : Business output
  admitted : MapperAdmits V schema output
  author : verdict = .keeps ∨ verdict = .replaces output

/-- Where the paths agree: an output with `phase_outputs` or `inputs` is one for neither, any other has to pass the
mapper unaltered where the raw schema admits it, and to be refused by the mapper where the raw schema does not. -/
def PathsAgree (V : Draft202012) (m : StateMapper) (hooks : PhaseHooks) (schema : Schema)
    (output : Dict String Value) : Prop :=
  let opened := flatUpdates (some schema) m.phaseId output
  if output.contains "phase_outputs" then Refused V schema (authorVerdict m hooks opened) opened
  else if output.contains "inputs" then
    ¬ RawAdmits V schema output ∧ Refused V schema (authorVerdict m hooks opened) opened
  else (RawAdmits V schema output ∧ Unaltered V schema (authorVerdict m hooks output) output) ∨
    (¬ RawAdmits V schema output ∧ Refused V schema (authorVerdict m hooks output) output)

def embeddedResult (output : Dict String Value) (flow : Option FlowUpdate) (messages : List Value) :
    NodeResult :=
  .updates (some (.ofDict output)) ∅ flow messages

/-- Both paths take the output or neither does, and they leave the same blackboard. -/
def HostRefinesEmbedded (V : Draft202012) (m : StateMapper) (hooks : PhaseHooks)
    (record : AgentHandoffRecord) (result : AgentResult) (output : Dict String Value) : Prop :=
  ∀ (latest : Checkpoint) (state : WorkflowState) (flow : Option FlowUpdate) (messages : List Value)
    (resultHash newId : String) (next : List String),
    PausedAt record latest → state.data = latest.values.data →
    ((∃ checkpoint, hostPath V record result resultHash output latest newId next = .ok checkpoint) ↔
      ∃ delta, m.wrapPhaseOutput V hooks state (embeddedResult output flow messages) = .ok delta) ∧
    ∀ checkpoint delta,
      hostPath V record result resultHash output latest newId next = .ok checkpoint →
      m.wrapPhaseOutput V hooks state (embeddedResult output flow messages) = .ok delta →
      checkpoint.values.data.Same (mergeBusinessChannel state.data (.delta delta.data)) ∧
        PhaseFrame m.phaseId (schemaProperties m.outputSchema) output state.data
          checkpoint.values.data

section

variable {V : Draft202012} {m : StateMapper} {hooks : PhaseHooks} {record : AgentHandoffRecord}
variable {result : AgentResult} {output : Dict String Value}

theorem validateAgentResult_ok_iff (htask : result.taskId = record.task.taskId)
    (hout : result.completedOutput = some output) :
    validateAgentResult V record.task result = .ok () ↔ RawAdmits V record.task.outputSchema output := by
  simp only [validateAgentResult, htask, ne_eq, not_true_eq_false, ↓reduceIte, hout, RawAdmits]
  cases V.checkSchema (.ofDict record.task.outputSchema) with
  | some message => simp
  | none => simp

theorem hostPath_ok_iff (htask : result.taskId = record.task.taskId)
    (hout : result.completedOutput = some output) {latest : Checkpoint} (hp : PausedAt record latest)
    (resultHash newId : String) (next : List String) (checkpoint : Checkpoint) :
    hostPath V record result resultHash output latest newId next = .ok checkpoint ↔
      RawAdmits V record.task.outputSchema output ∧ output.contains "phase_outputs" = false ∧
      checkpoint =
        { checkpointId := newId
          checkpointNs := latest.checkpointNs
          next := next
          values := applyDelta latest.values (phaseDataDelta record.task.address.phaseId output)
            (completionFlow (completionOf record result resultHash output)) } := by
  rw [← validateAgentResult_ok_iff htask hout]
  cases hv : validateAgentResult V record.task result with
  | error message => simp [hostPath, hv, bind, Except.bind]
  | ok u =>
    simp only [hostPath, hv, bind, Except.bind, applyExternalPhaseCompletion, completionOf, htask,
      hp.unmarked, hp.checkpointId, hp.checkpointNs, hp.next]
    cases hc : output.contains "phase_outputs" with
    | true => simp
    | false => simp [eq_comm]

theorem updatesOf_embeddedResult (before : BusinessData) (flow : Option FlowUpdate)
    (messages : List Value) : m.updatesOf before (embeddedResult output flow messages) = output := by
  simp [StateMapper.updatesOf, embeddedResult]

theorem acceptUpdates_ok_iff (updates outputs : Dict String Value) :
    m.acceptUpdates V hooks updates = .ok outputs ↔
      validatePhaseUpdatesAgainstSchema V (flatUpdates m.outputSchema m.phaseId updates)
          m.outputSchema mappingFailed m.phaseId = .ok () ∧
        m.validatedOutputs V hooks (flatUpdates m.outputSchema m.phaseId updates) = .ok outputs ∧
        refuseFrameworkKeys outputs = .ok () := by
  constructor
  · intro h
    obtain ⟨hv, hs, hr⟩ := StateMapper.acceptUpdates_ok h
    exact ⟨hs, hv, hr⟩
  · rintro ⟨hs, hv, hr⟩
    simp [StateMapper.acceptUpdates, hs, hv, hr, bind, Except.bind, pure, Except.pure]

theorem wrapPhaseOutput_embedded_ok {state : WorkflowState} {flow : Option FlowUpdate}
    {messages : List Value} {delta : PhaseDelta}
    (h : m.wrapPhaseOutput V hooks state (embeddedResult output flow messages) = .ok delta) :
    ∃ outputs, m.acceptUpdates V hooks output = .ok outputs ∧
      delta.data = phaseDataDelta m.phaseId outputs := by
  obtain ⟨outputs, ho, hd⟩ := StateMapper.wrapPhaseOutput_ok h (by simp [embeddedResult])
  rw [updatesOf_embeddedResult] at ho
  exact ⟨outputs, ho, hd⟩

theorem wrapPhaseOutput_embedded_of_accept {outputs : Dict String Value}
    (h : m.acceptUpdates V hooks output = .ok outputs) (state : WorkflowState)
    (flow : Option FlowUpdate) (messages : List Value) :
    ∃ delta, m.wrapPhaseOutput V hooks state (embeddedResult output flow messages) = .ok delta ∧
      delta.data = phaseDataDelta m.phaseId outputs := by
  refine ⟨{ data := phaseDataDelta m.phaseId outputs
            flow := phaseFlowDelta m.phaseId hooks.executionId state.flow flow
            messages := messages }, ?_, rfl⟩
  have hu : m.updatesOf state.data (embeddedResult output flow messages) = output :=
    updatesOf_embeddedResult state.data flow messages
  unfold embeddedResult at hu
  simp only [StateMapper.wrapPhaseOutput, embeddedResult, hu, h, bind, Except.bind, pure, Except.pure]

theorem validatePhaseUpdates_ok_iff {schema : Schema} {payload : Dict String Value} {code phaseId : String} :
    validatePhaseUpdatesAgainstSchema V payload (some schema) code phaseId = .ok () ↔
      MapperAdmits V schema payload := by
  have hundeclared : sortKeys (undeclaredKeys payload (some schema)) = [] ↔
      (schemaProperties (some schema) ≠ [] → ∀ k ∈ payload.keys, k ∈ schemaProperties (some schema)) := by
    unfold sortKeys undeclaredKeys
    rw [List.eq_nil_iff_length_eq_zero, List.length_insertionSort, ← List.eq_nil_iff_length_eq_zero]
    split
    · rename_i hnil
      simp [hnil]
    · rename_i hne
      have hdeclares : schemaProperties (some schema) ≠ [] := hne
      simp [List.filter_eq_nil_iff, hdeclares]
  unfold validatePhaseUpdatesAgainstSchema
  split
  · rename_i key rest hkeys
    refine iff_of_false (by simp) fun h => ?_
    rw [hundeclared.mpr h.declared] at hkeys
    cases hkeys
  · rename_i hkeys
    have hdeclared := hundeclared.mp hkeys
    dsimp only
    split_ifs with hempty
    · simp only [true_iff]
      exact ⟨hdeclared, fun hne => absurd (by simpa using hempty) hne⟩
    · have hne : schema.entries ≠ [] := by simpa using hempty
      cases hcheck : V.checkSchema (.ofDict schema) with
      | some message =>
        refine iff_of_false (by simp) fun h => ?_
        rw [(h.valid hne).1] at hcheck
        cases hcheck
      | none =>
        dsimp only
        split
        · rename_i herrors
          simp only [true_iff]
          exact ⟨hdeclared, fun _ => ⟨hcheck, herrors⟩⟩
        · rename_i error errors herrors
          refine iff_of_false (by simp) fun h => ?_
          rw [(h.valid hne).2] at herrors
          cases herrors

theorem refuseFrameworkKeys_ok_iff {payload : Dict String Value} :
    refuseFrameworkKeys payload = .ok () ↔ Business payload := by
  unfold refuseFrameworkKeys Business
  split
  · rename_i k hk
    refine iff_of_false (by simp) fun h => ?_
    have hprefix := List.find?_some hk
    rw [h k (List.mem_of_find?_eq_some hk)] at hprefix
    cases hprefix
  · rename_i hnone
    simpa [List.find?_eq_none] using hnone

theorem validatedOutputs_ok_iff {schema : Schema} (hschema : m.outputSchema = some schema)
    {payload outputs : Dict String Value} :
    m.validatedOutputs V hooks payload = .ok outputs ↔
      (authorVerdict m hooks payload = .keeps ∧ outputs = payload) ∨
      (authorVerdict m hooks payload = .replaces outputs ∧ MapperAdmits V schema outputs) := by
  unfold StateMapper.validatedOutputs authorVerdict
  cases hooks.validator with
  | none => simp [eq_comm]
  | some validator =>
    dsimp only
    unfold runPhaseValidator
    cases validator payload hooks.stateSlice m.phaseId with
    | error raised =>
      dsimp only
      split_ifs <;> simp [eq_comm]
    | ok answer =>
      cases answer with
      | null => simp [eq_comm]
      | dict kvs =>
        rw [hschema]
        simp only [reduceCtorEq, false_and, false_or, AuthorVerdict.replaces.injEq]
        rw [← @validatePhaseUpdates_ok_iff _ _ _ hooks.validatorErrorCode m.phaseId]
        constructor
        · intro h
          obtain ⟨⟨⟩, hvalid, hkept⟩ := bind_ok h
          obtain rfl := Except.ok.inj hkept
          exact ⟨rfl, hvalid⟩
        · rintro ⟨rfl, hvalid⟩
          rw [hvalid]
          rfl
      | _ => simp

theorem acceptUpdates_iff_not_refused {schema : Schema} (hschema : m.outputSchema = some schema) :
    (∃ outputs, m.acceptUpdates V hooks output = .ok outputs) ↔
      ¬ Refused V schema (authorVerdict m hooks (flatUpdates (some schema) m.phaseId output))
        (flatUpdates (some schema) m.phaseId output) := by
  simp only [acceptUpdates_ok_iff, hschema, validatePhaseUpdates_ok_iff, refuseFrameworkKeys_ok_iff,
    validatedOutputs_ok_iff hschema]
  unfold Refused
  cases authorVerdict m hooks (flatUpdates (some schema) m.phaseId output) with
  | keeps => simp
  | replaces outputs => simp [and_assoc]
  | refuses => simp

def DeltasAgree (V : Draft202012) (m : StateMapper) (hooks : PhaseHooks) (schema : Schema)
    (output : Dict String Value) : Prop :=
  ((RawAdmits V schema output ∧ output.contains "phase_outputs" = false) ↔
      ∃ outputs, m.acceptUpdates V hooks output = .ok outputs) ∧
    ∀ outputs, RawAdmits V schema output → output.contains "phase_outputs" = false →
      m.acceptUpdates V hooks output = .ok outputs → ∀ current : BusinessData,
      (mergeBusinessChannel current (.delta (phaseDataDelta m.phaseId output))).Same
          (mergeBusinessChannel current (.delta (phaseDataDelta m.phaseId outputs))) ∧
        FrameSafe (schemaProperties m.outputSchema) output current

def pausedCheckpoint (record : AgentHandoffRecord) (data : BusinessData) : Checkpoint where
  checkpointId := record.checkpointId
  checkpointNs := record.checkpointNs
  next := [record.task.address.phaseId]
  values := { data := data, flow := {}, messages := [] }

theorem pausedCheckpoint_pausedAt (data : BusinessData) :
    PausedAt record (pausedCheckpoint record data) := ⟨rfl, rfl, rfl, rfl⟩

theorem hostRefinesEmbedded_iff_deltasAgree (htask : result.taskId = record.task.taskId)
    (hout : result.completedOutput = some output)
    (hphase : m.phaseId = record.task.address.phaseId) :
    HostRefinesEmbedded V m hooks record result output ↔
      DeltasAgree V m hooks record.task.outputSchema output := by
  constructor
  · intro h
    have hat := fun data : BusinessData =>
      h (pausedCheckpoint record data) ⟨data, {}, []⟩ none [] "" "" [] (pausedCheckpoint_pausedAt data) rfl
    constructor
    · constructor
      · rintro ⟨hraw, hpo⟩
        obtain ⟨delta, hd⟩ := (hat ∅).1.mp
          ⟨_, (hostPath_ok_iff htask hout (pausedCheckpoint_pausedAt ∅) _ _ _ _).mpr ⟨hraw, hpo, rfl⟩⟩
        obtain ⟨outputs, ho, -⟩ := wrapPhaseOutput_embedded_ok hd
        exact ⟨outputs, ho⟩
      · rintro ⟨outputs, ho⟩
        obtain ⟨delta, hd, -⟩ := wrapPhaseOutput_embedded_of_accept ho ⟨∅, {}, []⟩ none []
        obtain ⟨checkpoint, hc⟩ := (hat ∅).1.mpr ⟨delta, hd⟩
        obtain ⟨hraw, hpo, -⟩ :=
          (hostPath_ok_iff htask hout (pausedCheckpoint_pausedAt ∅) _ _ _ _).mp hc
        exact ⟨hraw, hpo⟩
    · intro outputs hraw hpo ho current
      obtain ⟨delta, hd, hdata⟩ := wrapPhaseOutput_embedded_of_accept ho ⟨current, {}, []⟩ none []
      obtain ⟨hsame, hframe⟩ := (hat current).2 _ delta
        ((hostPath_ok_iff htask hout (pausedCheckpoint_pausedAt current) _ _ _ _).mpr ⟨hraw, hpo, rfl⟩) hd
      rw [hdata] at hsame
      simp only [applyDelta, pausedCheckpoint, ← hphase] at hsame hframe
      exact ⟨hsame, phaseFrame_phaseDataDelta_iff.mp hframe⟩
  · rintro ⟨haccept, hsame⟩ latest state flow messages resultHash newId next hp hdata
    constructor
    · constructor
      · rintro ⟨checkpoint, hc⟩
        obtain ⟨hraw, hpo, -⟩ := (hostPath_ok_iff htask hout hp _ _ _ _).mp hc
        obtain ⟨outputs, ho⟩ := haccept.mp ⟨hraw, hpo⟩
        obtain ⟨delta, hd, -⟩ := wrapPhaseOutput_embedded_of_accept ho state flow messages
        exact ⟨delta, hd⟩
      · rintro ⟨delta, hd⟩
        obtain ⟨outputs, ho, -⟩ := wrapPhaseOutput_embedded_ok hd
        obtain ⟨hraw, hpo⟩ := haccept.mpr ⟨outputs, ho⟩
        exact ⟨_, (hostPath_ok_iff htask hout hp _ _ _ _).mpr ⟨hraw, hpo, rfl⟩⟩
    · intro checkpoint delta hc hd
      obtain ⟨hraw, hpo, rfl⟩ := (hostPath_ok_iff htask hout hp _ _ _ _).mp hc
      obtain ⟨outputs, ho, hdelta⟩ := wrapPhaseOutput_embedded_ok hd
      obtain ⟨hs, hf⟩ := hsame outputs hraw hpo ho state.data
      rw [hdelta]
      simp only [applyDelta, ← hphase, ← hdata]
      exact ⟨hs, phaseFrame_phaseDataDelta_iff.mpr hf⟩

theorem no_inputs_of_merges_same {phaseId : String} {outputs : Dict String Value}
    (hin : output.get? "inputs" = none)
    (h : ∀ current : BusinessData,
      (mergeBusinessChannel current (.delta (phaseDataDelta phaseId output))).Same
        (mergeBusinessChannel current (.delta (phaseDataDelta phaseId outputs)))) :
    outputs.get? "inputs" = none := by
  cases ho : outputs.get? "inputs" with
  | none => rfl
  | some v =>
    exfalso
    have hne : phaseId ≠ phaseId ++ "x" := by
      intro he
      have hlen := congrArg String.length he
      simp at hlen
    have hat : ∀ current, phaseOutputAt current (phaseId ++ "x") =
        phaseOutputAt (mergeBusinessChannel current (.delta (phaseDataDelta phaseId outputs)))
          (phaseId ++ "x") := by
      intro current
      have hrec : phaseOutputAt (mergeBusinessChannel current (.delta (phaseDataDelta phaseId output)))
          (phaseId ++ "x") = _ := phaseOutputAt_merge_phaseDataDelta hin (phaseId ++ "x")
      rw [if_neg hne] at hrec
      rw [← hrec, phaseOutputAt, phaseOutputAt, dictAt, dictAt, h current]
    have hconst : ∀ current current' : BusinessData,
        phaseOutputAt current (phaseId ++ "x") = phaseOutputAt current' (phaseId ++ "x") := by
      intro current current'
      rw [hat current, hat current', phaseOutputAt, phaseOutputAt, dictAt, dictAt,
        get?_merge_phaseDataDelta_inputs ho, get?_merge_phaseDataDelta_inputs ho]
    have hboth := hconst ∅
      (Dict.single "phase_outputs" (.ofDict (Dict.single (phaseId ++ "x") .null)))
    rw [phaseOutputAt_single, if_pos rfl] at hboth
    cases hboth

theorem outputs_eq_of_merges_same {phaseId : String} {outputs : Dict String Value}
    (hin : output.get? "inputs" = none)
    (h : ∀ current : BusinessData,
      (mergeBusinessChannel current (.delta (phaseDataDelta phaseId output))).Same
        (mergeBusinessChannel current (.delta (phaseDataDelta phaseId outputs)))) :
    outputs = output := by
  have hout := no_inputs_of_merges_same hin h
  have hrec : ∀ d : Dict String Value, d.get? "inputs" = none →
      phaseOutputAt (mergeBusinessChannel ∅ (.delta (phaseDataDelta phaseId d))) phaseId =
        some (.ofDict d) := fun d hd => by
    rw [phaseOutputAt_merge_phaseDataDelta hd, if_pos rfl]
  have heq : some (Value.ofDict output) = some (Value.ofDict outputs) := by
    rw [← hrec output hin, ← hrec outputs hout, phaseOutputAt, phaseOutputAt, dictAt, dictAt, h ∅]
  exact (Value.ofDict_inj (Option.some.inj heq)).symm

theorem get?_none_of_not_contains {k : String} (h : output.contains k = false) :
    output.get? k = none := by
  simpa [Dict.contains] using h

theorem frameSafe_of_declared (hin : output.get? "inputs" = none)
    (hpo : output.get? "phase_outputs" = none)
    (hd : ∀ k ∈ output.keys, k ∈ schemaProperties m.outputSchema) (current : BusinessData) :
    FrameSafe (schemaProperties m.outputSchema) output current where
  no_inputs := hin
  no_phase_outputs _ := hpo
  carried k v _ hv := Or.inl (hd k (Dict.mem_keys.mpr (by simp [hv])))

theorem Unaltered.accepted {schema : Schema} (hschema : m.outputSchema = some schema)
    (hopen : flatUpdates (some schema) m.phaseId output = output)
    (h : Unaltered V schema (authorVerdict m hooks output) output) : m.acceptUpdates V hooks output = .ok output := by
  rw [acceptUpdates_ok_iff, hschema, hopen, validatePhaseUpdates_ok_iff, refuseFrameworkKeys_ok_iff,
    validatedOutputs_ok_iff hschema]
  refine ⟨h.admitted, ?_, h.business⟩
  rcases h.author with hkeeps | hreplaces
  · exact .inl ⟨hkeeps, rfl⟩
  · exact .inr ⟨hreplaces, h.admitted⟩

theorem unaltered_of_accepted {schema : Schema} (hschema : m.outputSchema = some schema)
    (hopen : flatUpdates (some schema) m.phaseId output = output) (h : m.acceptUpdates V hooks output = .ok output)
    (hdeclared : ∀ k ∈ output.keys, k ∈ schemaProperties (some schema)) :
    Unaltered V schema (authorVerdict m hooks output) output := by
  rw [acceptUpdates_ok_iff, hschema, hopen, validatePhaseUpdates_ok_iff, refuseFrameworkKeys_ok_iff,
    validatedOutputs_ok_iff hschema] at h
  obtain ⟨hadmitted, hauthor, hbusiness⟩ := h
  refine ⟨hdeclared, hbusiness, hadmitted, ?_⟩
  rcases hauthor with ⟨hkeeps, -⟩ | ⟨hreplaces, -⟩
  · exact .inl hkeeps
  · exact .inr hreplaces

theorem keys_declared_of_frames (hpo : output.get? "phase_outputs" = none)
    (h : FrameSafe (schemaProperties m.outputSchema) output ∅) :
    ∀ k ∈ output.keys, k ∈ schemaProperties m.outputSchema := by
  intro k hk
  obtain ⟨v, hkv⟩ := Option.isSome_iff_exists.mp (Dict.mem_keys.mp hk)
  have hne : k ≠ "phase_outputs" := by
    rintro rfl
    simp [hpo] at hkv
  rcases h.carried k v hne hkv with hd | hd
  · exact hd
  · simp at hd

theorem deltasAgree_iff_pathsAgree {schema : Schema} (hschema : m.outputSchema = some schema) :
    DeltasAgree V m hooks schema output ↔ PathsAgree V m hooks schema output := by
  unfold DeltasAgree PathsAgree
  rw [acceptUpdates_iff_not_refused hschema]
  cases hpo : output.contains "phase_outputs" with
  | true => simp
  | false =>
    cases hin : output.contains "inputs" with
    | true =>
      simp only [and_true, Bool.false_eq_true, ↓reduceIte]
      constructor
      · rintro ⟨haccept, hframe⟩
        have hraw : ¬ RawAdmits V schema output := by
          intro hraw
          obtain ⟨outputs, ho⟩ := (acceptUpdates_iff_not_refused hschema).mpr (haccept.mp hraw)
          have hno := (hframe outputs hraw trivial ho ∅).2.no_inputs
          simp [Dict.contains, hno] at hin
        exact ⟨hraw, by_contra fun hrefused => hraw (haccept.mpr hrefused)⟩
      · rintro ⟨hraw, hrefused⟩
        exact ⟨iff_of_false hraw (not_not_intro hrefused), fun outputs h => absurd h hraw⟩
    | false =>
      have hopen : flatUpdates (some schema) m.phaseId output = output := by
        simp [flatUpdates, hpo, hin]
      have hin' := get?_none_of_not_contains hin
      have hpo' := get?_none_of_not_contains hpo
      simp only [and_true, Bool.false_eq_true, ↓reduceIte, hopen]
      constructor
      · rintro ⟨haccept, hframe⟩
        by_cases hraw : RawAdmits V schema output
        · obtain ⟨outputs, hacc⟩ := (acceptUpdates_iff_not_refused hschema).mpr
            (by rw [hopen]; exact haccept.mp hraw)
          obtain rfl := outputs_eq_of_merges_same hin' fun current => (hframe outputs hraw trivial hacc current).1
          have hdeclared := keys_declared_of_frames hpo' (hframe _ hraw trivial hacc ∅).2
          rw [hschema] at hdeclared
          exact .inl ⟨hraw, unaltered_of_accepted hschema hopen hacc hdeclared⟩
        · exact .inr ⟨hraw, by_contra fun hrefused => hraw (haccept.mpr hrefused)⟩
      · rintro (⟨hraw, hunaltered⟩ | ⟨hraw, hrefused⟩)
        · have htaken := hunaltered.accepted hschema hopen
          have hnot := (acceptUpdates_iff_not_refused hschema).mp ⟨output, htaken⟩
          rw [hopen] at hnot
          refine ⟨iff_of_true hraw hnot, fun outputs _ _ hacc current => ?_⟩
          obtain rfl := Except.ok.inj (htaken.symm.trans hacc)
          have hdeclared := hunaltered.declared
          rw [← hschema] at hdeclared
          exact ⟨Dict.Same.refl _, frameSafe_of_declared hin' hpo' hdeclared current⟩
        · exact ⟨iff_of_false hraw (not_not_intro hrefused), fun outputs h => absurd h hraw⟩

end

def phaseMapper (record : AgentHandoffRecord) (inputSchema : Option Schema)
    (downgrade : Option (String → String → Bool)) : StateMapper where
  inputSchema := inputSchema
  outputSchema := some record.task.outputSchema
  phaseId := record.task.address.phaseId
  validatorDowngradeHook := downgrade

theorem host_refines_embedded_iff (V : Draft202012) (record : AgentHandoffRecord)
    (inputSchema : Option Schema) (downgrade : Option (String → String → Bool)) (hooks : PhaseHooks)
    (result : AgentResult) (output : Dict String Value)
    (htask : result.taskId = record.task.taskId) (hout : result.completedOutput = some output) :
    HostRefinesEmbedded V (phaseMapper record inputSchema downgrade) hooks record result output ↔
      PathsAgree V (phaseMapper record inputSchema downgrade) hooks record.task.outputSchema output :=
  (hostRefinesEmbedded_iff_deltasAgree htask hout rfl).trans (deltasAgree_iff_pathsAgree rfl)

def writeRequest : RunRequest where
  runId := "r1"
  inputs := Dict.single "topic" (.str "tides")

def writeTask : AgentTask where
  taskId := "t1"
  runId := "r1"
  address := ⟨"main", "write"⟩
  inputs := Dict.single "topic" (.str "tides")
  outputSchema := Dict.ofList [("type", .str "object"),
    ("properties", .dict [("draft", .dict [("type", .str "string")])])]
  deadline := none

def writeRecord : AgentHandoffRecord where
  checkpointRef := "gskill-handoff-v1:t1"
  task := writeTask
  checkpointId := "c1"
  checkpointNs := ""
  requiredResponse :=
    { status := .agentRequired writeTask "gskill-handoff-v1:t1"
      runId := "r1"
      mode := .run
      request := writeRequest
      outputs := Dict.single "topic" (.str "tides") }

def completedResult (output : Dict String Value) : AgentResult where
  taskId := "t1"
  status := .completed
  output := some output
  executorId := "host"
  completed_output := fun _ => rfl
  terminal_error := fun h => absurd rfl h

theorem host_refines_embedded_draft :
    HostRefinesEmbedded acceptingValidator (phaseMapper writeRecord none none) {} writeRecord
      (completedResult (Dict.single "draft" (.str "text"))) (Dict.single "draft" (.str "text")) := by
  refine (host_refines_embedded_iff acceptingValidator writeRecord none none {} _ _ rfl rfl).mpr ?_
  have hdeclared : ∀ k ∈ (Dict.single "draft" (Value.str "text")).keys,
      k ∈ schemaProperties (some writeRecord.task.outputSchema) := by decide
  refine .inl ⟨⟨rfl, rfl⟩, hdeclared, ?_, ⟨fun _ => hdeclared, fun _ => ⟨rfl, rfl⟩⟩, .inl rfl⟩
  intro k hk
  obtain rfl : k = "draft" := List.mem_singleton.mp hk
  decide

theorem host_accepts_undeclared_field :
    ¬ HostRefinesEmbedded acceptingValidator (phaseMapper writeRecord none none) {} writeRecord
      (completedResult (Dict.ofList [("draft", .str "text"), ("notes", .str "aside")]))
      (Dict.ofList [("draft", .str "text"), ("notes", .str "aside")]) := by
  rw [hostRefinesEmbedded_iff_deltasAgree rfl rfl rfl, deltasAgree_iff_pathsAgree rfl]
  rintro (⟨-, hunaltered⟩ | ⟨hraw, -⟩)
  · have hdeclared := hunaltered.declared "notes" (by decide)
    revert hdeclared
    decide
  · exact hraw ⟨rfl, rfl⟩

end GraphSkillRuntime
