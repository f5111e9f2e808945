import GraphSkillRuntime.RunContracts
import GraphSkillRuntime.TomlModels

/-!
The preset of a migrated skill: `gskill.toml` as the migration writes it, and the preset that the loader of the project
configuration finds there.
-/

namespace GraphSkillRuntime.PresetConfig

open OrderedDict JsonText PyData YamlModels RunContracts TomlModels

structure Floats (F : Type) where
  parse : Data F → Option F
  positive : F → Bool
  parse_float : ∀ x, parse (.float x) = some x
  parse_null : parse .null = none

def isIdentifier (s : String) : Bool :=
  match s.toList with
  | [] => false
  | c :: cs => (('A' ≤ c && c ≤ 'Z') || ('a' ≤ c && c ≤ 'z')) &&
      cs.all fun d => ('A' ≤ d && d ≤ 'Z') || ('a' ≤ d && d ≤ 'z') || ('0' ≤ d && d ≤ '9') || d == '_' || d == '.' ||
        d == '-'

def isSecretName (s : String) : Bool := 1 ≤ s.length && s.length ≤ 256

section Models

variable {F : Type} {Y : Dialects F}

theorem literal_reads (text : String) : ∀ a : Unit, (if text = text then some () else none) = some a :=
  fun _ => if_pos rfl

theorem literal_read (text : String) :
    ∀ s (a : Unit), (if s = text then some () else none) = some a → s = text :=
  fun _ _ h => (Option.ite_none_right_eq_some.mp h).1

def literal (text : String) : Model Y Unit :=
  Model.enumeration (fun _ => text) (fun s => if s = text then some () else none) (literal_reads text)
    (literal_read text)

def identifier : Model Y String := Model.text.guard isIdentifier

def jsonObject : Model Y (JsonObject F) :=
  built jsonValue .dict (fun v => match v with | .dict kvs => some kvs | _ => none) (fun _ => rfl) fun v kvs h => by
    cases v with
    | dict members => rw [Option.some.inj h]
    | _ => cases h

def optionalText : Model Y (Option String) := Model.text.option Model.text_null

def contract {β : Type} (schemaVersion kind : String) (fs : Fields Y β) : Fields Y (Unit × Unit × β) :=
  .cons "schema_version" none (some ()) (literal schemaVersion) <| .cons "kind" none (some ()) (literal kind) fs

def phaseAddressFields :=
  contract (Y := Y) "gskill.phase-address.v1" "phase_address" <|
    .cons "graph_id" none none identifier <| .cons "phase_id" none none identifier .nil

def phaseAddress : Model Y RunContracts.PhaseAddress :=
  (Model.record phaseAddressFields (by
    simp [phaseAddressFields, contract, Fields.names_cons, Fields.names_nil, Fields.aliases_cons,
      Fields.aliases_nil])).via
    { toFun := fun a => ((), (), a.graphId, a.phaseId, ())
      invFun := fun p => ⟨p.2.2.1, p.2.2.2.1⟩
      left_inv := fun _ => rfl
      right_inv := fun _ => rfl }

def secretSourceText : SecretSource → String
  | .environment => "environment"
  | .host => "host"
  | .keychain => "keychain"

def secretSourceOf (s : String) : Option SecretSource :=
  if s = "environment" then some .environment
  else if s = "host" then some .host
  else if s = "keychain" then some .keychain
  else none

def secretSource : Model Y SecretSource :=
  Model.enumeration secretSourceText secretSourceOf (fun source => by cases source <;> rfl) fun s source h => by
    unfold secretSourceOf at h
    split_ifs at h with henvironment hhost hkeychain
    · rw [← Option.some.inj h, henvironment]
      rfl
    · rw [← Option.some.inj h, hhost]
      rfl
    · rw [← Option.some.inj h, hkeychain]
      rfl

def secretReferenceFields :=
  contract (Y := Y) "gskill.secret-reference.v1" "secret_reference" <|
    .cons "source" none none secretSource <| .cons "name" none none (Model.text.guard isSecretName) .nil

def secretReference : Model Y SecretReference :=
  (Model.record secretReferenceFields (by
    simp [secretReferenceFields, contract, Fields.names_cons, Fields.names_nil, Fields.aliases_cons,
      Fields.aliases_nil])).via
    { toFun := fun r => ((), (), r.source, r.name, ())
      invFun := fun p => ⟨p.2.2.1, p.2.2.2.1⟩
      left_inv := fun _ => rfl
      right_inv := fun _ => rfl }

def secretBindingFields :=
  contract (Y := Y) "gskill.secret-binding.v1" "secret_binding" <|
    .cons "input_name" none none identifier <| .cons "reference" none none secretReference .nil

def secretBinding : Model Y SecretBinding :=
  (Model.record secretBindingFields (by
    simp [secretBindingFields, contract, Fields.names_cons, Fields.names_nil, Fields.aliases_cons,
      Fields.aliases_nil])).via
    { toFun := fun b => ((), (), b.inputName, b.reference, ())
      invFun := fun p => ⟨p.2.2.1, p.2.2.2.1⟩
      left_inv := fun _ => rfl
      right_inv := fun _ => rfl }

def compareCandidateFields :=
  contract (Y := Y) "gskill.compare-candidate.v1" "compare_candidate" <|
    .cons "address" none none phaseAddress <| .cons "candidate_id" none none identifier <|
    .cons "model_override" none (some none) optionalText .nil

def compareCandidate : Model Y CompareCandidate :=
  (Model.record compareCandidateFields (by
    simp [compareCandidateFields, contract, Fields.names_cons, Fields.names_nil, Fields.aliases_cons,
      Fields.aliases_nil])).via
    { toFun := fun c => ((), (), c.address, c.candidateId, c.modelOverride, ())
      invFun := fun p => ⟨p.2.2.1, p.2.2.2.1, p.2.2.2.2.1⟩
      left_inv := fun _ => rfl
      right_inv := fun _ => rfl }

def artifactRequestFields :=
  contract (Y := Y) "gskill.artifact-request.v1" "artifact_request" <|
    .cons "artifact_id" none none identifier <| .cons "destination" none (some none) optionalText .nil

def artifactRequest : Model Y ArtifactRequest :=
  (Model.record artifactRequestFields (by
    simp [artifactRequestFields, contract, Fields.names_cons, Fields.names_nil, Fields.aliases_cons,
      Fields.aliases_nil])).via
    { toFun := fun r => ((), (), r.artifactId, r.destination, ())
      invFun := fun p => ⟨p.2.2.1, p.2.2.2.1⟩
      left_inv := fun _ => rfl
      right_inv := fun _ => rfl }

def inputBindingFields :=
  contract (Y := Y) "gskill.input-binding.v1" "input_binding" <|
    .cons "address" none none phaseAddress <| .cons "field" none none identifier <|
    .cons "value" none none jsonValue .nil

variable (fold : Char → List Char) (P : Floats F)

def inputBindingParts (b : InputBinding fold F) : Unit × Unit × RunContracts.PhaseAddress × String × Json F × Unit :=
  ((), (), b.address, b.field, b.value, ())

def buildInputBinding (parts : Unit × Unit × RunContracts.PhaseAddress × String × Json F × Unit) :
    Option (InputBinding fold F) :=
  match h : assertNoInlineSecrets fold parts.2.2.2.2.1
      ("bindings." ++ parts.2.2.1.value ++ "." ++ parts.2.2.2.1) with
  | .error _ => none
  | .ok () => some ⟨parts.2.2.1, parts.2.2.2.1, parts.2.2.2.2.1, h⟩

def inputBinding : Model Y (InputBinding fold F) :=
  built (Model.record inputBindingFields (by
    simp [inputBindingFields, contract, Fields.names_cons, Fields.names_nil, Fields.aliases_cons,
      Fields.aliases_nil]))
    (inputBindingParts fold) (buildInputBinding fold)
    (fun b => by
      unfold buildInputBinding
      split
      · next e h =>
        have hfree := b.literal_is_not_a_secret
        rw [show assertNoInlineSecrets fold b.value ("bindings." ++ b.address.value ++ "." ++ b.field) = .error e
          from h] at hfree
        cases hfree
      · rfl)
    fun parts b h => by
      unfold buildInputBinding at h
      split at h
      · cases h
      · obtain rfl := Option.some.inj h
        rfl

def timeout : Model Y F := (float P.parse P.parse_float).guard P.positive

theorem timeout_null : (timeout (Y := Y) P).validate .null = none := by
  change (P.parse .null).filter P.positive = none
  rw [P.parse_null, Option.filter_none]

def nodeOverrideFields :=
  contract (Y := Y) "gskill.node-override.v1" "node_override" <|
    .cons "address" none none phaseAddress <|
    .cons "timeout_seconds" none (some none) ((timeout P).option (timeout_null P)) <|
    .cons "custom_params" none (some []) jsonObject .nil

def nodeOverrideParts (o : NodeOverride fold F) :
    Unit × Unit × RunContracts.PhaseAddress × Option F × JsonObject F × Unit :=
  ((), (), o.address, o.timeoutSeconds, o.customParams, ())

def buildNodeOverride (parts : Unit × Unit × RunContracts.PhaseAddress × Option F × JsonObject F × Unit) :
    Option (NodeOverride fold F) :=
  match h : assertNoInlineSecrets fold (.dict parts.2.2.2.2.1) ("node_overrides." ++ parts.2.2.1.value) with
  | .error _ => none
  | .ok () => some ⟨parts.2.2.1, parts.2.2.2.1, parts.2.2.2.2.1, h⟩

def nodeOverride : Model Y (NodeOverride fold F) :=
  built (Model.record (nodeOverrideFields P) (by
    simp [nodeOverrideFields, contract, Fields.names_cons, Fields.names_nil, Fields.aliases_cons,
      Fields.aliases_nil]))
    (nodeOverrideParts fold) (buildNodeOverride fold)
    (fun o => by
      unfold buildNodeOverride
      split
      · next e h =>
        have hfree := o.params_do_not_persist_secrets
        rw [show assertNoInlineSecrets fold (.dict o.customParams) ("node_overrides." ++ o.address.value) = .error e
          from h] at hfree
        cases hfree
      · rfl)
    fun parts o h => by
      unfold buildNodeOverride at h
      split at h
      · cases h
      · obtain rfl := Option.some.inj h
        rfl

def presetDocumentFields :=
  Fields.cons "inputs" none (some []) (jsonObject (Y := Y)) <|
    .cons "secret_inputs" none (some []) secretBinding.list <|
    .cons "bindings" none (some []) (inputBinding fold).list <|
    .cons "breakpoints" none (some []) phaseAddress.list <|
    .cons "node_overrides" none (some []) (nodeOverride fold P).list <|
    .cons "compare_candidates" none (some []) compareCandidate.list <|
    .cons "artifact_requests" none (some []) artifactRequest.list .nil

def presetDocument : Model Y (PresetDocument fold F) :=
  (Model.record (presetDocumentFields fold P) (by
    simp [presetDocumentFields, Fields.names_cons, Fields.names_nil, Fields.aliases_cons,
      Fields.aliases_nil])).via
    { toFun := fun d => (d.inputs, d.secretInputs, d.bindings, d.breakpoints, d.nodeOverrides, d.compareCandidates,
        d.artifactRequests, ())
      invFun := fun p => ⟨p.1, p.2.1, p.2.2.1, p.2.2.2.1, p.2.2.2.2.1, p.2.2.2.2.2.1, p.2.2.2.2.2.2.1⟩
      left_inv := fun _ => rfl
      right_inv := fun _ => rfl }

end Models

section

variable {fold : Char → List Char} {F : Type}

def documentOf (p : RunPreset fold F) : PresetDocument fold F where
  inputs := p.inputs
  secretInputs := p.secretInputs
  bindings := p.bindings
  breakpoints := p.breakpoints
  nodeOverrides := p.nodeOverrides
  compareCandidates := p.compareCandidates
  artifactRequests := p.artifactRequests

variable (T : Toml F) (P : Floats F) (overlay : Data F → Option (RuntimeProfileOverlay F))

/-- `none` is what `tomli_w` raises. -/
def projectConfigText (preset : RunPreset fold F) : Option T.Text :=
  ((presetDocument (Y := plain F) fold P).dump (documentOf preset)).bind fun presetData =>
    T.dumps (.dict [(.str "schema_version", .str "gskill.config.v1"),
      (.str "presets", .dict [(.str preset.presetId, presetData)])])

def presetsOf : List (Key × Data F) → Option (List (String × PresetDocument fold F))
  | [] => some []
  | (key, data) :: rest => do
    let presetId ← key.str?
    let document ← (presetDocument (Y := plain F) fold P).validate data
    let documents ← presetsOf rest
    return (presetId, document) :: documents

def presetsField : Option (Data F) → Option (List (String × PresetDocument fold F))
  | none => some []
  | some (.dict presets) => presetsOf P presets
  | some _ => none

/-- `_ProjectConfigDocument.model_validate`; `overlay` validates a runtime overlay. -/
def validateProjectConfig : Data F → Option (ProjectConfigDocument fold F)
  | .dict members =>
    if members.all fun e => e.1.str?.any ["schema_version", "runtime", "presets"].contains then
      match lookup members "schema_version" with
      | some (.str "gskill.config.v1") => do
        let runtime ← (lookup members "runtime").elim (some {}) overlay
        let presets ← presetsField P (lookup members "presets")
        return { runtime, presets }
      | _ => none
    else none
  | _ => none

def loadPreset (text : T.Text) (presetId : String) : Option (RunPreset fold F) := do
  let data ← T.loads text
  let project ← validateProjectConfig P overlay data
  let document ← Dict.find project.presets presetId
  (document.toPreset presetId).toOption

theorem toPreset_documentOf (p : RunPreset fold F) : (documentOf p).toPreset p.presetId = .ok p := by
  unfold PresetDocument.toPreset
  split
  · next e h =>
    have hfree := p.preset_does_not_persist_inline_secrets
    rw [show assertNoInlineSecrets fold (.dict p.inputs) ("presets." ++ p.presetId ++ ".inputs") = .error e
      from h] at hfree
    cases hfree
  · rfl

theorem document_of_toPreset {d : PresetDocument fold F} {p : RunPreset fold F}
    (h : d.toPreset p.presetId = .ok p) : d = documentOf p := by
  unfold PresetDocument.toPreset at h
  split at h
  · cases h
  · exact congrArg documentOf (Except.ok.inj h)

end

/-! What is written in full, and where a null is written. -/

section Written

variable {F : Type} {Y : Dialects F} {fold : Char → List Char} {P : Floats F}

theorem neverNull_guard {α : Type} {c : Model Y α} {ok : α → Bool} (h : c.NeverNull) : (c.guard ok).NeverNull := h

theorem literal_neverNull (text : String) : (literal (Y := Y) text).NeverNull := Model.neverNull_enumeration

theorem identifier_neverNull : (identifier (Y := Y)).NeverNull := neverNull_guard Model.neverNull_text

theorem phaseAddress_neverNull : (phaseAddress (Y := Y)).NeverNull := Model.neverNull_via Model.neverNull_record

theorem jsonObject_neverNull : (jsonObject (Y := Y)).NeverNull := fun _ h => by cases Option.some.inj h

theorem kept_contract {β : Type} {schemaVersion kind : String} {fs : Fields Y β} {b : β} :
    (contract schemaVersion kind fs).Kept ((), (), b) ↔ fs.Kept b := by
  rw [contract, Fields.kept_cons (literal_neverNull _), Fields.kept_cons (literal_neverNull _)]
  exact ⟨fun h => h.2.2, fun h => ⟨trivial, trivial, h⟩⟩

theorem phaseAddress_kept (a : RunContracts.PhaseAddress) : (phaseAddress (Y := Y)).Kept a := by
  change (phaseAddressFields (Y := Y)).Kept ((), (), a.graphId, a.phaseId, ())
  rw [phaseAddressFields, kept_contract, Fields.kept_cons identifier_neverNull, Fields.kept_cons identifier_neverNull]
  exact ⟨trivial, trivial, trivial⟩

theorem secretSource_neverNull : (secretSource (Y := Y)).NeverNull := Model.neverNull_enumeration

theorem secretReference_neverNull : (secretReference (Y := Y)).NeverNull := Model.neverNull_via Model.neverNull_record

theorem secretBinding_kept (b : SecretBinding) : (secretBinding (Y := Y)).Kept b := by
  have hreference : (secretReference (Y := Y)).Kept b.reference := by
    change (secretReferenceFields (Y := Y)).Kept ((), (), b.reference.source, b.reference.name, ())
    rw [secretReferenceFields, kept_contract, Fields.kept_cons secretSource_neverNull,
      Fields.kept_cons (neverNull_guard Model.neverNull_text)]
    exact ⟨trivial, trivial, trivial⟩
  change (secretBindingFields (Y := Y)).Kept ((), (), b.inputName, b.reference, ())
  rw [secretBindingFields, kept_contract, Fields.kept_cons identifier_neverNull,
    Fields.kept_cons secretReference_neverNull]
  exact ⟨trivial, hreference, trivial⟩

theorem compareCandidate_kept (candidate : CompareCandidate) : (compareCandidate (Y := Y)).Kept candidate := by
  change (compareCandidateFields (Y := Y)).Kept
    ((), (), candidate.address, candidate.candidateId, candidate.modelOverride, ())
  rw [compareCandidateFields, kept_contract, Fields.kept_cons phaseAddress_neverNull,
    Fields.kept_cons identifier_neverNull, optionalText, Fields.kept_optional Model.neverNull_text]
  exact ⟨phaseAddress_kept _, trivial, fun _ _ => trivial, trivial⟩

theorem artifactRequest_kept (r : ArtifactRequest) : (artifactRequest (Y := Y)).Kept r := by
  change (artifactRequestFields (Y := Y)).Kept ((), (), r.artifactId, r.destination, ())
  rw [artifactRequestFields, kept_contract, Fields.kept_cons identifier_neverNull, optionalText,
    Fields.kept_optional Model.neverNull_text]
  exact ⟨trivial, fun _ _ => trivial, trivial⟩

theorem nodeOverride_kept (o : NodeOverride fold F) : (nodeOverride (Y := Y) fold P).Kept o := by
  change (nodeOverrideFields (Y := Y) P).Kept ((), (), o.address, o.timeoutSeconds, o.customParams, ())
  have htimeout : (timeout (Y := Y) P).NeverNull := fun _ h => by cases Option.some.inj h
  rw [nodeOverrideFields, kept_contract, Fields.kept_cons phaseAddress_neverNull, Fields.kept_optional htimeout,
    Fields.kept_cons jsonObject_neverNull]
  exact ⟨phaseAddress_kept _, fun _ _ => trivial, trivial, trivial⟩

theorem ofJson_null {v : Json F} : ofJson v = .null ↔ v = .null := by
  cases v <;> simp [ofJson]

theorem inputBinding_kept (b : InputBinding fold F) : (inputBinding (Y := Y) fold).Kept b ↔ b.value ≠ .null := by
  change (inputBindingFields (Y := Y)).Kept ((), (), b.address, b.field, b.value, ()) ↔ _
  rw [inputBindingFields, kept_contract, Fields.kept_cons phaseAddress_neverNull,
    Fields.kept_cons identifier_neverNull]
  constructor
  · rintro ⟨-, -, hdefault, -⟩ hnull
    rw [hnull] at hdefault
    cases hdefault rfl
  · intro hne
    refine ⟨phaseAddress_kept _, trivial, ?_, fun _ => trivial, trivial⟩
    intro hnull
    exact absurd (ofJson_null.mp (Option.some.inj hnull)) hne

theorem presetDocument_kept (d : PresetDocument fold F) :
    (presetDocument (Y := Y) fold P).Kept d ↔ ∀ b ∈ d.bindings, b.value ≠ .null := by
  change (presetDocumentFields (Y := Y) fold P).Kept (d.inputs, d.secretInputs, d.bindings, d.breakpoints,
    d.nodeOverrides, d.compareCandidates, d.artifactRequests, ()) ↔ _
  rw [presetDocumentFields, Fields.kept_cons jsonObject_neverNull, Fields.kept_cons Model.neverNull_list,
    Fields.kept_cons Model.neverNull_list, Fields.kept_cons Model.neverNull_list,
    Fields.kept_cons Model.neverNull_list, Fields.kept_cons Model.neverNull_list,
    Fields.kept_cons Model.neverNull_list]
  constructor
  · rintro ⟨-, -, hbindings, -⟩ b hb
    exact (inputBinding_kept b).mp (hbindings b hb)
  · intro hvalues
    exact ⟨trivial, fun b _ => secretBinding_kept b, fun b hb => (inputBinding_kept b).mpr (hvalues b hb),
      fun a _ => phaseAddress_kept a, fun o _ => nodeOverride_kept o, fun c _ => compareCandidate_kept c,
      fun r _ => artifactRequest_kept r, trivial⟩

theorem rendered_contract {β : Type} {schemaVersion kind : String} {fs : Fields Y β} {nulls : β → Prop}
    (h : FieldsRendered fs nulls) : FieldsRendered (contract schemaVersion kind fs) fun a => nulls a.2.2 := by
  intro a hok
  obtain ⟨kvs, hkvs, htidy, hnulls⟩ := rendered_cons rendered_enumeration (rendered_cons rendered_enumeration h) a hok
  exact ⟨kvs, hkvs, htidy, hnulls.trans (by simp)⟩

theorem rendered_identifier : Rendered (identifier (Y := Y)) fun _ => False := rendered_guard rendered_text _

theorem rendered_optionalText : Rendered (optionalText (Y := Y)) fun s => s = none :=
  (rendered_option rendered_text).congr fun s => by simp

theorem rendered_jsonObject : Rendered (jsonObject (Y := Y)) fun kvs => holdsNull (ofJson (.dict kvs)) = true :=
  rendered_built rendered_json

theorem rendered_phaseAddress : Rendered (phaseAddress (Y := Y)) fun _ => False := by
  refine (rendered_via (rendered_record (rendered_contract (rendered_cons rendered_identifier
    (rendered_cons rendered_identifier rendered_nil)))) _).congr ?_
  simp

theorem rendered_secretBinding : Rendered (secretBinding (Y := Y)) fun _ => False := by
  have hreference : Rendered (secretReference (Y := Y)) fun _ => False := by
    refine (rendered_via (rendered_record (rendered_contract (rendered_cons rendered_enumeration
      (rendered_cons (rendered_guard rendered_text _) rendered_nil)))) _).congr ?_
    simp
  refine (rendered_via (rendered_record (rendered_contract (rendered_cons rendered_identifier
    (rendered_cons hreference rendered_nil)))) _).congr ?_
  simp

theorem optionalText_null {s : Option String} (h : s = none) : (optionalText (Y := Y)).dump s = some .null := by
  rw [h]
  rfl

theorem rendered_compareCandidate : Rendered (compareCandidate (Y := Y)) fun _ => False := by
  refine (rendered_via (rendered_record (rendered_contract (rendered_cons rendered_phaseAddress
    (rendered_cons rendered_identifier (rendered_cons rendered_optionalText rendered_nil))))) _).congr ?_
  intro candidate
  simp only [and_false, or_false, false_or, iff_false, not_and]
  exact fun hne hnone => hne (optionalText_null hnone)

theorem rendered_artifactRequest : Rendered (artifactRequest (Y := Y)) fun _ => False := by
  refine (rendered_via (rendered_record (rendered_contract (rendered_cons rendered_identifier
    (rendered_cons rendered_optionalText rendered_nil)))) _).congr ?_
  intro r
  simp only [and_false, or_false, false_or, iff_false, not_and]
  exact fun hne hnone => hne (optionalText_null hnone)

def NullInside (v : Json F) : Prop := v ≠ .null ∧ holdsNull (ofJson v) = true

theorem rendered_inputBinding : Rendered (inputBinding (Y := Y) fold) fun b => NullInside b.value := by
  refine (rendered_built (rendered_record (rendered_contract (rendered_cons rendered_phaseAddress
    (rendered_cons rendered_identifier (rendered_cons rendered_json rendered_nil)))))).congr ?_
  intro b
  simp only [and_false, or_false, false_or, NullInside, inputBindingParts, jsonValue, ne_eq, Option.some_inj,
    ofJson_null]

theorem rendered_nodeOverride :
    Rendered (nodeOverride (Y := Y) fold P) fun o => NullInside (.dict o.customParams) := by
  refine (rendered_built (rendered_record (rendered_contract (rendered_cons rendered_phaseAddress
    (rendered_cons (rendered_option (rendered_guard rendered_float _))
      (rendered_cons rendered_jsonObject rendered_nil)))))).congr ?_
  intro o
  have htimeout : o.timeoutSeconds = none → ((timeout (Y := Y) P).option (timeout_null P)).dump o.timeoutSeconds =
      some .null := by
    intro h
    rw [h]
    rfl
  have hparams := jsonObject_neverNull (Y := Y) o.customParams
  simp only [and_false, or_false, false_or, exists_false, nodeOverrideParts, NullInside]
  constructor
  · rintro (⟨hne, hnone⟩ | ⟨-, hnull⟩)
    · exact absurd (htimeout hnone) hne
    · exact ⟨by simp, hnull⟩
  · rintro ⟨-, hnull⟩
    exact .inr ⟨hparams, hnull⟩

/-- The nulls that are written: in the inputs, inside the value of a binding, and in custom parameters. -/
structure HoldsNull (d : PresetDocument fold F) : Prop where
  place : NullInside (.dict d.inputs) ∨ (∃ b ∈ d.bindings, NullInside b.value) ∨
    ∃ o ∈ d.nodeOverrides, NullInside (.dict o.customParams)

theorem rendered_presetDocument : Rendered (presetDocument (Y := Y) fold P) HoldsNull := by
  refine (rendered_via (rendered_record (rendered_cons rendered_jsonObject
    (rendered_cons (rendered_list rendered_secretBinding) (rendered_cons (rendered_list rendered_inputBinding)
      (rendered_cons (rendered_list rendered_phaseAddress) (rendered_cons (rendered_list rendered_nodeOverride)
        (rendered_cons (rendered_list rendered_compareCandidate)
          (rendered_cons (rendered_list rendered_artifactRequest) rendered_nil)))))))) _).congr ?_
  intro d
  have hinputs := jsonObject_neverNull (Y := Y) d.inputs
  have hbindings := (Model.neverNull_list (c := inputBinding (Y := Y) fold)) d.bindings
  have hoverrides := (Model.neverNull_list (c := nodeOverride (Y := Y) fold P)) d.nodeOverrides
  simp only [and_false, or_false, false_or, exists_false, ne_eq]
  constructor
  · rintro (⟨-, hnull⟩ | ⟨-, hnull⟩ | ⟨-, hnull⟩)
    · exact ⟨.inl ⟨by simp, hnull⟩⟩
    · exact ⟨.inr (.inl hnull)⟩
    · exact ⟨.inr (.inr hnull)⟩
  · rintro ⟨hnull | hnull | hnull⟩
    · exact .inl ⟨hinputs, hnull.2⟩
    · exact .inr (.inl ⟨hbindings, hnull⟩)
    · exact .inr (.inr ⟨hoverrides, hnull⟩)

end Written

section RoundTrip

variable {fold : Char → List Char} {F : Type}

def ValidAddress (a : RunContracts.PhaseAddress) : Prop := isIdentifier a.graphId = true ∧ isIdentifier a.phaseId = true

/-- What the models have checked when a preset exists; the keys of a dictionary are distinct. -/
structure Validated (P : Floats F) (p : RunPreset fold F) : Prop where
  inputs : (Json.dict p.inputs).Distinct
  secretInputs : ∀ b ∈ p.secretInputs, isIdentifier b.inputName = true ∧ isSecretName b.reference.name = true
  bindings : ∀ b ∈ p.bindings, ValidAddress b.address ∧ isIdentifier b.field = true ∧ b.value.Distinct
  breakpoints : ∀ a ∈ p.breakpoints, ValidAddress a
  nodeOverrides : ∀ o ∈ p.nodeOverrides, ValidAddress o.address ∧
    (∀ x ∈ o.timeoutSeconds, P.positive x = true) ∧ (Json.dict o.customParams).Distinct
  compareCandidates : ∀ c ∈ p.compareCandidates, ValidAddress c.address ∧ isIdentifier c.candidateId = true
  artifactRequests : ∀ r ∈ p.artifactRequests, isIdentifier r.artifactId = true

variable {P : Floats F} {p : RunPreset fold F}

theorem phaseAddress_ok {Y : Dialects F} {a : RunContracts.PhaseAddress} (h : ValidAddress a) :
    (phaseAddress (Y := Y)).Ok a :=
  ⟨trivial, trivial, ⟨h.1, trivial⟩, ⟨h.2, trivial⟩, trivial⟩

theorem Validated.ok {Y : Dialects F} (h : Validated P p) : (presetDocument (Y := Y) fold P).Ok (documentOf p) := by
  refine ⟨h.inputs, ?_, ?_, ?_, ?_, ?_, ?_, trivial⟩
  · intro b hb
    obtain ⟨hname, hreference⟩ := h.secretInputs b hb
    exact ⟨trivial, trivial, ⟨hname, trivial⟩, ⟨trivial, trivial, trivial, ⟨hreference, trivial⟩, trivial⟩, trivial⟩
  · intro b hb
    obtain ⟨haddress, hfield, hvalue⟩ := h.bindings b hb
    exact ⟨trivial, trivial, phaseAddress_ok haddress, ⟨hfield, trivial⟩, hvalue, trivial⟩
  · exact fun a ha => phaseAddress_ok (h.breakpoints a ha)
  · intro o ho
    obtain ⟨haddress, htimeout, hparams⟩ := h.nodeOverrides o ho
    exact ⟨trivial, trivial, phaseAddress_ok haddress, fun x hx => ⟨htimeout x hx, trivial⟩, hparams, trivial⟩
  · intro c hc
    obtain ⟨haddress, hid⟩ := h.compareCandidates c hc
    exact ⟨trivial, trivial, phaseAddress_ok haddress, ⟨hid, trivial⟩, fun _ _ => trivial, trivial⟩
  · exact fun r hr => ⟨trivial, trivial, ⟨h.artifactRequests r hr, trivial⟩, fun _ _ => trivial, trivial⟩

variable (T : Toml F) (P) (overlay : Data F → Option (RuntimeProfileOverlay F))

def projectDocument (presetId : String) (presetData : Data F) : Data F :=
  .dict [(.str "schema_version", .str "gskill.config.v1"), (.str "presets", .dict [(.str presetId, presetData)])]

theorem holdsNull_projectDocument (presetId : String) (v : Data F) :
    holdsNull (projectDocument presetId v) = holdsNull v := by
  simp [projectDocument, holdsNull, membersHoldNull]

theorem tidy_projectDocument (presetId : String) {v : Data F} (h : Tidy v) : Tidy (projectDocument presetId v) := by
  refine ⟨by simp, ⟨"schema_version", rfl⟩, trivial, ⟨"presets", rfl⟩, ⟨by simp, ⟨presetId, rfl⟩, h, trivial⟩, trivial⟩

theorem loadPreset_projectDocument {text : T.Text} {presetId : String} {v : Data F}
    (h : T.loads text = some (projectDocument presetId v)) :
    (loadPreset T P overlay text presetId : Option (RunPreset fold F)) =
      ((presetDocument (Y := plain F) fold P).validate v).bind fun d => (d.toPreset presetId).toOption := by
  simp only [loadPreset, h, projectDocument, bind, Option.bind_some, validateProjectConfig, lookup, Key.str?]
  cases hdocument : (presetDocument (Y := plain F) fold P).validate v with
  | none => simp [presetsField, presetsOf, Key.str?, hdocument]
  | some d => simp [presetsField, presetsOf, Key.str?, hdocument, Dict.find]

theorem toOption_toPreset {d : PresetDocument fold F} :
    (d.toPreset p.presetId).toOption = some p ↔ d = documentOf p := by
  constructor
  · intro h
    cases hpreset : d.toPreset p.presetId with
    | error e =>
      rw [hpreset] at h
      cases h
    | ok found =>
      rw [hpreset] at h
      obtain rfl := Option.some.inj h
      exact document_of_toPreset hpreset
  · rintro rfl
    rw [toPreset_documentOf]
    rfl

/-- Whenever the text is written, the loader finds the preset in it. -/
def ReadsBack (p : RunPreset fold F) : Prop :=
  ∀ text, projectConfigText T P p = some text → loadPreset T P overlay text p.presetId = some p

theorem readsBack_iff (hp : Validated P p) : ReadsBack P T overlay p ↔
    ∀ v, (presetDocument (Y := plain F) fold P).dump (documentOf p) = some v → holdsNull v = false →
      (presetDocument (Y := plain F) fold P).validate v = some (documentOf p) := by
  obtain ⟨v, hv, htidy, -⟩ := rendered_presetDocument (Y := plain F) (P := P) (documentOf p) hp.ok
  have htext : projectConfigText T P p = T.dumps (projectDocument p.presetId v) := by
    rw [projectConfigText, hv]
    rfl
  rw [ReadsBack, htext]
  cases hnull : holdsNull v with
  | true =>
    rw [T.dumps_null _ ((holdsNull_projectDocument p.presetId v).trans hnull)]
    constructor
    · intro _ w hw hheld
      obtain rfl := Option.some.inj (hv.symm.trans hw)
      rw [hnull] at hheld
      cases hheld
    · intro _ text h
      cases h
  | false =>
    obtain ⟨text, hdumps, hloads⟩ := T.loads_dumps _ (tidy_projectDocument p.presetId htidy)
      ((holdsNull_projectDocument p.presetId v).trans hnull)
    have hload := @loadPreset_projectDocument fold F P T overlay text p.presetId v hloads
    rw [hdumps]
    constructor
    · intro hback w hw _
      obtain rfl := Option.some.inj (hv.symm.trans hw)
      have hfound := hback text rfl
      rw [hload, Option.bind_eq_some_iff] at hfound
      obtain ⟨d, hd, hpreset⟩ := hfound
      rw [hd, toOption_toPreset.mp hpreset]
    · intro hback text' htext'
      obtain rfl := Option.some.inj htext'
      rw [hload, hback v hv hnull, Option.bind_some, toOption_toPreset]

/-- The preset comes back unless a binding's value is null; a null anywhere inside the data stops the migration. -/
theorem migrated_preset_back_iff (hp : Validated P p) :
    ReadsBack P T overlay p ↔ (∀ b ∈ p.bindings, b.value ≠ .null) ∨ HoldsNull (documentOf p) := by
  rw [readsBack_iff P T overlay hp, back_iff rendered_presetDocument hp.ok, presetDocument_kept]
  rfl

end RoundTrip

/-! The text is the document itself, and a float a whole number. -/

def documents : Toml ℤ where
  Text := Data ℤ
  dumps v := if holdsNull v then none else some v
  loads text := some text
  dumps_null v h := by rw [if_pos h]
  loads_dumps v _ h := ⟨v, by rw [h]; rfl, rfl⟩

def wholeNumbers : Floats ℤ where
  parse v := match v with | .float x => some x | .int z => some z | _ => none
  positive x := 0 < x
  parse_float _ := rfl
  parse_null := rfl

def noOverlay : Data ℤ → Option (RuntimeProfileOverlay ℤ) := fun _ => none

/-- `inputs: {active: {phases: {draft: {topic: 3}}}}` of the runtime configuration, bound in the root graph. -/
def draftTopic : InputBinding (fun c => [c]) ℤ := ⟨⟨"news", "draft"⟩, "topic", .int 3, rfl⟩

def draftNull : InputBinding (fun c => [c]) ℤ := ⟨⟨"news", "draft"⟩, "topic", .null, rfl⟩

def presetWith (b : InputBinding (fun c => [c]) ℤ) : RunPreset (fun c => [c]) ℤ :=
  { presetId := "default", bindings := [b], preset_does_not_persist_inline_secrets := rfl }

theorem migrated_preset_back_iff_topic :
    Validated wholeNumbers (presetWith draftTopic) ∧
      ReadsBack wholeNumbers documents noOverlay (presetWith draftTopic) := by
  have hp : Validated wholeNumbers (presetWith draftTopic) := by
    refine ⟨⟨List.nodup_nil, trivial⟩, ?_, ?_, ?_, ?_, ?_, ?_⟩
    · exact List.forall_mem_nil _
    · exact List.forall_mem_singleton.mpr ⟨⟨rfl, rfl⟩, rfl, trivial⟩
    · exact List.forall_mem_nil _
    · exact List.forall_mem_nil _
    · exact List.forall_mem_nil _
    · exact List.forall_mem_nil _
  refine ⟨hp, (migrated_preset_back_iff wholeNumbers documents noOverlay hp).mpr (.inl ?_)⟩
  exact List.forall_mem_singleton.mpr fun h => by cases h

/-- The required value is left out, and the published file is no project configuration. -/
theorem null_binding_unreadable :
    (∃ text, projectConfigText documents wholeNumbers (presetWith draftNull) = some text) ∧
      ¬ ReadsBack wholeNumbers documents noOverlay (presetWith draftNull) := by
  refine ⟨⟨_, rfl⟩, fun hback => ?_⟩
  have hnone : loadPreset documents wholeNumbers noOverlay _ "default" = some (presetWith draftNull) := hback _ rfl
  cases hnone

end GraphSkillRuntime.PresetConfig
