import GraphSkillRuntime.SkillManifests
import GraphSkillRuntime.YamlModels

/-!
`serialize_graph` and `serialize_graph_topology_from_yaml`: a graph declaration written by one YAML library
and read by another.
-/

namespace GraphSkillRuntime.CompileCache.GraphSerializer

open OrderedDict JsonText PyData YamlModels

structure Yaml (F : Type) extends Dialects F where
  Text : Type
  safeDump : Data F → Text
  load : Text → Option (Data F)
  load_safeDump : ∀ v, load (safeDump v) = toDialects.read v

structure Pydantic (F : Type) extends AnyDump F where
  int : Data F → Option ℤ
  bool : Data F → Option Bool
  int_int : ∀ z, int (.int z) = some z
  bool_bool : ∀ b, bool (.bool b) = some b

section

variable {F : Type} (Y : Dialects F) (P : Pydantic F)

def optionalText : Model Y (Option String) := Model.text.option Model.text_null

def graphPhaseRefFields :=
  Fields.cons "id" none none (Model.text (Y := Y)) <| .cons "depends_on" none none Model.text.list <|
    .cons "output" none none (Model.bool P.bool P.bool_bool) .nil

theorem graphPhaseRefFields_nodup : ((graphPhaseRefFields Y P).names ++ (graphPhaseRefFields Y P).aliases).Nodup := by
  simp [graphPhaseRefFields, Fields.names_cons, Fields.names_nil, Fields.aliases_cons, Fields.aliases_nil]

def graphPhaseRef : Model Y GraphPhaseRef :=
  ((Model.record (graphPhaseRefFields Y P) (graphPhaseRefFields_nodup Y P)).via
    { toFun := fun r => (r.id, r.dependsOn, r.output, ())
      invFun := fun p => { id := p.1, dependsOn := p.2.1, output := p.2.2.1 }
      left_inv := fun _ => rfl
      right_inv := fun _ => rfl }).guard GraphPhaseRef.ok

theorem artifactMode_ofText (m : ArtifactMode) : ArtifactMode.ofText m.text = some m := by cases m <;> decide

def artifactMode : Model Y ArtifactMode :=
  Model.enumeration ArtifactMode.text ArtifactMode.ofText artifactMode_ofText fun s m h => by
    unfold ArtifactMode.ofText at h
    split_ifs at h with hsingle hitem
    · rw [← Option.some.inj h, hsingle]
      rfl
    · rw [← Option.some.inj h, hitem]
      rfl

theorem artifactFormat_ofText (m : ArtifactFormat) : ArtifactFormat.ofText m.text = some m := by cases m <;> decide

def artifactFormat : Model Y ArtifactFormat :=
  Model.enumeration ArtifactFormat.text ArtifactFormat.ofText artifactFormat_ofText fun s m h => by
    unfold ArtifactFormat.ofText at h
    split_ifs at h with hjson hmd
    · rw [← Option.some.inj h, hjson]
      rfl
    · rw [← Option.some.inj h, hmd]
      rfl

def artifactDeclarationFields :=
  Fields.cons "artifact_id" none none (Model.text (Y := Y)) <| .cons "stem" none none Model.text <|
    .cons "fields" none none Model.text.list <| .cons "mode" none none (artifactMode Y) <|
    .cons "format" none none (artifactFormat Y) .nil

theorem artifactDeclarationFields_nodup :
    ((artifactDeclarationFields Y).names ++ (artifactDeclarationFields Y).aliases).Nodup := by
  simp [artifactDeclarationFields, Fields.names_cons, Fields.names_nil, Fields.aliases_cons, Fields.aliases_nil]

def artifactDeclaration : Model Y ArtifactDeclaration :=
  ((Model.record (artifactDeclarationFields Y) (artifactDeclarationFields_nodup Y)).via
    { toFun := fun a => (a.artifactId, a.stem, a.fields, a.mode, a.format, ())
      invFun := fun p =>
        { artifactId := p.1, stem := p.2.1, fields := p.2.2.1, mode := p.2.2.2.1, format := p.2.2.2.2.1 }
      left_inv := fun _ => rfl
      right_inv := fun _ => rfl }).guard ArtifactDeclaration.ok

def anyData : Model Y (Data F) := Model.any P.serialize P.json

def phaseIOSchemaFields :=
  Fields.cons "inputs" none none ((anyData Y P).guard isSchema) <|
    .cons "outputs" none none ((anyData Y P).guard isSchema) .nil

theorem phaseIOSchemaFields_nodup : ((phaseIOSchemaFields Y P).names ++ (phaseIOSchemaFields Y P).aliases).Nodup := by
  simp [phaseIOSchemaFields, Fields.names_cons, Fields.names_nil, Fields.aliases_cons, Fields.aliases_nil]

def phaseIOSchema : Model Y (PhaseIOSchema F) :=
  (Model.record (phaseIOSchemaFields Y P) (phaseIOSchemaFields_nodup Y P)).via
    { toFun := fun s => (s.inputs, s.outputs, ())
      invFun := fun p => { inputs := p.1, outputs := p.2.1 }
      left_inv := fun _ => rfl
      right_inv := fun _ => rfl }

theorem mergeMode_ofText (m : MergeMode) : MergeMode.ofText m.text = some m := by cases m <;> decide

def mergeMode : Model Y MergeMode :=
  Model.enumeration MergeMode.text MergeMode.ofText mergeMode_ofText fun s m h => by
    unfold MergeMode.ofText at h
    split_ifs at h with happend hextend hmerge hreplace
    · rw [← Option.some.inj h, happend]
      rfl
    · rw [← Option.some.inj h, hextend]
      rfl
    · rw [← Option.some.inj h, hmerge]
      rfl
    · rw [← Option.some.inj h, hreplace]
      rfl

/-- `from_` is read under its alias or its name, and written under its name. -/
def iterateAccumulateSpecFields :=
  Fields.cons "var" none none (Model.text (Y := Y)) <| .cons "init" none none (anyData Y P) <|
    .cons "from_" (some "from") none Model.text <| .cons "merge" none none (mergeMode Y) .nil

theorem iterateAccumulateSpecFields_nodup :
    ((iterateAccumulateSpecFields Y P).names ++ (iterateAccumulateSpecFields Y P).aliases).Nodup := by
  simp [iterateAccumulateSpecFields, Fields.names_cons, Fields.names_nil, Fields.aliases_cons, Fields.aliases_nil]

def iterateAccumulateSpec : Model Y (IterateAccumulateSpec F) :=
  ((Model.record (iterateAccumulateSpecFields Y P) (iterateAccumulateSpecFields_nodup Y P)).via
    { toFun := fun a => (a.var, a.init, a.from_, a.merge, ())
      invFun := fun p => { var := p.1, init := p.2.1, from_ := p.2.2.1, merge := p.2.2.2.1 }
      left_inv := fun _ => rfl
      right_inv := fun _ => rfl }).guard IterateAccumulateSpec.ok

theorem iterateMode_ofText (m : IterateMode) : IterateMode.ofText m.text = some m := by cases m <;> decide

def iterateMode : Model Y IterateMode :=
  Model.enumeration IterateMode.text IterateMode.ofText iterateMode_ofText fun s m h => by
    unfold IterateMode.ofText at h
    split_ifs at h with hbatch hloop
    · rw [← Option.some.inj h, hbatch]
      rfl
    · rw [← Option.some.inj h, hloop]
      rfl

def integer : Model Y ℤ := Model.int P.int P.int_int

theorem range_null : ((integer Y P).pair (integer Y P)).validate .null = none := rfl

theorem iterateAccumulateSpec_null : (iterateAccumulateSpec Y P).validate .null = none := rfl

def iterateSpecFields :=
  Fields.cons "mode" none none (iterateMode Y) <| .cons "over" none none Model.text <|
    .cons "item_var" none none Model.text <|
    .cons "range" none (some none) (((integer Y P).pair (integer Y P)).option (range_null Y P)) <|
    .cons "concurrency" none (some 1) (integer Y P) <|
    .cons "accumulate" none (some none) ((iterateAccumulateSpec Y P).option (iterateAccumulateSpec_null Y P)) .nil

theorem iterateSpecFields_nodup : ((iterateSpecFields Y P).names ++ (iterateSpecFields Y P).aliases).Nodup := by
  simp [iterateSpecFields, Fields.names_cons, Fields.names_nil, Fields.aliases_cons, Fields.aliases_nil]

def iterateSpec : Model Y (IterateSpec F) :=
  ((Model.record (iterateSpecFields Y P) (iterateSpecFields_nodup Y P)).via
    { toFun := fun i => (i.mode, i.overPath, i.itemVar, i.range, i.concurrency, i.accumulate, ())
      invFun := fun p =>
        { mode := p.1, overPath := p.2.1, itemVar := p.2.2.1, range := p.2.2.2.1, concurrency := p.2.2.2.2.1
          accumulate := p.2.2.2.2.2.1 }
      left_inv := fun _ => rfl
      right_inv := fun _ => rfl }).guard IterateSpec.ok

theorem iterateSpec_null : (iterateSpec Y P).validate .null = none := rfl

def schemaVersion : Model Y Unit :=
  Model.enumeration (fun _ => "gskill.graph.v1") (fun s => if s = "gskill.graph.v1" then some () else none)
    (fun _ => if_pos rfl) fun s _ h => by
      by_contra hne
      rw [if_neg hne] at h
      cases h

def graphManifestFields :=
  Fields.cons "schema_version" none none (schemaVersion Y) <| .cons "graph_id" none none Model.text <|
    .cons "description" none none Model.text <| .cons "llm_role" none (some none) (optionalText Y) <|
    .cons "io" none none (phaseIOSchema Y P) <| .cons "phases" none none (graphPhaseRef Y P).list <|
    .cons "iterate" none (some none) ((iterateSpec Y P).option (iterateSpec_null Y P)) <|
    .cons "artifacts" none (some []) (artifactDeclaration Y).list .nil

theorem graphManifestFields_nodup : ((graphManifestFields Y P).names ++ (graphManifestFields Y P).aliases).Nodup := by
  simp [graphManifestFields, Fields.names_cons, Fields.names_nil, Fields.aliases_cons, Fields.aliases_nil]

def graphManifest : Model Y (GraphManifest F) :=
  ((Model.record (graphManifestFields Y P) (graphManifestFields_nodup Y P)).via
    { toFun := fun m => ((), m.graphId, m.description, m.llmRole, m.io, m.phases, m.iterate, m.artifacts, ())
      invFun := fun p =>
        { graphId := p.2.1, description := p.2.2.1, llmRole := p.2.2.2.1, io := p.2.2.2.2.1
          phases := p.2.2.2.2.2.1, iterate := p.2.2.2.2.2.2.1, artifacts := p.2.2.2.2.2.2.2.1 }
      left_inv := fun _ => rfl
      right_inv := fun _ => rfl }).guard GraphManifest.ok

theorem graphManifest_validate_iff {m : GraphManifest F} {kvs : List (Key × Data F)} :
    (graphManifest Y P).validate (.dict kvs) = some m ↔ (graphManifestFields Y P).closed kvs = true ∧
      (graphManifestFields Y P).validate (lookup kvs) =
        some ((), m.graphId, m.description, m.llmRole, m.io, m.phases, m.iterate, m.artifacts, ()) ∧ m.ok = true :=
  Model.checkedRecord_validate

theorem graphManifest_dict {y : Data F} (hdict : ∀ kvs, y ≠ .dict kvs) : (graphManifest Y P).validate y = none :=
  Model.checkedRecord_dict hdict

theorem graphPhaseRef_validate_iff {phase : GraphPhaseRef} {kvs : List (Key × Data F)} :
    (graphPhaseRef Y P).validate (.dict kvs) = some phase ↔ (graphPhaseRefFields Y P).closed kvs = true ∧
      (graphPhaseRefFields Y P).validate (lookup kvs) = some (phase.id, phase.dependsOn, phase.output, ()) ∧
        phase.ok = true :=
  Model.checkedRecord_validate

theorem artifactMode_neverNull : (artifactMode Y).NeverNull := Model.neverNull_enumeration

theorem artifactFormat_neverNull : (artifactFormat Y).NeverNull := Model.neverNull_enumeration

theorem phaseIOSchema_neverNull : (phaseIOSchema Y P).NeverNull :=
  Model.neverNull_via (@Model.neverNull_record _ _ _ _ (phaseIOSchemaFields_nodup Y P))

theorem mergeMode_neverNull : (mergeMode Y).NeverNull := Model.neverNull_enumeration

theorem iterateAccumulateSpec_neverNull : (iterateAccumulateSpec Y P).NeverNull :=
  Model.neverNull_via (@Model.neverNull_record _ _ _ _ (iterateAccumulateSpecFields_nodup Y P))

theorem iterateMode_neverNull : (iterateMode Y).NeverNull := Model.neverNull_enumeration

theorem integer_neverNull : (integer Y P).NeverNull := Model.neverNull_int

theorem iterateSpec_neverNull : (iterateSpec Y P).NeverNull :=
  Model.neverNull_via (@Model.neverNull_record _ _ _ _ (iterateSpecFields_nodup Y P))

theorem schemaVersion_neverNull : (schemaVersion Y).NeverNull := Model.neverNull_enumeration

end

section

variable {F : Type} (Y : Yaml F) (P : Pydantic F)

def serializeGraph (m : GraphManifest F) : Option Y.Text := ((graphManifest Y.toDialects P).dump m).map Y.safeDump

def readGraphYaml (text : Y.Text) : Option (List (Key × Data F)) :=
  match Y.load text with
  | some (.dict kvs) => some kvs
  | _ => none

def modelValidate (loaded : List (Key × Data F)) : Option (GraphManifest F) :=
  (graphManifest Y.toDialects P).validate (.dict loaded)

def setMember (n : String) (v : Data F) : List (Key × Data F) → List (Key × Data F)
  | [] => [(.str n, v)]
  | (k, w) :: kvs => if k.str? = some n then (k, v) :: kvs else (k, w) :: setMember n v kvs

/-- A phase that is given as an instance is validated like the mapping of its fields. -/
def serializeGraphTopologyFromYaml (originalYaml : Y.Text) (phases : List GraphPhaseRef) : Option Y.Text :=
  (readGraphYaml Y originalYaml).bind fun loaded =>
    ((graphPhaseRef Y.toDialects P).list.dump phases).bind fun phases =>
      (modelValidate Y P (setMember "phases" phases loaded)).bind (serializeGraph Y P)

def readManifest (text : Y.Text) : Option (GraphManifest F) := (readGraphYaml Y text).bind (modelValidate Y P)

structure Validates (m : GraphManifest F) : Prop where
  manifest : m.ok = true
  phases : ∀ phase ∈ m.phases, phase.ok = true
  artifacts : ∀ artifact ∈ m.artifacts, artifact.ok = true
  inputs : isSchema m.io.inputs = true ∧ ∃ v : Json F, v.Distinct ∧ ofJson v = m.io.inputs
  outputs : isSchema m.io.outputs = true ∧ ∃ v : Json F, v.Distinct ∧ ofJson v = m.io.outputs
  iterate : ∀ i ∈ m.iterate, i.ok = true ∧
    ∀ a ∈ i.accumulate, a.ok = true ∧ ∃ v : Json F, v.Distinct ∧ ofJson v = a.init

/-- Every text of the document is a string for the reader, and no initial value was left out of it. -/
def Faithful (m : GraphManifest F) : Prop :=
  (∀ i ∈ m.iterate, ∀ a ∈ i.accumulate, a.init ≠ .null) ∧
    ∀ document ∈ (graphManifest Y.toDialects P).dump m, ∀ s ∈ texts document, Y.Stable s

section

variable {Y P} {m : GraphManifest F}

theorem Validates.ok (h : Validates m) : (graphManifest Y.toDialects P).Ok m := by
  refine ⟨h.manifest, trivial, trivial, trivial, fun _ _ => trivial, ?_, ?_, ?_, ?_, trivial⟩
  · exact ⟨h.inputs, h.outputs, trivial⟩
  · exact fun phase hphase => ⟨h.phases phase hphase, trivial, fun _ _ => trivial, trivial, trivial⟩
  · intro i hi
    refine ⟨(h.iterate i hi).1, trivial, trivial, trivial, fun _ _ => ⟨trivial, trivial⟩, trivial, ?_, trivial⟩
    intro a ha
    obtain ⟨hok, hjson⟩ := (h.iterate i hi).2 a ha
    exact ⟨hok, trivial, hjson, trivial, trivial, trivial⟩
  · exact fun artifact hartifact =>
      ⟨h.artifacts artifact hartifact, trivial, trivial, fun _ _ => trivial, trivial, trivial, trivial⟩

theorem anyData_dump {y : Data F} (h : ∃ v : Json F, v.Distinct ∧ ofJson v = y) :
    (anyData Y.toDialects P).dump y = some y := by
  obtain ⟨v, -, rfl⟩ := h
  exact P.json v

theorem iterateAccumulateSpec_kept {a : IterateAccumulateSpec F} (h : ∃ v : Json F, v.Distinct ∧ ofJson v = a.init) :
    (iterateAccumulateSpec Y.toDialects P).Kept a ↔ a.init ≠ .null := by
  have hdump := @anyData_dump F Y P a.init h
  change (iterateAccumulateSpecFields Y.toDialects P).Kept (a.var, a.init, a.from_, a.merge, ()) ↔ _
  rw [iterateAccumulateSpecFields, Fields.kept_cons Model.neverNull_text]
  constructor
  · rintro ⟨-, hdefault, -⟩ hnull
    cases hdefault (hdump.trans (congrArg some hnull))
  · intro hne
    refine ⟨trivial, fun hnull => ?_, fun _ => trivial, ?_⟩
    · exact absurd (Option.some.inj (hdump.symm.trans hnull)) hne
    · rw [Fields.kept_cons Model.neverNull_text]
      exact ⟨trivial, (Fields.kept_cons (mergeMode_neverNull Y.toDialects)).2 ⟨trivial, trivial⟩⟩

theorem iterateSpec_kept {i : IterateSpec F}
    (h : ∀ a ∈ i.accumulate, ∃ v : Json F, v.Distinct ∧ ofJson v = a.init) :
    (iterateSpec Y.toDialects P).Kept i ↔ ∀ a ∈ i.accumulate, a.init ≠ .null := by
  change (iterateSpecFields Y.toDialects P).Kept
    (i.mode, i.overPath, i.itemVar, i.range, i.concurrency, i.accumulate, ()) ↔ _
  rw [iterateSpecFields, Fields.kept_cons (iterateMode_neverNull _), Fields.kept_cons Model.neverNull_text,
    Fields.kept_cons Model.neverNull_text, Fields.kept_optional Model.neverNull_pair,
    Fields.kept_cons (integer_neverNull _ P), Fields.kept_optional (iterateAccumulateSpec_neverNull _ P)]
  constructor
  · rintro ⟨-, -, -, -, -, hkept, -⟩ a ha
    exact (iterateAccumulateSpec_kept (h a ha)).1 (hkept a ha)
  · intro hinit
    exact ⟨trivial, trivial, trivial, fun _ _ => ⟨trivial, trivial⟩, trivial,
      fun a ha => (iterateAccumulateSpec_kept (h a ha)).2 (hinit a ha), trivial⟩

theorem schema_kept {y : Data F} (h : isSchema y = true ∧ ∃ v : Json F, v.Distinct ∧ ofJson v = y) :
    (anyData Y.toDialects P).dump y ≠ some .null := by
  rw [anyData_dump h.2]
  intro hnull
  obtain rfl := Option.some.inj hnull
  cases h.1

theorem phaseIOSchema_kept {s : PhaseIOSchema F}
    (hin : isSchema s.inputs = true ∧ ∃ v : Json F, v.Distinct ∧ ofJson v = s.inputs)
    (hout : isSchema s.outputs = true ∧ ∃ v : Json F, v.Distinct ∧ ofJson v = s.outputs) :
    (phaseIOSchema Y.toDialects P).Kept s :=
  ⟨fun hnull => absurd hnull (@schema_kept F Y P _ hin), fun _ => trivial,
    fun hnull => absurd hnull (@schema_kept F Y P _ hout), fun _ => trivial, trivial⟩

theorem graphPhaseRef_kept (phase : GraphPhaseRef) : (graphPhaseRef Y.toDialects P).Kept phase := by
  change (graphPhaseRefFields Y.toDialects P).Kept (phase.id, phase.dependsOn, phase.output, ())
  rw [graphPhaseRefFields, Fields.kept_cons Model.neverNull_text, Fields.kept_cons Model.neverNull_list,
    Fields.kept_cons Model.neverNull_bool]
  exact ⟨trivial, fun _ _ => trivial, trivial, trivial⟩

theorem artifactDeclaration_kept (artifact : ArtifactDeclaration) :
    (artifactDeclaration Y.toDialects).Kept artifact := by
  change (artifactDeclarationFields Y.toDialects).Kept
    (artifact.artifactId, artifact.stem, artifact.fields, artifact.mode, artifact.format, ())
  rw [artifactDeclarationFields, Fields.kept_cons Model.neverNull_text, Fields.kept_cons Model.neverNull_text,
    Fields.kept_cons Model.neverNull_list, Fields.kept_cons (artifactMode_neverNull _),
    Fields.kept_cons (artifactFormat_neverNull _)]
  exact ⟨trivial, trivial, fun _ _ => trivial, trivial, trivial, trivial⟩

theorem graphManifest_kept (h : Validates m) :
    (graphManifest Y.toDialects P).Kept m ↔ ∀ i ∈ m.iterate, ∀ a ∈ i.accumulate, a.init ≠ .null := by
  have hiterate : ∀ i ∈ m.iterate, ∀ a ∈ i.accumulate, ∃ v : Json F, v.Distinct ∧ ofJson v = a.init :=
    fun i hi a ha => ((h.iterate i hi).2 a ha).2
  change (graphManifestFields Y.toDialects P).Kept
    ((), m.graphId, m.description, m.llmRole, m.io, m.phases, m.iterate, m.artifacts, ()) ↔ _
  rw [graphManifestFields, Fields.kept_cons (schemaVersion_neverNull _), Fields.kept_cons Model.neverNull_text,
    Fields.kept_cons Model.neverNull_text, optionalText, Fields.kept_optional Model.neverNull_text,
    Fields.kept_cons (phaseIOSchema_neverNull _ P), Fields.kept_cons Model.neverNull_list,
    Fields.kept_optional (iterateSpec_neverNull _ P), Fields.kept_cons Model.neverNull_list]
  constructor
  · rintro ⟨-, -, -, -, -, -, hkept, -⟩ i hi
    exact (iterateSpec_kept (hiterate i hi)).1 (hkept i hi)
  · intro hinit
    exact ⟨trivial, trivial, trivial, fun _ _ => trivial, phaseIOSchema_kept h.inputs h.outputs,
      fun phase _ => graphPhaseRef_kept phase, fun i hi => (iterateSpec_kept (hiterate i hi)).2 (hinit i hi),
      fun artifact _ => artifactDeclaration_kept artifact, trivial⟩

theorem readManifest_eq (text : Y.Text) :
    readManifest Y P text = (Y.load text).bind (graphManifest Y.toDialects P).validate := by
  unfold readManifest readGraphYaml
  cases hload : Y.load text with
  | none => rfl
  | some y =>
    by_cases hdict : ∃ kvs, y = .dict kvs
    · obtain ⟨kvs, rfl⟩ := hdict
      rfl
    · push Not at hdict
      rw [Option.bind_some, graphManifest_dict _ _ hdict]
      cases y with
      | dict kvs => exact absurd rfl (hdict kvs)
      | _ => rfl

theorem serializeGraph_readManifest (m : GraphManifest F) :
    (serializeGraph Y P m).bind (readManifest Y P) = (graphManifest Y.toDialects P).reload m := by
  rw [serializeGraph, Model.reload]
  cases (graphManifest Y.toDialects P).dump m with
  | none => rfl
  | some v => rw [Option.map_some, Option.bind_some, Option.bind_some, readManifest_eq, Y.load_safeDump]

theorem serializeGraph_back_iff (h : Validates m) :
    (serializeGraph Y P m).bind (readManifest Y P) = some m ↔ Faithful Y P m := by
  rw [serializeGraph_readManifest, Model.reload_iff _ h.ok, graphManifest_kept h]
  rfl

theorem lookup_setMember (n j : String) (v : Data F) (kvs : List (Key × Data F)) :
    lookup (setMember n v kvs) j = if n = j then some v else lookup kvs j := by
  induction kvs with
  | nil => simp [setMember, lookup, Key.str?]
  | cons e kvs ih =>
    obtain ⟨k, w⟩ := e
    rw [setMember]
    by_cases hk : k.str? = some n
    · rw [if_pos hk, lookup, lookup, hk]
      simp only [Option.some.injEq]
      split_ifs <;> rfl
    · rw [if_neg hk, lookup, lookup, ih]
      by_cases hn : n = j
      · subst hn
        rw [if_pos rfl, if_pos rfl, if_neg hk]
      · rw [if_neg hn, if_neg hn]

theorem mem_setMember {n : String} {v : Data F} {kvs : List (Key × Data F)} {e : Key × Data F}
    (h : e ∈ setMember n v kvs) : e.1 = .str n ∨ ∃ e' ∈ kvs, e'.1 = e.1 := by
  induction kvs with
  | nil =>
    rw [List.mem_singleton.1 h]
    exact .inl rfl
  | cons e' kvs ih =>
    rw [setMember] at h
    split_ifs at h with hk
    · rcases List.mem_cons.1 h with rfl | h
      · exact .inr ⟨e', .head _, rfl⟩
      · exact .inr ⟨e, .tail _ h, rfl⟩
    · rcases List.mem_cons.1 h with rfl | h
      · exact .inr ⟨e', .head _, rfl⟩
      · rcases ih h with h | ⟨e'', he'', heq⟩
        · exact .inl h
        · exact .inr ⟨e'', .tail _ he'', heq⟩

theorem graphManifestFields_used (L : String → Option (Data F)) :
    (graphManifestFields Y.toDialects P).used L = (graphManifestFields Y.toDialects P).names :=
  (graphManifestFields Y.toDialects P).used_names fun _ hn => absurd hn List.not_mem_nil

theorem modelValidate_iff {loaded : List (Key × Data F)} :
    modelValidate Y P loaded = some m ↔ (graphManifestFields Y.toDialects P).closed loaded = true ∧
      (graphManifestFields Y.toDialects P).validate (lookup loaded) =
        some ((), m.graphId, m.description, m.llmRole, m.io, m.phases, m.iterate, m.artifacts, ()) ∧ m.ok = true :=
  graphManifest_validate_iff Y.toDialects P

theorem closed_setMember {loaded : List (Key × Data F)} {phases : Data F}
    (h : (graphManifestFields Y.toDialects P).closed loaded = true) :
    (graphManifestFields Y.toDialects P).closed (setMember "phases" phases loaded) = true := by
  rw [Fields.closed, List.all_eq_true, graphManifestFields_used] at h ⊢
  intro e he
  rcases mem_setMember he with hphases | ⟨e', he', heq⟩
  · rw [hphases]
    rfl
  · rw [← heq]
    exact h e' he'

theorem modelValidate_setMember {loaded : List (Key × Data F)} {phases : Data F}
    (hloaded : modelValidate Y P loaded = some m)
    (hphases : (graphPhaseRef Y.toDialects P).list.validate phases = some m.phases) :
    modelValidate Y P (setMember "phases" phases loaded) = some m := by
  rw [modelValidate_iff] at hloaded ⊢
  obtain ⟨hclosed, hvalid, hok⟩ := hloaded
  refine ⟨closed_setMember hclosed, ?_, hok⟩
  simp only [graphManifestFields, Fields.cons_validate, Fields.readField, Fields.usedKey, Option.filter_none,
    Option.getD_none, lookup_setMember] at hvalid ⊢
  obtain ⟨hversion, hid, hdescription, hrole, hio, -, hiterate, hartifacts, hnil⟩ := hvalid
  exact ⟨hversion, hid, hdescription, hrole, hio, hphases, hiterate, hartifacts, hnil⟩

theorem phases_back (h : Validates m) : ∃ v, (graphPhaseRef Y.toDialects P).list.dump m.phases = some v ∧
    (graphPhaseRef Y.toDialects P).list.validate v = some m.phases := by
  obtain ⟨v, hv, -, hvalid⟩ := (graphPhaseRef Y.toDialects P).list.reads (a := m.phases)
    (fun phase hphase => ⟨h.phases phase hphase, trivial, fun _ _ => trivial, trivial, trivial⟩)
    fun phase _ => graphPhaseRef_kept phase
  exact ⟨v, hv, hvalid⟩

theorem serializeGraphTopologyFromYaml_own (h : Validates m) {text : Y.Text} (hread : readManifest Y P text = some m) :
    serializeGraphTopologyFromYaml Y P text m.phases = serializeGraph Y P m := by
  obtain ⟨loaded, hloaded, hvalid⟩ := Option.bind_eq_some_iff.1 hread
  obtain ⟨v, hv, hphases⟩ := @phases_back F Y P m h
  rw [serializeGraphTopologyFromYaml, hloaded, Option.bind_some, hv, Option.bind_some,
    modelValidate_setMember hvalid hphases, Option.bind_some]

theorem graph_declaration_round_trip_iff (h : Validates m) :
    ((serializeGraph Y P m).bind (readManifest Y P) = some m ↔ Faithful Y P m) ∧
      ∀ text, readManifest Y P text = some m →
        ((serializeGraphTopologyFromYaml Y P text m.phases).bind (readManifest Y P) = some m ↔ Faithful Y P m) := by
  refine ⟨serializeGraph_back_iff h, fun text hread => ?_⟩
  rw [serializeGraphTopologyFromYaml_own h hread]
  exact serializeGraph_back_iff h

end

end

/-! An instance: words, decimal numbers, and numbers with an exponent and no point, which YAML 1.1 takes for strings. -/

def nullWords : List String := ["", "~", "null", "Null", "NULL"]

def trueWords : List String := ["true", "True", "TRUE"]

def falseWords : List String := ["false", "False", "FALSE"]

def yaml11Words : List String :=
  ["yes", "Yes", "YES", "no", "No", "NO", "on", "On", "ON", "off", "Off", "OFF", "<<", "="]

def decimal (cs : List Char) : Option ℕ :=
  if cs ≠ [] ∧ cs.all Char.isDigit then some (cs.foldl (fun n c => 10 * n + (c.toNat - '0'.toNat)) 0) else none

def exponentForm (s : String) : Bool :=
  match s.toList.splitOn 'e' with
  | [m, e] => (decimal m).isSome && (decimal e).isSome
  | _ => false

inductive PlainScalar where
  | null
  | bool (b : Bool)
  | int (z : ℤ)
  | float (literal : String)

def plainScalar (s : String) : Option PlainScalar :=
  if s ∈ nullWords then some .null
  else if s ∈ trueWords then some (.bool true)
  else if s ∈ falseWords then some (.bool false)
  else if exponentForm s then some (.float s)
  else (decimal s.toList).map fun n => .int n

def PlainScalar.data : PlainScalar → Data String
  | .null => .null
  | .bool b => .bool b
  | .int z => .int z
  | .float literal => .float literal

def PlainScalar.key : PlainScalar → Key
  | .null => .null
  | .bool b => .bool b
  | .int z => .int z
  | .float literal => .other literal

def yamlDialects : Dialects String where
  quotes s := s ∈ nullWords || s ∈ trueWords || s ∈ falseWords || s ∈ yaml11Words || (decimal s.toList).isSome
  resolve s := (plainScalar s).map PlainScalar.data
  resolveKey s := (plainScalar s).map PlainScalar.key
  alike k j :=
    match k, j with
    | .str s, .str t => s == t
    | .null, .null => true
    | .other s, .other t => s == t
    | k, j => k.number?.isSome && k.number? == j.number?
  resolve_other s t h := by
    obtain ⟨x, -, hx⟩ := Option.map_eq_some_iff.1 h
    cases x <;> cases hx
  resolveKey_other s t h := by
    obtain ⟨x, -, hx⟩ := Option.map_eq_some_iff.1 h
    cases x <;> cases hx
  resolves_alike s := by rw [Option.map_eq_none_iff, Option.map_eq_none_iff]
  alike_str s t := beq_iff_eq

def yamlLibraries : Yaml String where
  toDialects := yamlDialects
  Text := Data String
  safeDump v := v
  load := yamlDialects.read
  load_safeDump _ := rfl

def pydantic : Pydantic String where
  serialize := some
  json _ := rfl
  distinct h hy := Option.some.inj h ▸ hy
  int
    | .int z => some z
    | .bool b => some (if b then 1 else 0)
    | _ => none
  bool
    | .bool b => some b
    | .int z => if z = 0 then some false else if z = 1 then some true else none
    | _ => none
  int_int _ := rfl
  bool_bool _ := rfl

def objectSchema : Data String := .dict [(.str "type", .str "object")]

def demoGraph : GraphManifest String where
  graphId := "demo"
  description := "Demo graph"
  llmRole := none
  io := ⟨objectSchema, objectSchema⟩
  phases := [⟨"work", ["input"], true⟩]
  iterate := none
  artifacts := []

def emptyLoop : GraphManifest String :=
  { demoGraph with
    iterate := some ⟨.loop, "input.items", "item", none, 1, some ⟨"total", .null, "output.total", .replace⟩⟩ }

theorem demoGraph_validates : Validates demoGraph where
  manifest := by decide
  phases phase hphase := by
    rw [List.mem_singleton.1 hphase]
    decide
  artifacts _ h := absurd h List.not_mem_nil
  inputs := ⟨rfl, .dict [("type", .str "object")], ⟨List.nodup_singleton _, trivial, trivial⟩, rfl⟩
  outputs := ⟨rfl, .dict [("type", .str "object")], ⟨List.nodup_singleton _, trivial, trivial⟩, rfl⟩
  iterate _ h := absurd h (Option.not_mem_none _)

theorem graph_declaration_round_trip_demo :
    ∃ text, serializeGraph yamlLibraries pydantic demoGraph = some text ∧
      (serializeGraphTopologyFromYaml yamlLibraries pydantic text demoGraph.phases).bind
        (readManifest yamlLibraries pydantic) = some demoGraph := by
  have hback := @graph_declaration_round_trip_iff _ yamlLibraries pydantic _ demoGraph_validates
  have hfaithful : Faithful yamlLibraries pydantic demoGraph := by
    refine ⟨fun _ hiterate => absurd hiterate (Option.not_mem_none _), ?_⟩
    unfold Dialects.Stable
    decide +kernel
  obtain ⟨text, htext⟩ := Option.isSome_iff_exists.mp
    (show (serializeGraph yamlLibraries pydantic demoGraph).isSome by decide +kernel)
  have hread : readManifest yamlLibraries pydantic text = some demoGraph := by
    have hown := hback.1.mpr hfaithful
    rwa [htext, Option.bind_some] at hown
  exact ⟨text, htext, (hback.2 text hread).mpr hfaithful⟩

def numericDescription : GraphManifest String := { demoGraph with description := "1e3" }

theorem emptyLoop_validates : Validates emptyLoop :=
  { demoGraph_validates with
    manifest := by decide
    iterate := by
      intro i hi
      rw [← Option.some.inj hi]
      refine ⟨by decide, fun a ha => ?_⟩
      rw [← Option.some.inj ha]
      exact ⟨by decide, .null, trivial, rfl⟩ }

theorem numericDescription_validates : Validates numericDescription :=
  { demoGraph_validates with manifest := by decide }

theorem graph_declaration_unread :
    (Validates emptyLoop ∧
      (serializeGraph yamlLibraries pydantic emptyLoop).bind (readManifest yamlLibraries pydantic) = none) ∧
    Validates numericDescription ∧
      (serializeGraph yamlLibraries pydantic numericDescription).bind (readManifest yamlLibraries pydantic) = none :=
  ⟨⟨emptyLoop_validates, Option.isNone_iff_eq_none.mp (by decide +kernel)⟩,
    numericDescription_validates, Option.isNone_iff_eq_none.mp (by decide +kernel)⟩

end GraphSkillRuntime.CompileCache.GraphSerializer
