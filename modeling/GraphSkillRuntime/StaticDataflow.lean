import GraphSkillRuntime.SkillGraph
import Mathlib.Data.List.Dedup

namespace GraphSkillRuntime

open OrderedDict

/-! The compile-time check that every declared field of a graph has a provider. -/

mutual

def flattenSchemaPropertyPaths (lead : String) : List (String × Value) → List String
  | [] => []
  | (key, fieldSchema) :: rest =>
    (lead ++ key) :: (nestedPropertyPaths (lead ++ key ++ ".") fieldSchema ++
      flattenSchemaPropertyPaths lead rest)

def nestedPropertyPaths (lead : String) : Value → List String
  | .dict fieldSchema =>
    if isObjectSchema (Dict.ofList fieldSchema) then objectPropertyPaths lead fieldSchema else []
  | _ => []

def objectPropertyPaths (lead : String) : List (String × Value) → List String
  | [] => []
  | (k, v) :: rest =>
    (if k = "properties" then propertiesPaths lead v else []) ++ objectPropertyPaths lead rest

def propertiesPaths (lead : String) : Value → List String
  | .dict nested => flattenSchemaPropertyPaths lead nested
  | _ => []

end

def schemaPropertyPaths (schema : Schema) : List String :=
  match dictAt schema "properties" with
  | some properties => flattenSchemaPropertyPaths "" properties.entries
  | none => []

def ancestorPaths (field : String) : List String :=
  let parts := (field.toList.splitOn '.').map String.ofList
  ((List.range parts.length).map (fun i => ".".intercalate (parts.take (i + 1)))).reverse

example : ancestorPaths "book.author.name" = ["book.author.name", "book.author", "book"] := by decide

def fieldIsSupplied (field : String) (available : List String) : Bool :=
  (ancestorPaths field).any (· ∈ available)

def runtimeInputFieldIsSupplied (runtimeInputFields : Option (Dict String (List String)))
    (phaseName field : String) : Bool :=
  match runtimeInputFields.bind (·.get? phaseName) with
  | none => false
  | some phaseFields => fieldIsSupplied field phaseFields

abbrev RuntimeConfig := Dict String (List InputFile)

def runtimeInputFieldsFromConfig (config : Option RuntimeConfig) : Option (Dict String (List String)) :=
  (config.map (fun phases => (phases.filter (fun _ files => !files.isEmpty)).mapValues
    (fun _ files => files.map InputFile.field))).filter (fun fields => !fields.entries.isEmpty)

def runtimeInputFileSpecs (config : Option RuntimeConfig) (phaseId : String) : List InputFile :=
  (config.bind (·.get? phaseId)).getD []

def fieldMatchesInjectedVar (field varName : String) : Bool :=
  field = varName || startsWith field (varName ++ ".")

def iterateSpecSuppliesField (iterate : Option IterateSpec) (field : String) : Bool :=
  match iterate with
  | none => false
  | some iterate =>
    fieldMatchesInjectedVar field iterate.itemVar ||
      match iterate.mode with
      | .batch => false
      | .loop accumulate => fieldMatchesInjectedVar field accumulate.var

def phaseBlackboardOutputKeys (doc : PhaseDocument) : List String :=
  match doc.iterate.map IterateSpec.mode with
  | some (.loop accumulate) => [accumulate.var]
  | _ => schemaPropertyPaths doc.outputs

def RequiredDeclared (schema : Schema) : Prop :=
  ∀ name ∈ requiredKeys schema, name ∈ schemaProperties (some schema)

instance (schema : Schema) : Decidable (RequiredDeclared schema) :=
  inferInstanceAs (Decidable (∀ name ∈ requiredKeys schema, name ∈ schemaProperties (some schema)))

/-- A graph with its root interface, as far as it got through the schema and topology checks. -/
structure SkillDocument extends GraphDocument where
  rootInputs : Schema
  rootOutputs : Schema
  iterate : Option IterateSpec := none
  order : List String
  order_unique : order.Nodup := by decide
  order_covers : ∀ doc ∈ docs, doc.phaseName ∈ order
  inputs_required : ∀ doc ∈ docs, RequiredDeclared doc.inputs
  rootOutputs_object : (dictAt rootOutputs "properties").isSome := by decide
  rootOutputs_required : RequiredDeclared rootOutputs := by decide

def outputPhases (refs : List PhaseTopologyRef) : List String :=
  (refs.filter PhaseTopologyRef.output).map PhaseTopologyRef.name

def phaseDeps (refs : List PhaseTopologyRef) (name : String) : List String :=
  ((dependsOnMap refs).get? name).getD []

def dataflowSourceMissing : String := "[F-v3-graph-dataflow-source-missing]"

def iterateOverNotList : String := "[F-v3-iterate-over-not-list]"

def poisonedDiag (name : String) (itself : Bool) (poisonedDeps : List String) : Diag where
  path := .phase name
  code := dataflowSourceMissing
  message := "skipped dataflow check for phase '" ++ name ++
    "' due to poisoned upstream or self compile error (" ++
    (if itself then "phase '" ++ name ++ "' itself is poisoned"
      else "upstream dependencies [" ++ ", ".intercalate (poisonedDeps.map (fun dep => "'" ++ dep ++ "'")) ++
        "] are poisoned") ++ ")"
  fieldPath := name ++ ".io"

def sourceMissingDiag (name key : String) : Diag where
  path := .phase name
  code := dataflowSourceMissing
  message := "phase '" ++ name ++ "' input '" ++ key ++ "' has no root, upstream, " ++
    "runtime input, or iterator provider"
  fieldPath := name ++ ".io.inputs.properties." ++ key

def overMissingDiag (name overField : String) : Diag where
  path := .phase name
  code := iterateOverNotList
  message := "iterate over field '" ++ overField ++ "' of phase '" ++ name ++ "' has no " ++
    "root, upstream, or runtime input source, so it cannot resolve to a list at runtime"
  fieldPath := name ++ ".iterate.over"

def graphOverMissingDiag (overField : String) : Diag where
  path := .graph
  code := iterateOverNotList
  message := "graph iterate over field '" ++ overField ++ "' is not a root input " ++
    "field, so it cannot resolve to a list at runtime"
  fieldPath := "iterate.over"

def rootOutputMissingDiag (key : String) : Diag where
  path := .graph
  code := dataflowSourceMissing
  message := "required root output '" ++ key ++ "' is not produced by an output phase"
  fieldPath := "io.outputs.required." ++ key

structure DataflowState where
  availableAfter : Dict String (List String) := ∅
  poisoned : List String
  diags : List Diag := []

namespace SkillDocument

variable (g : SkillDocument) (runtimeInputFields : Option (Dict String (List String)))

def providedBy (availableAfter : Dict String (List String)) (dep : String) : List String :=
  if dep = "input" then schemaPropertyPaths g.rootInputs else (availableAfter.get? dep).getD []

def available (availableAfter : Dict String (List String)) (name : String) : List String :=
  (phaseDeps g.refs name).flatMap (g.providedBy availableAfter)

def inputIsSupplied (doc : PhaseDocument) (available : List String) (key : String) : Bool :=
  fieldIsSupplied key available || runtimeInputFieldIsSupplied runtimeInputFields doc.phaseName key ||
    (iterateSpecSuppliesField doc.iterate key || iterateSpecSuppliesField g.iterate key)

def overIsSupplied (doc : PhaseDocument) (available : List String) (overField : String) : Bool :=
  fieldIsSupplied overField available || runtimeInputFieldIsSupplied runtimeInputFields doc.phaseName overField

def phaseDiags (doc : PhaseDocument) (available : List String) : List Diag :=
  ((schemaPropertyPaths doc.inputs).filter
    (fun key => !g.inputIsSupplied runtimeInputFields doc available key)).map
      (sourceMissingDiag doc.phaseName) ++
  ((doc.iterate.map IterateSpec.overField).toList.filter
    (fun overField => !overIsSupplied runtimeInputFields doc available overField)).map
      (overMissingDiag doc.phaseName)

def checkPhase (poisonedPhases : List String) (s : DataflowState) (name : String) : DataflowState :=
  match docByName g.docs name with
  | none => s
  | some doc =>
    let poisonedDeps := (phaseDeps g.refs name).filter (· ∈ s.poisoned)
    if name ∈ s.poisoned ∨ poisonedDeps ≠ [] then
      { s with
        poisoned := s.poisoned ++ [name]
        diags := s.diags ++ [poisonedDiag name (name ∈ poisonedPhases) poisonedDeps] }
    else
      let available := g.available s.availableAfter name
      { s with
        availableAfter := s.availableAfter.set name (available ++ phaseBlackboardOutputKeys doc)
        diags := s.diags ++ g.phaseDiags runtimeInputFields doc available }

def graphIterateDiags : List Diag :=
  ((g.iterate.map IterateSpec.overField).toList.filter
    (fun overField => !fieldIsSupplied overField (schemaPropertyPaths g.rootInputs))).map graphOverMissingDiag

def terminalOutputKeys (s : DataflowState) : List String :=
  ((outputPhases g.refs).filter (· ∉ s.poisoned)).flatMap (fun name => (s.availableAfter.get? name).getD [])

def rootOutputDiags (s : DataflowState) : List Diag :=
  ((requiredKeys g.rootOutputs).dedup.filter
    (fun key => !fieldIsSupplied key (g.terminalOutputKeys s))).map rootOutputMissingDiag

def dataflowOrder : List String :=
  match g.order with
  | [] => g.docs.map PhaseDocument.phaseName
  | order => order

def checkPhases (poisonedPhases : List String) : DataflowState :=
  g.dataflowOrder.foldl (g.checkPhase runtimeInputFields poisonedPhases)
    { poisoned := poisonedPhases, diags := g.graphIterateDiags }

def validateStaticDataflow (poisonedPhases : List String) : List Diag :=
  let checked := g.checkPhases runtimeInputFields poisonedPhases
  checked.diags ++ g.rootOutputDiags checked

end SkillDocument

def Undotted (field : String) : Prop := '.' ∉ field.toList

instance (field : String) : Decidable (Undotted field) := inferInstanceAs (Decidable (¬ _))

theorem dotted_append {lead : String} (h : ¬ Undotted lead) (s : String) : ¬ Undotted (lead ++ s) := by
  unfold Undotted at *
  simp only [not_not] at *
  simp [h]

theorem dotted_lead (s : String) : ¬ Undotted (s ++ ".") := by
  simp [Undotted]

mutual

theorem dotted_of_flatten {lead path : String} (hl : ¬ Undotted lead) (properties : List (String × Value))
    (h : path ∈ flattenSchemaPropertyPaths lead properties) : ¬ Undotted path := by
  cases properties with
  | nil => simp [flattenSchemaPropertyPaths] at h
  | cons property rest =>
    obtain ⟨key, fieldSchema⟩ := property
    rw [flattenSchemaPropertyPaths, List.mem_cons, List.mem_append] at h
    rcases h with rfl | h | h
    · exact dotted_append hl key
    · exact dotted_of_nested (dotted_lead _) fieldSchema h
    · exact dotted_of_flatten hl rest h
termination_by structural properties

theorem dotted_of_nested {lead path : String} (hl : ¬ Undotted lead) (fieldSchema : Value)
    (h : path ∈ nestedPropertyPaths lead fieldSchema) : ¬ Undotted path := by
  cases fieldSchema with
  | dict kvs =>
    rw [nestedPropertyPaths] at h
    split_ifs at h
    · exact dotted_of_object hl kvs h
    · simp at h
  | _ => simp [nestedPropertyPaths] at h
termination_by structural fieldSchema

theorem dotted_of_object {lead path : String} (hl : ¬ Undotted lead) (kvs : List (String × Value))
    (h : path ∈ objectPropertyPaths lead kvs) : ¬ Undotted path := by
  cases kvs with
  | nil => simp [objectPropertyPaths] at h
  | cons kv rest =>
    obtain ⟨k, v⟩ := kv
    rw [objectPropertyPaths, List.mem_append] at h
    rcases h with h | h
    · split_ifs at h
      · exact dotted_of_properties hl v h
      · simp at h
    · exact dotted_of_object hl rest h
termination_by structural kvs

theorem dotted_of_properties {lead path : String} (hl : ¬ Undotted lead) (properties : Value)
    (h : path ∈ propertiesPaths lead properties) : ¬ Undotted path := by
  cases properties with
  | dict nested =>
    rw [propertiesPaths] at h
    exact dotted_of_flatten hl nested h
  | _ => simp [propertiesPaths] at h
termination_by structural properties

end

theorem mem_flatten_top {key : String} {properties : List (String × Value)} (hk : Undotted key) :
    key ∈ flattenSchemaPropertyPaths "" properties ↔ key ∈ properties.map Prod.fst := by
  induction properties with
  | nil => simp [flattenSchemaPropertyPaths]
  | cons property rest ih =>
    obtain ⟨name, fieldSchema⟩ := property
    have hnest : key ∉ nestedPropertyPaths (name ++ ".") fieldSchema := by
      intro h
      exact dotted_of_nested (dotted_lead _) fieldSchema h hk
    rw [flattenSchemaPropertyPaths, String.empty_append, List.mem_cons, List.mem_append, ih, List.map_cons,
      List.mem_cons]
    simp only [hnest, false_or]

theorem mem_schemaPropertyPaths {key : String} {schema : Schema} (hk : Undotted key) :
    key ∈ schemaPropertyPaths schema ↔ key ∈ schemaProperties (some schema) := by
  simp only [schemaPropertyPaths, schemaProperties, Option.bind_some]
  cases dictAt schema "properties" with
  | none => simp
  | some properties => exact mem_flatten_top hk

theorem ancestorPaths_undotted {field : String} (h : Undotted field) : ancestorPaths field = [field] := by
  have hsplit : field.toList.splitOn '.' = [field.toList] := by
    apply List.splitOnP_eq_singleton
    intro c hc
    simp only [beq_eq_false_iff_ne]
    rintro rfl
    exact h hc
  simp [ancestorPaths, hsplit]

theorem fieldIsSupplied_undotted {field : String} {available : List String} (h : Undotted field) :
    fieldIsSupplied field available = true ↔ field ∈ available := by
  simp [fieldIsSupplied, ancestorPaths_undotted h]

theorem runtimeInput_file {config : Option RuntimeConfig} {phaseName field : String} (h : Undotted field)
    (hs : runtimeInputFieldIsSupplied (runtimeInputFieldsFromConfig config) phaseName field = true) :
    field ∈ (runtimeInputFileSpecs config phaseName).map InputFile.field := by
  unfold runtimeInputFieldIsSupplied at hs
  split at hs
  · cases hs
  · rename_i phaseFields hf
    obtain ⟨fields, hfields, hget⟩ := Option.bind_eq_some_iff.mp hf
    obtain ⟨hmap, -⟩ := Option.filter_eq_some_iff.mp hfields
    obtain ⟨phases, rfl, rfl⟩ := Option.map_eq_some_iff.mp hmap
    rw [Dict.get?_mapValues, Dict.get?_filter] at hget
    obtain ⟨files, hfiles, rfl⟩ := Option.map_eq_some_iff.mp hget
    obtain ⟨hfiles, -⟩ := Option.filter_eq_some_iff.mp hfiles
    simp only [runtimeInputFileSpecs, Option.bind_some, hfiles, Option.getD_some]
    exact (fieldIsSupplied_undotted h).mp hs

theorem fieldMatchesInjectedVar_undotted {field varName : String} (h : Undotted field) :
    fieldMatchesInjectedVar field varName = true ↔ field = varName := by
  have hdot : startsWith field (varName ++ ".") = false := by
    rw [Bool.eq_false_iff]
    intro hs
    obtain ⟨t, rfl⟩ := startsWith_iff.mp hs
    exact dotted_append (dotted_lead varName) t h
  simp [fieldMatchesInjectedVar, hdot]

theorem dotted_of_missingNames {required : Option Value} {data : Dict String Value} {lead path : String}
    (hl : ¬ Undotted lead) (h : path ∈ missingNames required data lead) : ¬ Undotted path := by
  unfold missingNames at h
  split at h
  · obtain ⟨n, -, hn⟩ := List.mem_filterMap.mp h
    split at hn
    · split_ifs at hn
      obtain rfl := Option.some.inj hn
      exact dotted_append hl _
    · cases hn
  · simp at h

mutual

theorem dotted_of_missing {data schema : Value} {lead path : String} (hl : ¬ Undotted lead)
    (h : path ∈ missingRequiredPaths data lead schema) : ¬ Undotted path := by
  cases schema with
  | dict kvs =>
    rw [missingRequiredPaths, sortKeys, List.mem_insertionSort, List.mem_append] at h
    rcases h with h | h
    · exact dotted_of_missingNames hl h
    · exact dotted_of_missingInSchema h
  | _ => simp [missingRequiredPaths] at h
termination_by structural schema

theorem dotted_of_missingInSchema {dataMap : Dict String Value} {lead path : String}
    {kvs : List (String × Value)} (h : path ∈ missingInSchema dataMap lead kvs) : ¬ Undotted path := by
  cases kvs with
  | nil => simp [missingInSchema] at h
  | cons kv rest =>
    obtain ⟨k, v⟩ := kv
    rw [missingInSchema, List.mem_append] at h
    rcases h with h | h
    · split_ifs at h
      · exact dotted_of_missingInProperties h
      · simp at h
    · exact dotted_of_missingInSchema h
termination_by structural kvs

theorem dotted_of_missingInProperties {dataMap : Dict String Value} {lead path : String}
    {properties : Value} (h : path ∈ missingInProperties dataMap lead properties) : ¬ Undotted path := by
  cases properties with
  | dict kvs =>
    rw [missingInProperties] at h
    exact dotted_of_missingInFields h
  | _ => simp [missingInProperties] at h
termination_by structural properties

theorem dotted_of_missingInFields {dataMap : Dict String Value} {lead path : String}
    {properties : List (String × Value)} (h : path ∈ missingInFields dataMap lead properties) :
    ¬ Undotted path := by
  cases properties with
  | nil => simp [missingInFields] at h
  | cons property rest =>
    obtain ⟨name, subschema⟩ := property
    rw [missingInFields, List.mem_append] at h
    rcases h with h | h
    · split at h
      · split_ifs at h
        · exact dotted_of_missing (dotted_lead _) h
        · simp at h
      · simp at h
    · exact dotted_of_missingInFields h
termination_by structural properties

end

theorem mem_missingNames {required : Option Value} {data : Dict String Value} {path : String}
    (h : path ∈ missingNames required data "") :
    (∃ names, required = some (.list names) ∧ .str path ∈ names) ∧ data.contains path = false := by
  unfold missingNames at h
  split at h
  · rename_i names
    obtain ⟨n, hn, hs⟩ := List.mem_filterMap.mp h
    split at hs
    · split_ifs at hs with hc
      rw [String.empty_append] at hs
      obtain rfl := Option.some.inj hs
      exact ⟨⟨names, rfl, hn⟩, by simpa using hc⟩
    · cases hs
  · simp at h

theorem missingRequiredInputs_undotted {data : Dict String Value} {schema : Schema} {path : String}
    (hp : Undotted path) (h : path ∈ missingRequiredInputs data (some schema)) :
    path ∈ requiredKeys schema ∧ data.contains path = false := by
  simp only [missingRequiredInputs, Value.ofDict, missingRequiredPaths, sortKeys, List.mem_insertionSort,
    List.mem_append, Dict.ofList_entries] at h
  rcases h with h | h
  · obtain ⟨⟨names, hreq, hm⟩, habsent⟩ := mem_missingNames h
    refine ⟨?_, by simpa [Value.asDict?] using habsent⟩
    simp only [requiredKeys, hreq, List.mem_filterMap]
    exact ⟨.str path, hm, rfl⟩
  · exact absurd hp (dotted_of_missingInSchema h)

namespace SkillDocument

section Supplied

variable (g : SkillDocument) (runtimeInputFields : Option (Dict String (List String)))

def Extends (before after : Dict String (List String)) : Prop :=
  ∀ name keys, before.get? name = some keys → after.get? name = some keys

structure PhaseSupplied (availableAfter : Dict String (List String)) (doc : PhaseDocument)
    (available : List String) : Prop where
  upstream : ∀ key ∈ available, ∃ dep ∈ phaseDeps g.refs doc.phaseName, key ∈ g.providedBy availableAfter dep
  after : availableAfter.get? doc.phaseName = some (available ++ phaseBlackboardOutputKeys doc)
  inputs : ∀ key ∈ schemaPropertyPaths doc.inputs,
    g.inputIsSupplied runtimeInputFields doc available key = true
  overSupplied : ∀ iterate, doc.iterate = some iterate →
    overIsSupplied runtimeInputFields doc available iterate.overField = true

variable {g runtimeInputFields}
variable {before after : Dict String (List String)} {doc : PhaseDocument} {available : List String}

theorem providedBy_mono (h : Extends before after) {dep key : String} (hk : key ∈ g.providedBy before dep) :
    key ∈ g.providedBy after dep := by
  unfold providedBy at *
  split_ifs at * with hd
  · exact hk
  · cases hb : before.get? dep with
    | none => simp [hb] at hk
    | some keys =>
      rw [hb] at hk
      rw [h dep keys hb]
      exact hk

theorem PhaseSupplied.mono (h : Extends before after)
    (hs : g.PhaseSupplied runtimeInputFields before doc available) :
    g.PhaseSupplied runtimeInputFields after doc available where
  upstream key hk := by
    obtain ⟨dep, hd, hp⟩ := hs.upstream key hk
    exact ⟨dep, hd, providedBy_mono h hp⟩
  after := h _ _ hs.after
  inputs := hs.inputs
  overSupplied := hs.overSupplied

theorem extends_set {name : String} (keys : List String) (h : before.get? name = none) :
    Extends before (before.set name keys) := by
  intro other others ho
  have hne : name ≠ other := by
    rintro rfl
    rw [h] at ho
    cases ho
  simp [hne, ho]

theorem of_phaseDiags_nil (h : g.phaseDiags runtimeInputFields doc available = []) :
    (∀ key ∈ schemaPropertyPaths doc.inputs, g.inputIsSupplied runtimeInputFields doc available key = true) ∧
      ∀ iterate, doc.iterate = some iterate →
        overIsSupplied runtimeInputFields doc available iterate.overField = true := by
  simp only [phaseDiags, List.append_eq_nil_iff, List.map_eq_nil_iff, List.filter_eq_nil_iff,
    Bool.not_eq_true', Bool.not_eq_false] at h
  refine ⟨h.1, ?_⟩
  intro iterate hi
  exact h.2 iterate.overField (by simp [hi])

theorem checkPhase_cases (poisonedPhases : List String) (s : DataflowState) (name : String) :
    (docByName g.docs name = none ∧ g.checkPhase runtimeInputFields poisonedPhases s name = s) ∨
    (∃ diag, (g.checkPhase runtimeInputFields poisonedPhases s name).diags = s.diags ++ [diag] ∧
      (g.checkPhase runtimeInputFields poisonedPhases s name).availableAfter = s.availableAfter) ∨
    ∃ doc, docByName g.docs name = some doc ∧
      g.checkPhase runtimeInputFields poisonedPhases s name =
        { s with
          availableAfter := s.availableAfter.set name
            (g.available s.availableAfter name ++ phaseBlackboardOutputKeys doc)
          diags := s.diags ++ g.phaseDiags runtimeInputFields doc (g.available s.availableAfter name) } := by
  unfold checkPhase
  split
  · rename_i hdoc
    exact Or.inl ⟨hdoc, rfl⟩
  · rename_i doc hdoc
    dsimp only
    split_ifs
    · exact Or.inr (Or.inl ⟨_, rfl, rfl⟩)
    · exact Or.inr (Or.inr ⟨doc, hdoc, rfl⟩)

theorem foldl_supplied (poisonedPhases : List String) {names : List String} (hn : names.Nodup)
    {s : DataflowState} (hfresh : ∀ name ∈ names, s.availableAfter.get? name = none)
    (hclean : (names.foldl (g.checkPhase runtimeInputFields poisonedPhases) s).diags = []) :
    s.diags = [] ∧
    Extends s.availableAfter
      (names.foldl (g.checkPhase runtimeInputFields poisonedPhases) s).availableAfter ∧
    ∀ doc ∈ g.docs, doc.phaseName ∈ names → ∃ available, g.PhaseSupplied runtimeInputFields
      (names.foldl (g.checkPhase runtimeInputFields poisonedPhases) s).availableAfter doc available := by
  induction names generalizing s with
  | nil => exact ⟨hclean, fun _ _ h => h, by simp⟩
  | cons name names ih =>
    rw [List.foldl_cons] at hclean ⊢
    obtain ⟨hnot, hn⟩ := List.nodup_cons.mp hn
    have hname : s.availableAfter.get? name = none := hfresh name (List.mem_cons_self ..)
    have hrest : ∀ other ∈ names, s.availableAfter.get? other = none :=
      fun other hm => hfresh other (List.mem_cons_of_mem _ hm)
    rcases g.checkPhase_cases poisonedPhases s name with ⟨hdoc, he⟩ | ⟨diag, hd, ha⟩ | ⟨doc, hdoc, he⟩
    · rw [he] at hclean ⊢
      obtain ⟨hs, hext, hdocs⟩ := ih hn hrest hclean
      refine ⟨hs, hext, ?_⟩
      intro doc hmem hm
      rcases List.mem_cons.mp hm with rfl | hm
      · rw [GraphDocument.docByName_of_mem hmem] at hdoc
        cases hdoc
      · exact hdocs doc hmem hm
    · -- a poisoned phase is always reported
      obtain ⟨hs, -, -⟩ := ih hn (by rw [ha]; exact hrest) hclean
      rw [hd] at hs
      simp at hs
    · rw [he] at hclean ⊢
      -- the phase is new to the table, so what the earlier phases provide stays as it is
      have hfirst := extends_set (g.available s.availableAfter name ++ phaseBlackboardOutputKeys doc) hname
      obtain ⟨hs, hext, hdocs⟩ := ih hn (fun other hm => by
        have hne : name ≠ other := fun h => hnot (h ▸ hm)
        simp [hne, hrest other hm]) hclean
      obtain ⟨hs, hdiags⟩ := List.append_eq_nil_iff.mp hs
      refine ⟨hs, fun _ _ h => hext _ _ (hfirst _ _ h), ?_⟩
      intro doc' hmem hm
      rcases List.mem_cons.mp hm with rfl | hm
      · rw [GraphDocument.docByName_of_mem hmem] at hdoc
        obtain rfl := Option.some.inj hdoc
        obtain ⟨hinputs, hover⟩ := of_phaseDiags_nil hdiags
        refine ⟨_, PhaseSupplied.mono hext ⟨?_, by simp, hinputs, hover⟩⟩
        intro key hk
        obtain ⟨dep, hdep, hp⟩ := List.mem_flatMap.mp hk
        exact ⟨dep, hdep, providedBy_mono hfirst hp⟩
      · exact hdocs doc' hmem hm

theorem dataflowOrder_unique (g : SkillDocument) : g.dataflowOrder.Nodup := by
  unfold dataflowOrder
  split
  · exact g.docs_unique
  · exact g.order_unique

theorem mem_dataflowOrder (hm : doc ∈ g.docs) : doc.phaseName ∈ g.dataflowOrder := by
  unfold dataflowOrder
  split
  · exact List.mem_map_of_mem hm
  · exact g.order_covers doc hm

variable (g runtimeInputFields) in
structure DataflowSupplied (availableAfter : Dict String (List String)) : Prop where
  phases : ∀ doc ∈ g.docs, ∃ available, g.PhaseSupplied runtimeInputFields availableAfter doc available
  overSupplied : ∀ iterate, g.iterate = some iterate → Undotted iterate.overField →
    iterate.overField ∈ schemaProperties (some g.rootInputs)
  outputs : ∀ key ∈ requiredKeys g.rootOutputs, Undotted key →
    ∃ name ∈ outputPhases g.refs, key ∈ (availableAfter.get? name).getD []

theorem supplied_of_valid {poisonedPhases : List String}
    (h : g.validateStaticDataflow runtimeInputFields poisonedPhases = []) :
    g.DataflowSupplied runtimeInputFields (g.checkPhases runtimeInputFields poisonedPhases).availableAfter := by
  obtain ⟨hphases, houts⟩ := List.append_eq_nil_iff.mp h
  obtain ⟨hgraph, -, hdocs⟩ := foldl_supplied poisonedPhases g.dataflowOrder_unique (by simp) hphases
  constructor
  · exact fun doc hm => hdocs doc hm (mem_dataflowOrder hm)
  · intro iterate hi hover
    simp only [graphIterateDiags, hi, Option.map_some, Option.toList_some, List.map_eq_nil_iff,
      List.filter_eq_nil_iff, List.mem_singleton, forall_eq, Bool.not_eq_true', Bool.not_eq_false,
      fieldIsSupplied_undotted hover, mem_schemaPropertyPaths hover] at hgraph
    exact hgraph
  · intro key hk hplain
    simp only [rootOutputDiags, List.map_eq_nil_iff, List.filter_eq_nil_iff, List.mem_dedup,
      Bool.not_eq_true', Bool.not_eq_false] at houts
    have hmem := (fieldIsSupplied_undotted hplain).mp (houts key hk)
    obtain ⟨name, hname, hkey⟩ := List.mem_flatMap.mp hmem
    exact ⟨name, (List.mem_filter.mp hname).1, hkey⟩

end Supplied

end SkillDocument

end GraphSkillRuntime
