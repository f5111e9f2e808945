import GraphSkillRuntime.Schema
import GraphSkillRuntime.SubagentDepth
import GraphSkillRuntime.SubgraphOutputs

/-!
The calls of a subagent's tool: the model that is built from the inputs of the child skill, the fields each child
graph starts from, and what the caller gets of its final blackboard.
-/

namespace GraphSkillRuntime.SubagentCalls

open OrderedDict

inductive JsonAnnotation where
  | str | int | float | bool | list | dict | any
  deriving DecidableEq

def annotationForJsonSchema (fieldSchema : Dict String Value) : JsonAnnotation :=
  match fieldSchema.get? "type" with
  | some (.str "string") => .str
  | some (.str "integer") => .int
  | some (.str "number") => .float
  | some (.str "boolean") => .bool
  | some (.str "array") => .list
  | some (.str "object") => .dict
  | _ => .any

inductive Loc where
  | key (name : String)
  | index (i : ℕ)
  deriving DecidableEq

structure FieldError where
  loc : List Loc
  msg : String
  type : String
  deriving DecidableEq

structure Pydantic where
  fieldName : String → Bool
  validate : JsonAnnotation → Value → Except (List FieldError) Value
  errors_nonempty : ∀ annotation value errors, validate annotation value = .error errors → errors ≠ []

structure ModelField where
  name : String
  annotation : JsonAnnotation
  required : Bool
  default : Value
  description : Option String

def modelField (required : List String) (name : String) (fieldSchema : Dict String Value) : ModelField where
  name := name
  annotation := annotationForJsonSchema fieldSchema
  required := required.contains name
  default := (fieldSchema.get? "default").getD .null
  description := match fieldSchema.get? "description" with
    | some (.str description) => some description
    | _ => none

def buildModelField (P : Pydantic) (required : List String) (entry : String × Value) : Except String ModelField :=
  match entry.2.asDict? with
  | none => .error "io.inputs properties must map field names to schema objects"
  | some fieldSchema =>
    if P.fieldName entry.1 then .ok (modelField required entry.1 fieldSchema)
    else .error ("Fields must not use the name " ++ entry.1)

def buildSubagentInputModel (P : Pydantic) (schema : Schema) : Except String (List ModelField) :=
  match dictAt schema "properties" with
  | none => .error "io.inputs schema must define a non-empty properties object"
  | some properties =>
    if properties.entries = [] then .error "io.inputs schema must define a non-empty properties object"
    else properties.entries.mapM (buildModelField P (requiredKeys schema))

def fieldValue (P : Pydantic) (data : Dict String Value) (field : ModelField) :
    Except (List FieldError) (String × Value) :=
  match data.get? field.name with
  | some value =>
    match P.validate field.annotation value with
    | .ok validated => .ok (field.name, validated)
    | .error errors => .error (errors.map fun e => { e with loc := .key field.name :: e.loc })
  | none =>
    if field.required then .error [⟨[.key field.name], "Field required", "missing"⟩]
    else .ok (field.name, field.default)

def errorsOf {α : Type} : Except (List FieldError) α → List FieldError
  | .error errors => errors
  | .ok _ => []

/-- `model_validate` of an item, and `model_dump` of what it gives. -/
def validateItem (P : Pydantic) (model : List ModelField) (item : Value) :
    Except (List FieldError) (Dict String Value) :=
  match item.asDict? with
  | none => .error [⟨[], "Input should be a valid dictionary or instance of the model", "model_type"⟩]
  | some data =>
    let values := model.map (fieldValue P data)
    let extra := (data.keys.filter fun k => !(model.map ModelField.name).contains k).map fun k =>
      (⟨[.key k], "Extra inputs are not permitted", "extra_forbidden"⟩ : FieldError)
    match values.flatMap errorsOf ++ extra with
    | [] => .ok (.ofList (values.filterMap Except.toOption))
    | errors => .error errors

def maxSubagentSchemaRetries : ℤ := 10

structure SubagentValidationFailure where
  toolName : String
  subagentName : String
  retryCount : ℤ
  message : String
  expectedSchema : Value
  errors : List FieldError

structure Subagent where
  name : String
  inputSchema : Schema
  inputModel : List ModelField
  expectedSchema : Value

def retriesExceeded (toolName : String) (retryCount : ℤ) : String :=
  "call_subagent validation exceeded max retries: tool=" ++ toolName ++ " retry_count=" ++ toString retryCount

def itemErrors (P : Pydantic) (model : List ModelField) (index : ℕ) (item : Value) : List FieldError :=
  (errorsOf (validateItem P model item)).map fun e => { e with loc := .key "inputs" :: .index index :: e.loc }

def validateSubagentToolArgs (P : Pydantic) (toolName : String) (subagent : Subagent) (args : Dict String Value)
    (retryCount : ℤ) : Except String (Except SubagentValidationFailure (List (Dict String Value))) :=
  let refused (message : String) (errors : List FieldError) :
      Except String (Except SubagentValidationFailure (List (Dict String Value))) :=
    if maxSubagentSchemaRetries < retryCount then .error (retriesExceeded toolName retryCount)
    else
      .ok (.error ⟨toolName, subagent.name, retryCount, message, subagent.expectedSchema, errors⟩)
  match args.get? "inputs" with
  | some (.list inputs) =>
    match (inputs.mapIdx (itemErrors P subagent.inputModel)).flatten with
    | [] => .ok (.ok (inputs.filterMap fun item => (validateItem P subagent.inputModel item).toOption))
    | errors =>
      refused ("Validation Error: subagent inputs did not match expected schema. " ++
        "Please retry with correct schema.") errors
  | _ =>
    refused ("Validation Error: Expected \x7b'inputs': list[object]\x7d where each item matches subagent '" ++
      subagent.name ++ "' input schema. Please retry with correct schema.")
      [⟨[.key "inputs"], "Input should be a valid list", "list_type"⟩]

/-- A child graph from its initial to its final state, or the text of what it raises. -/
abbrev ChildGraph := WorkflowState → Except String WorkflowState

structure ItemResult where
  index : ℕ
  subagentName : String
  outcome : Except String (Dict String Value × FrameworkState)
  parentRunId : Option String
  childRunId : String

def ItemResult.data? (result : ItemResult) : Option (Dict String Value) :=
  match result.outcome with
  | .ok (data, _) => some data
  | .error _ => none

def subagentState (parent : WorkflowState) (inputData : Dict String Value) : WorkflowState where
  data := inputData
  flow := childFlow parent.flow
  messages := []

def invokeSubagentOnce (graph : ChildGraph) (parent : WorkflowState) (inputData : Dict String Value) :
    Except String (Dict String Value × FrameworkState) :=
  match graph (subagentState parent inputData) with
  | .error message => .error message
  | .ok result => .ok (dictDelta inputData result.data, result.flow)

def invokeSubagentMany (graph : ChildGraph) (subagentName : String) (parent : WorkflowState) (runId : ℕ → String)
    (inputs : List (Dict String Value)) : List ItemResult :=
  inputs.mapIdx fun index inputData =>
    { index, subagentName
      outcome := invokeSubagentOnce graph parent inputData
      parentRunId := parent.flow.runId
      childRunId := runId index }

inductive ToolResult where
  | refused (failure : SubagentValidationFailure)
  | results (toolName subagentName : String) (results : List ItemResult)

def invokeSubagentTool (P : Pydantic) (toolName : String) (subagent : Subagent) (args : Dict String Value)
    (parent : WorkflowState) (graph : ChildGraph) (runId : ℕ → String) :
    Except String (ToolResult × FrameworkState) := do
  assertSubagentDepthAllowed (currentSubagentDepth parent.flow)
  let retries := parent.flow.subagentValidationRetries
  let retryCount := (retries.get? toolName).getD 0 + 1
  match ← validateSubagentToolArgs P toolName subagent args retryCount with
  | .error failure =>
    .ok (.refused failure, { parent.flow with subagentValidationRetries := retries.set toolName retryCount })
  | .ok inputs =>
    .ok (.results toolName subagent.name (invokeSubagentMany graph subagent.name parent runId inputs),
      { parent.flow with subagentValidationRetries := retries.erase toolName })

def fieldSchemaOf (schema : Schema) (name : String) : Option (Dict String Value) :=
  (dictAt schema "properties").bind (dictAt · name)

def ExpectedStart (schema : Schema) (data start : Dict String Value) : Prop :=
  ∀ k, start.get? k = (data.get? k).or ((fieldSchemaOf schema k).bind (·.get? "default"))

def ItemKept (P : Pydantic) (schema : Schema) (data : Dict String Value) : Prop :=
  ∀ name fieldSchema, fieldSchemaOf schema name = some fieldSchema →
    (∀ value, data.get? name = some value → P.validate (annotationForJsonSchema fieldSchema) value = .ok value) ∧
      (data.get? name = none → (fieldSchema.get? "default").isSome = true)

def ItemFaithful (P : Pydantic) (subagent : Subagent) (outputs : List String) (graph : ChildGraph)
    (parent : WorkflowState) (item : Value) (result : ItemResult) : Prop :=
  ∃ data start, item.asDict? = some data ∧ validateItem P subagent.inputModel item = .ok start ∧
    ExpectedStart subagent.inputSchema data start ∧
    (∀ message, graph (subagentState parent start) = .error message → result.data? = none) ∧
    ∀ final, graph (subagentState parent start) = .ok final →
      ∃ given, result.data? = some given ∧ ∀ o ∈ outputs, given.get? o = final.data.get? o

structure CallFaithful (P : Pydantic) (subagent : Subagent) (outputs : List String) (graph : ChildGraph)
    (parent : WorkflowState) (items : List Value) (results : List ItemResult) : Prop where
  length : results.length = items.length
  item : ∀ i item result, items[i]? = some item → results[i]? = some result →
    result.index = i ∧ ItemFaithful P subagent outputs graph parent item result

/-- No child ends with a declared output that equals the field of that name it started from. -/
def CallKept (P : Pydantic) (subagent : Subagent) (outputs : List String) (graph : ChildGraph) (parent : WorkflowState)
    (items : List Value) : Prop :=
  ∀ item ∈ items, ∀ data, item.asDict? = some data → ItemKept P subagent.inputSchema data ∧
    ∀ start final, validateItem P subagent.inputModel item = .ok start →
      graph (subagentState parent start) = .ok final → AllChanged outputs start final.data

variable {P : Pydantic} {schema : Schema} {model : List ModelField}

theorem fieldValue_ok {data : Dict String Value} {f : ModelField} (h : errorsOf (fieldValue P data f) = []) :
    ∃ value, fieldValue P data f = .ok (f.name, value) := by
  unfold fieldValue at h ⊢
  cases hget : data.get? f.name with
  | none =>
    simp only [hget] at h ⊢
    split at h
    · cases h
    next hrequired =>
    rw [if_neg hrequired]
    exact ⟨_, rfl⟩
  | some value =>
    simp only [hget] at h ⊢
    cases hvalid : P.validate f.annotation value with
    | ok validated => exact ⟨_, rfl⟩
    | error errors =>
      rw [hvalid] at h
      exact absurd (List.map_eq_nil_iff.mp h) (P.errors_nonempty _ _ _ hvalid)

theorem inputModel_fields (hmodel : buildSubagentInputModel P schema = .ok model) :
    (model.map ModelField.name).Nodup ∧
      (∀ f ∈ model, ∃ fieldSchema, fieldSchemaOf schema f.name = some fieldSchema ∧
        f = modelField (requiredKeys schema) f.name fieldSchema) ∧
      ∀ name fieldSchema, fieldSchemaOf schema name = some fieldSchema → name ∈ model.map ModelField.name := by
  unfold buildSubagentInputModel at hmodel
  split at hmodel
  · cases hmodel
  next properties hproperties =>
  split at hmodel
  · cases hmodel
  have hfields := mapM_ok_iff.mp hmodel
  have hfield : ∀ entry f, buildModelField P (requiredKeys schema) entry = .ok f →
      ∃ fieldSchema, entry.2.asDict? = some fieldSchema ∧ f = modelField (requiredKeys schema) entry.1 fieldSchema := by
    intro entry f h
    unfold buildModelField at h
    split at h
    · cases h
    next fieldSchema hfieldSchema =>
    split at h
    · cases h
      exact ⟨fieldSchema, hfieldSchema, rfl⟩
    · cases h
  have hnames : model.map ModelField.name = properties.keys := by
    apply map_eq_of_forall₂ hfields
    intro entry f h
    obtain ⟨fieldSchema, -, rfl⟩ := hfield entry f h
    rfl
  refine ⟨?_, ?_, ?_⟩
  · rw [hnames]
    exact properties.nodup
  · intro f hf
    obtain ⟨entry, hentry, h⟩ := exists_mem_of_forall₂ hfields hf
    obtain ⟨fieldSchema, hfieldSchema, rfl⟩ := hfield entry f h
    refine ⟨fieldSchema, ?_, rfl⟩
    have hget : properties.get? entry.1 = some entry.2 := Dict.get?_mem.mpr hentry
    change (dictAt schema "properties").bind (dictAt · entry.1) = some fieldSchema
    rw [hproperties, Option.bind_some, dictAt, hget]
    exact hfieldSchema
  · intro name fieldSchema h
    rw [hnames, Dict.mem_keys]
    rw [fieldSchemaOf, hproperties, Option.bind_some, dictAt] at h
    obtain ⟨value, hvalue, -⟩ := Option.bind_eq_some_iff.mp h
    rw [hvalue]
    rfl

theorem validateItem_ok (hnodup : (model.map ModelField.name).Nodup) {item : Value} {start : Dict String Value}
    (h : validateItem P model item = .ok start) :
    ∃ data, item.asDict? = some data ∧
      (∀ f ∈ model, ∃ value, fieldValue P data f = .ok (f.name, value) ∧ start.get? f.name = some value) ∧
      ∀ k, k ∉ model.map ModelField.name → data.get? k = none ∧ start.get? k = none := by
  unfold validateItem at h
  split at h
  · cases h
  next data hdata =>
  simp only at h
  split at h
  swap
  · cases h
  next hnil =>
  cases h
  obtain ⟨hvalues, hextra⟩ := List.append_eq_nil_iff.mp hnil
  have hok : ∀ f ∈ model, ∃ value, fieldValue P data f = .ok (f.name, value) := by
    intro f hf
    exact fieldValue_ok (List.flatMap_eq_nil_iff.mp hvalues _ (List.mem_map_of_mem hf))
  have hkeys : ((model.map (fieldValue P data)).filterMap Except.toOption).map Prod.fst =
      model.map ModelField.name := by
    clear hnil hvalues hextra hnodup
    induction model with
    | nil => rfl
    | cons f model ih =>
      obtain ⟨value, hvalue⟩ := hok f (List.mem_cons_self ..)
      rw [List.map_cons, hvalue]
      change f.name :: _ = f.name :: _
      rw [ih fun g hg => hok g (List.mem_cons_of_mem f hg)]
  refine ⟨data, hdata, ?_, ?_⟩
  · intro f hf
    obtain ⟨value, hvalue⟩ := hok f hf
    refine ⟨value, hvalue, Dict.get?_ofList_of_mem (by rw [hkeys]; exact hnodup) ?_⟩
    exact List.mem_filterMap.mpr ⟨_, List.mem_map_of_mem hf, by rw [hvalue]; rfl⟩
  · intro k hk
    constructor
    · rw [Dict.get?_eq_none]
      intro hmem
      have hk' := List.filter_eq_nil_iff.mp (List.map_eq_nil_iff.mp hextra) k hmem
      simp only [Bool.not_eq_true', Bool.not_eq_false, List.contains_iff_mem] at hk'
      exact hk hk'
    · rw [Dict.get?_ofList, Dict.find_eq_none, List.map_reverse, List.mem_reverse, hkeys]
      exact hk

theorem expectedStart_iff (hmodel : buildSubagentInputModel P schema = .ok model) {item : Value}
    {data start : Dict String Value} (hdata : item.asDict? = some data) (h : validateItem P model item = .ok start) :
    ExpectedStart schema data start ↔ ItemKept P schema data := by
  obtain ⟨hnodup, hfields, hproperties⟩ := inputModel_fields hmodel
  obtain ⟨data', hdata', hvalues, hothers⟩ := validateItem_ok hnodup h
  obtain rfl := Option.some.inj (hdata.symm.trans hdata')
  have hfield : ∀ f ∈ model, ∀ fieldSchema, fieldSchemaOf schema f.name = some fieldSchema →
      (start.get? f.name = (data.get? f.name).or ((fieldSchemaOf schema f.name).bind (·.get? "default")) ↔
        (∀ value, data.get? f.name = some value →
            P.validate (annotationForJsonSchema fieldSchema) value = .ok value) ∧
          (data.get? f.name = none → (fieldSchema.get? "default").isSome = true)) := by
    intro f hf fieldSchema hschema
    obtain ⟨fieldSchema', hschema', hf'⟩ := hfields f hf
    obtain rfl := Option.some.inj (hschema.symm.trans hschema')
    obtain ⟨value, hvalue, hstart⟩ := hvalues f hf
    rw [hstart, hschema, Option.bind_some]
    have hannotation : f.annotation = annotationForJsonSchema fieldSchema := congrArg ModelField.annotation hf'
    have hdefault : f.default = (fieldSchema.get? "default").getD .null := congrArg ModelField.default hf'
    unfold fieldValue at hvalue
    cases hget : data.get? f.name with
    | none =>
      simp only [hget] at hvalue
      split at hvalue
      · cases hvalue
      obtain rfl : f.default = value := congrArg Prod.snd (Except.ok.inj hvalue)
      rw [hdefault]
      cases fieldSchema.get? "default" <;> simp
    | some given =>
      simp only [hget, hannotation] at hvalue
      cases hvalid : P.validate (annotationForJsonSchema fieldSchema) given with
      | error errors =>
        rw [hvalid] at hvalue
        cases hvalue
      | ok validated =>
        rw [hvalid] at hvalue
        obtain rfl : validated = value := congrArg Prod.snd (Except.ok.inj hvalue)
        simp [hvalid]
  constructor
  · intro hexpected name fieldSchema hschema
    obtain ⟨f, hf, rfl⟩ := List.mem_map.mp (hproperties name fieldSchema hschema)
    exact (hfield f hf fieldSchema hschema).mp (hexpected f.name)
  · intro hkept k
    by_cases hk : k ∈ model.map ModelField.name
    · obtain ⟨f, hf, rfl⟩ := List.mem_map.mp hk
      obtain ⟨fieldSchema, hschema, -⟩ := hfields f hf
      exact (hfield f hf fieldSchema hschema).mpr (hkept f.name fieldSchema hschema)
    · obtain ⟨hdata, hstart⟩ := hothers k hk
      have hnone : fieldSchemaOf schema k = none := by
        cases hschema : fieldSchemaOf schema k with
        | none => rfl
        | some fieldSchema => exact absurd (hproperties k fieldSchema hschema) hk
      rw [hdata, hstart, hnone]
      rfl

theorem dictDelta_outputs_iff {outputs : List String} {start final : Dict String Value} :
    (∀ o ∈ outputs, (dictDelta start final).get? o = final.get? o) ↔ AllChanged outputs start final := by
  refine forall₂_congr fun o _ => ?_
  rw [get?_dictDelta]
  cases final.get? o with
  | none => simp
  | some v => simp [Option.filter_eq_some_iff]

variable {subagent : Subagent}

theorem validateItem_ok_of_no_errors {item : Value} (h : errorsOf (validateItem P model item) = []) :
    ∃ start, validateItem P model item = .ok start := by
  cases hitem : validateItem P model item with
  | ok start => exact ⟨start, rfl⟩
  | error errors =>
    rw [hitem] at h
    obtain rfl : errors = [] := h
    unfold validateItem at hitem
    split at hitem
    · cases hitem
    simp only at hitem
    split at hitem
    · cases hitem
    next hne => exact absurd (Except.error.inj hitem) hne

theorem validateItems_ok {items : List Value} (h : (items.mapIdx (itemErrors P model)).flatten = []) :
    List.Forall₂ (fun item start => validateItem P model item = .ok start) items
      (items.filterMap fun item => (validateItem P model item).toOption) := by
  have hok : ∀ item ∈ items, ∃ start, validateItem P model item = .ok start := by
    intro item hitem
    obtain ⟨i, hi, rfl⟩ := List.mem_iff_getElem.mp hitem
    have hnil := List.flatten_eq_nil_iff.mp h _ (List.mem_mapIdx.mpr ⟨i, hi, rfl⟩)
    exact validateItem_ok_of_no_errors (List.map_eq_nil_iff.mp hnil)
  clear h
  induction items with
  | nil => exact .nil
  | cons item items ih =>
    obtain ⟨start, hstart⟩ := hok item (List.mem_cons_self ..)
    rw [List.filterMap_cons_some (b := start) (by rw [hstart]; rfl)]
    exact .cons hstart (ih fun other hother => hok other (List.mem_cons_of_mem item hother))

theorem invokeSubagentTool_results {toolName name called : String} {args : Dict String Value} {parent : WorkflowState}
    {graph : ChildGraph} {runId : ℕ → String} {results : List ItemResult} {flow : FrameworkState}
    (h : invokeSubagentTool P toolName subagent args parent graph runId = .ok (.results called name results, flow)) :
    ∃ items starts, args.get? "inputs" = some (.list items) ∧
      List.Forall₂ (fun item start => validateItem P subagent.inputModel item = .ok start) items starts ∧
      results = invokeSubagentMany graph subagent.name parent runId starts := by
  obtain ⟨_, -, h⟩ := bind_ok h
  obtain ⟨validation, hvalid, h⟩ := bind_ok h
  cases validation with
  | error failure => cases h
  | ok starts =>
    cases h
    unfold validateSubagentToolArgs at hvalid
    simp only at hvalid
    split at hvalid
    · next items hitems =>
      split at hvalid
      · next hnil =>
        cases hvalid
        exact ⟨items, _, hitems, validateItems_ok hnil, rfl⟩
      · split at hvalid <;> cases hvalid
    · split at hvalid <;> cases hvalid

theorem itemFaithful_iff (hmodel : buildSubagentInputModel P subagent.inputSchema = .ok subagent.inputModel)
    {outputs : List String} {graph : ChildGraph} {parent : WorkflowState} {item : Value} {start : Dict String Value}
    (hstart : validateItem P subagent.inputModel item = .ok start) {result : ItemResult}
    (hresult : result.outcome = invokeSubagentOnce graph parent start) :
    ItemFaithful P subagent outputs graph parent item result ↔
      ∀ data, item.asDict? = some data → ItemKept P subagent.inputSchema data ∧
        ∀ start final, validateItem P subagent.inputModel item = .ok start →
          graph (subagentState parent start) = .ok final → AllChanged outputs start final.data := by
  have hdata : ∀ final, graph (subagentState parent start) = .ok final →
      result.data? = some (dictDelta start final.data) := by
    intro final hfinal
    rw [ItemResult.data?, hresult, invokeSubagentOnce, hfinal]
  constructor
  · rintro ⟨data, start', hitem, hvalid, hexpected, -, houtputs⟩ other hother
    obtain rfl := Option.some.inj (hitem.symm.trans hother)
    obtain rfl := Except.ok.inj (hstart.symm.trans hvalid)
    refine ⟨(expectedStart_iff hmodel hitem hstart).mp hexpected, ?_⟩
    intro start' final hvalid' hfinal
    obtain rfl := Except.ok.inj (hstart.symm.trans hvalid')
    obtain ⟨given, hgiven, hkeep⟩ := houtputs final hfinal
    obtain rfl := Option.some.inj ((hdata final hfinal).symm.trans hgiven)
    exact dictDelta_outputs_iff.mp hkeep
  · intro h
    obtain ⟨data, hitem, -⟩ := validateItem_ok (inputModel_fields hmodel).1 hstart
    obtain ⟨hkept, houtputs⟩ := h data hitem
    refine ⟨data, start, hitem, hstart, (expectedStart_iff hmodel hitem hstart).mpr hkept, ?_, ?_⟩
    · intro message hmessage
      rw [ItemResult.data?, hresult, invokeSubagentOnce, hmessage]
    · intro final hfinal
      exact ⟨_, hdata final hfinal, dictDelta_outputs_iff.mpr (houtputs start final hstart hfinal)⟩

theorem subagent_call_faithful_iff (hmodel : buildSubagentInputModel P subagent.inputSchema = .ok subagent.inputModel)
    {toolName name called : String} {args : Dict String Value} {parent : WorkflowState} {graph : ChildGraph}
    {runId : ℕ → String} {results : List ItemResult} {flow : FrameworkState} (outputs : List String)
    (h : invokeSubagentTool P toolName subagent args parent graph runId = .ok (.results called name results, flow)) :
    ∃ items, args.get? "inputs" = some (.list items) ∧
      (CallFaithful P subagent outputs graph parent items results ↔
        CallKept P subagent outputs graph parent items) := by
  obtain ⟨items, starts, hitems, hstarts, rfl⟩ := invokeSubagentTool_results h
  refine ⟨items, hitems, ?_⟩
  have hlength : items.length = starts.length := hstarts.length_eq
  have hitem : ∀ i item (result : ItemResult), items[i]? = some item →
      (invokeSubagentMany graph subagent.name parent runId starts)[i]? = some result → result.index = i ∧
        ∃ start, validateItem P subagent.inputModel item = .ok start ∧
          result.outcome = invokeSubagentOnce graph parent start := by
    intro i item result hi hr
    rw [invokeSubagentMany, List.getElem?_mapIdx] at hr
    obtain ⟨start, hstart, rfl⟩ := Option.map_eq_some_iff.mp hr
    refine ⟨rfl, start, ?_, rfl⟩
    obtain ⟨hi', rfl⟩ := List.getElem?_eq_some_iff.mp hi
    obtain ⟨hs', rfl⟩ := List.getElem?_eq_some_iff.mp hstart
    exact (List.forall₂_iff_get.mp hstarts).2 i hi' hs'
  constructor
  · rintro ⟨-, hfaithful⟩ item hmem
    obtain ⟨i, hi, rfl⟩ := List.mem_iff_getElem.mp hmem
    have hr : i < (invokeSubagentMany graph subagent.name parent runId starts).length := by
      rw [invokeSubagentMany, List.length_mapIdx, ← hlength]
      exact hi
    obtain ⟨-, start, hstart, houtcome⟩ := hitem i _ _ (List.getElem?_eq_getElem hi) (List.getElem?_eq_getElem hr)
    have hone := (hfaithful i _ _ (List.getElem?_eq_getElem hi) (List.getElem?_eq_getElem hr)).2
    exact (itemFaithful_iff hmodel hstart houtcome).mp hone
  · intro hkept
    refine ⟨?_, ?_⟩
    · rw [invokeSubagentMany, List.length_mapIdx, hlength]
    · intro i item result hi hr
      obtain ⟨hindex, start, hstart, houtcome⟩ := hitem i item result hi hr
      exact ⟨hindex, (itemFaithful_iff hmodel hstart houtcome).mpr (hkept item (List.mem_of_getElem? hi))⟩

/-- Strings are strings and integers are integers; the other annotations take what they are given. -/
def plainPydantic : Pydantic where
  fieldName name := !("_".toList.isPrefixOf name.toList)
  validate annotation value :=
    match annotation, value with
    | .str, .str s => .ok (.str s)
    | .str, _ => .error [⟨[], "Input should be a valid string", "string_type"⟩]
    | _, v => .ok v
  errors_nonempty _ _ _ h := by
    split at h
    · cases h
    · obtain rfl := Except.error.inj h
      simp
    · cases h

def summarySchema : Schema :=
  .single "properties" (.dict [("text", .dict [("type", .str "string")]),
    ("style", .dict [("type", .str "string"), ("default", .str "plain")])])

def summarySubagent : Subagent where
  name := "summarise"
  inputSchema := summarySchema
  inputModel := [⟨"text", .str, false, .null, none⟩, ⟨"style", .str, false, .str "plain", none⟩]
  expectedSchema := .null

def summaryParent : WorkflowState := ⟨∅, {}, []⟩

def summaryGraph (text : String) : ChildGraph := fun state =>
  .ok { state with data := state.data.set "text" (.str text) }

def summaryArgs (item : List (String × Value)) : Dict String Value := .single "inputs" (.list [.dict item])

theorem summary_model : buildSubagentInputModel plainPydantic summarySchema = .ok summarySubagent.inputModel := rfl

def summaryItem : List (String × Value) := [("text", .str "a b")]

def summaryStart : Dict String Value := .ofList [("text", .str "a b"), ("style", .str "plain")]

theorem summary_start :
    validateItem plainPydantic summarySubagent.inputModel (.dict summaryItem) = .ok summaryStart := rfl

theorem summary_call (text : String) : ∃ flow,
    invokeSubagentTool plainPydantic "call_subagent_summarise" summarySubagent (summaryArgs summaryItem) summaryParent
      (summaryGraph text) (fun _ => "run-1") =
        .ok (.results "call_subagent_summarise" "summarise" (invokeSubagentMany (summaryGraph text) "summarise"
          summaryParent (fun _ => "run-1") [summaryStart]), flow) := ⟨_, rfl⟩

theorem summary_kept : CallKept plainPydantic summarySubagent ["text"] (summaryGraph "a") summaryParent
    [.dict summaryItem] := by
  intro item hitem data hdata
  obtain rfl := List.mem_singleton.mp hitem
  obtain rfl : Dict.ofList summaryItem = data := Option.some.inj hdata
  refine ⟨?_, ?_⟩
  · intro name fieldSchema hschema
    obtain ⟨-, -, hnames⟩ := inputModel_fields summary_model
    have hname := hnames name fieldSchema hschema
    simp only [summarySubagent, List.map_cons, List.map_nil, List.mem_cons, List.not_mem_nil, or_false] at hname
    rcases hname with rfl | rfl
    · cases hschema
      refine ⟨fun value hvalue => ?_, fun hnone => by cases hnone⟩
      obtain rfl : Value.str "a b" = value := Option.some.inj hvalue
      rfl
    · cases hschema
      exact ⟨fun value hvalue => (by cases hvalue), fun _ => rfl⟩
  · intro start final hstart hfinal o ho v hv
    obtain rfl := Except.ok.inj (summary_start.symm.trans hstart)
    obtain rfl := Except.ok.inj hfinal
    obtain rfl := List.mem_singleton.mp ho
    obtain rfl : Value.str "a" = v := Option.some.inj hv
    decide

theorem summary_faithful : ∃ results flow,
    invokeSubagentTool plainPydantic "call_subagent_summarise" summarySubagent (summaryArgs summaryItem) summaryParent
        (summaryGraph "a") (fun _ => "run-1") =
      .ok (.results "call_subagent_summarise" "summarise" results, flow) ∧
    CallFaithful plainPydantic summarySubagent ["text"] (summaryGraph "a") summaryParent [.dict summaryItem]
      results := by
  obtain ⟨flow, hcall⟩ := summary_call "a"
  obtain ⟨items, hitems, hiff⟩ := subagent_call_faithful_iff summary_model ["text"] hcall
  obtain rfl : [.dict summaryItem] = items := Value.list.inj (Option.some.inj hitems)
  exact ⟨_, flow, hcall, hiff.mpr summary_kept⟩

theorem unchanged_text_lost : ∃ results flow,
    invokeSubagentTool plainPydantic "call_subagent_summarise" summarySubagent (summaryArgs summaryItem) summaryParent
        (summaryGraph "a b") (fun _ => "run-1") =
      .ok (.results "call_subagent_summarise" "summarise" results, flow) ∧
    ¬ CallFaithful plainPydantic summarySubagent ["text"] (summaryGraph "a b") summaryParent [.dict summaryItem]
      results := by
  obtain ⟨flow, hcall⟩ := summary_call "a b"
  refine ⟨_, flow, hcall, fun h => ?_⟩
  obtain ⟨-, data, start, -, hstart, -, -, houtputs⟩ := h.item 0 _ _ rfl rfl
  obtain rfl := Except.ok.inj (summary_start.symm.trans hstart)
  obtain ⟨given, hgiven, hkeep⟩ := houtputs _ rfl
  obtain rfl : dictDelta summaryStart (summaryStart.set "text" (.str "a b")) = given := Option.some.inj hgiven
  have htext := hkeep "text" (List.mem_singleton.mpr rfl)
  revert htext
  decide

end GraphSkillRuntime.SubagentCalls
