import GraphSkillRuntime.GateSchemas

/-!
The fallback of predict: a payload that is made up from the output schema of a phase. Names and types stand in for
values, and the payload has the shape that the finish gate of the phase asks for.
-/

namespace GraphSkillRuntime.SchemaEngine

open OrderedDict JsonText

section

variable {F : Type}

def typeAliases : List (String × String) :=
  [("dict", "object"), ("map", "object"), ("list", "array"), ("tuple", "array"), ("float", "number"),
    ("double", "number"), ("int", "integer"), ("bool", "boolean")]

def lower (s : String) : String := .ofList (s.toList.map Char.toLower)

def normaliseTypeString (rawType : String) : String := (Dict.find typeAliases (lower rawType)).getD (lower rawType)

mutual

def normaliseType : Json F → Option String
  | .str rawType => some (normaliseTypeString rawType)
  | .list items => firstType items
  | _ => none

/-- The first type of the list that is not `null`. -/
def firstType : List (Json F) → Option String
  | [] => none
  | item :: items =>
    match normaliseType item with
    | some parsed => if parsed = "null" then firstType items else some parsed
    | none => firstType items

end

def schemaTypeForValue (schema : Members F) : Option String :=
  match (Dict.find schema "type").bind normaliseType with
  | some schemaType => some schemaType
  | none =>
    if (Dict.find schema "properties").isSome then some "object"
    else if (Dict.find schema "items").isSome then some "array"
    else none

def mockString (fieldName : Option String) (unknown : Bool) : Json F :=
  match fieldName with
  | none | some "" => .str (if unknown then "<mock_unknown>" else "<mock_data>")
  | some name => .str ("<mock_" ++ name ++ ">")

def namedOrEnds (word : String) (normalized : String) : Bool :=
  normalized = word || ('_' :: word.toList).isSuffixOf normalized.toList

def integerValueForField (fieldName : Option String) : Option ℤ :=
  match fieldName with
  | none | some "" => none
  | some name =>
    if namedOrEnds "index" (lower name) then some 1
    else if namedOrEnds "start_line" (lower name) then some 1
    else if namedOrEnds "end_line" (lower name) then some 999
    else if namedOrEnds "chapter_number" (lower name) then some 1
    else none

variable (zero : F)

def primitiveValue (schemaType fieldName : Option String) : Json F :=
  match schemaType with
  | some "string" => mockString fieldName false
  | some "integer" => .int ((integerValueForField fieldName).getD 0)
  | some "number" => .float zero
  | some "boolean" => .bool true
  | _ => if fieldName = some "value" then mockString none true else mockString fieldName true

def enumHead? (schema : Members F) : Option (Json F) :=
  match Dict.find schema "enum" with
  | some (.list values) => values.head?
  | _ => none

/-- `_value_for_schema`; the number counts the levels that are left until the depth limit. -/
def valueForSchema : ℕ → Option String → Json F → Json F
  | 0, fieldName, .dict _ => mockString fieldName fieldName.isNone
  | levels + 1, fieldName, .dict schema =>
    match enumHead? schema with
    | some value => value
    | none =>
      match schemaTypeForValue schema with
      | some "object" =>
        match Dict.find schema "properties" with
        | some (.dict properties) =>
          .dict (properties.map fun e => (e.1, valueForSchema levels (some e.1) e.2))
        | _ => .dict []
      | some "array" =>
        match Dict.find schema "items" with
        | some (.dict items) => .list [valueForSchema levels fieldName (.dict items)]
        | _ => .list []
      | schemaType => primitiveValue zero schemaType fieldName
  | _, fieldName, _ => mockString fieldName true

def maxDepth : ℕ := 20

def isObjectSchema (schema : Members F) : Bool :=
  (match Dict.find schema "type" with
    | some (.str schemaType) => schemaType = "object"
    | _ => false) || (members? (Dict.find schema "properties")).isSome

def generateHeuristicStub (schema : Option (Members F)) : Members F :=
  match schema with
  | none | some [] => [("value", .str "<mock_unknown>")]
  | some schema =>
    if isObjectSchema schema then
      match valueForSchema zero maxDepth none (.dict schema) with
      | .dict stub => stub
      | value => [("value", value)]
    else [("value", valueForSchema zero maxDepth (some "value") (.dict schema))]

inductive Conforms : Descriptor F → Json F → Prop
  | any {v : Json F} : Conforms .any v
  | str {s : String} : Conforms .str (.str s)
  | int {z : ℤ} : Conforms .int (.int z)
  | float {x : F} : Conforms .float (.float x)
  | bool {b : Bool} : Conforms .bool (.bool b)
  | dict {kvs : Members F} : Conforms .dict (.dict kvs)
  | null : Conforms .null .null
  | literal {values : List (Json F)} {v : Json F} (h : v ∈ values) : Conforms (.literal values) v
  | list {itemType : Descriptor F} {xs : List (Json F)} (h : ∀ x ∈ xs, Conforms itemType x) :
      Conforms (.list itemType) (.list xs)
  | union {members : List (Descriptor F)} {member : Descriptor F} {v : Json F} (hmem : member ∈ members)
      (h : Conforms member v) : Conforms (.union members) v
  | object {fields : List (String × Descriptor F)} {required : List String} {raw kvs : Members F}
      (hnames : ∀ e ∈ kvs, e.1 ∈ fields.map Prod.fst)
      (hfields : ∀ e ∈ kvs, ∀ d, (e.1, d) ∈ fields → Conforms d e.2)
      (hrequired : ∀ name ∈ required, name ∈ fields.map Prod.fst → name ∈ kvs.map Prod.fst) :
      Conforms (.object fields required raw) (.dict kvs)

def scalarTypes : List String := ["string", "integer", "number", "boolean"]

/-- A schema in the standard notation that is nested less deeply than a number of levels. -/
inductive Standard : ℕ → Members F → Prop
  | enumeration {n : ℕ} {schema : Members F} {values : List (Json F)}
      (henum : Dict.find schema "enum" = some (.list values)) : Standard (n + 1) schema
  | scalar {n : ℕ} {schema : Members F} {name : String} (henum : Dict.find schema "enum" = none)
      (htype : Dict.find schema "type" = some (.str name)) (hname : name ∈ scalarTypes)
      (honly : onlyDescribed schema = true) : Standard (n + 1) schema
  | array {n : ℕ} {schema : Members F} (henum : Dict.find schema "enum" = none)
      (htype : Dict.find schema "type" = some (.str "array"))
      (hitems : ∀ items, Dict.find schema "items" = some (.dict items) → items ≠ [] → Standard n items) :
      Standard (n + 1) schema
  | object {n : ℕ} {schema : Members F} (henum : Dict.find schema "enum" = none)
      (htype : Dict.find schema "type" = some (.str "object"))
      (hmappings : ∀ properties, Dict.find schema "properties" = some (.dict properties) →
        (properties.map Prod.fst).Nodup ∧ ∀ e ∈ properties, ∃ property, e.2 = .dict property)
      (hproperties : ∀ properties, Dict.find schema "properties" = some (.dict properties) → ∀ name property,
        (name, .dict property) ∈ properties → Standard n property) : Standard (n + 1) schema
  | union {n : ℕ} {schema : Members F} {before after : List String} {name : String}
      (henum : Dict.find schema "enum" = none)
      (htype : Dict.find schema "type" = some (.list ((before ++ name :: after).map .str)))
      (hbefore : ∀ other ∈ before, other = "null") (hname : name ∈ "array" :: "object" :: scalarTypes)
      (h : Standard (n + 1) (withType schema name)) : Standard (n + 1) schema

/-! A payload that is made up has the shape of its gate. -/

variable {zero}

theorem conforms_unionOf {members : List (Descriptor F)} {member : Descriptor F} {v : Json F} (hmem : member ∈ members)
    (h : Conforms member v) : Conforms (unionOf members) v := by
  match members, hmem with
  | [only], hmem => exact List.mem_singleton.mp hmem ▸ h
  | first :: second :: rest, hmem => exact .union hmem h

theorem firstType_union {before after : List String} {name : String} (hbefore : ∀ other ∈ before, other = "null")
    (hname : normaliseTypeString name = name) (hnull : name ≠ "null") :
    firstType (F := F) ((before ++ name :: after).map .str) = some name := by
  induction before with
  | nil => simp [firstType, normaliseType, hname, hnull]
  | cons other before ih =>
    rw [List.forall_mem_cons] at hbefore
    have hother : normaliseTypeString "null" = "null" := rfl
    simpa [firstType, normaliseType, hbefore.1, hother] using ih hbefore.2

theorem normalise_standard {name : String} (h : name ∈ "array" :: "object" :: scalarTypes) :
    normaliseTypeString name = name ∧ name ≠ "null" := by
  simp only [scalarTypes, List.mem_cons, List.not_mem_nil, or_false] at h
  rcases h with rfl | rfl | rfl | rfl | rfl | rfl
  all_goals exact ⟨rfl, by decide⟩

theorem schemaTypeForValue_str {schema : Members F} {name : String} (h : Dict.find schema "type" = some (.str name))
    (hname : name ∈ "array" :: "object" :: scalarTypes) : schemaTypeForValue schema = some name := by
  rw [schemaTypeForValue, h]
  simp [normaliseType, (normalise_standard hname).1]

theorem find_withType (value : Members F) (name : String) {key : String} (h : key ≠ "type") :
    Dict.find (withType value name) key = Dict.find value key := by
  induction value with
  | nil => rfl
  | cons e value ih =>
    rw [withType, List.map_cons, ← withType]
    split_ifs with htype
    · have hkey : ¬ e.1 = key := fun hkey => h (hkey.symm.trans htype)
      rw [Dict.find, Dict.find, if_neg hkey, if_neg hkey, ih]
    · rw [Dict.find, Dict.find, ih]

theorem find_withType_type {value : Members F} {v : Json F} (h : Dict.find value "type" = some v) (name : String) :
    Dict.find (withType value name) "type" = some (.str name) := by
  induction value with
  | nil => cases h
  | cons e value ih =>
    rw [withType, List.map_cons, ← withType]
    split_ifs with htype
    · rw [Dict.find, if_pos htype]
    · rw [Dict.find, if_neg htype] at h ⊢
      exact ih h

theorem valueForSchema_withType {schema : Members F} {before after : List String} {name : String}
    (htype : Dict.find schema "type" = some (.list ((before ++ name :: after).map .str)))
    (hbefore : ∀ other ∈ before, other = "null") (hname : name ∈ "array" :: "object" :: scalarTypes) (levels : ℕ)
    (fieldName : Option String) : valueForSchema zero (levels + 1) fieldName (.dict schema) =
      valueForSchema zero (levels + 1) fieldName (.dict (withType schema name)) := by
  obtain ⟨hnormal, hnull⟩ := normalise_standard hname
  have hfirst : schemaTypeForValue schema = some name := by
    rw [schemaTypeForValue, htype, Option.bind_some, normaliseType, firstType_union hbefore hnormal hnull]
  have hsame : schemaTypeForValue (withType schema name) = some name :=
    schemaTypeForValue_str (find_withType_type htype name) hname
  rw [valueForSchema, valueForSchema, enumHead?, enumHead?, hfirst, hsame, find_withType schema name (by decide),
    find_withType schema name (by decide), find_withType schema name (by decide)]

variable (R : Readers F)

theorem parseDeclaredType_primitive (name : String) (primitive : Descriptor F)
    (hplain : declaredType name = (name.toList, false)) (hstrip : stripText name.toList = name.toList)
    (hne : name.toList ≠ []) (hfind : Dict.find primitiveTypes name = some primitive) :
    parseDeclaredType R name = .ok (primitive, false) := by
  have hparse : parseTypeExpr R name.toList = .ok primitive := by
    rw [parseTypeExpr, hstrip, if_neg hne, String.ofList_toList, hfind]
  rw [parseDeclaredType, hplain, hparse]
  rfl

theorem mapping_literal {schema : Members F} {values : List (Json F)} {d : Descriptor F}
    (henum : Dict.find schema "enum" = some (.list values)) (h : descriptorFromJsonMapping R schema = .ok d) :
    ∃ v rest, values = v :: rest ∧ d = .literal values := by
  rw [descriptorFromJsonMapping, henum] at h
  simp only [literalFromJsonEnum] at h
  split_ifs at h with hempty hscalar
  obtain ⟨v, rest, hvalues⟩ := List.exists_cons_of_ne_nil hempty
  exact ⟨v, rest, hvalues, (Except.ok.inj h).symm⟩

theorem fieldDescriptors_forall₂ {m : Members F} {fields : List (String × Descriptor F)}
    (h : fieldDescriptors R m = .ok fields) :
    List.Forall₂ (fun e field => e.1 = field.1 ∧ descriptorFromJsonValue R e.2 = .ok field.2) m fields := by
  induction m generalizing fields with
  | nil =>
    rw [fieldDescriptors] at h
    obtain rfl := Except.ok.inj h
    exact .nil
  | cons e m ih =>
    obtain ⟨name, value⟩ := e
    rw [fieldDescriptors] at h
    obtain ⟨d, hd, h⟩ := bind_ok h
    obtain ⟨rest, hrest, h⟩ := bind_ok h
    obtain rfl := Except.ok.inj h
    exact .cons ⟨rfl, hd⟩ (ih hrest)

theorem schemaFromMapping_fields {m properties : Members F} {built : SchemaObject F}
    (h : members? (Dict.find m "properties") = some properties) (hb : schemaFromMapping R m = .ok built) :
    fieldDescriptors R properties = .ok built.fields := by
  rw [schemaFromMapping] at hb
  split at hb
  · next found hfound =>
    obtain rfl := Option.some.inj (hfound.symm.trans h)
    cases hrequired : requiredValues? (Dict.find m "required") with
    | none =>
      rw [hrequired] at hb
      cases hb
    | some required =>
      rw [hrequired] at hb
      obtain ⟨fields, hfields, hb⟩ := bind_ok hb
      obtain rfl := Except.ok.inj hb
      exact hfields
  · next hnone =>
    rw [h] at hnone
    cases hnone

theorem mapping_scalar {schema : Members F} {name : String} {d : Descriptor F}
    (henum : Dict.find schema "enum" = none) (htype : Dict.find schema "type" = some (.str name))
    (hname : name ∈ scalarTypes) (honly : onlyDescribed schema = true)
    (h : descriptorFromJsonMapping R schema = .ok d) : (parseDeclaredType R name).map Prod.fst = .ok d := by
  have hne : name ≠ "array" ∧ name ≠ "object" := by
    constructor <;> rintro rfl <;> exact absurd hname (by decide)
  rw [descriptorFromJsonMapping, henum] at h
  dsimp only at h
  split at h
  case h_4 schemaType _ _ hfound =>
    obtain rfl : name = schemaType := by simpa [htype] using hfound
    rwa [if_pos honly] at h
  all_goals simp_all

theorem mockString_eq (fieldName : Option String) (unknown : Bool) :
    ∃ text, mockString (F := F) fieldName unknown = .str text := by
  unfold mockString
  split <;> exact ⟨_, rfl⟩

theorem conforms_scalar {name : String} {d : Descriptor F} (hname : name ∈ scalarTypes)
    (h : (parseDeclaredType R name).map Prod.fst = .ok d) (fieldName : Option String) :
    Conforms d (primitiveValue zero (some name) fieldName) := by
  simp only [scalarTypes, List.mem_cons, List.not_mem_nil, or_false] at hname
  rcases hname with rfl | rfl | rfl | rfl
  · rw [parseDeclaredType_primitive R "string" .str rfl rfl (by decide) rfl] at h
    obtain rfl := Except.ok.inj h
    obtain ⟨text, htext⟩ := mockString_eq (F := F) fieldName false
    exact (show primitiveValue zero (some "string") fieldName = .str text from htext) ▸ .str
  · rw [parseDeclaredType_primitive R "integer" .int rfl rfl (by decide) rfl] at h
    obtain rfl := Except.ok.inj h
    exact .int
  · rw [parseDeclaredType_primitive R "number" .float rfl rfl (by decide) rfl] at h
    obtain rfl := Except.ok.inj h
    exact .float
  · rw [parseDeclaredType_primitive R "boolean" .bool rfl rfl (by decide) rfl] at h
    obtain rfl := Except.ok.inj h
    exact .bool

theorem mapping_items {schema : Members F} {d : Descriptor F} (henum : Dict.find schema "enum" = none)
    (htype : Dict.find schema "type" = some (.str "array")) (h : descriptorFromJsonMapping R schema = .ok d) :
    ((Dict.find schema "items" = none ∨ Dict.find schema "items" = some (.dict [])) ∧ d = .list .any) ∨
      ∃ items itemType, Dict.find schema "items" = some items ∧ items ≠ .dict [] ∧
        descriptorFromJsonValue R items = .ok itemType ∧ d = .list itemType := by
  rw [descriptorFromJsonMapping, henum] at h
  dsimp only at h
  split at h
  case h_2 hfound =>
    split at h
    · next hitems => exact .inl ⟨.inl hitems, (Except.ok.inj h).symm⟩
    · next hitems => exact .inl ⟨.inr hitems, (Except.ok.inj h).symm⟩
    · next items hne hitems =>
      obtain ⟨itemType, hitem, rfl⟩ := map_eq_ok h
      exact .inr ⟨items, itemType, hitems, hne, hitem, rfl⟩
  all_goals simp_all

theorem mapping_properties {schema : Members F} {d : Descriptor F} (henum : Dict.find schema "enum" = none)
    (htype : Dict.find schema "type" = some (.str "object")) (h : descriptorFromJsonMapping R schema = .ok d) :
    (members? (Dict.find schema "properties") = none ∧ d = .dict) ∨
      ∃ properties built, members? (Dict.find schema "properties") = some properties ∧
        schemaFromMapping R schema = .ok built ∧ d = built.descriptor := by
  rw [descriptorFromJsonMapping, henum] at h
  dsimp only at h
  split at h
  case h_3 hfound =>
    cases hproperties : members? (Dict.find schema "properties") with
    | none =>
      rw [hproperties] at h
      exact .inl ⟨rfl, (Except.ok.inj h).symm⟩
    | some properties =>
      rw [hproperties] at h
      obtain ⟨built, hbuilt, rfl⟩ := map_eq_ok h
      exact .inr ⟨properties, built, rfl, hbuilt, rfl⟩
  all_goals simp_all

theorem mapping_member {schema : Members F} {d : Descriptor F} {before after : List String} {name : String}
    (henum : Dict.find schema "enum" = none)
    (htype : Dict.find schema "type" = some (.list ((before ++ name :: after).map .str))) (hnull : name ≠ "null")
    (h : descriptorFromJsonMapping R schema = .ok d) : ∃ members member, member ∈ members ∧
      descriptorFromJsonMapping R (withType schema name) = .ok member ∧ d = unionOf members := by
  rw [descriptorFromJsonMapping, henum] at h
  dsimp only at h
  split at h
  case h_1 types hfound =>
    have htypes : types = (before ++ name :: after).map .str :=
      Json.list.inj (Option.some.inj (hfound.symm.trans htype))
    have hname : name ∈ before ++ name :: after := by simp
    rw [mapM_typeName?.mpr htypes] at h
    cases hnames : before ++ name :: after with
    | nil => simp at hnames
    | cons first rest =>
      rw [hnames] at h hname
      obtain ⟨members, hmembers, h⟩ := bind_ok h
      obtain ⟨member, hmem, hmember⟩ := exists_mem_of_forall₂ (mapM_ok_iff.mp hmembers).flip hname
      rw [if_neg hnull] at hmember
      exact ⟨members, member, hmem, hmember, (Except.ok.inj h).symm⟩
  all_goals simp_all

variable (zero) in
theorem stub_conforms {n : ℕ} {schema : Members F} (hs : Standard n schema) {d : Descriptor F}
    (h : descriptorFromJsonMapping R schema = .ok d) (fieldName : Option String) :
    Conforms d (valueForSchema zero n fieldName (.dict schema)) := by
  induction hs generalizing d fieldName with
  | @enumeration n schema values henum =>
    obtain ⟨v, rest, rfl, rfl⟩ := mapping_literal R henum h
    have hhead : enumHead? schema = some v := by rw [enumHead?, henum]; rfl
    rw [valueForSchema, hhead]
    exact .literal List.mem_cons_self
  | @scalar n schema name henum htype hname honly =>
    have hhead : enumHead? schema = none := by rw [enumHead?, henum]
    have hfirst := schemaTypeForValue_str htype (List.mem_cons_of_mem _ (List.mem_cons_of_mem _ hname))
    have hvalue : valueForSchema zero (n + 1) fieldName (.dict schema) = primitiveValue zero (some name) fieldName := by
      rw [valueForSchema, hhead, hfirst]
      simp only [scalarTypes, List.mem_cons, List.not_mem_nil, or_false] at hname
      rcases hname with rfl | rfl | rfl | rfl <;> rfl
    exact hvalue ▸ conforms_scalar R hname (mapping_scalar R henum htype hname honly h) fieldName
  | @array n schema henum htype hitems ih =>
    have hhead : enumHead? schema = none := by rw [enumHead?, henum]
    have hfirst := schemaTypeForValue_str htype List.mem_cons_self
    rw [valueForSchema, hhead, hfirst]
    rcases mapping_items R henum htype h with ⟨hempty, rfl⟩ | ⟨items, itemType, hfound, hne, hitem, rfl⟩
    · rcases hempty with hnone | hnil
      · rw [hnone]
        exact .list (by simp)
      · rw [hnil]
        exact .list fun _ _ => .any
    · rw [hfound]
      cases items with
      | dict items =>
        rw [descriptorFromJsonValue] at hitem
        have hconforms := ih items hfound (fun hnil => hne (hnil ▸ rfl)) hitem fieldName
        exact .list (List.forall_mem_singleton.mpr hconforms)
      | _ => exact .list (by simp)
  | @object n schema henum htype hmappings hproperties ih =>
    have hhead : enumHead? schema = none := by rw [enumHead?, henum]
    have hfirst := schemaTypeForValue_str htype (List.mem_cons_of_mem _ List.mem_cons_self)
    rw [valueForSchema, hhead, hfirst]
    rcases mapping_properties R henum htype h with ⟨hnone, rfl⟩ | ⟨properties, built, hfound, hbuilt, rfl⟩
    · cases hproperties : Dict.find schema "properties" with
      | none => exact .dict
      | some v =>
        cases v with
        | dict properties => simp [hproperties, members?] at hnone
        | _ => exact .dict
    · have hproperties : Dict.find schema "properties" = some (.dict properties) := by
        cases hv : Dict.find schema "properties" with
        | none => simp [hv, members?] at hfound
        | some v => cases v <;> simp_all [members?]
      rw [hproperties]
      obtain ⟨hnodup, hdicts⟩ := hmappings properties hproperties
      have hnames := (schemaFromMapping_built R hfound hbuilt).1
      have hkeys : (properties.map fun e => (e.1, valueForSchema zero n (some e.1) e.2)).map Prod.fst =
          properties.map Prod.fst := by simp
      refine .object (fun e he => ?_) (fun e he d hd => ?_) fun name _ hname => by rwa [hkeys, ← hnames]
      · rw [hnames, ← hkeys]
        exact List.mem_map_of_mem he
      · obtain ⟨p, hp, rfl⟩ := List.mem_map.mp he
        obtain ⟨property, hproperty⟩ := hdicts p hp
        have hdescriptor : descriptorFromJsonValue R p.2 = .ok d := by
          obtain ⟨q, hq, hqname, hqtype⟩ := exists_mem_of_forall₂
            (fieldDescriptors_forall₂ R (schemaFromMapping_fields R hfound hbuilt)) hd
          rwa [← List.inj_on_of_nodup_map hnodup hq hp hqname]
        rw [hproperty, descriptorFromJsonValue] at hdescriptor
        rw [hproperty]
        exact ih properties hproperties p.1 property (hproperty ▸ hp) hdescriptor (some p.1)
  | @union n schema before after name henum htype hbefore hname hs ih =>
    rw [valueForSchema_withType htype hbefore hname]
    obtain ⟨members, member, hmem, hmember, rfl⟩ := mapping_member R henum htype (normalise_standard hname).2 h
    exact conforms_unionOf hmem (ih hmember fieldName)

theorem mapping_gate {schema properties : Members F} {gate : SchemaObject F} (henum : Dict.find schema "enum" = none)
    (htype : Dict.find schema "type" = some (.str "object"))
    (hproperties : Dict.find schema "properties" = some (.dict properties))
    (h : schemaFromMapping R schema = .ok gate) : descriptorFromJsonMapping R schema = .ok gate.descriptor := by
  rw [descriptorFromJsonMapping, henum]
  dsimp only
  split
  case h_3 =>
    rw [hproperties, h]
    rfl
  all_goals simp_all

end

/-- The stub of a phase has the shape that the gate of the phase asks for, and every field of the schema, in
its order. -/
theorem stub_passes_gate {F : Type} (R : Readers F) (zero : F) {schema properties : Members F} {gate : SchemaObject F}
    (hs : Standard maxDepth schema) (henum : Dict.find schema "enum" = none)
    (htype : Dict.find schema "type" = some (.str "object"))
    (hproperties : Dict.find schema "properties" = some (.dict properties))
    (h : schemaFromMapping R schema = .ok gate) :
    Conforms gate.descriptor (.dict (generateHeuristicStub zero (some schema))) ∧
      (generateHeuristicStub zero (some schema)).map Prod.fst = properties.map Prod.fst := by
  have hconforms := stub_conforms zero R hs (mapping_gate R henum htype hproperties h) none
  have hvalue : valueForSchema zero maxDepth none (.dict schema) =
      .dict (properties.map fun e => (e.1, valueForSchema zero 19 (some e.1) e.2)) := by
    have hhead : enumHead? schema = none := by rw [enumHead?, henum]
    rw [maxDepth, valueForSchema, hhead, schemaTypeForValue_str htype (List.mem_cons_of_mem _ List.mem_cons_self),
      hproperties]
    rfl
  have hstub : generateHeuristicStub zero (some schema) =
      properties.map fun e => (e.1, valueForSchema zero 19 (some e.1) e.2) := by
    have hobject : isObjectSchema schema = true := by simp [isObjectSchema, htype]
    cases schema with
    | nil => cases htype
    | cons e schema => simp only [generateHeuristicStub, hobject, if_true, hvalue]
  refine ⟨?_, by simp [hstub]⟩
  rw [hstub, ← hvalue]
  exact hconforms

/-! A review of a title that may be missing, of marks and of a line. -/

def nullableTitle : Members FloatLiteral := [("type", .list [.str "null", .str "string"])]

def markList : Members FloatLiteral :=
  [("type", .str "array"), ("items", .dict [("enum", .list [.str "high", .str "low"])])]

def reviewProperties : Members FloatLiteral :=
  [("title", .dict nullableTitle), ("marks", .dict markList), ("end_line", .dict [("type", .str "integer")])]

def reviewSchema : Members FloatLiteral :=
  [("type", .str "object"), ("properties", .dict reviewProperties), ("required", .list [.str "title"])]

theorem reviewSchema_standard : Standard maxDepth reviewSchema := by
  have htitle : Standard 19 nullableTitle := by
    refine @Standard.union _ _ _ ["null"] [] "string" rfl rfl (by simp) (by decide) ?_
    exact .scalar rfl rfl (by decide) rfl
  have hmarks : Standard 19 markList := by
    refine .array rfl rfl fun items hitems _ => ?_
    obtain rfl := Json.dict.inj (Option.some.inj hitems)
    exact .enumeration rfl
  have hline : Standard 19 ([("type", .str "integer")] : Members FloatLiteral) := .scalar rfl rfl (by decide) rfl
  refine .object rfl rfl (fun properties hproperties => ?_) fun properties hproperties name property hmem => ?_
  · obtain rfl := Json.dict.inj (Option.some.inj hproperties)
    exact ⟨by decide, by simp [reviewProperties]⟩
  · obtain rfl := Json.dict.inj (Option.some.inj hproperties)
    simp only [reviewProperties, List.mem_cons, Prod.mk.injEq, Json.dict.injEq, List.not_mem_nil, or_false] at hmem
    rcases hmem with ⟨-, rfl⟩ | ⟨-, rfl⟩ | ⟨-, rfl⟩
    · exact htitle
    · exact hmarks
    · exact hline

theorem reviewSchema_readable : ∀ e ∈ reviewProperties, Readable sampleReaders e.2 := by
  have hstring : Readable sampleReaders (.dict [("type", .str "string")]) := @Readable.plain _ _ _ "string" rfl rfl
    (by decide) (by decide) rfl (declaresType_primitive rfl rfl (by decide) rfl)
  have hinteger : Readable sampleReaders (.dict [("type", .str "integer")]) := @Readable.plain _ _ _ "integer" rfl rfl
    (by decide) (by decide) rfl (declaresType_primitive rfl rfl (by decide) rfl)
  have htitle : Readable sampleReaders (.dict nullableTitle) := by
    refine @Readable.union _ _ _ ["null", "string"] rfl rfl (by simp) fun name hname hnull => ?_
    obtain rfl : name = "string" := by simpa [hnull] using hname
    exact hstring
  have hmarks : Readable sampleReaders (.dict markList) :=
    .items rfl rfl rfl (.enumeration rfl (by simp) (by simp [isScalar]))
  simpa [reviewProperties] using ⟨htitle, hmarks, hinteger⟩

theorem review_stub_passes_gate : ∃ gate, schemaFromMapping sampleReaders reviewSchema = .ok gate ∧
    Conforms gate.descriptor (.dict [("title", .str "<mock_title>"), ("marks", .list [.str "high"]),
      ("end_line", .int 999)]) := by
  have hsucceeds := (schemaFromMapping_object sampleReaders (m := reviewSchema) rfl).mpr
    ⟨by decide, fun e he => (reviewSchema_readable e he).succeeds⟩
  obtain ⟨gate, hgate⟩ := hsucceeds
  exact ⟨gate, hgate, (stub_passes_gate sampleReaders .nan reviewSchema_standard rfl rfl rfl hgate).1⟩

end GraphSkillRuntime.SchemaEngine
