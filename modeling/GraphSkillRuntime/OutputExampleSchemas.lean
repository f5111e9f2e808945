import GraphSkillRuntime.OutputExamples

/-!
What the schema engine makes of an `<output_example>` block. The engine reads every type for itself: it never refuses
one that the block's own reader has taken, and reads the same type from it.
-/

namespace GraphSkillRuntime.OutputExamples

open OrderedDict JsonText Markdown

/-- The exceptions that converting a value raises; the engine catches the first two. -/
inductive Raised where
  | valueError (text : String)
  | typeError (text : String)
  | other (text : String)

/-- Python's `int` and `float`. -/
structure Numbers (F : Type) where
  int : Json F → Except Raised ℤ
  float : Json F → Except Raised F

inductive EngineError where
  | schemaParse (text : String)
  | raised (e : Raised)

structure OutputExampleSchema (F : Type) where
  fields : List (String × SchemaEngine.Descriptor F)
  requiredFields : List String
  outputExampleMd : Text
  fieldDescriptions : List (String × String)
  fieldDefaults : List (String × Json F)
  schemaName : Text
  itemHeader : Text

section

variable {F : Type} (isPrintable : Char → Bool) (R : Reader F) (S : SchemaEngine.Readers F) (K : Numbers F)

def strOf (value : Json F) : Text := (S.str value).toList

def coerceInt : Json F → Except Raised (Json F)
  | .bool _ => .error (.valueError "bool is not accepted as int")
  | value => (K.int value).map .int

def coerceFloat : Json F → Except Raised (Json F)
  | .bool _ => .error (.valueError "bool is not accepted as float")
  | value => (K.float value).map .float

def coerceText : Json F → Json F
  | .null => .str ""
  | value => .str (S.str value)

def coerceBool : Json F → Except Raised (Json F)
  | .bool b => .ok (.bool b)
  | value =>
    let lowered := (Markdown.strip (strOf S value)).map Char.toLower
    if ["true".toList, "1".toList, "yes".toList, "y".toList].any (· == lowered) then .ok (.bool true)
    else if ["false".toList, "0".toList, "no".toList, "n".toList].any (· == lowered) then .ok (.bool false)
    else .error (.valueError "expected one of true/false/1/0/yes/no")

def strippedItem : Json F → Json F
  | .str s => .str (.ofList (Markdown.strip s.toList))
  | value => value

def rawValues? : Json F → Option (List (Json F))
  | .list values => some values
  | value =>
    match parseListValue R (strOf S value) with
    | .list values => some values
    | _ => none

def validateListEnumItems (items : List (Json F)) : Option (List Text) → Except Raised Unit
  | none => .ok ()
  | some enumValues =>
    match items.find? fun item => !enumValues.any (· == strOf S item) with
    | none => .ok ()
    | some item => .error (.valueError (S.repr item ++ " not in " ++
        S.repr (.list (enumValues.map fun value => .str (.ofList value)))))

/-- `coerce_fn(value)`. -/
def Coercion.apply : Coercion → Json F → Except Raised (Json F)
  | .int, value => coerceInt K value
  | .float, value => coerceFloat K value
  | .text, value => .ok (coerceText S value)
  | .bool, value => coerceBool S value
  | .str, value => .ok (.str (S.str value))
  | .list inner innerEnum, value =>
    match rawValues? R S value with
    | none => .error (.valueError (S.repr value ++ " announces JSON structure but does not parse as a list"))
    | some values => do
      let items ← values.mapM fun value => inner.apply (strippedItem value)
      let _ ← validateListEnumItems S items innerEnum
      .ok (.list items)

def coerceOutputExampleDefault (f : DynamicFieldDef) (default : Text) : Except EngineError (Json F) :=
  match f.coerceFn.apply R S K (.str (.ofList default)) with
  | .ok value => .ok value
  | .error (.valueError text) | .error (.typeError text) => .error (.schemaParse ("Default for field " ++
      quoted isPrintable f.name ++ " cannot coerce to " ++ .ofList f.typeHint ++ ": " ++ text))
  | .error e => .error (.raised e)

structure FieldsRead (F : Type) where
  seen : List Text
  fields : List (String × SchemaEngine.Descriptor F)
  required : List String
  descriptions : List (String × String)
  defaults : List (String × Json F)

def readField (s : FieldsRead F) (f : DynamicFieldDef) : Except EngineError (FieldsRead F) :=
  if s.seen.any (· == f.name) then
    .error (.schemaParse ("Duplicate field " ++ quoted isPrintable f.name ++ " in output_example"))
  else do
    let descriptor ← (SchemaEngine.parseTypeExpr S f.typeHint).mapError .schemaParse
    let s := { s with
      seen := s.seen ++ [f.name]
      fields := s.fields ++ [(.ofList f.name, descriptor)]
      descriptions := s.descriptions ++ [(.ofList f.name, .ofList f.description)] }
    if f.required then .ok { s with required := s.required ++ [.ofList f.name] }
    else
      match f.default with
      | none => .ok s
      | some default => do
        let value ← coerceOutputExampleDefault isPrintable R S K f default
        .ok { s with defaults := s.defaults ++ [(.ofList f.name, value)] }

/-- `_parse_output_example_to_schema`. -/
def parseOutputExampleToSchema (blockText : Text) : Except EngineError (OutputExampleSchema F) :=
  match parseOutputExample isPrintable R blockText with
  | .error text => .error (.schemaParse ("Invalid output_example schema: " ++ text))
  | .ok schema => do
    let s ← schema.fields.foldlM (readField isPrintable R S K) ⟨[], [], [], [], []⟩
    .ok ⟨s.fields, s.required, blockText, s.descriptions, s.defaults, schema.name, schema.itemHeader⟩

def descriptorOf : Coercion → Option (List Text) → SchemaEngine.Descriptor F
  | .int, _ => .int
  | .float, _ => .float
  | .text, _ => .str
  | .bool, _ => .bool
  | .str, enumValues => .literal ((enumValues.getD []).map fun value => .str (.ofList value))
  | .list inner innerEnum, _ => .list (descriptorOf inner innerEnum)

variable {isPrintable S}

theorem literalValues_eq (inner : Text) : SchemaEngine.literalValues (F := F) inner =
    (literalEnumValues inner).map fun value => .str (.ofList value) := by
  rw [literalEnumValues, List.map_map]
  rfl

theorem bracketed?_eq {head hint inner : Text} (h : SchemaEngine.bracketed? head hint = some inner) :
    hint = head ++ (inner ++ [']']) := by
  rw [SchemaEngine.bracketed?] at h
  split_ifs at h with hlast
  rw [← List.append_assoc, ← after?_eq_some h]
  exact (List.dropLast_append_getLast? ']' hlast).symm

theorem bracketed?_other {head word inner : Text} (h : after? head (word ++ inner) = none) :
    SchemaEngine.bracketed? head (word ++ (inner ++ [']'])) = none := by
  rw [SchemaEngine.bracketed?, ← List.append_assoc, if_pos (List.getLast?_concat ..), List.dropLast_concat, h]

theorem find_primitive_none {hint : Text} (h : '[' ∈ hint) :
    Dict.find (SchemaEngine.primitiveTypes (F := F)) (.ofList hint) = none := by
  cases hfind : Dict.find (SchemaEngine.primitiveTypes (F := F)) (.ofList hint) with
  | none => rfl
  | some descriptor =>
    have hplain : ∀ e ∈ SchemaEngine.primitiveTypes (F := F), '[' ∉ e.1.toList := by
      simp [SchemaEngine.primitiveTypes]
    exact absurd (by rwa [String.toList_ofList]) (hplain _ (Dict.mem_of_find hfind))

theorem find_scalar {hint : Text} {coerceFn : Coercion} (h : scalarTypeRuntime hint = some coerceFn) :
    Dict.find (SchemaEngine.primitiveTypes (F := F)) (.ofList hint) = some (descriptorOf coerceFn none) := by
  simp only [scalarTypeRuntime, Dict.find] at h
  split_ifs at h with hint hfloat hstr hbool
  · cases h
    rw [← hint]
    rfl
  · cases h
    rw [← hfloat]
    rfl
  · cases h
    rw [← hstr]
    rfl
  · cases h
    rw [← hbool]
    rfl

theorem parseTypeExpr_strip (hint : Text) :
    SchemaEngine.parseTypeExpr S (Markdown.strip hint) = SchemaEngine.parseTypeExpr S hint := by
  have hstrip : SchemaEngine.stripText (Markdown.strip hint) = SchemaEngine.stripText hint := strip_strip hint
  rw [SchemaEngine.parseTypeExpr, SchemaEngine.parseTypeExpr, hstrip]

theorem parseTypeExpr_of_runtime {hint fieldName : Text} {coerceFn : Coercion} {enumValues : Option (List Text)}
    (h : buildTypeRuntime isPrintable hint fieldName = .ok (coerceFn, enumValues))
    (hstrip : Markdown.strip hint = hint) :
    SchemaEngine.parseTypeExpr S hint = .ok (descriptorOf coerceFn enumValues) := by
  fun_induction buildTypeRuntime isPrintable hint fieldName generalizing coerceFn enumValues with
  | case1 hint coerceFn' hscalar =>
    cases h
    have hfind := find_scalar (F := F) hscalar
    have hne : hint ≠ [] := by
      rintro rfl
      cases hscalar
    rw [SchemaEngine.parseTypeExpr, show SchemaEngine.stripText hint = hint from hstrip, if_neg hne, hfind]
  | case2 hint hscalar inner hliteral hempty => cases h
  | case3 hint hscalar inner hliteral hsome =>
    cases h
    obtain rfl := bracketed?_eq hliteral
    have hnone : ∀ head, after? head ("Literal[".toList ++ inner) = none →
        SchemaEngine.bracketed? head ("Literal[".toList ++ (inner ++ [']'])) = none := fun head => bracketed?_other
    have hvalues : SchemaEngine.literalValues (F := F) inner ≠ [] := by
      rw [literalValues_eq]
      simpa using hsome
    have hor : (SchemaEngine.bracketed? "list[".toList ("Literal[".toList ++ (inner ++ [']']))).or
        (SchemaEngine.bracketed? "List[".toList ("Literal[".toList ++ (inner ++ [']']))) = none := by
      rw [hnone _ rfl, hnone _ rfl]
      rfl
    have hstripped := show SchemaEngine.stripText ("Literal[".toList ++ (inner ++ [']'])) = _ from hstrip
    rw [SchemaEngine.parseTypeExpr, hstripped, if_neg (by simp), find_primitive_none (by simp)]
    dsimp only
    split
    · next found hfound =>
      rw [hor] at hfound
      cases hfound
    · rw [hliteral]
      dsimp only
      rw [if_neg hvalues, literalValues_eq]
      rfl
  | case4 hint hscalar hliteral inner hlist ih =>
    obtain ⟨item, hitem, h⟩ := map_eq_ok h
    cases h
    obtain rfl := bracketed?_eq hlist
    have hinner := ih hitem (strip_strip inner)
    rw [parseTypeExpr_strip] at hinner
    have hstripped := show SchemaEngine.stripText ("list[".toList ++ (inner ++ [']'])) = _ from hstrip
    rw [SchemaEngine.parseTypeExpr, hstripped, if_neg (by simp), find_primitive_none (by simp)]
    dsimp only
    split
    · next found hfound =>
      rw [hlist, Option.some_or, Option.some.injEq] at hfound
      subst hfound
      rw [hinner]
      rfl
    · next hnone =>
      rw [hlist] at hnone
      cases hnone
  | case5 hint hscalar hliteral hlist => cases h

variable (isPrintable S)

def DefaultsTo (f : DynamicFieldDef) (value : Json F) : Prop :=
  f.required = false ∧ ∃ default ∈ f.default, f.coerceFn.apply R S K (.str (.ofList default)) = .ok value

/-- The default that an optional field declares is one of its type. -/
def CoercibleDefault (f : DynamicFieldDef) : Prop :=
  f.required = false → f.default.isSome = true → ∃ value, DefaultsTo R S K f value

def fieldDescriptor (f : DynamicFieldDef) : String × SchemaEngine.Descriptor F :=
  (.ofList f.name, descriptorOf f.coerceFn f.enumValues)

variable {isPrintable S R K}

theorem coerceOutputExampleDefault_ok {f : DynamicFieldDef} {default : Text} {value : Json F} :
    coerceOutputExampleDefault isPrintable R S K f default = .ok value ↔
      f.coerceFn.apply R S K (.str (.ofList default)) = .ok value := by
  rw [coerceOutputExampleDefault]
  cases f.coerceFn.apply R S K (.str (.ofList default)) with
  | ok value' => simp
  | error e => cases e <;> simp

variable (isPrintable R S K) in
def declaredDefault (f : DynamicFieldDef) : Except EngineError (List (String × Json F)) :=
  if f.required then .ok []
  else
    match f.default with
    | none => .ok []
    | some default =>
      (coerceOutputExampleDefault isPrintable R S K f default).map fun value => [(.ofList f.name, value)]

def requiredName (f : DynamicFieldDef) : List String := if f.required then [.ofList f.name] else []

theorem readField_eq {s : FieldsRead F} {f : DynamicFieldDef} (h : Declared isPrintable R f) (hnew : f.name ∉ s.seen) :
    readField isPrintable R S K s f = (declaredDefault isPrintable R S K f).map fun defaults =>
      ⟨s.seen ++ [f.name], s.fields ++ [fieldDescriptor f], s.required ++ requiredName f,
        s.descriptions ++ [(.ofList f.name, .ofList f.description)], s.defaults ++ defaults⟩ := by
  have hseen : (s.seen.any (· == f.name)) = false := by
    rw [List.any_eq_false]
    rintro name hname heq
    exact hnew (eq_of_beq heq ▸ hname)
  have htype := parseTypeExpr_of_runtime (S := S) h.runtime h.typeHint.stripped
  rw [readField, hseen, htype]
  cases hrequired : f.required with
  | true =>
    simp [declaredDefault, requiredName, hrequired, fieldDescriptor, Except.mapError, bind, Except.bind, Except.map]
  | false =>
    cases hdefault : f.default with
    | none =>
      simp [declaredDefault, requiredName, hrequired, hdefault, fieldDescriptor, Except.mapError, bind, Except.bind,
        Except.map]
    | some default =>
      cases hvalue : coerceOutputExampleDefault isPrintable R S K f default with
      | ok value =>
        simp [declaredDefault, requiredName, hrequired, hdefault, hvalue, fieldDescriptor, Except.mapError, bind,
          Except.bind, Except.map]
      | error e =>
        simp [declaredDefault, hrequired, hdefault, hvalue, Except.mapError, bind, Except.bind, Except.map]

theorem mem_declaredDefault {f : DynamicFieldDef} {defaults : List (String × Json F)}
    (h : declaredDefault isPrintable R S K f = .ok defaults) (e : String × Json F) :
    e ∈ defaults ↔ e.1 = .ofList f.name ∧ DefaultsTo R S K f e.2 := by
  obtain ⟨name, value⟩ := e
  rw [declaredDefault] at h
  cases hrequired : f.required with
  | true =>
    rw [if_pos hrequired] at h
    cases h
    simp [DefaultsTo, hrequired]
  | false =>
    rw [if_neg (by simp [hrequired])] at h
    cases hdefault : f.default with
    | none =>
      simp only [hdefault] at h
      cases h
      simp [DefaultsTo, hdefault]
    | some default =>
      simp only [hdefault] at h
      obtain ⟨found, hfound, rfl⟩ := map_eq_ok h
      rw [coerceOutputExampleDefault_ok] at hfound
      simp [DefaultsTo, hrequired, hdefault, hfound, eq_comm]

theorem declaredDefault_ok {f : DynamicFieldDef} :
    (∃ defaults, declaredDefault isPrintable R S K f = .ok defaults) ↔ CoercibleDefault R S K f := by
  rw [declaredDefault, CoercibleDefault]
  cases hrequired : f.required with
  | true => simp
  | false =>
    cases hdefault : f.default with
    | none => simp
    | some default =>
      have hvalue : (∃ value, DefaultsTo R S K f value) ↔
          ∃ value, coerceOutputExampleDefault isPrintable R S K f default = .ok value := by
        simp [DefaultsTo, hrequired, hdefault, coerceOutputExampleDefault_ok]
      constructor
      · rintro ⟨defaults, h⟩ _ _
        obtain ⟨value, hok, -⟩ := map_eq_ok h
        exact hvalue.mpr ⟨value, hok⟩
      · intro h
        obtain ⟨value, hok⟩ := hvalue.mp (h rfl rfl)
        exact ⟨[(.ofList f.name, value)], by simp [hok, Except.map]⟩

structure ReadsTo (R : Reader F) (S : SchemaEngine.Readers F) (K : Numbers F) (read : List DynamicFieldDef)
    (s : FieldsRead F) : Prop where
  seen : s.seen = read.map (·.name)
  nodup : s.seen.Nodup
  fields : s.fields = read.map fieldDescriptor
  required : s.required = read.flatMap requiredName
  coercible : ∀ f ∈ read, CoercibleDefault R S K f
  defaults : ∀ e, e ∈ s.defaults ↔ ∃ f ∈ read, e.1 = .ofList f.name ∧ DefaultsTo R S K f e.2

theorem readField_readsTo {read : List DynamicFieldDef} {s s' : FieldsRead F} {f : DynamicFieldDef}
    (hs : ReadsTo R S K read s) (hf : Declared isPrintable R f) (h : readField isPrintable R S K s f = .ok s') :
    ReadsTo R S K (read ++ [f]) s' := by
  have hnew : f.name ∉ s.seen := by
    intro hmem
    have hseen : s.seen.any (· == f.name) = true := List.any_eq_true.mpr ⟨f.name, hmem, beq_self_eq_true _⟩
    rw [readField, if_pos hseen] at h
    cases h
  rw [readField_eq hf hnew] at h
  obtain ⟨defaults, hdefaults, rfl⟩ := map_eq_ok h
  refine ⟨by simp [hs.seen], ?_, by simp [hs.fields], by simp [hs.required], ?_, fun e => ?_⟩
  · exact List.nodup_append'.mpr ⟨hs.nodup, List.nodup_singleton _, by simpa using hnew⟩
  · exact List.forall_mem_append.mpr ⟨hs.coercible, by simpa using declaredDefault_ok.mp ⟨defaults, hdefaults⟩⟩
  · rw [List.mem_append, hs.defaults, mem_declaredDefault hdefaults]
    simp [or_and_right, exists_or]

theorem readField_progress {read : List DynamicFieldDef} {s : FieldsRead F} {f : DynamicFieldDef}
    (hs : ReadsTo R S K read s) (hf : Declared isPrintable R f) (hnew : f.name ∉ read.map (·.name))
    (hdefault : CoercibleDefault R S K f) : ∃ s', readField isPrintable R S K s f = .ok s' := by
  obtain ⟨defaults, hdefaults⟩ := declaredDefault_ok.mpr hdefault
  rw [readField_eq hf (hs.seen ▸ hnew), hdefaults]
  exact ⟨_, rfl⟩

theorem foldlM_readsTo {read fields : List DynamicFieldDef} {s s' : FieldsRead F} (hs : ReadsTo R S K read s)
    (hf : ∀ f ∈ fields, Declared isPrintable R f) (h : fields.foldlM (readField isPrintable R S K) s = .ok s') :
    ReadsTo R S K (read ++ fields) s' := by
  induction fields generalizing read s with
  | nil =>
    cases h
    simpa using hs
  | cons f fields ih =>
    rw [List.forall_mem_cons] at hf
    rw [List.foldlM_cons] at h
    obtain ⟨next, hnext, h⟩ := bind_ok h
    have hread := ih (readField_readsTo hs hf.1 hnext) hf.2 h
    rwa [List.append_assoc, List.singleton_append] at hread

theorem foldlM_progress {read fields : List DynamicFieldDef} {s : FieldsRead F} (hs : ReadsTo R S K read s)
    (hf : ∀ f ∈ fields, Declared isPrintable R f) (hnodup : ((read ++ fields).map (·.name)).Nodup)
    (hdefaults : ∀ f ∈ fields, CoercibleDefault R S K f) :
    ∃ s', fields.foldlM (readField isPrintable R S K) s = .ok s' := by
  induction fields generalizing read s with
  | nil => exact ⟨s, rfl⟩
  | cons f fields ih =>
    rw [List.forall_mem_cons] at hf hdefaults
    have hnew : f.name ∉ read.map (·.name) := by
      rw [List.map_append, List.nodup_append'] at hnodup
      exact fun hmem => hnodup.2.2 hmem List.mem_cons_self
    obtain ⟨next, hnext⟩ := readField_progress hs hf.1 hnew hdefaults.1
    rw [← List.singleton_append, ← List.append_assoc] at hnodup
    rw [List.foldlM_cons, hnext]
    exact ih (readField_readsTo hs hf.1 hnext) hf.2 hnodup hdefaults.2

/-- The engine refuses what a block declares only for a name that comes twice or a default that is not of its type,
and what it reads are the types that the block's reader coerces to. -/
theorem engine_reads_declared_types (isPrintable : Char → Bool) (R : Reader F) (S : SchemaEngine.Readers F)
    (K : Numbers F) {blockText : Text} {schema : DynamicSchemaDef}
    (h : parseOutputExample isPrintable R blockText = .ok schema) :
    ((∃ read, parseOutputExampleToSchema isPrintable R S K blockText = .ok read) ↔
        (schema.fields.map (·.name)).Nodup ∧ ∀ f ∈ schema.fields, CoercibleDefault R S K f) ∧
      ∀ read, parseOutputExampleToSchema isPrintable R S K blockText = .ok read →
        read.fields = schema.fields.map fieldDescriptor ∧ read.requiredFields = schema.fields.flatMap requiredName ∧
          ∀ name value, (name, value) ∈ read.fieldDefaults ↔
            ∃ f ∈ schema.fields, name = .ofList f.name ∧ DefaultsTo R S K f value := by
  have hfields := (parseOutputExample_sound h).fields
  have hstart : ReadsTo R S K [] ⟨[], [], [], [], []⟩ := ⟨rfl, .nil, rfl, rfl, by simp, by simp⟩
  have hread : ∀ read, parseOutputExampleToSchema isPrintable R S K blockText = .ok read → ∃ s,
      ReadsTo R S K schema.fields s ∧ read.fields = s.fields ∧ read.requiredFields = s.required ∧
        read.fieldDefaults = s.defaults := by
    intro read hread
    rw [parseOutputExampleToSchema, h] at hread
    obtain ⟨s, hs, hread⟩ := bind_ok hread
    cases hread
    exact ⟨s, foldlM_readsTo hstart hfields hs, rfl, rfl, rfl⟩
  refine ⟨⟨?_, ?_⟩, ?_⟩
  · rintro ⟨read, hok⟩
    obtain ⟨s, hs, -⟩ := hread read hok
    exact ⟨hs.seen ▸ hs.nodup, hs.coercible⟩
  · rintro ⟨hnodup, hdefaults⟩
    obtain ⟨s, hs⟩ := foldlM_progress hstart hfields (by simpa using hnodup) hdefaults
    refine ⟨⟨s.fields, s.required, blockText, s.descriptions, s.defaults, schema.name, schema.itemHeader⟩, ?_⟩
    rw [parseOutputExampleToSchema, h]
    simp only [hs]
    rfl
  · intro read hok
    obtain ⟨s, hs, hf, hr, hd⟩ := hread read hok
    exact ⟨hf.trans hs.fields, hr.trans hs.required, fun name value => hd ▸ hs.defaults (name, value)⟩

end

/-! A block of two fields, one with a default. -/

def literalReader : Reader FloatLiteral :=
  { asciiReader with floats := PyData.literalFormat, float? := fun _ => none }

def noNumbers : Numbers FloatLiteral := ⟨fun _ => .error (.typeError ""), fun _ => .error (.typeError "")⟩

def scoreField : DynamicFieldDef where
  name := "score".toList
  typeHint := "int".toList
  required := true
  default := none
  description := "from 1 to 5".toList
  coerceFn := .int
  enumValues := none

def tagsField : DynamicFieldDef where
  name := "tags".toList
  typeHint := "list[Literal[a, b]]".toList
  required := false
  default := some "a".toList
  description := []
  coerceFn := .list .str (some ["a".toList, "b".toList])
  enumValues := none

def sampleExample : DynamicSchemaDef := ⟨"Review".toList, "review".toList, [scoreField, tagsField]⟩

theorem sampleExample_wellFormed : WellFormed (fun _ => true) literalReader sampleExample := by
  have hint : Part "int".toList := ⟨by decide, rfl, rfl, by decide, unbroken_of_all rfl⟩
  have hlist : Part "list[Literal[a, b]]".toList := ⟨by decide, rfl, rfl, by decide, unbroken_of_all rfl⟩
  have hdefault : Part "default=a".toList := ⟨by decide, rfl, rfl, by decide, unbroken_of_all rfl⟩
  have hscore : Declared (fun _ => true) literalReader scoreField := by
    refine ⟨by decide, List.all_eq_true.mp rfl, hint, by simp [scoreField], ⟨rfl, unbroken_of_all rfl⟩, ?_⟩
    rw [buildTypeRuntime]
    rfl
  have htags : Declared (fun _ => true) literalReader tagsField := by
    refine ⟨by decide, List.all_eq_true.mp rfl, hlist, ?_, ⟨rfl, unbroken_of_all rfl⟩, ?_⟩
    · rintro value ⟨⟩
      exact hdefault
    · have hinner : buildTypeRuntime (fun _ => true) "Literal[a, b]".toList "tags".toList =
          .ok (.str, some ["a".toList, "b".toList]) := by
        rw [buildTypeRuntime]
        rfl
      rw [buildTypeRuntime]
      exact congrArg (Except.map fun item => (Coercion.list item.1 item.2, none)) hinner
  exact ⟨rfl, by decide, ⟨rfl, unbroken_of_all rfl⟩, List.cons_ne_nil _ _,
    List.forall_mem_cons.mpr ⟨hscore, List.forall_mem_singleton.mpr htags⟩⟩

theorem tagsField_default : DefaultsTo literalReader SchemaEngine.sampleReaders noNumbers tagsField
    (.list [.str "a"]) :=
  ⟨rfl, "a".toList, rfl, rfl⟩

theorem engine_reads_sample : ∃ read : OutputExampleSchema FloatLiteral,
    parseOutputExampleToSchema (fun _ => true) literalReader SchemaEngine.sampleReaders noNumbers sampleExample.block =
        .ok read ∧
      read.fields = [("score", .int), ("tags", .list (.literal [.str "a", .str "b"]))] ∧
        ("tags", .list [.str "a"]) ∈ read.fieldDefaults := by
  obtain ⟨haccepted, hread⟩ := engine_reads_declared_types (fun _ => true) literalReader SchemaEngine.sampleReaders
    noNumbers (parse_block sampleExample_wellFormed)
  have hcoercible : ∀ f ∈ sampleExample.fields,
      CoercibleDefault literalReader SchemaEngine.sampleReaders noNumbers f := by
    intro f hf
    rcases List.mem_pair.mp hf with rfl | rfl
    · exact fun hrequired => by cases hrequired
    · exact fun _ _ => ⟨_, tagsField_default⟩
  obtain ⟨read, hok⟩ := haccepted.mpr ⟨by decide, hcoercible⟩
  obtain ⟨hfields, -, hdefaults⟩ := hread read hok
  refine ⟨read, hok, hfields, (hdefaults _ _).mpr ?_⟩
  exact ⟨tagsField, List.mem_cons_of_mem _ List.mem_cons_self, rfl, tagsField_default⟩

end GraphSkillRuntime.OutputExamples
