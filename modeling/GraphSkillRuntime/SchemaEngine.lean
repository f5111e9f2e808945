import GraphSkillRuntime.AgentMessages
import GraphSkillRuntime.PyData

/-!
The schema engine, as far as it reads the output schema of an agent phase: the schema is written as JSON text,
and the text is searched for the markers of the older formats before it is read as JSON.
-/

namespace GraphSkillRuntime.SchemaEngine

open OrderedDict JsonText PyData

abbrev Text := List Char

abbrev Members (F : Type) := List (String × Json F)

/-- `list`, `union` and `object` are the markers `ListType`, `UnionType` and a nested `SchemaObject`. -/
inductive Descriptor (F : Type) where
  | any
  | str
  | int
  | float
  | bool
  | dict
  | null
  | literal (values : List (Json F))
  | list (itemType : Descriptor F)
  | union (members : List (Descriptor F))
  | object (fields : List (String × Descriptor F)) (requiredFields : List String) (rawSchemaDict : Members F)

structure SchemaObject (F : Type) where
  fields : List (String × Descriptor F)
  requiredFields : List String
  rawSchemaDict : Members F

def SchemaObject.descriptor {F : Type} (s : SchemaObject F) : Descriptor F :=
  .object s.fields s.requiredFields s.rawSchemaDict

/-- What the engine takes from elsewhere: Python's `str` and `repr`, and the readers of the two older formats. -/
structure Readers (F : Type) where
  str : Json F → String
  str_str : ∀ s, str (.str s) = s
  repr : Json F → String
  outputExample : Text → Except String (SchemaObject F)
  fieldList : Text → Except String (SchemaObject F)

def stripBy (p : Char → Bool) (s : Text) : Text := ((s.dropWhile p).reverse.dropWhile p).reverse

def stripText (s : Text) : Text := stripBy isPythonSpace s

/-- `s.replace(pattern, "")`; the number counts the characters of an occurrence that are still to be dropped. -/
def removeText (pattern : Text) : ℕ → Text → Text
  | _, [] => []
  | skip + 1, _ :: s => removeText pattern skip s
  | 0, c :: s =>
    if pattern.isPrefixOf (c :: s) then removeText pattern (pattern.length - 1) s else c :: removeText pattern 0 s

def occursIn (pattern s : Text) : Bool := s.tails.any pattern.isPrefixOf

def bracketed? (head hint : Text) : Option Text :=
  if hint.getLast? = some ']' then after? head hint.dropLast else none

theorem length_dropWhile_le (p : Char → Bool) (s : Text) : (s.dropWhile p).length ≤ s.length :=
  (List.dropWhile_sublist p).length_le

theorem length_stripText_le (s : Text) : (stripText s).length ≤ s.length := by
  unfold stripText stripBy
  rw [List.length_reverse]
  apply le_trans (length_dropWhile_le _ _)
  rw [List.length_reverse]
  exact length_dropWhile_le _ _

theorem length_after?_le {word s rest : Text} (h : after? word s = some rest) : rest.length ≤ s.length := by
  rw [after?_eq_some h, List.length_append]
  omega

theorem length_bracketed?_lt {head hint inner : Text} (h : bracketed? head hint = some inner) :
    inner.length < hint.length := by
  unfold bracketed? at h
  split_ifs at h with hlast
  have hle := length_after?_le h
  have hne : hint ≠ [] := by
    rintro rfl
    simp at hlast
  have hpos := List.length_pos_of_ne_nil hne
  rw [List.length_dropLast] at hle
  omega

section

variable {F : Type} (R : Readers F)

def primitiveTypes : List (String × Descriptor F) :=
  [("Any", .any), ("any", .any), ("str", .str), ("string", .str), ("int", .int), ("integer", .int), ("float", .float),
    ("number", .float), ("bool", .bool), ("boolean", .bool), ("dict", .dict), ("object", .dict)]

/-- `strip("'\"")`. -/
def unquoted (s : Text) : Text := stripBy (fun c => c = '"' || c.toNat = 39) s

def literalValues (inner : Text) : List (Json F) :=
  (((inner.splitOn ',').map stripText).filter (· ≠ [])).map fun part => .str (.ofList (unquoted part))

def parseTypeExpr (typeText : Text) : Except String (Descriptor F) :=
  let typeHint := stripText typeText
  if typeHint = [] then .error "Empty type declaration"
  else
    match Dict.find primitiveTypes (.ofList typeHint) with
    | some primitive => .ok primitive
    | none =>
      match _hinner : (bracketed? "list[".toList typeHint).or (bracketed? "List[".toList typeHint) with
      | some inner => (parseTypeExpr inner).map .list
      | none =>
        match bracketed? "Literal[".toList typeHint with
        | some inner =>
          if literalValues (F := F) inner = [] then .error "Literal[...] must contain at least one value"
          else .ok (.literal (literalValues inner))
        | none => .error ("Unsupported schema type " ++ R.repr (.str (.ofList typeHint)) ++
            ". Allowed: str/int/float/bool/Any/dict/list[T]/Literal[...]")
termination_by typeText.length
decreasing_by
  have hlt : inner.length < (stripText typeText).length := by
    rcases Option.or_eq_some_iff.mp _hinner with h | h
    · exact length_bracketed?_lt h
    · exact length_bracketed?_lt h.2
  exact hlt.trans_le (length_stripText_le typeText)

def declaredType (typeText : String) : Text × Bool :=
  let cleaned := stripText typeText.toList
  let (cleaned, optional) :=
    if cleaned.getLast? = some '?' then (stripText cleaned.dropLast, true) else (cleaned, false)
  let (cleaned, optional) :=
    match bracketed? "Optional[".toList cleaned with
    | some inner => (stripText inner, true)
    | none => (cleaned, optional)
  let (cleaned, optional) :=
    if occursIn " | None".toList cleaned then (stripText (removeText " | None".toList 0 cleaned), true)
    else (cleaned, optional)
  if occursIn "None | ".toList cleaned then (stripText (removeText "None | ".toList 0 cleaned), true)
  else (cleaned, optional)

def parseDeclaredType (typeText : String) : Except String (Descriptor F × Bool) :=
  (parseTypeExpr R (declaredType typeText).1).map (·, (declaredType typeText).2)

/-! Weights: a list of types weighs more than any single type. -/

mutual

def weight : Json F → ℕ
  | .list xs => weightElements xs + 2
  | .dict m => weightMembers m + 2
  | _ => 1

def weightElements : List (Json F) → ℕ
  | [] => 0
  | x :: xs => weight x + weightElements xs

def weightMembers : Members F → ℕ
  | [] => 0
  | (_, v) :: m => weight v + weightMembers m + 1

end

theorem weight_pos (v : Json F) : 0 < weight v := by
  cases v <;> simp [weight]

theorem weight_lt_of_mem {m : Members F} {e : String × Json F} (he : e ∈ m) : weight e.2 < weightMembers m := by
  induction m with
  | nil => simp at he
  | cons d m ih =>
    rw [weightMembers]
    rcases List.mem_cons.mp he with rfl | he
    · omega
    · have hlt := ih he
      omega

theorem weight_lt_of_find {m : Members F} {key : String} {v : Json F} (h : Dict.find m key = some v) :
    weight v < weightMembers m :=
  weight_lt_of_mem (Dict.mem_of_find h)

/-- `{**value, "type": name}` of a mapping that has a type. -/
def withType (value : Members F) (name : String) : Members F :=
  value.map fun e => if e.1 = "type" then (e.1, .str name) else e

theorem weight_withType_le (value : Members F) (name : String) :
    weightMembers (withType value name) ≤ weightMembers value := by
  induction value with
  | nil => rfl
  | cons e value ih =>
    rw [withType, List.map_cons, ← withType]
    by_cases htype : e.1 = "type"
    · have hpos := weight_pos e.2
      have hname : weight (F := F) (.str name) = 1 := by simp [weight]
      rw [if_pos htype, weightMembers, weightMembers, hname]
      omega
    · rw [if_neg htype, weightMembers, weightMembers]
      omega

theorem weight_withType_lt {value : Members F} {types : List (Json F)}
    (h : Dict.find value "type" = some (.list types)) (name : String) :
    weightMembers (withType value name) < weightMembers value := by
  induction value with
  | nil => simp [Dict.find] at h
  | cons e value ih =>
    obtain ⟨key, v⟩ := e
    rw [withType, List.map_cons, ← withType]
    by_cases htype : key = "type"
    · have hle := weight_withType_le value name
      rw [Dict.find, if_pos htype, Option.some.injEq] at h
      subst h
      simp only [htype, if_true, weightMembers, weight]
      omega
    · have hlt := ih (by rwa [Dict.find, if_neg htype] at h)
      simp only [htype, if_false, weightMembers]
      omega

def isScalar : Json F → Bool
  | .list _ | .dict _ => false
  | _ => true

def literalFromJsonEnum (values : List (Json F)) : Except String (Descriptor F) :=
  if values = [] then .error "JSON Schema 'enum' must contain at least one value"
  else if values.all isScalar then .ok (.literal values)
  else .error "JSON Schema 'enum' only supports scalar values"

def typeName? : Json F → Option String
  | .str name => some name
  | _ => none

def unionOf : List (Descriptor F) → Descriptor F
  | [member] => member
  | members => .union members

def members? : Option (Json F) → Option (Members F)
  | some (.dict m) => some m
  | _ => none

def requiredValues? : Option (Json F) → Option (List (Json F))
  | none => some []
  | some (.list values) => some values
  | some _ => none

/-- `set(value).issubset({"type", "description"})`. -/
def onlyDescribed (value : Members F) : Bool := value.all fun e => e.1 = "type" || e.1 = "description"

theorem weight_lt_of_members? {m properties : Members F} {key : String}
    (h : members? (Dict.find m key) = some properties) : weightMembers properties < weightMembers m := by
  cases hfind : Dict.find m key with
  | none =>
    rw [hfind] at h
    cases h
  | some v =>
    cases v <;> rw [hfind] at h <;> cases h
    have hlt := weight_lt_of_find hfind
    rw [weight] at hlt
    omega

mutual

def descriptorFromJsonValue (value : Json F) : Except String (Descriptor F) :=
  match value with
  | .str typeText => (parseDeclaredType R typeText).map Prod.fst
  | .dict value => descriptorFromJsonMapping value
  | .list [item] => (descriptorFromJsonValue item).map .list
  | .list _ => .error "List schema shorthand must contain exactly one item type"
  | value => .error ("Unsupported schema value " ++ R.repr value)
termination_by (weight value, 0)
decreasing_by
  · exact Prod.Lex.left _ _ (by rw [weight]; omega)
  · exact Prod.Lex.left _ _ (by rw [weight, weightElements]; omega)

def descriptorFromJsonMapping (value : Members F) : Except String (Descriptor F) :=
  match Dict.find value "enum" with
  | some (.list values) => literalFromJsonEnum values
  | some _ => .error "JSON Schema 'enum' must be a list"
  | none =>
    match _htype : Dict.find value "type" with
    | some (.list types) =>
      match types.mapM typeName? with
      | none | some [] => .error "JSON Schema 'type' array must contain type names"
      | some names => do
        let members ← names.mapM fun name =>
          if name = "null" then .ok .null else descriptorFromJsonMapping (withType value name)
        .ok (unionOf members)
    | some (.str "array") =>
      match _hitems : Dict.find value "items" with
      | none | some (.dict []) => .ok (.list .any)
      | some items => (descriptorFromJsonValue items).map .list
    | some (.str "object") =>
      match members? (Dict.find value "properties") with
      | some _ => (schemaFromMapping value).map SchemaObject.descriptor
      | none => .ok .dict
    | some (.str schemaType) =>
      if onlyDescribed value then (parseDeclaredType R schemaType).map Prod.fst
      else (schemaFromMapping value).map SchemaObject.descriptor
    | _ => (schemaFromMapping value).map SchemaObject.descriptor
termination_by (weightMembers value, 2)
decreasing_by
  · exact Prod.Lex.left _ _ (weight_withType_lt _htype name)
  · exact Prod.Lex.left _ _ (weight_lt_of_find _hitems)
  all_goals exact Prod.Lex.right _ (by omega)

def schemaFromMapping (mapping : Members F) : Except String (SchemaObject F) :=
  match _hproperties : members? (Dict.find mapping "properties") with
  | some properties =>
    match requiredValues? (Dict.find mapping "required") with
    | none => .error "JSON Schema 'required' must be a list"
    | some required => do
      let fields ← fieldDescriptors properties
      .ok { fields, requiredFields := required.map R.str, rawSchemaDict := mapping }
  | none => do
    let fields ← fieldDescriptors mapping
    if fields = [] then .error "Schema must declare at least one field"
    else .ok { fields, requiredFields := fields.map Prod.fst, rawSchemaDict := mapping }
termination_by (weightMembers mapping, 1)
decreasing_by
  · exact Prod.Lex.left _ _ (weight_lt_of_members? _hproperties)
  · exact Prod.Lex.right _ (by omega)

def fieldDescriptors (mapping : Members F) : Except String (List (String × Descriptor F)) :=
  match mapping with
  | [] => .ok []
  | (name, value) :: rest => do
    let descriptor ← descriptorFromJsonValue value
    let fields ← fieldDescriptors rest
    .ok ((name, descriptor) :: fields)
termination_by (weightMembers mapping, 0)
decreasing_by
  · exact Prod.Lex.left _ _ (by rw [weightMembers]; omega)
  · exact Prod.Lex.left _ _ (by rw [weightMembers]; omega)

end

def isBlank (c : Char) : Bool := c = ' ' || c = '\t'

def commonPrefix : Text → Text → Text
  | c :: s, d :: t => if c = d then c :: commonPrefix s t else []
  | _, _ => []

/-- The margin of `textwrap.dedent`: the lines of blanks have no say in it. -/
def margin (lines : List Text) : Text :=
  match (lines.filter fun line => !line.all isBlank).map (List.takeWhile isBlank) with
  | [] => []
  | first :: rest => rest.foldl commonPrefix first

def dedent (text : Text) : Text :=
  let lines := text.splitOn '\n'
  ['\n'].intercalate (lines.map fun line => if line.all isBlank then [] else line.drop (margin lines).length)

/-- A match of `_OUTPUT_EXAMPLE_BLOCK_RE` at the start of the text. -/
def matchOutputExample (s : Text) : Option Text := do
  let tag ← after? "<output_example".toList s
  if !tag.head?.any isPythonSpace then none
  let name ← after? "name=\"".toList (tag.dropWhile isPythonSpace)
  if name.head? = some '"' then none
  let body ← after? "\">".toList (name.dropWhile (· ≠ '"'))
  let rest ← body.tails.findSome? (after? "</output_example>".toList)
  some (s.take (s.length - rest.length))

def extractOutputExample (text : Text) : Option Text :=
  (text.tails.findSome? matchOutputExample).map fun found => stripText (dedent found)

/-- A match of `_NAMED_BLOCK_RE`: the indentation of the line and what stands behind the colon. -/
def namedBlock? (key line : Text) : Option (ℕ × Text) := do
  let rest ← after? key (line.dropWhile isPythonSpace)
  let tail ← after? [':'] rest
  some ((line.takeWhile isPythonSpace).length, stripText tail)

def blockLines (baseIndent : ℕ) (lines : List Text) : List Text :=
  lines.takeWhile fun line => stripText line = [] || baseIndent < (line.takeWhile (· = ' ')).length

def namedBlockIn (key : Text) : List Text → Option Text
  | [] => none
  | line :: lines =>
    match namedBlock? key line with
    | none => namedBlockIn key lines
    | some (baseIndent, tail) =>
      if tail ≠ [] ∧ tail ≠ ['|'] then some (unquoted tail)
      else some (stripText (dedent (['\n'].intercalate (blockLines baseIndent lines))))

def extractNamedYamlBlock (text key : Text) : Option Text := namedBlockIn key (splitlines text)

def extractSchemaFragment (text : Text) : Text :=
  (((extractOutputExample text).or (extractNamedYamlBlock text "output_example".toList)).or
    (extractNamedYamlBlock text "output_schema".toList)).getD text

variable (P : FloatFormat F)

def tryParseJsonSchema (fragment : Text) : Option (Except String (Members F)) :=
  if (stripText fragment).head? = some '{' then
    match loads P (stripText fragment) with
    | none => some (.error "Invalid JSON output schema")
    | some (.dict loaded) => some (.ok loaded)
    | some _ => some (.error "JSON output schema must be an object")
  else none

def parseFromMd (mdContent : Text) : Except String (SchemaObject F) :=
  let fragment := extractSchemaFragment mdContent
  if stripText fragment = [] then .ok ⟨[], [], []⟩
  else
    match extractOutputExample fragment with
    | some outputExample => R.outputExample outputExample
    | none =>
      match tryParseJsonSchema P fragment with
      | some (.error e) => .error e
      | some (.ok jsonSchema) => schemaFromMapping R jsonSchema
      | none => R.fieldList fragment

end

end GraphSkillRuntime.SchemaEngine
