import GraphSkillRuntime.GateSchemas
import GraphSkillRuntime.ListValues
import GraphSkillRuntime.MarkdownTexts
import GraphSkillRuntime.PythonRepr
import GraphSkillRuntime.SubObjects

/-!
Schemas by example: the fields that an agent phase has to submit, declared by the bullets of an `<output_example>`
block. What a block declares can be written as a block again, one bullet a field, and is read back as it was.
-/

namespace GraphSkillRuntime.OutputExamples

open OrderedDict JsonText Markdown

abbrev Text := List Char

/-- What a `coerce_fn` does: `text` is the one of the type `str`, `str` is Python's own. -/
inductive Coercion where
  | int
  | float
  | text
  | bool
  | str
  | list (inner : Coercion) (innerEnum : Option (List Text))

structure DynamicFieldDef where
  name : Text
  typeHint : Text
  required : Bool
  default : Option Text
  description : Text
  coerceFn : Coercion
  enumValues : Option (List Text)

structure DynamicSchemaDef where
  name : Text
  itemHeader : Text
  fields : List DynamicFieldDef

section

variable (isPrintable : Char → Bool)

/-- `{text!r}`. -/
def quoted (s : Text) : String := .ofList (PythonRepr.reprString isPrintable s)

def depthAfter? (depth : ℕ) (c : Char) : Option ℕ :=
  if c = '[' then some (depth + 1)
  else if c = ']' then if depth = 0 then none else some (depth - 1)
  else some depth

/-- The parts between the commas that stand outside of brackets; `none` when the brackets do not match. -/
def topLevelParts : ℕ → Text → Option (List Text)
  | depth, [] => if depth = 0 then some [[]] else none
  | depth, c :: s =>
    match depthAfter? depth c with
    | none => none
    | some depth =>
      if c = ',' ∧ depth = 0 then (topLevelParts depth s).map ([] :: ·)
      else (topLevelParts depth s).map (consHead c)

def splitTopLevelCommas (text : Text) : Except String (List Text) :=
  match topLevelParts 0 text with
  | some parts => .ok ((parts.map Markdown.strip).filter (· ≠ []))
  | none => .error ("Unbalanced brackets in type declaration " ++ quoted isPrintable text)

def scalarTypeRuntime (typeHint : Text) : Option Coercion :=
  Dict.find [("int", .int), ("float", .float), ("str", .text), ("bool", .bool)] (.ofList typeHint)

def literalEnumValues (inner : Text) : List Text :=
  (((inner.splitOn ',').map Markdown.strip).filter (· ≠ [])).map SchemaEngine.unquoted

theorem length_strip_le (s : Text) : (Markdown.strip s).length ≤ s.length := SchemaEngine.length_stripText_le s

def buildTypeRuntime (typeHint fieldName : Text) : Except String (Coercion × Option (List Text)) :=
  match scalarTypeRuntime typeHint with
  | some coerceFn => .ok (coerceFn, none)
  | none =>
    match SchemaEngine.bracketed? "Literal[".toList typeHint with
    | some inner =>
      if literalEnumValues inner = [] then
        .error ("Literal type for field " ++ .ofList fieldName ++ " must list at least one value")
      else .ok (.str, some (literalEnumValues inner))
    | none =>
      match _hinner : SchemaEngine.bracketed? "list[".toList typeHint with
      | some inner => (buildTypeRuntime (Markdown.strip inner) fieldName).map fun item => (.list item.1 item.2, none)
      | none => .error ("Unsupported type " ++ quoted isPrintable typeHint ++ " for field " ++ .ofList fieldName ++
          ". Allowed: int / float / str / bool / Literal[...] / list[X]")
termination_by typeHint.length
decreasing_by exact (length_strip_le inner).trans_lt (SchemaEngine.length_bracketed?_lt _hinner)

def readQualifiers (name : Text) : List Text → Bool × Option Text → Except String (Bool × Option Text)
  | [], found => .ok found
  | qualifier :: rest, (required, default) =>
    if qualifier = "required".toList then readQualifiers name rest (true, default)
    else if qualifier = "optional".toList then readQualifiers name rest (false, default)
    else
      match after? "default=".toList qualifier with
      | some value => readQualifiers name rest (required, some value)
      | none => .error ("Unknown qualifier " ++ quoted isPrintable qualifier ++ " in field " ++ .ofList name ++
          ". Allowed: required / optional / default=X")

def parseField (name typePart description schemaName : Text) : Except String DynamicFieldDef := do
  match ← splitTopLevelCommas isPrintable typePart with
  | [] => .error ("Field " ++ .ofList name ++ " in schema " ++ .ofList schemaName ++ " lacks a type")
  | typeHint :: qualifiers =>
    let (coerceFn, enumValues) ← buildTypeRuntime isPrintable typeHint name
    let (required, default) ← readQualifiers isPrintable name qualifiers (true, none)
    .ok { name, typeHint, required, default, description, coerceFn, enumValues }

variable {F : Type} (R : Reader F)

/-- `\s*\((…)\)\s*:\s*(.*)$` behind the name of a field. -/
def fieldTail? (s : Text) : Option (Text × Text) := do
  let inner ← after? ['('] (s.dropWhile isPythonSpace)
  if inner.head?.all (· = ')') then none
  let rest ← after? [')'] (inner.dropWhile (· ≠ ')'))
  let description ← after? [':'] (rest.dropWhile isPythonSpace)
  some (Markdown.strip (inner.takeWhile (· ≠ ')')), Markdown.strip description)

/-- A match of `_FIELD_LINE_RE`. -/
def fieldLine? (line : Text) : Option (Text × Text × Text) := do
  let bullet ← after? ['-'] (line.dropWhile isPythonSpace)
  if !bullet.head?.any isPythonSpace then none
  let body := bullet.dropWhile isPythonSpace
  let tail := body.dropWhile R.isWord
  if body.takeWhile R.isWord = [] ∨ !tail.head?.any isPythonSpace then none
  let (typePart, description) ← fieldTail? tail
  some (body.takeWhile R.isWord, typePart, description)

inductive ExampleLine where
  | header (itemHeader : Text)
  | field (name typePart description : Text)

def parseFieldLine (line schemaName : Text) : Except String ExampleLine :=
  match fieldLine? R line with
  | some (name, typePart, description) => .ok (.field name typePart description)
  | none => .error ("Bullet does not match strict pattern " ++
      "'- name (type[, required|optional[, default=X]]): desc'\nGot: " ++ quoted isPrintable line ++ "\nSchema: " ++
      .ofList schemaName)

def parseItemHeader (stripped line schemaName : Text) (currentItemHeader : Option Text) :
    Except String ExampleLine :=
  match (after? ['#', '#'] stripped).bind afterSpaces with
  | none => .error ("Invalid item header in schema " ++ .ofList schemaName ++ ": " ++ quoted isPrintable line)
  | some itemHeader =>
    if currentItemHeader.isSome then .error ("Schema " ++ .ofList schemaName ++ " declares multiple ## item headers")
    else .ok (.header (Markdown.strip itemHeader))

def parseOutputExampleLine (line schemaName : Text) (currentItemHeader : Option Text) :
    Except String (Option ExampleLine) :=
  let stripped := Markdown.strip line
  if stripped = [] then .ok none
  else if ['#', '#'].isPrefixOf stripped then
    (parseItemHeader isPrintable stripped line schemaName currentItemHeader).map some
  else if stripped.head? ≠ some '-' then
    .error ("Unsupported non-bullet line in schema " ++ .ofList schemaName ++ ": " ++ quoted isPrintable line)
  else (parseFieldLine isPrintable R line schemaName).map some

structure ExampleState where
  itemHeader : Option Text
  fields : List DynamicFieldDef

def exampleStep (schemaName : Text) (s : ExampleState) (line : Text) : Except String ExampleState := do
  match ← parseOutputExampleLine isPrintable R line schemaName s.itemHeader with
  | none => .ok s
  | some (.header itemHeader) => .ok { s with itemHeader := some itemHeader }
  | some (.field name typePart description) =>
    let field ← parseField isPrintable name typePart description schemaName
    .ok { s with fields := s.fields ++ [field] }

/-- `_SCHEMA_NAME_RE`. -/
def isSchemaName : Text → Bool
  | [] => false
  | c :: rest => (c.isAlpha || c = '_') && rest.all R.isWord

def beforeClosing? (tag s : Text) : Option Text :=
  let kept := (s.reverse.dropWhile isPythonSpace).reverse
  if tag.isSuffixOf kept then some (kept.take (kept.length - tag.length)) else none

/-- A match of `_OUTPUT_EXAMPLE_BLOCK_RE`. -/
def outputExampleBlock? (s : Text) : Option (Text × Text) := do
  let tag ← after? "<output_example".toList (s.dropWhile isPythonSpace)
  if !tag.head?.any isPythonSpace then none
  let name ← after? "name=\"".toList (tag.dropWhile isPythonSpace)
  if name.takeWhile (· ≠ '"') = [] then none
  let body ← after? "\">".toList (name.dropWhile (· ≠ '"'))
  let content ← beforeClosing? "</output_example>".toList body
  some (name.takeWhile (· ≠ '"'), Markdown.strip content)

def extractOutputExampleParts (blockText : Text) : Except String (Text × Text) :=
  match outputExampleBlock? blockText with
  | none => .error "Cannot find a standalone <output_example name=\"...\">...</output_example> block"
  | some (name, body) =>
    if isSchemaName R (Markdown.strip name) then .ok (Markdown.strip name, body)
    else .error ("Invalid output_example schema name " ++ quoted isPrintable (Markdown.strip name) ++
      ". Use a Python-style identifier.")

def parseOutputExample (blockText : Text) : Except String DynamicSchemaDef := do
  let (schemaName, body) ← extractOutputExampleParts isPrintable R blockText
  let s ← (splitlines body).foldlM (exampleStep isPrintable R schemaName) ⟨none, []⟩
  match s.itemHeader with
  | none => .error ("Schema " ++ .ofList schemaName ++ " must include exactly one '## <header>' line")
  | some itemHeader =>
    if s.fields = [] then .error ("Schema " ++ .ofList schemaName ++ " must declare at least one field")
    else .ok ⟨schemaName, itemHeader, s.fields⟩

end

def balanced : ℕ → Text → Bool
  | depth, [] => depth = 0
  | depth, c :: s =>
    match depthAfter? depth c with
    | none => false
    | some depth => !(c = ',' && depth = 0) && balanced depth s

structure Part (p : Text) : Prop where
  ne_nil : p ≠ []
  stripped : Markdown.strip p = p
  balanced : balanced 0 p = true
  closing : ')' ∉ p
  unbroken : ∀ c ∈ p, isLineBreak c = false

theorem balanced_cons {depth : ℕ} {c : Char} {s : Text} : balanced depth (c :: s) = true ↔
    ∃ next, depthAfter? depth c = some next ∧ ¬ (c = ',' ∧ next = 0) ∧ balanced next s = true := by
  rw [balanced]
  cases depthAfter? depth c with
  | none => simp
  | some next => simp [imp_iff_not_or]

theorem balanced_space {c : Char} (h : isPythonSpace c = true) (depth : ℕ) (s : Text) :
    balanced depth (c :: s) = balanced depth s := by
  have hopen : c ≠ '[' := fun e => by simp [e, isPythonSpace] at h
  have hclose : c ≠ ']' := fun e => by simp [e, isPythonSpace] at h
  have hcomma : c ≠ ',' := fun e => by simp [e, isPythonSpace] at h
  simp [balanced, depthAfter?, hopen, hclose, hcomma]

theorem balanced_spaces {before : Text} (h : ∀ c ∈ before, isPythonSpace c = true) (depth : ℕ) (s : Text) :
    balanced depth (before ++ s) = balanced depth s := by
  induction before with
  | nil => rfl
  | cons c before ih =>
    rw [List.forall_mem_cons] at h
    rw [List.cons_append, balanced_space h.1, ih h.2]

theorem balanced_append_spaces {after : Text} (h : ∀ c ∈ after, isPythonSpace c = true) (depth : ℕ) (s : Text) :
    balanced depth (s ++ after) = balanced depth s := by
  induction s generalizing depth with
  | nil => simpa using balanced_spaces h depth []
  | cons c s ih =>
    rw [List.cons_append, balanced, balanced]
    cases depthAfter? depth c with
    | none => rfl
    | some depth => simp only [ih]

theorem strip_split (s : Text) : ∃ before after, (∀ c ∈ before, isPythonSpace c = true) ∧
    (∀ c ∈ after, isPythonSpace c = true) ∧ s = before ++ (Markdown.strip s ++ after) := by
  have hback := List.takeWhile_append_dropWhile (p := isPythonSpace) (l := (s.dropWhile isPythonSpace).reverse)
  refine ⟨s.takeWhile isPythonSpace, ((s.dropWhile isPythonSpace).reverse.takeWhile isPythonSpace).reverse,
    fun c hc => List.mem_takeWhile_imp hc, fun c hc => List.mem_takeWhile_imp (List.mem_reverse.mp hc), ?_⟩
  rw [Markdown.strip, ← List.reverse_append, hback, List.reverse_reverse, List.takeWhile_append_dropWhile]

theorem strip_strip (s : Text) : Markdown.strip (Markdown.strip s) = Markdown.strip s := by
  refine strip_of_ends (fun c hc => ?_) (fun c hc => ?_)
  · obtain ⟨rest, hrest⟩ := List.head?_eq_some_iff.mp (Option.mem_def.mp hc)
    obtain ⟨after, hafter⟩ := List.reverse_prefix.mpr
      (List.dropWhile_suffix isPythonSpace (l := (s.dropWhile isPythonSpace).reverse))
    rw [← Markdown.strip, List.reverse_reverse] at hafter
    have hhead := List.head?_dropWhile_not isPythonSpace s
    rw [← hafter, hrest] at hhead
    exact hhead
  · have hlast := List.head?_dropWhile_not isPythonSpace (s.dropWhile isPythonSpace).reverse
    rw [Markdown.strip, List.getLast?_reverse] at hc
    rw [Option.mem_def.mp hc] at hlast
    exact hlast

theorem balanced_strip (s : Text) : balanced 0 (Markdown.strip s) = balanced 0 s := by
  obtain ⟨before, after, hbefore, hafter, hs⟩ := strip_split s
  conv_rhs => rw [hs]
  rw [balanced_spaces hbefore, balanced_append_spaces hafter]

theorem topLevelParts_balanced {depth : ℕ} {s : Text} {parts : List Text} (h : topLevelParts depth s = some parts) :
    ∃ first rest, parts = first :: rest ∧ balanced depth first = true ∧ ∀ p ∈ rest, balanced 0 p = true := by
  induction s generalizing depth parts with
  | nil =>
    rw [topLevelParts] at h
    split_ifs at h with hdepth
    exact ⟨[], [], (Option.some.inj h).symm, by simp [balanced, hdepth], by simp⟩
  | cons c s ih =>
    rw [topLevelParts] at h
    cases hnext : depthAfter? depth c with
    | none => simp [hnext] at h
    | some next =>
      simp only [hnext] at h
      split_ifs at h with hcomma
      · obtain ⟨tail, htail, rfl⟩ := Option.map_eq_some_iff.mp h
        obtain ⟨first, rest, rfl, hfirst, hrest⟩ := ih htail
        obtain rfl : depth = 0 := by
          obtain ⟨rfl, rfl⟩ := hcomma
          simpa [depthAfter?] using hnext
        rw [hcomma.2] at hfirst
        exact ⟨[], first :: rest, rfl, rfl, List.forall_mem_cons.mpr ⟨hfirst, hrest⟩⟩
      · obtain ⟨tail, htail, rfl⟩ := Option.map_eq_some_iff.mp h
        obtain ⟨first, rest, rfl, hfirst, hrest⟩ := ih htail
        refine ⟨c :: first, rest, rfl, ?_, hrest⟩
        exact balanced_cons.mpr ⟨next, hnext, hcomma, hfirst⟩

theorem topLevelParts_append {depth : ℕ} {p : Text} (h : balanced depth p = true) (s : Text) :
    topLevelParts depth (p ++ ',' :: s) = (topLevelParts 0 s).map (p :: ·) := by
  induction p generalizing depth with
  | nil =>
    obtain rfl : depth = 0 := by simpa [balanced] using h
    rfl
  | cons c p ih =>
    obtain ⟨next, hnext, hcomma, hp⟩ := balanced_cons.mp h
    rw [List.cons_append, topLevelParts, hnext]
    simp only [hcomma, if_false, ih hp, Option.map_map]
    rfl

theorem topLevelParts_single {depth : ℕ} {p : Text} (h : balanced depth p = true) :
    topLevelParts depth p = some [p] := by
  induction p generalizing depth with
  | nil =>
    obtain rfl : depth = 0 := by simpa [balanced] using h
    rfl
  | cons c p ih =>
    obtain ⟨next, hnext, hcomma, hp⟩ := balanced_cons.mp h
    rw [topLevelParts, hnext]
    simp only [hcomma, if_false, ih hp, Option.map_some]
    rfl

theorem topLevelParts_commaJoined {parts : List Text} (hne : parts ≠ []) (h : ∀ p ∈ parts, balanced 0 p = true) :
    topLevelParts 0 (commaJoined parts) = some parts := by
  induction parts with
  | nil => exact absurd rfl hne
  | cons p parts ih =>
    rw [List.forall_mem_cons] at h
    cases parts with
    | nil => rw [commaJoined, List.intercalate_singleton, topLevelParts_single h.1]
    | cons q parts =>
      rw [commaJoined, List.intercalate_cons_cons, List.append_assoc, List.singleton_append, topLevelParts_append h.1,
        ← commaJoined, ih (by simp) h.2]
      rfl

def DynamicFieldDef.qualifiers (f : DynamicFieldDef) : List Text :=
  (if f.required then "required".toList else "optional".toList) :: f.default.toList.map ("default=".toList ++ ·)

def DynamicFieldDef.typePart (f : DynamicFieldDef) : Text := commaJoined (f.typeHint :: f.qualifiers)

def described (description : Text) : Text := if description = [] then [] else ' ' :: description

def DynamicFieldDef.line (f : DynamicFieldDef) : Text :=
  '-' :: ' ' :: (f.name ++ ' ' :: '(' :: (f.typePart ++ ')' :: ':' :: described f.description))

def DynamicSchemaDef.lines (schema : DynamicSchemaDef) : List Text :=
  ('#' :: '#' :: ' ' :: schema.itemHeader) :: schema.fields.map DynamicFieldDef.line

def DynamicSchemaDef.block (schema : DynamicSchemaDef) : Text :=
  "<output_example".toList ++ (' ' :: ("name=\"".toList ++ (schema.name ++ ("\">".toList ++
    ('\n' :: (joinLines schema.lines ++ ['\n']) ++ "</output_example>".toList)))))

structure Line (s : Text) : Prop where
  stripped : Markdown.strip s = s
  unbroken : ∀ c ∈ s, isLineBreak c = false

section

variable (isPrintable : Char → Bool) {F : Type} (R : Reader F)

structure Declared (f : DynamicFieldDef) : Prop where
  name_ne_nil : f.name ≠ []
  word : ∀ c ∈ f.name, R.isWord c = true
  typeHint : Part f.typeHint
  default : ∀ value ∈ f.default, Part ("default=".toList ++ value)
  description : Line f.description
  runtime : buildTypeRuntime isPrintable f.typeHint f.name = .ok (f.coerceFn, f.enumValues)

structure WellFormed (schema : DynamicSchemaDef) : Prop where
  name : isSchemaName R schema.name = true
  header_ne_nil : schema.itemHeader ≠ []
  header : Line schema.itemHeader
  fields_ne_nil : schema.fields ≠ []
  fields : ∀ f ∈ schema.fields, Declared isPrintable R f

variable {isPrintable R}

theorem strip_padded {s : Text} (hs : Markdown.strip s = s) (hne : s ≠ []) {before after : Text}
    (hbefore : ∀ c ∈ before, isPythonSpace c = true) (hafter : ∀ c ∈ after, isPythonSpace c = true) :
    Markdown.strip (before ++ (s ++ after)) = s := by
  have hhead : ∀ t : Text, (s ++ t).dropWhile isPythonSpace = s ++ t := by
    intro t
    obtain ⟨c, rest, rfl⟩ := List.exists_cons_of_ne_nil hne
    have hc := strip_head hs c rfl
    rw [List.cons_append, List.dropWhile_cons_of_neg (by simp [hc])]
  have hlast : s.reverse.dropWhile isPythonSpace = s.reverse := by
    have hfixed := hs
    have hfront := hhead []
    rw [List.append_nil] at hfront
    rw [Markdown.strip, hfront] at hfixed
    rw [← List.reverse_reverse (s.reverse.dropWhile isPythonSpace), hfixed]
  rw [Markdown.strip, List.dropWhile_append_of_pos hbefore, hhead, List.reverse_append,
    List.dropWhile_append_of_pos (fun c hc => hafter c (List.mem_reverse.mp hc)), hlast, List.reverse_reverse]

theorem unbroken_of_all {s : Text} (h : (s.all fun c => !isLineBreak c) = true) : ∀ c ∈ s, isLineBreak c = false :=
  fun c hc => by simpa using List.all_eq_true.mp h c hc

theorem Declared.part {f : DynamicFieldDef} (h : Declared isPrintable R f) :
    ∀ p ∈ f.typeHint :: f.qualifiers, Part p := by
  have hkind : Part (if f.required then "required".toList else "optional".toList) := by
    split_ifs
    · exact ⟨by decide, rfl, rfl, by decide, unbroken_of_all rfl⟩
    · exact ⟨by decide, rfl, rfl, by decide, unbroken_of_all rfl⟩
  refine List.forall_mem_cons.mpr ⟨h.typeHint, List.forall_mem_cons.mpr ⟨hkind, ?_⟩⟩
  intro p hp
  obtain ⟨value, hvalue, rfl⟩ := List.mem_map.mp hp
  exact h.default value (Option.mem_toList.mp hvalue)

theorem splitTopLevelCommas_commaJoined {parts : List Text} (hne : parts ≠ []) (h : ∀ p ∈ parts, Part p) :
    splitTopLevelCommas isPrintable (commaJoined parts) = .ok parts := by
  have hstrip : parts.map Markdown.strip = parts :=
    (List.map_congr_left fun p hp => (h p hp).stripped).trans (List.map_id' parts)
  have hfilter : parts.filter (· ≠ []) = parts := List.filter_eq_self.mpr fun p hp => decide_eq_true (h p hp).ne_nil
  rw [splitTopLevelCommas, topLevelParts_commaJoined hne fun p hp => (h p hp).balanced]
  simp only [hstrip, hfilter]

theorem readQualifiers_qualifiers (f : DynamicFieldDef) (name : Text) :
    readQualifiers isPrintable name f.qualifiers (true, none) = .ok (f.required, f.default) := by
  obtain ⟨_, _, required, default, _, _, _⟩ := f
  cases required <;> cases default <;> rfl

theorem parseField_typePart {f : DynamicFieldDef} (h : Declared isPrintable R f) (schemaName : Text) :
    parseField isPrintable f.name f.typePart f.description schemaName = .ok f := by
  rw [parseField, DynamicFieldDef.typePart, splitTopLevelCommas_commaJoined (by simp) h.part]
  simp only [bind, Except.bind, h.runtime, readQualifiers_qualifiers]

theorem word_not_space {c : Char} (h : isPythonSpace c = true) : R.isWord c = false := by
  cases hword : R.isWord c with
  | false => rfl
  | true =>
    rw [R.isWord_space c hword] at h
    cases h

theorem dropWhile_space_word {s : Text} (hne : s ≠ []) (h : ∀ c ∈ s, R.isWord c = true) (rest : Text) :
    (s ++ rest).dropWhile isPythonSpace = s ++ rest := by
  obtain ⟨c, s, rfl⟩ := List.exists_cons_of_ne_nil hne
  rw [List.cons_append, List.dropWhile_cons_of_neg]
  simp [R.isWord_space c (h c List.mem_cons_self)]

theorem strip_described {description : Text} (h : Line description) :
    Markdown.strip (described description) = description := by
  rw [described]
  split_ifs with hnil
  · rw [hnil]
    rfl
  · rw [strip_space (by decide), h.stripped]

theorem mem_commaJoined {parts : List Text} {c : Char} (h : c ∈ commaJoined parts) : c = ',' ∨ ∃ p ∈ parts, c ∈ p := by
  induction parts with
  | nil => cases h
  | cons p parts ih =>
    cases parts with
    | nil =>
      rw [commaJoined, List.intercalate_singleton] at h
      exact .inr ⟨p, List.mem_cons_self, h⟩
    | cons q parts =>
      rw [commaJoined, List.intercalate_cons_cons, List.append_assoc, List.mem_append, List.mem_append,
        List.mem_singleton, ← commaJoined] at h
      rcases h with h | h | h
      · exact .inr ⟨p, List.mem_cons_self, h⟩
      · exact .inl h
      · obtain hcomma | ⟨r, hr, hc⟩ := ih h
        · exact .inl hcomma
        · exact .inr ⟨r, List.mem_cons_of_mem _ hr, hc⟩

theorem Declared.typePart_ne_closing {f : DynamicFieldDef} (h : Declared isPrintable R f) :
    ∀ c ∈ f.typePart, c ≠ ')' := by
  rintro c hc rfl
  obtain hcomma | ⟨p, hp, hc⟩ := mem_commaJoined hc
  · exact absurd hcomma (by decide)
  · exact (h.part p hp).closing hc

theorem Declared.typePart_head {f : DynamicFieldDef} (h : Declared isPrintable R f) :
    ∃ c rest, f.typePart = c :: rest ∧ c ≠ ')' := by
  obtain ⟨c, rest, hrest⟩ := List.exists_cons_of_ne_nil h.typeHint.ne_nil
  have hhead : f.typePart.head? = some c := by
    rw [DynamicFieldDef.typePart, commaJoined_head h.typeHint.ne_nil, hrest]
    rfl
  obtain ⟨rest, hrest⟩ := List.head?_eq_some_iff.mp hhead
  exact ⟨c, rest, hrest, h.typePart_ne_closing c (hrest ▸ List.mem_cons_self)⟩

theorem fieldTail?_line {f : DynamicFieldDef} (h : Declared isPrintable R f) :
    fieldTail? (' ' :: '(' :: (f.typePart ++ ')' :: ':' :: described f.description)) =
      some (f.typePart, f.description) := by
  obtain ⟨c, rest, hcons, hc⟩ := h.typePart_head
  have hall : ∀ c ∈ f.typePart, decide (c ≠ ')') = true := fun c hc => decide_eq_true (h.typePart_ne_closing c hc)
  have htake : (f.typePart ++ ')' :: ':' :: described f.description).takeWhile (· ≠ ')') = f.typePart := by
    rw [List.takeWhile_append_of_pos hall]
    simp
  have hdrop : (f.typePart ++ ')' :: ':' :: described f.description).dropWhile (· ≠ ')') =
      ')' :: ':' :: described f.description := by
    rw [List.dropWhile_append_of_pos hall]
    simp
  have hhead : ((f.typePart ++ ')' :: ':' :: described f.description).head?.all (· = ')')) = false := by
    simp [hcons, hc]
  have hstrip : Markdown.strip f.typePart = f.typePart :=
    strip_commaJoined (by simp) fun p hp => ⟨(h.part p hp).ne_nil, (h.part p hp).stripped⟩
  have hopen : after? ['('] ((' ' :: '(' :: (f.typePart ++ ')' :: ':' :: described f.description)).dropWhile
      isPythonSpace) = some (f.typePart ++ ')' :: ':' :: described f.description) := rfl
  rw [fieldTail?, hopen]
  simp only [Option.bind_eq_bind, Option.bind_some, hhead, Bool.false_eq_true, if_false, hdrop, htake]
  have hclose : after? [')'] (')' :: ':' :: described f.description) = some (':' :: described f.description) := rfl
  have hcolon : after? [':'] ((':' :: described f.description).dropWhile isPythonSpace) =
    some (described f.description) := rfl
  simp [hclose, hcolon, hstrip, strip_described h.description]

theorem fieldLine?_line {f : DynamicFieldDef} (h : Declared isPrintable R f) :
    fieldLine? R f.line = some (f.name, f.typePart, f.description) := by
  have hspace : R.isWord ' ' = false := word_not_space (by decide)
  have hbullet : after? ['-'] (f.line.dropWhile isPythonSpace) = some (' ' :: (f.name ++
      ' ' :: '(' :: (f.typePart ++ ')' :: ':' :: described f.description))) := rfl
  have hbody : (' ' :: (f.name ++ ' ' :: '(' :: (f.typePart ++ ')' :: ':' :: described f.description))).dropWhile
      isPythonSpace = f.name ++ ' ' :: '(' :: (f.typePart ++ ')' :: ':' :: described f.description) := by
    rw [List.dropWhile_cons_of_pos (by decide), dropWhile_space_word h.name_ne_nil h.word]
  have htake : (f.name ++ ' ' :: '(' :: (f.typePart ++ ')' :: ':' :: described f.description)).takeWhile R.isWord =
      f.name := by
    rw [List.takeWhile_append_of_pos h.word]
    simp [hspace]
  have hdrop : (f.name ++ ' ' :: '(' :: (f.typePart ++ ')' :: ':' :: described f.description)).dropWhile R.isWord =
      ' ' :: '(' :: (f.typePart ++ ')' :: ':' :: described f.description) := by
    rw [List.dropWhile_append_of_pos h.word]
    simp [hspace]
  rw [fieldLine?, hbullet]
  simp only [Option.bind_eq_bind, Option.bind_some, hbody, htake, hdrop, fieldTail?_line h]
  simp [h.name_ne_nil, show isPythonSpace ' ' = true by decide]

theorem described_last {description : Text} (h : Line description) {c : Char}
    (hc : c ∈ (')' :: ':' :: described description).getLast?) : isPythonSpace c = false := by
  by_cases hnil : description = []
  · subst hnil
    obtain rfl := Option.some.inj hc
    decide
  · rw [described, if_neg hnil, List.getLast?_cons_cons, List.getLast?_cons_cons,
        List.getLast?_cons_of_ne_nil hnil] at hc
    exact strip_last h.stripped c hc

theorem line_eq (f : DynamicFieldDef) : f.line =
    ('-' :: ' ' :: (f.name ++ ' ' :: '(' :: f.typePart)) ++ ')' :: ':' :: described f.description := by
  simp [DynamicFieldDef.line]

theorem strip_line {f : DynamicFieldDef} (h : Declared isPrintable R f) : Markdown.strip f.line = f.line := by
  refine strip_of_ends (fun c hc => ?_) (fun c hc => ?_)
  · obtain rfl := Option.some.inj hc
    decide
  · rw [line_eq, List.getLast?_append_of_ne_nil _ (by simp)] at hc
    exact described_last h.description hc

theorem space_of_lineBreak {c : Char} (h : isLineBreak c = true) : isPythonSpace c = true := by
  simp only [isLineBreak, isPythonSpace, Bool.or_eq_true, Bool.and_eq_true, decide_eq_true_eq] at h ⊢
  omega

theorem word_unbroken {c : Char} (h : R.isWord c = true) : isLineBreak c = false := by
  cases hbreak : isLineBreak c with
  | false => rfl
  | true =>
    rw [word_not_space (space_of_lineBreak hbreak)] at h
    cases h

theorem described_subset {description : Text} {c : Char} (h : c ∈ described description) :
    c = ' ' ∨ c ∈ description := by
  rw [described] at h
  split_ifs at h with hnil
  · cases h
  · exact List.mem_cons.mp h

theorem Declared.typePart_unbroken {f : DynamicFieldDef} (h : Declared isPrintable R f) :
    ∀ c ∈ f.typePart, isLineBreak c = false := by
  intro c hc
  obtain rfl | ⟨p, hp, hc⟩ := mem_commaJoined hc
  · decide
  · exact (h.part p hp).unbroken c hc

theorem line_unbroken {f : DynamicFieldDef} (h : Declared isPrintable R f) : ∀ c ∈ f.line, isLineBreak c = false := by
  intro c hc
  simp only [DynamicFieldDef.line, List.mem_cons, List.mem_append] at hc
  rcases hc with rfl | rfl | hc | rfl | rfl | hc | rfl | rfl | hc
  any_goals decide
  · exact word_unbroken (h.word c hc)
  · exact h.typePart_unbroken c hc
  · obtain rfl | hc := described_subset hc
    · decide
    · exact h.description.unbroken c hc

theorem exampleStep_line {f : DynamicFieldDef} (h : Declared isPrintable R f) (schemaName : Text) (s : ExampleState) :
    exampleStep isPrintable R schemaName s f.line = .ok { s with fields := s.fields ++ [f] } := by
  have hline : parseOutputExampleLine isPrintable R f.line schemaName s.itemHeader =
      .ok (some (.field f.name f.typePart f.description)) := by
    have hhead : f.line ≠ [] ∧ ['#', '#'].isPrefixOf f.line = false ∧ ¬ f.line.head? ≠ some '-' :=
      ⟨by simp [DynamicFieldDef.line], rfl, by simp [DynamicFieldDef.line]⟩
    rw [parseOutputExampleLine, strip_line h, if_neg hhead.1, hhead.2.1, if_neg (by decide), if_neg hhead.2.2,
      parseFieldLine, fieldLine?_line h]
    rfl
  rw [exampleStep, hline]
  simp only [bind, Except.bind, parseField_typePart h]

theorem strip_header {itemHeader : Text} (hne : itemHeader ≠ []) (h : Line itemHeader) :
    Markdown.strip ('#' :: '#' :: ' ' :: itemHeader) = '#' :: '#' :: ' ' :: itemHeader := by
  refine strip_of_ends (fun c hc => ?_) (fun c hc => ?_)
  · obtain rfl := Option.some.inj hc
    decide
  · rw [List.getLast?_cons_cons, List.getLast?_cons_cons, List.getLast?_cons_of_ne_nil hne] at hc
    exact strip_last h.stripped c hc

theorem exampleStep_header {itemHeader : Text} (hne : itemHeader ≠ []) (h : Line itemHeader) (schemaName : Text)
    (fields : List DynamicFieldDef) :
    exampleStep isPrintable R schemaName ⟨none, fields⟩ ('#' :: '#' :: ' ' :: itemHeader) =
      .ok ⟨some itemHeader, fields⟩ := by
  have hheader : parseItemHeader isPrintable ('#' :: '#' :: ' ' :: itemHeader) ('#' :: '#' :: ' ' :: itemHeader)
      schemaName none = .ok (.header itemHeader) := by
    obtain ⟨c, rest, rfl⟩ := List.exists_cons_of_ne_nil hne
    have hc := strip_head h.stripped c rfl
    have hafter : (after? ['#', '#'] ('#' :: '#' :: ' ' :: c :: rest)).bind afterSpaces = some (c :: rest) := by
      have hspace : (' ' :: c :: rest).head?.any isPythonSpace = true := rfl
      rw [show after? ['#', '#'] ('#' :: '#' :: ' ' :: c :: rest) = some (' ' :: c :: rest) from rfl, Option.bind_some,
        afterSpaces, if_pos hspace, List.dropWhile_cons_of_pos (by decide),
        List.dropWhile_cons_of_neg (by simp [hc])]
    rw [parseItemHeader, hafter]
    simp [h.stripped]
  rw [exampleStep, parseOutputExampleLine, strip_header hne h, if_neg (by simp), if_pos (by rfl), hheader]
  rfl

theorem foldlM_lines {fields : List DynamicFieldDef} (h : ∀ f ∈ fields, Declared isPrintable R f) (schemaName : Text)
    (s : ExampleState) : (fields.map DynamicFieldDef.line).foldlM (exampleStep isPrintable R schemaName) s =
      .ok { s with fields := s.fields ++ fields } := by
  induction fields generalizing s with
  | nil => simp [pure, Except.pure]
  | cons f fields ih =>
    rw [List.forall_mem_cons] at h
    rw [List.map_cons, List.foldlM_cons, exampleStep_line h.1]
    simp only [bind, Except.bind]
    rw [ih h.2]
    simp

theorem splitlines_joinLines {lines : List Text} (hne : ∀ line ∈ lines, line ≠ [])
    (h : ∀ line ∈ lines, ∀ c ∈ line, isLineBreak c = false) : splitlines (joinLines lines) = lines := by
  induction lines with
  | nil => rfl
  | cons line lines ih =>
    rw [List.forall_mem_cons] at h hne
    by_cases hnil : lines = []
    · subst hnil
      simpa [joinLines] using SchemaEngine.splitlines_single hne.1 h.1
    · rw [joinLines_cons hnil, splitlines_line h.1, ih hne.2 h.2]

theorem joinLines_ends {lines : List Text} (hne : lines ≠ [])
    (h : ∀ line ∈ lines, line ≠ [] ∧ Markdown.strip line = line) :
    joinLines lines ≠ [] ∧ Markdown.strip (joinLines lines) = joinLines lines := by
  induction lines with
  | nil => exact absurd rfl hne
  | cons line lines ih =>
    rw [List.forall_mem_cons] at h
    by_cases hnil : lines = []
    · subst hnil
      simpa [joinLines] using h.1
    · obtain ⟨hrest, hstrip⟩ := ih hnil h.2
      rw [joinLines_cons hnil]
      refine ⟨by simp, strip_of_ends (fun c hc => ?_) (fun c hc => ?_)⟩
      · rw [List.head?_append_of_ne_nil _ h.1.1] at hc
        exact strip_head h.1.2 c hc
      · rw [List.getLast?_append_of_ne_nil _ (by simp), List.getLast?_cons_of_ne_nil hrest] at hc
        exact strip_last hstrip c hc

theorem beforeClosing?_append (tag : Text) {c : Char} (hlast : tag.getLast? = some c) (hc : isPythonSpace c = false)
    (content : Text) : beforeClosing? tag (content ++ tag) = some content := by
  have hkept : ((content ++ tag).reverse.dropWhile isPythonSpace).reverse = content ++ tag := by
    have hhead : (content ++ tag).reverse.head? = some c := by
      rw [List.head?_reverse, List.getLast?_append, hlast]
      rfl
    obtain ⟨rest, hrest⟩ := List.head?_eq_some_iff.mp hhead
    rw [hrest, List.dropWhile_cons_of_neg (by simp [hc]), ← hrest, List.reverse_reverse]
  have hsuffix : tag.isSuffixOf (content ++ tag) = true := List.isSuffixOf_iff_suffix.mpr (List.suffix_append _ _)
  rw [beforeClosing?, hkept, if_pos hsuffix]
  simp

theorem isWord_ne_quote {c : Char} (h : R.isWord c = true) : c ≠ '"' := by
  rintro rfl
  rw [R.isWord_ascii '"' (by decide)] at h
  exact absurd h (by decide)

theorem lt_of_isAlpha {c : Char} (h : c.isAlpha = true) : c.toNat < 128 := by
  have hcode := Markdown.code_of_isAlphanum (c := c) (by rw [Char.isAlphanum, h, Bool.true_or])
  omega

theorem schemaName_word {name : Text} (h : isSchemaName R name = true) : ∀ c ∈ name, R.isWord c = true := by
  cases name with
  | nil => cases h
  | cons c rest =>
    rw [isSchemaName, Bool.and_eq_true, Bool.or_eq_true, decide_eq_true_eq] at h
    refine List.forall_mem_cons.mpr ⟨?_, fun c hc => List.all_eq_true.mp h.2 c hc⟩
    rw [R.isWord_ascii c (h.1.elim lt_of_isAlpha fun hc => hc ▸ by decide), Bool.or_eq_true, decide_eq_true_eq,
      Char.isAlphanum, Bool.or_eq_true]
    exact h.1.imp_left .inl

theorem WellFormed.lines {schema : DynamicSchemaDef} (h : WellFormed isPrintable R schema) :
    ∀ line ∈ schema.lines, line ≠ [] ∧ Markdown.strip line = line ∧ ∀ c ∈ line, isLineBreak c = false := by
  refine List.forall_mem_cons.mpr ⟨⟨by simp, strip_header h.header_ne_nil h.header, ?_⟩, List.forall_mem_map.mpr ?_⟩
  · simpa using ⟨by decide, by decide, h.header.unbroken⟩
  · exact fun f hf => ⟨by simp [DynamicFieldDef.line], strip_line (h.fields f hf), line_unbroken (h.fields f hf)⟩

theorem outputExampleBlock?_block {schema : DynamicSchemaDef} (h : WellFormed isPrintable R schema) :
    outputExampleBlock? schema.block = some (schema.name, joinLines schema.lines) := by
  obtain ⟨hne, hstrip⟩ := joinLines_ends (by simp [DynamicSchemaDef.lines]) fun line hline =>
    ⟨(h.lines line hline).1, (h.lines line hline).2.1⟩
  have hquote : ∀ c ∈ schema.name, decide (c ≠ '"') = true := fun c hc =>
    decide_eq_true (isWord_ne_quote (schemaName_word h.name c hc))
  have htag : after? "<output_example".toList (schema.block.dropWhile isPythonSpace) = some (' ' :: ("name=\"".toList ++
    (schema.name ++ ("\">".toList ++ ('\n' :: (joinLines schema.lines ++ ['\n']) ++ "</output_example>".toList))))) :=
    rfl
  have hname : ∀ rest, after? "name=\"".toList ((' ' :: ("name=\"".toList ++ rest)).dropWhile isPythonSpace) =
      some rest :=
    fun rest => rfl
  have htake : ∀ rest, (schema.name ++ ("\">".toList ++ rest)).takeWhile (· ≠ '"') = schema.name := by
    intro rest
    rw [List.takeWhile_append_of_pos hquote]
    simp
  have hdrop : ∀ rest,
      after? "\">".toList ((schema.name ++ ("\">".toList ++ rest)).dropWhile (· ≠ '"')) = some rest := by
    intro rest
    rw [List.dropWhile_append_of_pos hquote]
    rfl
  have hclosing := beforeClosing?_append "</output_example>".toList rfl (by decide)
    ('\n' :: (joinLines schema.lines ++ ['\n']))
  have hbody : Markdown.strip ('\n' :: (joinLines schema.lines ++ ['\n'])) = joinLines schema.lines :=
    @strip_padded _ hstrip hne ['\n'] _ (by simp [isPythonSpace]) (by simp [isPythonSpace])
  have hnil : schema.name ≠ [] := by
    intro hnil
    have hname := h.name
    rw [hnil] at hname
    cases hname
  rw [outputExampleBlock?, htag]
  simp only [Option.bind_eq_bind, Option.bind_some, hname, htake, hdrop, hclosing, hbody]
  simp [hnil, show isPythonSpace ' ' = true by decide]

theorem parse_block {schema : DynamicSchemaDef} (h : WellFormed isPrintable R schema) :
    parseOutputExample isPrintable R schema.block = .ok schema := by
  have hspace : ∀ c ∈ schema.name, isPythonSpace c = false := fun c hc => R.isWord_space c (schemaName_word h.name c hc)
  have hstrip : Markdown.strip schema.name = schema.name :=
    strip_of_ends (fun c hc => hspace c (List.mem_of_mem_head? hc)) fun c hc => hspace c (List.mem_of_mem_getLast? hc)
  have hparts : extractOutputExampleParts isPrintable R schema.block = .ok (schema.name, joinLines schema.lines) := by
    rw [extractOutputExampleParts, outputExampleBlock?_block h]
    simp [hstrip, h.name]
  have hlines : splitlines (joinLines schema.lines) = schema.lines :=
    splitlines_joinLines (fun line hline => (h.lines line hline).1) fun line hline => (h.lines line hline).2.2
  have hrun : schema.lines.foldlM (exampleStep isPrintable R schema.name) ⟨none, []⟩ =
      .ok ⟨some schema.itemHeader, schema.fields⟩ := by
    rw [DynamicSchemaDef.lines, List.foldlM_cons, exampleStep_header h.header_ne_nil h.header]
    exact foldlM_lines h.fields schema.name ⟨some schema.itemHeader, []⟩
  rw [parseOutputExample, hparts]
  simp only [bind, Except.bind, hlines, hrun, if_neg h.fields_ne_nil]

theorem strip_line_of_unbroken {s : Text} (h : ∀ c ∈ s, isLineBreak c = false) : Line (Markdown.strip s) :=
  ⟨strip_strip s, fun c hc => h c (strip_subset s hc)⟩

theorem after?_suffix {word s rest : Text} (h : after? word s = some rest) : rest <:+ s :=
    ⟨word, (after?_eq_some h).symm⟩

theorem fieldTail?_sound {s typePart description : Text} (h : fieldTail? s = some (typePart, description))
    (hs : ∀ c ∈ s, isLineBreak c = false) : Line typePart ∧ ')' ∉ typePart ∧ Line description := by
  simp only [fieldTail?, Option.bind_eq_bind, Option.bind_eq_some_iff] at h
  obtain ⟨inner, hinner, h⟩ := h
  split_ifs at h
  · cases h
  simp only [Option.bind_eq_some_iff] at h
  obtain ⟨rest, hrest, tail, htail, h⟩ := h
  cases h
  have hinnerPart : inner <:+ s := (after?_suffix hinner).trans (List.dropWhile_suffix _)
  have htailPart : tail <:+ inner := (after?_suffix htail).trans ((List.dropWhile_suffix _).trans
    ((after?_suffix hrest).trans (List.dropWhile_suffix _)))
  refine ⟨strip_line_of_unbroken fun c hc => hs c (hinnerPart.subset ((List.takeWhile_prefix _).subset hc)), ?_,
    strip_line_of_unbroken fun c hc => hs c (hinnerPart.subset (htailPart.subset hc))⟩
  intro hmem
  have hne := List.mem_takeWhile_imp (strip_subset _ hmem)
  simp at hne

theorem fieldLine?_sound {line name typePart description : Text}
    (h : fieldLine? R line = some (name, typePart, description)) (hline : ∀ c ∈ line, isLineBreak c = false) :
    (name ≠ [] ∧ ∀ c ∈ name, R.isWord c = true) ∧ Line typePart ∧ ')' ∉ typePart ∧ Line description := by
  simp only [fieldLine?, Option.bind_eq_bind, Option.bind_eq_some_iff] at h
  obtain ⟨bullet, hbullet, h⟩ := h
  split_ifs at h with hspace hname hname
  · cases h
  · cases h
  · cases h
  simp only [Option.bind_eq_some_iff] at h
  obtain ⟨⟨typePart, description⟩, htail, h⟩ := h
  cases h
  have hpart : (bullet.dropWhile isPythonSpace).dropWhile R.isWord <:+ line := (List.dropWhile_suffix _).trans
    ((List.dropWhile_suffix _).trans ((after?_suffix hbullet).trans (List.dropWhile_suffix _)))
  exact ⟨⟨fun hnil => hname (.inl hnil), fun c hc => List.mem_takeWhile_imp hc⟩,
    fieldTail?_sound htail fun c hc => hline c (hpart.subset hc)⟩

theorem topLevelParts_subset {depth : ℕ} {s : Text} {parts : List Text} (h : topLevelParts depth s = some parts) :
    ∀ p ∈ parts, p ⊆ s := by
  induction s generalizing depth parts with
  | nil =>
    rw [topLevelParts] at h
    split_ifs at h
    cases h
    simp
  | cons c s ih =>
    rw [topLevelParts] at h
    cases hnext : depthAfter? depth c with
    | none => simp [hnext] at h
    | some next =>
      simp only [hnext] at h
      split_ifs at h
      · obtain ⟨tail, htail, rfl⟩ := Option.map_eq_some_iff.mp h
        exact List.forall_mem_cons.mpr ⟨by simp, fun p hp => List.subset_cons_of_subset _ (ih htail p hp)⟩
      · obtain ⟨tail, htail, rfl⟩ := Option.map_eq_some_iff.mp h
        obtain ⟨first, rest, rfl, -, -⟩ := topLevelParts_balanced htail
        have hparts := List.forall_mem_cons.mp (ih htail)
        exact List.forall_mem_cons.mpr ⟨List.cons_subset_cons _ hparts.1,
          fun p hp => List.subset_cons_of_subset _ (hparts.2 p hp)⟩

theorem splitTopLevelCommas_sound {text : Text} {parts : List Text}
    (h : splitTopLevelCommas isPrintable text = .ok parts) (hclosing : ')' ∉ text)
    (hline : ∀ c ∈ text, isLineBreak c = false) : ∀ p ∈ parts, Part p := by
  rw [splitTopLevelCommas] at h
  cases hcut : topLevelParts 0 text with
  | none => simp [hcut] at h
  | some cut =>
    simp only [hcut, Except.ok.injEq] at h
    subst h
    obtain ⟨first, rest, rfl, hfirst, hrest⟩ := topLevelParts_balanced hcut
    have hbalanced : ∀ p ∈ first :: rest, balanced 0 p = true := List.forall_mem_cons.mpr ⟨hfirst, hrest⟩
    intro p hp
    obtain ⟨hp, hne⟩ := List.mem_filter.mp hp
    obtain ⟨q, hq, rfl⟩ := List.mem_map.mp hp
    have hsub := List.Subset.trans (strip_subset q) (topLevelParts_subset hcut q hq)
    exact ⟨of_decide_eq_true hne, strip_strip q, (balanced_strip q).trans (hbalanced q hq),
      fun hmem => hclosing (hsub hmem), fun c hc => hline c (hsub hc)⟩

theorem readQualifiers_sound {name : Text} {qualifiers : List Text} {found result : Bool × Option Text}
    (h : readQualifiers isPrintable name qualifiers found = .ok result) :
    ∀ value ∈ result.2, found.2 = some value ∨ "default=".toList ++ value ∈ qualifiers := by
  induction qualifiers generalizing found with
  | nil =>
    cases h
    exact fun value hvalue => .inl hvalue
  | cons qualifier rest ih =>
    obtain ⟨required, default⟩ := found
    rw [readQualifiers] at h
    intro value hvalue
    split_ifs at h
    · exact (ih h value hvalue).imp_right (List.mem_cons_of_mem _)
    · exact (ih h value hvalue).imp_right (List.mem_cons_of_mem _)
    · cases hdefault : after? "default=".toList qualifier with
      | none => simp only [hdefault, reduceCtorEq] at h
      | some found =>
        simp only [hdefault] at h
        rcases ih h value hvalue with heq | hmem
        · cases heq
          exact .inr (after?_eq_some hdefault ▸ List.mem_cons_self)
        · exact .inr (List.mem_cons_of_mem _ hmem)

theorem parseField_sound {name typePart description schemaName : Text} {f : DynamicFieldDef}
    (h : parseField isPrintable name typePart description schemaName = .ok f)
    (hname : name ≠ [] ∧ ∀ c ∈ name, R.isWord c = true) (htype : Line typePart) (hclosing : ')' ∉ typePart)
    (hdescription : Line description) : Declared isPrintable R f := by
  obtain ⟨parts, hparts, h⟩ := bind_ok h
  have hsound := splitTopLevelCommas_sound hparts hclosing htype.unbroken
  cases parts with
  | nil => cases h
  | cons typeHint qualifiers =>
    obtain ⟨runtime, hruntime, h⟩ := bind_ok h
    obtain ⟨found, hfound, h⟩ := bind_ok h
    cases h
    rw [List.forall_mem_cons] at hsound
    refine ⟨hname.1, hname.2, hsound.1, fun value hvalue => ?_, hdescription, hruntime⟩
    rcases readQualifiers_sound hfound value hvalue with hnone | hmem
    · cases hnone
    · exact hsound.2 _ hmem

structure ReadSoFar (isPrintable : Char → Bool) (R : Reader F) (s : ExampleState) : Prop where
  header : ∀ itemHeader ∈ s.itemHeader, itemHeader ≠ [] ∧ Line itemHeader
  fields : ∀ f ∈ s.fields, Declared isPrintable R f

theorem afterSpaces_visible {s t : Text} (h : afterSpaces s = some t)
    (hlast : ∀ c ∈ s.getLast?, isPythonSpace c = false) : Markdown.strip t ≠ [] := by
  have hmem : ∃ c ∈ t, isPythonSpace c = false := by
    cases hspace : s.head?.any isPythonSpace with
    | false => simp [afterSpaces, hspace] at h
    | true =>
      rw [afterSpaces, if_pos hspace] at h
      cases hdrop : s.dropWhile isPythonSpace with
      | nil =>
        cases hend : s.getLast? with
        | none => simp [List.getLast?_eq_none_iff.mp hend] at hspace
        | some c =>
          have hc := List.dropWhile_eq_nil_iff.mp hdrop c (List.mem_of_mem_getLast? hend)
          rw [hlast c hend] at hc
          cases hc
      | cons c rest =>
        simp only [hdrop, Option.some.injEq] at h
        have hhead := List.head?_dropWhile_not isPythonSpace s
        rw [hdrop] at hhead
        exact ⟨c, h ▸ List.mem_cons_self, hhead⟩
  obtain ⟨c, hc, hvisible⟩ := hmem
  intro hnil
  rw [strip_eq_nil.mp hnil c hc] at hvisible
  cases hvisible

theorem parseItemHeader_sound {stripped line schemaName : Text} {current : Option Text} {read : ExampleLine}
    (h : parseItemHeader isPrintable stripped line schemaName current = .ok read)
    (hstripped : Line stripped) : ∃ itemHeader, read = .header itemHeader ∧ itemHeader ≠ [] ∧ Line itemHeader := by
  rw [parseItemHeader] at h
  cases hheader : (after? ['#', '#'] stripped).bind afterSpaces with
  | none => simp [hheader] at h
  | some itemHeader =>
    simp only [hheader] at h
    split_ifs at h
    obtain ⟨rest, hrest, hafter⟩ := Option.bind_eq_some_iff.mp hheader
    have hsub : itemHeader ⊆ stripped := List.Subset.trans (afterSpaces_subset hafter) (after?_suffix hrest).subset
    refine ⟨_, (Except.ok.inj h).symm, afterSpaces_visible hafter fun c hc => ?_,
      strip_line_of_unbroken fun c hc => hstripped.unbroken c (hsub hc)⟩
    refine strip_last hstripped.stripped c ?_
    rw [after?_eq_some hrest, List.getLast?_append, Option.mem_def.mp hc]
    rfl

theorem exampleStep_sound {schemaName line : Text} {s s' : ExampleState} (hs : ReadSoFar isPrintable R s)
    (h : exampleStep isPrintable R schemaName s line = .ok s') (hline : ∀ c ∈ line, isLineBreak c = false) :
    ReadSoFar isPrintable R s' := by
  obtain ⟨read, hread, h⟩ := bind_ok h
  rw [parseOutputExampleLine] at hread
  split_ifs at hread with hblank hheader hbullet
  · cases hread
    cases h
    exact hs
  · obtain ⟨read, hheader, rfl⟩ := map_eq_ok hread
    obtain ⟨itemHeader, rfl, hne, hitem⟩ := parseItemHeader_sound hheader (strip_line_of_unbroken hline)
    cases h
    refine ⟨fun found hfound => ?_, hs.fields⟩
    obtain rfl := Option.some.inj hfound
    exact ⟨hne, hitem⟩
  · obtain ⟨read, hfield, rfl⟩ := map_eq_ok hread
    rw [parseFieldLine] at hfield
    cases hmatch : fieldLine? R line with
    | none => simp [hmatch] at hfield
    | some found =>
      obtain ⟨name, typePart, description⟩ := found
      simp only [hmatch, Except.ok.injEq] at hfield
      subst hfield
      obtain ⟨f, hf, h⟩ := bind_ok h
      cases h
      obtain ⟨hname, htype, hclosing, hdescription⟩ := fieldLine?_sound hmatch hline
      exact ⟨hs.header, List.forall_mem_append.mpr
        ⟨hs.fields, by simpa using parseField_sound hf hname htype hclosing hdescription⟩⟩

theorem foldlM_sound {schemaName : Text} {lines : List Text} {s s' : ExampleState} (hs : ReadSoFar isPrintable R s)
    (h : lines.foldlM (exampleStep isPrintable R schemaName) s = .ok s')
    (hlines : ∀ line ∈ lines, ∀ c ∈ line, isLineBreak c = false) : ReadSoFar isPrintable R s' := by
  induction lines generalizing s with
  | nil =>
    cases h
    exact hs
  | cons line lines ih =>
    rw [List.forall_mem_cons] at hlines
    rw [List.foldlM_cons] at h
    obtain ⟨next, hnext, h⟩ := bind_ok h
    exact ih (exampleStep_sound hs hnext hlines.1) h hlines.2

theorem consHead_unbroken {c : Char} (hc : isLineBreak c = false) {lines : List Text}
    (h : ∀ line ∈ lines, ∀ c ∈ line, isLineBreak c = false) :
    ∀ line ∈ consHead c lines, ∀ c ∈ line, isLineBreak c = false := by
  cases lines with
  | nil => simpa [consHead] using hc
  | cons line lines =>
    rw [List.forall_mem_cons] at h
    exact List.forall_mem_cons.mpr ⟨List.forall_mem_cons.mpr ⟨hc, h.1⟩, h.2⟩

theorem splitlines_unbroken (s : Text) : ∀ line ∈ splitlines s, ∀ c ∈ line, isLineBreak c = false := by
  fun_induction splitlines s with
  | case1 => simp
  | case2 rest ih => exact List.forall_mem_cons.mpr ⟨by simp, ih⟩
  | case3 rest _ ih => exact List.forall_mem_cons.mpr ⟨by simp, ih⟩
  | case4 c rest _ _ ih => exact List.forall_mem_cons.mpr ⟨by simp, ih⟩
  | case5 c rest _ hc ih => exact consHead_unbroken (by simpa using hc) ih

theorem parseOutputExample_sound {blockText : Text} {schema : DynamicSchemaDef}
    (h : parseOutputExample isPrintable R blockText = .ok schema) : WellFormed isPrintable R schema := by
  obtain ⟨⟨schemaName, body⟩, hparts, h⟩ := bind_ok h
  obtain ⟨s, hrun, h⟩ := bind_ok h
  have hread := foldlM_sound ⟨by simp, by simp⟩ hrun (splitlines_unbroken body)
  have hname : isSchemaName R schemaName = true := by
    rw [extractOutputExampleParts] at hparts
    cases hblock : outputExampleBlock? blockText with
    | none => simp [hblock] at hparts
    | some found =>
      simp only [hblock] at hparts
      split_ifs at hparts with hvalid
      cases hparts
      exact hvalid
  cases hheader : s.itemHeader with
  | none => simp [hheader] at h
  | some itemHeader =>
    simp only [hheader] at h
    split_ifs at h with hnil
    cases h
    obtain ⟨hne, hitem⟩ := hread.header itemHeader hheader
    exact ⟨hname, hne, hitem, hnil, hread.fields⟩

/-- What some block declares is read back from the block that it is written as, and is just what is well formed. -/
theorem declared_iff_reads_back (isPrintable : Char → Bool) (R : Reader F) (schema : DynamicSchemaDef) :
    ((∃ blockText, parseOutputExample isPrintable R blockText = .ok schema) ↔
      parseOutputExample isPrintable R schema.block = .ok schema) ∧
    ((∃ blockText, parseOutputExample isPrintable R blockText = .ok schema) ↔ WellFormed isPrintable R schema) := by
  constructor
  · exact ⟨fun ⟨_, h⟩ => parse_block (parseOutputExample_sound h), fun h => ⟨_, h⟩⟩
  · exact ⟨fun ⟨_, h⟩ => parseOutputExample_sound h, fun h => ⟨_, parse_block h⟩⟩

end

end GraphSkillRuntime.OutputExamples
