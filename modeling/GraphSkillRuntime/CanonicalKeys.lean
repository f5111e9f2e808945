import GraphSkillRuntime.JsonAscii
import GraphSkillRuntime.PyData
import GraphSkillRuntime.PythonRepr
import Mathlib.Data.Finset.Sort

/-!
The canonical keys of output schemas. A schema is written as JSON text; in a default the keys of a mapping are written
as they are, so that a key can pass for what would stand behind another one.
-/

namespace GraphSkillRuntime.CanonicalKeys

open OrderedDict JsonText PyData PythonRepr

abbrev Text := List Char

/-- The types that a field can have besides markers; `none` is `type(None)` and `dict` is `dict[str, Any]`. -/
inductive ScalarType where
  | any | str | int | float | bool | none | dict
  deriving DecidableEq

structure SchemaFacts (F : Type) where
  requiredFields : Finset String
  outputExampleMd : Option String
  fieldDescriptions : List (String × String)
  fieldDefaults : List (String × Json F)
  schemaName : String
  itemHeader : Option String

inductive Descriptor (F : Type) where
  | scalar (type : ScalarType)
  | list (itemType : Descriptor F)
  | union (members : List (Descriptor F))
  | object (fields : List (String × Descriptor F)) (facts : SchemaFacts F)

structure SchemaObject (F : Type) where
  fields : List (String × Descriptor F)
  facts : SchemaFacts F

structure Printer (F : Type) where
  floats : FloatFormat F
  isPrintable : Char → Bool

def commaJoined (parts : List Text) : Text := [','].intercalate parts

section

variable {F : Type} (P : Printer F)

def ScalarType.text : ScalarType → Text
  | .any => "typing.Any".toList
  | .str => "builtins.str".toList
  | .int => "builtins.int".toList
  | .float => "builtins.float".toList
  | .bool => "builtins.bool".toList
  | .none => "builtins.NoneType".toList
  | .dict => "dict[str, typing.Any]".toList

def itemText (e : String × Text) : Text := e.1.toList ++ ':' :: e.2

mutual

/-- The key of a default. The keys of a mapping are distinct, so that its items sort by key. -/
def defaultKey : Json F → Text
  | .null => "None".toList
  | .bool true => "True".toList
  | .bool false => "False".toList
  | .int z => intText z
  | .float x => (P.floats.repr x).text
  | .str s => reprString P.isPrintable s.toList
  | .list xs => '[' :: (commaJoined (defaultKeys xs) ++ [']'])
  | .dict kvs => '{' :: (commaJoined ((orderBy Prod.fst (defaultItems kvs)).map itemText) ++ ['}'])

def defaultKeys : List (Json F) → List Text
  | [] => []
  | x :: xs => defaultKey x :: defaultKeys xs

def defaultItems : List (String × Json F) → List (String × Text)
  | [] => []
  | (k, v) :: kvs => (k, defaultKey v) :: defaultItems kvs

end

def pairs (entries : List (String × Text)) : Json F := .list (entries.map fun e => .list [.str e.1, .str (.ofList e.2)])

def optional : Option String → Json F
  | some s => .str s
  | none => .null

theorem names_trans : IsTrans String fun a b => a ≤ b := inferInstance

theorem names_antisymm : Std.Antisymm fun a b : String => a ≤ b := inferInstance

theorem names_total : Std.Total fun a b : String => a ≤ b := inferInstance

attribute [local instance] names_trans names_antisymm names_total

def schemaParts (fields : List (String × Text)) (facts : SchemaFacts F) : Json F :=
  .list [.str facts.schemaName, pairs fields, .list ((facts.requiredFields.sort (· ≤ ·)).map .str),
    pairs (facts.fieldDescriptions.map fun e => (e.1, e.2.toList)),
    pairs (facts.fieldDefaults.map fun e => (e.1, defaultKey P e.2)),
    optional facts.itemHeader, optional facts.outputExampleMd]

mutual

def canonicalKey : Descriptor F → Text
  | .scalar type => type.text
  | .list itemType => "list[".toList ++ (canonicalKey itemType ++ [']'])
  | .union members => "union[".toList ++ (commaJoined (canonicalKeys members) ++ [']'])
  | .object fields facts => asciiCompact P.floats (schemaParts P (fieldKeys fields) facts)

def canonicalKeys : List (Descriptor F) → List Text
  | [] => []
  | d :: ds => canonicalKey d :: canonicalKeys ds

def fieldKeys : List (String × Descriptor F) → List (String × Text)
  | [] => []
  | (name, d) :: fields => (name, canonicalKey d) :: fieldKeys fields

end

def canonicalSchemaKey (schema : SchemaObject F) : Text :=
  asciiCompact P.floats (schemaParts P (fieldKeys P schema.fields) schema.facts)

mutual

/-- Equal as JSON values, mappings as maps, with `E` between floats. -/
def Same (E : F → F → Prop) : Json F → Json F → Prop
  | .null, .null => True
  | .bool a, .bool b => a = b
  | .int a, .int b => a = b
  | .float x, .float y => E x y
  | .str a, .str b => a = b
  | .list xs, .list ys => SameElements E xs ys
  | .dict kvs, .dict kvs' => kvs.length = kvs'.length ∧ SameMembers E kvs kvs'
  | _, _ => False

def SameElements (E : F → F → Prop) : List (Json F) → List (Json F) → Prop
  | [], [] => True
  | x :: xs, y :: ys => Same E x y ∧ SameElements E xs ys
  | _, _ => False

def SameMembers (E : F → F → Prop) : List (String × Json F) → List (String × Json F) → Prop
  | [], _ => True
  | (k, v) :: kvs, kvs' => (∃ w, Dict.find kvs' k = some w ∧ Same E v w) ∧ SameMembers E kvs kvs'

end

def SchemaFacts.Agree (E : Json F → Json F → Prop) (a b : SchemaFacts F) : Prop :=
  a.requiredFields = b.requiredFields ∧ a.outputExampleMd = b.outputExampleMd ∧
    a.fieldDescriptions = b.fieldDescriptions ∧
    List.Forall₂ (fun x y => x.1 = y.1 ∧ E x.2 y.2) a.fieldDefaults b.fieldDefaults ∧
    a.schemaName = b.schemaName ∧ a.itemHeader = b.itemHeader

mutual

/-- Equal descriptors, with `E` between defaults. -/
def Agree (E : Json F → Json F → Prop) : Descriptor F → Descriptor F → Prop
  | .scalar a, .scalar b => a = b
  | .list a, .list b => Agree E a b
  | .union as, .union bs => AgreeAll E as bs
  | .object fs a, .object gs b => AgreeFields E fs gs ∧ a.Agree E b
  | _, _ => False

def AgreeAll (E : Json F → Json F → Prop) : List (Descriptor F) → List (Descriptor F) → Prop
  | [], [] => True
  | a :: as, b :: bs => Agree E a b ∧ AgreeAll E as bs
  | _, _ => False

def AgreeFields (E : Json F → Json F → Prop) :
    List (String × Descriptor F) → List (String × Descriptor F) → Prop
  | [], [] => True
  | (n, a) :: as, (m, b) :: bs => n = m ∧ Agree E a b ∧ AgreeFields E as bs
  | _, _ => False

end

def SchemaObject.Agree (E : Json F → Json F → Prop) (s t : SchemaObject F) : Prop :=
  AgreeFields E s.fields t.fields ∧ s.facts.Agree E t.facts

/-- `0.0` or `-0.0`. -/
def isZero (x : F) : Prop :=
  match P.floats.repr x with
  | .decimal _ whole (some ds) none _ => whole = 0 ∧ ds.chars = ['0']
  | _ => False

/-- Python's `==` on floats that are numbers: the zeros are equal. -/
def SameNumber (x y : F) : Prop := x = y ∨ isZero P x ∧ isZero P y

/-- Python's `==` on schemas, between whose defaults no bool or float stands against an integer. -/
def SameSchema (s t : SchemaObject F) : Prop := s.Agree (Same (SameNumber P)) t

def SamePrinted (s t : SchemaObject F) : Prop := s.Agree (Same (· = ·)) t

mutual

def Everywhere (key : String → Prop) (float : F → Prop) : Json F → Prop
  | .float x => float x
  | .list xs => EverywhereElements key float xs
  | .dict kvs => EverywhereMembers key float kvs
  | _ => True

def EverywhereElements (key : String → Prop) (float : F → Prop) : List (Json F) → Prop
  | [] => True
  | x :: xs => Everywhere key float x ∧ EverywhereElements key float xs

def EverywhereMembers (key : String → Prop) (float : F → Prop) : List (String × Json F) → Prop
  | [] => True
  | (k, v) :: kvs => key k ∧ Everywhere key float v ∧ EverywhereMembers key float kvs

end

mutual

def DefaultsSatisfy (p : Json F → Prop) : Descriptor F → Prop
  | .scalar _ => True
  | .list itemType => DefaultsSatisfy p itemType
  | .union members => MembersSatisfy p members
  | .object fields facts => FieldsSatisfy p fields ∧ ∀ e ∈ facts.fieldDefaults, p e.2

def MembersSatisfy (p : Json F → Prop) : List (Descriptor F) → Prop
  | [] => True
  | d :: ds => DefaultsSatisfy p d ∧ MembersSatisfy p ds

def FieldsSatisfy (p : Json F → Prop) : List (String × Descriptor F) → Prop
  | [] => True
  | (_, d) :: fields => DefaultsSatisfy p d ∧ FieldsSatisfy p fields

end

def SchemaObject.DefaultsSatisfy (p : Json F → Prop) (s : SchemaObject F) : Prop :=
  FieldsSatisfy p s.fields ∧ ∀ e ∈ s.facts.fieldDefaults, p e.2

def isNumber (x : F) : Prop :=
  match P.floats.repr x with
  | .decimal .. => True
  | _ => False

/-- A JSON value: its mappings have distinct keys and its floats are numbers. -/
def IsJson (v : Json F) : Prop := v.Distinct ∧ Everywhere (fun _ => True) (isNumber P) v

def plainKey (k : String) : Prop := ':' ∉ k.toList ∧ k.toList.head? ≠ some '}'

def PlainKeys (v : Json F) : Prop := Everywhere plainKey (fun _ => True) v

end

section

variable {F : Type}

mutual

theorem json_parts {p : Json F → Prop} (hnull : p .null) (hbool : ∀ b, p (.bool b)) (hint : ∀ z, p (.int z))
    (hfloat : ∀ x, p (.float x)) (hstr : ∀ s, p (.str s)) (hlist : ∀ xs, (∀ x ∈ xs, p x) → p (.list xs))
    (hdict : ∀ kvs, (∀ e ∈ kvs, p e.2) → p (.dict kvs)) : ∀ v, p v
  | .null => hnull
  | .bool b => hbool b
  | .int z => hint z
  | .float x => hfloat x
  | .str s => hstr s
  | .list xs => hlist xs (json_elements hnull hbool hint hfloat hstr hlist hdict xs)
  | .dict kvs => hdict kvs (json_members hnull hbool hint hfloat hstr hlist hdict kvs)

theorem json_elements {p : Json F → Prop} (hnull : p .null) (hbool : ∀ b, p (.bool b)) (hint : ∀ z, p (.int z))
    (hfloat : ∀ x, p (.float x)) (hstr : ∀ s, p (.str s)) (hlist : ∀ xs, (∀ x ∈ xs, p x) → p (.list xs))
    (hdict : ∀ kvs, (∀ e ∈ kvs, p e.2) → p (.dict kvs)) : ∀ xs : List (Json F), ∀ x ∈ xs, p x
  | [] => by simp
  | x :: xs => List.forall_mem_cons.mpr ⟨json_parts hnull hbool hint hfloat hstr hlist hdict x,
      json_elements hnull hbool hint hfloat hstr hlist hdict xs⟩

theorem json_members {p : Json F → Prop} (hnull : p .null) (hbool : ∀ b, p (.bool b)) (hint : ∀ z, p (.int z))
    (hfloat : ∀ x, p (.float x)) (hstr : ∀ s, p (.str s)) (hlist : ∀ xs, (∀ x ∈ xs, p x) → p (.list xs))
    (hdict : ∀ kvs, (∀ e ∈ kvs, p e.2) → p (.dict kvs)) : ∀ kvs : List (String × Json F), ∀ e ∈ kvs, p e.2
  | [] => by simp
  | (_, v) :: kvs => List.forall_mem_cons.mpr ⟨json_parts hnull hbool hint hfloat hstr hlist hdict v,
      json_members hnull hbool hint hfloat hstr hlist hdict kvs⟩

end

mutual

theorem descriptor_parts {p : Descriptor F → Prop} (hscalar : ∀ t, p (.scalar t)) (hlist : ∀ d, p d → p (.list d))
    (hunion : ∀ ds, (∀ d ∈ ds, p d) → p (.union ds))
    (hobject : ∀ fields facts, (∀ e ∈ fields, p e.2) → p (.object fields facts)) : ∀ d, p d
  | .scalar t => hscalar t
  | .list d => hlist d (descriptor_parts hscalar hlist hunion hobject d)
  | .union ds => hunion ds (descriptor_members hscalar hlist hunion hobject ds)
  | .object fields facts => hobject fields facts (descriptor_fields hscalar hlist hunion hobject fields)

theorem descriptor_members {p : Descriptor F → Prop} (hscalar : ∀ t, p (.scalar t)) (hlist : ∀ d, p d → p (.list d))
    (hunion : ∀ ds, (∀ d ∈ ds, p d) → p (.union ds))
    (hobject : ∀ fields facts, (∀ e ∈ fields, p e.2) → p (.object fields facts)) :
    ∀ ds : List (Descriptor F), ∀ d ∈ ds, p d
  | [] => by simp
  | d :: ds => List.forall_mem_cons.mpr ⟨descriptor_parts hscalar hlist hunion hobject d,
      descriptor_members hscalar hlist hunion hobject ds⟩

theorem descriptor_fields {p : Descriptor F → Prop} (hscalar : ∀ t, p (.scalar t)) (hlist : ∀ d, p d → p (.list d))
    (hunion : ∀ ds, (∀ d ∈ ds, p d) → p (.union ds))
    (hobject : ∀ fields facts, (∀ e ∈ fields, p e.2) → p (.object fields facts)) :
    ∀ fields : List (String × Descriptor F), ∀ e ∈ fields, p e.2
  | [] => by simp
  | (_, d) :: fields => List.forall_mem_cons.mpr ⟨descriptor_parts hscalar hlist hunion hobject d,
      descriptor_fields hscalar hlist hunion hobject fields⟩

end

variable {E : F → F → Prop} {E' : Json F → Json F → Prop} {key : String → Prop} {float : F → Prop}

theorem sameElements_iff {xs ys : List (Json F)} : SameElements E xs ys ↔ List.Forall₂ (Same E) xs ys := by
  induction xs generalizing ys with
  | nil => cases ys <;> simp [SameElements]
  | cons x xs ih => cases ys <;> simp [SameElements, ih]

theorem sameMembers_iff {kvs kvs' : List (String × Json F)} : SameMembers E kvs kvs' ↔
    ∀ e ∈ kvs, ∃ w, Dict.find kvs' e.1 = some w ∧ Same E e.2 w := by
  induction kvs with
  | nil => simp [SameMembers]
  | cons e kvs ih => simp [SameMembers, ih]

theorem everywhereElements_iff {xs : List (Json F)} :
    EverywhereElements key float xs ↔ ∀ x ∈ xs, Everywhere key float x := by
  induction xs with
  | nil => simp [EverywhereElements]
  | cons x xs ih => simp [EverywhereElements, ih]

theorem everywhereMembers_iff {kvs : List (String × Json F)} :
    EverywhereMembers key float kvs ↔ ∀ e ∈ kvs, key e.1 ∧ Everywhere key float e.2 := by
  induction kvs with
  | nil => simp [EverywhereMembers]
  | cons e kvs ih => simp [EverywhereMembers, ih, and_assoc]

theorem agreeAll_iff {ds es : List (Descriptor F)} : AgreeAll E' ds es ↔ List.Forall₂ (Agree E') ds es := by
  induction ds generalizing es with
  | nil => cases es <;> simp [AgreeAll]
  | cons d ds ih => cases es <;> simp [AgreeAll, ih]

theorem agreeFields_iff {fs gs : List (String × Descriptor F)} :
    AgreeFields E' fs gs ↔ List.Forall₂ (fun f g => f.1 = g.1 ∧ Agree E' f.2 g.2) fs gs := by
  induction fs generalizing gs with
  | nil => cases gs <;> simp [AgreeFields]
  | cons f fs ih => cases gs <;> simp [AgreeFields, ih, and_assoc]

theorem membersSatisfy_iff {p : Json F → Prop} {ds : List (Descriptor F)} :
    MembersSatisfy p ds ↔ ∀ d ∈ ds, DefaultsSatisfy p d := by
  induction ds with
  | nil => simp [MembersSatisfy]
  | cons d ds ih => simp [MembersSatisfy, ih]

theorem fieldsSatisfy_iff {p : Json F → Prop} {fields : List (String × Descriptor F)} :
    FieldsSatisfy p fields ↔ ∀ f ∈ fields, DefaultsSatisfy p f.2 := by
  induction fields with
  | nil => simp [FieldsSatisfy]
  | cons f fields ih => simp [FieldsSatisfy, ih]

variable (P : Printer F)

theorem defaultKeys_eq (xs : List (Json F)) : defaultKeys P xs = xs.map (defaultKey P) := by
  induction xs with
  | nil => rfl
  | cons x xs ih => rw [defaultKeys, ih, List.map_cons]

theorem defaultItems_eq (kvs : List (String × Json F)) :
    defaultItems P kvs = kvs.map fun e => (e.1, defaultKey P e.2) := by
  induction kvs with
  | nil => rfl
  | cons e kvs ih => rw [defaultItems, ih, List.map_cons]

theorem defaultKey_int (z : ℤ) : defaultKey P (.int z) = intText z := rfl

theorem defaultKey_float (x : F) : defaultKey P (.float x) = (P.floats.repr x).text := rfl

theorem defaultKey_list (xs : List (Json F)) :
    defaultKey P (.list xs) = '[' :: (commaJoined (xs.map (defaultKey P)) ++ [']']) := by
  rw [← defaultKeys_eq]
  rfl

theorem canonicalKeys_eq (ds : List (Descriptor F)) : canonicalKeys P ds = ds.map (canonicalKey P) := by
  induction ds with
  | nil => rfl
  | cons d ds ih => rw [canonicalKeys, ih, List.map_cons]

theorem fieldKeys_eq (fields : List (String × Descriptor F)) :
    fieldKeys P fields = fields.map fun f => (f.1, canonicalKey P f.2) := by
  induction fields with
  | nil => rfl
  | cons f fields ih => rw [fieldKeys, ih, List.map_cons]

theorem defaultKey_dict (kvs : List (String × Json F)) : defaultKey P (.dict kvs) =
    '{' :: (commaJoined ((orderBy Prod.fst (defaultItems P kvs)).map itemText) ++ ['}']) := rfl

theorem sortedItems_eq (kvs : List (String × Json F)) : (orderBy Prod.fst (defaultItems P kvs)).map itemText =
    (orderBy Prod.fst kvs).map fun e => itemText (e.1, defaultKey P e.2) := by
  rw [defaultItems_eq, orderBy_map, List.map_map]
  rfl

theorem canonicalKey_list (d : Descriptor F) :
    canonicalKey P (.list d) = "list[".toList ++ (canonicalKey P d ++ [']']) := rfl

theorem canonicalKey_union (ds : List (Descriptor F)) :
    canonicalKey P (.union ds) = "union[".toList ++ (commaJoined (ds.map (canonicalKey P)) ++ [']']) := by
  rw [← canonicalKeys_eq]
  rfl

theorem canonicalKey_object (fields : List (String × Descriptor F)) (facts : SchemaFacts F) :
    canonicalKey P (.object fields facts) = asciiCompact P.floats (schemaParts P (fieldKeys P fields) facts) := rfl

end

end GraphSkillRuntime.CanonicalKeys
