import GraphSkillRuntime.Value
import Mathlib.Data.List.Sort

namespace GraphSkillRuntime

open OrderedDict

abbrev Schema := Dict String Value

structure Draft202012 where
  checkSchema : Value → Option String
  iterErrors : Value → Value → List (String × List String)
  bestMatch : Value → Value → String

def Draft202012.isValid (V : Draft202012) (schema candidate : Value) : Bool :=
  (V.iterErrors schema candidate).isEmpty

def schemaProperties (schema : Option Schema) : List String :=
  match schema.bind (dictAt · "properties") with
  | some properties => properties.keys
  | none => []

def requiredKeys (schema : Schema) : List String :=
  match schema.get? "required" with
  | some (.list names) => names.filterMap (fun n => match n with | .str s => some s | _ => none)
  | _ => []

def nullSchema : Value := .dict [("type", .str "null")]

mutual

def withOptionalFieldsNullable : Value → Value
  | .dict schema => .dict (nullableSchema (requiredKeys (Dict.ofList schema)) schema)
  | v => v

def nullableSchema (required : List String) : List (String × Value) → List (String × Value)
  | [] => []
  | (k, v) :: rest =>
    (k, if k = "properties" then nullableProperties required v
        else if k = "items" then withOptionalFieldsNullable v else v) :: nullableSchema required rest

def nullableProperties (required : List String) : Value → Value
  | .dict properties => .dict (nullableFields required properties)
  | v => v

def nullableFields (required : List String) : List (String × Value) → List (String × Value)
  | [] => []
  | (name, property) :: rest =>
    (name, match withOptionalFieldsNullable property with
      | .dict p =>
        if name ∈ required then .dict p else .dict [("anyOf", .list [.dict p, nullSchema])]
      | p => p) :: nullableFields required rest

end

def sortKeys (keys : List String) : List String := keys.insertionSort (· ≤ ·)

inductive IoKind where
  | input
  | output
  deriving DecidableEq

def IoKind.word : IoKind → String
  | .input => "input"
  | .output => "output"

inductive IoDomain where
  | graph
  | agent
  | logic
  | subgraph
  deriving DecidableEq

structure IoFault where
  message : String
  fieldPath : String
  code : String
  deriving DecidableEq

def ioSchemaErrorCode : IoDomain → String
  | .agent => "[F-v3-agent-io-schema-invalid]"
  | .logic => "[F-v3-logic-io-schema-invalid]"
  | .subgraph => "[F-v3-subgraph-io-schema-invalid]"
  | .graph => "[F-v3-graph-io-schema-invalid]"

def declaredOutputTargets : List String := ["file", "artifact"]

def isDeclaredOutputTarget : Value → Bool
  | .str target => target ∈ declaredOutputTargets
  | _ => false

def requiredNames : Option Value → Option (List String)
  | none => some []
  | some .null => some []
  | some (.list names) => names.mapM (fun n => match n with | .str s => some s | _ => none)
  | some _ => none

def fieldFault (kind : IoKind) (domain : IoDomain) (field : String × Value) : Option IoFault :=
  match field.2.asDict? with
  | none => none
  | some fieldSchema =>
    let at_ := "io." ++ kind.word ++ "s.properties." ++ field.1
    let target := (fieldSchema.get? "target").getD .null
    if kind = .output ∧ target ≠ .null ∧ isDeclaredOutputTarget target = false then
      some ⟨"inline output field '" ++ field.1 ++
        "' declares a target; a written output must declare one of: artifact, file",
        at_ ++ ".target", ioSchemaErrorCode domain⟩
    else if fieldSchema.get? "source" = some (.str "file") then
      some ⟨"inline " ++ kind.word ++ " field '" ++ field.1 ++ "' uses source:file; file imports " ++
        "must be declared in .workspace/runtime_config.json", at_ ++ ".source", ioSchemaErrorCode domain⟩
    else none

def validateInlineIoSchema (V : Draft202012) (schema : Schema) (kind : IoKind) (domain : IoDomain) :
    Except IoFault Schema :=
  let fieldPath := "io." ++ kind.word ++ "s"
  let invalidCode := ioSchemaErrorCode domain
  let fail {α : Type} (message path code : String) : Except IoFault α :=
    .error ⟨"inline " ++ kind.word ++ " schema " ++ message, path, code⟩
  match V.checkSchema (.ofDict schema) with
  | some message =>
    .error ⟨"invalid inline " ++ kind.word ++ " JSON Schema: " ++ message, fieldPath, invalidCode⟩
  | none =>
    if schema.get? "type" ≠ some (.str "object") then
      fail "must declare type: object" (fieldPath ++ ".type")
        (if domain = .graph then "[F-v3-graph-io-not-object]" else invalidCode)
    else
      match dictAt schema "properties", requiredNames (schema.get? "required") with
      | none, _ => fail "must declare object properties" (fieldPath ++ ".properties") invalidCode
      | some _, none => fail "required must be a list of field names" (fieldPath ++ ".required") invalidCode
      | some properties, some required =>
        match sortKeys (required.filter (· ∉ properties.keys)).dedup with
        | name :: rest => fail ("required fields are missing from properties: " ++
            ", ".intercalate (name :: rest)) (fieldPath ++ ".required") invalidCode
        | [] =>
          match properties.entries.findSome? (fieldFault kind domain) with
          | some fault => .error fault
          | none => .ok schema

end GraphSkillRuntime
