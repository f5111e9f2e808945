import GraphSkillRuntime.AgentMessages
import GraphSkillRuntime.SnapshotCodec

/-!
The classes of `manifest.py` with their checks, and the JSON that a snapshot keeps of each. The raw blocks
of a phase are not kept here: nothing reads them after the phase has been compiled.
-/

namespace GraphSkillRuntime.CompileCache

open OrderedDict JsonText PyData SnapshotCodec

def headTail (head tail : Char → Bool) (s : String) : Bool :=
  match s.toList with
  | [] => false
  | c :: cs => head c && cs.all tail

def agentSkillName (s : String) : Bool :=
  (s.toList.splitOn '-').all fun part => !part.isEmpty && part.all fun c => c.isLower || c.isDigit

def graphId (s : String) : Bool := agentSkillName s

def skillId (s : String) : Bool := agentSkillName s

def phaseId (s : String) : Bool := headTail Char.isAlpha (fun c => c.isAlphanum || c == '_' || c == '-') s

def artifactStem (s : String) : Bool :=
  headTail Char.isAlphanum (fun c => c.isAlphanum || c == '.' || c == '_' || c == '-') s

def toolName (s : String) : Bool := headTail (fun c => c.isAlpha || c == '_') (fun c => c.isAlphanum || c == '_') s

def resourceId (s : String) : Bool := headTail Char.isUpper (fun c => c.isAlphanum || c == '_' || c == '-') s

/-- `min_length` of a text that may be absent. -/
def absentOrNonempty (s : Option String) : Bool := s != some ""

structure RootSkillManifest where
  name : String
  description : String
  license : Option String
  compatibility : Option String
  metadata : Dict String String
  allowedTools : Option String
  deriving DecidableEq

structure GraphPhaseRef where
  id : String
  dependsOn : List String
  output : Bool
  deriving DecidableEq

inductive ArtifactMode where
  | single
  | perItem
  deriving DecidableEq

inductive ArtifactFormat where
  | json
  | md
  deriving DecidableEq

structure ArtifactDeclaration where
  artifactId : String
  stem : String
  fields : List String
  mode : ArtifactMode
  format : ArtifactFormat
  deriving DecidableEq

structure PhaseIOSchema (F : Type) where
  inputs : Data F
  outputs : Data F

inductive IterateMode where
  | batch
  | loop
  deriving DecidableEq

inductive MergeMode where
  | append
  | extend
  | merge
  | replace
  deriving DecidableEq

structure IterateAccumulateSpec (F : Type) where
  var : String
  init : Data F
  from_ : String
  merge : MergeMode

structure IterateSpec (F : Type) where
  mode : IterateMode
  overPath : String
  itemVar : String
  range : Option (ℤ × ℤ)
  concurrency : ℤ
  accumulate : Option (IterateAccumulateSpec F)

structure GraphManifest (F : Type) where
  graphId : String
  description : String
  llmRole : Option String
  io : PhaseIOSchema F
  phases : List GraphPhaseRef
  iterate : Option (IterateSpec F)
  artifacts : List ArtifactDeclaration

structure AgentRegistryItem where
  name : String
  graph : String
  description : String
  deriving DecidableEq

structure ResourceSpec where
  id : String
  path : String
  summary : String
  deriving DecidableEq

structure AgentExample where
  id : String
  content : String
  deriving DecidableEq

structure AgentStep where
  id : String
  name : String
  content : String
  deriving DecidableEq

structure AgentProtocol where
  id : String
  content : String
  deriving DecidableEq

structure SubagentSpec where
  name : String
  targetSkill : String
  description : String
  deriving DecidableEq

inductive ContextPlane where
  | workingMemory
  | artifact
  deriving DecidableEq

structure LogicNodeAST (F : Type) where
  name : String
  allowSequentialOverwrite : List String
  iterate : Option (IterateSpec F)
  io : PhaseIOSchema F
  actions : List String
  validator : Bool

structure SubgraphNodeAST (F : Type) where
  name : String
  allowSequentialOverwrite : List String
  iterate : Option (IterateSpec F)
  graph : String
  io : PhaseIOSchema F
  validator : Bool

structure AgentNodeAST (F : Type) where
  name : String
  allowSequentialOverwrite : List String
  iterate : Option (IterateSpec F)
  role : String
  goal : String
  steps : List AgentStep
  protocols : List AgentProtocol
  io : PhaseIOSchema F
  validator : Bool
  tools : List String
  subagents : List SubagentSpec
  subgraphs : List AgentRegistryItem
  references : List ResourceSpec
  examples : List ResourceSpec
  examplesInline : List AgentExample
  maxIterations : ℤ
  llmRole : Option String
  contextAccess : List ContextPlane
  useGraphLlmRole : Bool
  systemPrompt : String

inductive PhaseAST (F : Type) where
  | logic (ast : LogicNodeAST F)
  | subgraph (ast : SubgraphNodeAST F)
  | agent (ast : AgentNodeAST F)

def RootSkillManifest.ok (m : RootSkillManifest) : Bool :=
  agentSkillName m.name && m.name.length ≤ 64 && m.description ≠ "" && m.description.length ≤ 1024 &&
    absentOrNonempty m.license && absentOrNonempty m.compatibility &&
    m.compatibility.all (fun s => s.length ≤ 500) && absentOrNonempty m.allowedTools

def GraphPhaseRef.ok (r : GraphPhaseRef) : Bool :=
  phaseId r.id && r.dependsOn ≠ [] && r.id ≠ "input" && r.dependsOn.Nodup &&
    (!r.dependsOn.contains "input" || r.dependsOn.length = 1) &&
    r.dependsOn.all fun dependency => dependency = "input" || phaseId dependency

def ArtifactDeclaration.ok (a : ArtifactDeclaration) : Bool :=
  phaseId a.artifactId && artifactStem a.stem && a.fields ≠ [] && a.fields.all (fun name => strip name ≠ "") &&
    a.fields.Nodup

section

variable {F : Type}

def isSchema : Data F → Bool
  | .dict kvs => !kvs.isEmpty && kvs.all fun e => e.1.str?.isSome
  | _ => false

def IterateAccumulateSpec.ok (a : IterateAccumulateSpec F) : Bool := a.var ≠ "" && a.from_ ≠ ""

def IterateSpec.ok (i : IterateSpec F) : Bool :=
  i.overPath ≠ "" && i.itemVar ≠ "" && 1 ≤ i.concurrency && i.range.all (fun r => r.1 ≤ r.2) &&
    match i.mode with
    | .loop => i.accumulate.isSome
    | .batch => i.accumulate.isNone

/-- The phase identifiers are ASCII text, where `casefold` is the lower case. -/
def GraphManifest.ok (m : GraphManifest F) : Bool :=
  CompileCache.graphId m.graphId && m.graphId.length ≤ 64 && m.description ≠ "" && absentOrNonempty m.llmRole &&
    !m.phases.isEmpty && (m.phases.map GraphPhaseRef.id).Nodup &&
    (m.phases.map fun phase => phase.id.toList.map Char.toLower).Nodup && m.phases.any GraphPhaseRef.output &&
    (m.artifacts.map ArtifactDeclaration.artifactId).Nodup

end

def AgentRegistryItem.ok (i : AgentRegistryItem) : Bool := toolName i.name && graphId i.graph && i.description ≠ ""

def ResourceSpec.ok (r : ResourceSpec) : Bool := resourceId r.id && r.path ≠ "" && r.summary ≠ ""

def AgentExample.ok (e : AgentExample) : Bool := resourceId e.id && e.content ≠ ""

def AgentStep.ok (s : AgentStep) : Bool := phaseId s.id && s.name ≠ "" && s.content ≠ ""

def AgentProtocol.ok (p : AgentProtocol) : Bool := phaseId p.id && p.content ≠ ""

def SubagentSpec.ok (s : SubagentSpec) : Bool := toolName s.name && skillId s.targetSkill && s.description ≠ ""

section

variable {F : Type}

def LogicNodeAST.ok (a : LogicNodeAST F) : Bool :=
  a.name ≠ "" && a.allowSequentialOverwrite.Nodup && a.actions ≠ [] && a.actions.Nodup

def SubgraphNodeAST.ok (a : SubgraphNodeAST F) : Bool :=
  a.name ≠ "" && a.allowSequentialOverwrite.Nodup && graphId a.graph

def AgentNodeAST.ok (a : AgentNodeAST F) : Bool :=
  a.name ≠ "" && a.allowSequentialOverwrite.Nodup && a.role ≠ "" && a.goal ≠ "" && 1 ≤ a.maxIterations &&
    a.maxIterations ≤ 50 && a.tools.Nodup && (a.subagents.map SubagentSpec.name).Nodup &&
    (a.subgraphs.map AgentRegistryItem.name).Nodup && (a.references.map ResourceSpec.id).Nodup &&
    (a.examples.map ResourceSpec.id).Nodup && a.contextAccess.Nodup

end

/-- `_render_system_prompt`. -/
def renderSystemPrompt {F : Type} (a : AgentNodeAST F) : String :=
  let stepLines := "\n".intercalate (a.steps.map fun step => "- " ++ step.name ++ ": " ++ step.content)
  let protocolLines :=
    "\n".intercalate (a.protocols.map fun protocol => "- " ++ protocol.id ++ ": " ++ protocol.content)
  "\n\n".intercalate (["Role: " ++ a.role, "Goal: " ++ a.goal] ++
    (if stepLines ≠ "" then ["Steps:\n" ++ stepLines] else []) ++
    (if protocolLines ≠ "" then ["Protocols:\n" ++ protocolLines] else []))

open Codec

/-- What `model_dump` in JSON mode makes of data of any type. -/
structure AnyDump (F : Type) where
  serialize : Data F → Option (Data F)
  json : ∀ v : Json F, serialize (ofJson v) = some (ofJson v)
  distinct : ∀ {y z}, serialize y = some z → y.Distinct → z.Distinct

section

variable {F : Type}

def optionalText : Codec F (Option String) := str.option str_null

instance : Exact (optionalText (F := F)) := by unfold optionalText; infer_instance

def rootSkillManifest : Codec F RootSkillManifest :=
  Codec.guard
    ((object true
      (.cons "name" none str <| .cons "description" none str <| .cons "license" (some none) optionalText <|
        .cons "compatibility" (some none) optionalText <| .cons "metadata" (some ∅) str.dictOf <|
        .cons "allowed-tools" (some none) optionalText .nil) (by simp [Fields.names_cons, Fields.names_nil])).via
      { toFun := fun m => (m.name, m.description, m.license, m.compatibility, m.metadata, m.allowedTools, ())
        invFun := fun (name, description, license, compatibility, metadata, allowedTools, _) =>
          { name, description, license, compatibility, metadata, allowedTools }
        left_inv := fun _ => rfl
        right_inv := fun _ => rfl })
    RootSkillManifest.ok

instance : Exact (rootSkillManifest (F := F)) := by unfold rootSkillManifest; infer_instance

def graphPhaseRef : Codec F GraphPhaseRef :=
  Codec.guard
    ((object true (.cons "id" none str <| .cons "depends_on" none str.list <| .cons "output" none bool .nil)
      (by simp [Fields.names_cons, Fields.names_nil])).via
      { toFun := fun r => (r.id, r.dependsOn, r.output, ())
        invFun := fun (id, dependsOn, output, _) => { id, dependsOn, output }
        left_inv := fun _ => rfl
        right_inv := fun _ => rfl })
    GraphPhaseRef.ok

instance : Exact (graphPhaseRef (F := F)) := by unfold graphPhaseRef; infer_instance

def ArtifactMode.text : ArtifactMode → String
  | .single => "single"
  | .perItem => "per-item"

def ArtifactMode.ofText (s : String) : Option ArtifactMode :=
  if s = "single" then some .single else if s = "per-item" then some .perItem else none

def artifactMode : Codec F ArtifactMode :=
  enumeration ArtifactMode.text ArtifactMode.ofText fun m => by cases m <;> decide

instance : Exact (artifactMode (F := F)) := by unfold artifactMode; infer_instance

def ArtifactFormat.text : ArtifactFormat → String
  | .json => "json"
  | .md => "md"

def ArtifactFormat.ofText (s : String) : Option ArtifactFormat :=
  if s = "json" then some .json else if s = "md" then some .md else none

def artifactFormat : Codec F ArtifactFormat :=
  enumeration ArtifactFormat.text ArtifactFormat.ofText fun m => by cases m <;> decide

instance : Exact (artifactFormat (F := F)) := by unfold artifactFormat; infer_instance

def artifactDeclaration : Codec F ArtifactDeclaration :=
  Codec.guard
    ((object true
      (.cons "artifact_id" none str <| .cons "stem" none str <| .cons "fields" none str.list <|
        .cons "mode" none artifactMode <| .cons "format" none artifactFormat .nil)
        (by simp [Fields.names_cons, Fields.names_nil])).via
      { toFun := fun a => (a.artifactId, a.stem, a.fields, a.mode, a.format, ())
        invFun := fun (artifactId, stem, fields, mode, format, _) => { artifactId, stem, fields, mode, format }
        left_inv := fun _ => rfl
        right_inv := fun _ => rfl })
    ArtifactDeclaration.ok

instance : Exact (artifactDeclaration (F := F)) := by unfold artifactDeclaration; infer_instance

variable (D : AnyDump F)

def anyData : Codec F (Data F) := any D.serialize D.json D.distinct

instance : Exact (anyData D) := by unfold anyData; infer_instance

def schemaData : Codec F (Data F) := (anyData D).guard isSchema

instance : Exact (schemaData D) := by unfold schemaData; infer_instance

def phaseIOSchema : Codec F (PhaseIOSchema F) :=
  (object true (.cons "inputs" none (schemaData D) <| .cons "outputs" none (schemaData D) .nil)
    (by simp [Fields.cons, Fields.nil])).via
    { toFun := fun s => (s.inputs, s.outputs, ())
      invFun := fun (inputs, outputs, _) => { inputs, outputs }
      left_inv := fun _ => rfl
      right_inv := fun _ => rfl }

instance : Exact (phaseIOSchema D) := by unfold phaseIOSchema; infer_instance

def MergeMode.text : MergeMode → String
  | .append => "append"
  | .extend => "extend"
  | .merge => "merge"
  | .replace => "replace"

def MergeMode.ofText (s : String) : Option MergeMode :=
  if s = "append" then some .append else if s = "extend" then some .extend
  else if s = "merge" then some .merge else if s = "replace" then some .replace else none

def mergeMode : Codec F MergeMode := enumeration MergeMode.text MergeMode.ofText fun m => by cases m <;> decide

instance : Exact (mergeMode (F := F)) := by unfold mergeMode; infer_instance

def iterateAccumulateSpec : Codec F (IterateAccumulateSpec F) :=
  Codec.guard
    ((object true
      (.cons "var" none str <| .cons "init" none (anyData D) <| .cons "from_" none str <|
        .cons "merge" none mergeMode .nil) (by simp [Fields.names_cons, Fields.names_nil])).via
      { toFun := fun a => (a.var, a.init, a.from_, a.merge, ())
        invFun := fun (var, init, from_, mode, _) => { var, init, from_, merge := mode }
        left_inv := fun _ => rfl
        right_inv := fun _ => rfl })
    IterateAccumulateSpec.ok

instance : Exact (iterateAccumulateSpec D) := by unfold iterateAccumulateSpec; infer_instance

theorem iterateAccumulateSpec_null : (iterateAccumulateSpec D).decode .null = none := rfl

def IterateMode.text : IterateMode → String
  | .batch => "batch"
  | .loop => "loop"

def IterateMode.ofText (s : String) : Option IterateMode :=
  if s = "batch" then some .batch else if s = "loop" then some .loop else none

def iterateMode : Codec F IterateMode :=
  enumeration IterateMode.text IterateMode.ofText fun m => by cases m <;> decide

instance : Exact (iterateMode (F := F)) := by unfold iterateMode; infer_instance

theorem range_null : (pair (F := F) int int).decode .null = none := rfl

def iterateSpec : Codec F (IterateSpec F) :=
  Codec.guard
    ((object true
      (.cons "mode" none iterateMode <| .cons "over" none str <| .cons "item_var" none str <|
        .cons "range" (some none) ((pair int int).option range_null) <| .cons "concurrency" (some 1) int <|
        .cons "accumulate" (some none) ((iterateAccumulateSpec D).option (iterateAccumulateSpec_null D)) .nil)
      (by simp [Fields.names_cons, Fields.names_nil])).via
      { toFun := fun i => (i.mode, i.overPath, i.itemVar, i.range, i.concurrency, i.accumulate, ())
        invFun := fun (mode, overPath, itemVar, range, concurrency, accumulate, _) =>
          { mode, overPath, itemVar, range, concurrency, accumulate }
        left_inv := fun _ => rfl
        right_inv := fun _ => rfl })
    IterateSpec.ok

instance : Exact (iterateSpec D) := by unfold iterateSpec; infer_instance

theorem iterateSpec_null : (iterateSpec D).decode .null = none := rfl

def graphManifest : Codec F (GraphManifest F) :=
  Codec.guard
    ((object true
      (.cons "schema_version" none (literal "gskill.graph.v1") <| .cons "graph_id" none str <|
        .cons "description" none str <| .cons "llm_role" (some none) optionalText <|
        .cons "io" none (phaseIOSchema D) <| .cons "phases" none graphPhaseRef.list <|
        .cons "iterate" (some none) ((iterateSpec D).option (iterateSpec_null D)) <|
        .cons "artifacts" (some []) artifactDeclaration.list .nil) (by simp [Fields.names_cons, Fields.names_nil])).via
      { toFun := fun m => ((), m.graphId, m.description, m.llmRole, m.io, m.phases, m.iterate, m.artifacts, ())
        invFun := fun (_, graphId, description, llmRole, io, phases, iterate, artifacts, _) =>
          { graphId, description, llmRole, io, phases, iterate, artifacts }
        left_inv := fun _ => rfl
        right_inv := fun _ => rfl })
    GraphManifest.ok

instance : Exact (graphManifest D) := by unfold graphManifest; infer_instance

def agentRegistryItem : Codec F AgentRegistryItem :=
  Codec.guard
    ((object true (.cons "name" none str <| .cons "graph" none str <| .cons "description" none str .nil)
      (by simp [Fields.names_cons, Fields.names_nil])).via
      { toFun := fun i => (i.name, i.graph, i.description, ())
        invFun := fun (name, graph, description, _) => { name, graph, description }
        left_inv := fun _ => rfl
        right_inv := fun _ => rfl })
    AgentRegistryItem.ok

instance : Exact (agentRegistryItem (F := F)) := by unfold agentRegistryItem; infer_instance

def resourceSpec : Codec F ResourceSpec :=
  Codec.guard
    ((object true (.cons "id" none str <| .cons "path" none str <| .cons "summary" none str .nil)
      (by simp [Fields.names_cons, Fields.names_nil])).via
      { toFun := fun r => (r.id, r.path, r.summary, ())
        invFun := fun (id, path, summary, _) => { id, path, summary }
        left_inv := fun _ => rfl
        right_inv := fun _ => rfl })
    ResourceSpec.ok

instance : Exact (resourceSpec (F := F)) := by unfold resourceSpec; infer_instance

def agentExample : Codec F AgentExample :=
  Codec.guard
    ((object true (.cons "id" none str <| .cons "content" none str .nil)
    (by simp [Fields.names_cons, Fields.names_nil])).via
      { toFun := fun e => (e.id, e.content, ())
        invFun := fun (id, content, _) => { id, content }
        left_inv := fun _ => rfl
        right_inv := fun _ => rfl })
    AgentExample.ok

instance : Exact (agentExample (F := F)) := by unfold agentExample; infer_instance

def agentStep : Codec F AgentStep :=
  Codec.guard
    ((object true (.cons "id" none str <| .cons "name" none str <| .cons "content" none str .nil)
      (by simp [Fields.names_cons, Fields.names_nil])).via
      { toFun := fun s => (s.id, s.name, s.content, ())
        invFun := fun (id, name, content, _) => { id, name, content }
        left_inv := fun _ => rfl
        right_inv := fun _ => rfl })
    AgentStep.ok

instance : Exact (agentStep (F := F)) := by unfold agentStep; infer_instance

def agentProtocol : Codec F AgentProtocol :=
  Codec.guard
    ((object true (.cons "id" none str <| .cons "content" none str .nil)
    (by simp [Fields.names_cons, Fields.names_nil])).via
      { toFun := fun p => (p.id, p.content, ())
        invFun := fun (id, content, _) => { id, content }
        left_inv := fun _ => rfl
        right_inv := fun _ => rfl })
    AgentProtocol.ok

instance : Exact (agentProtocol (F := F)) := by unfold agentProtocol; infer_instance

def subagentSpec : Codec F SubagentSpec :=
  Codec.guard
    ((object true (.cons "name" none str <| .cons "target_skill" none str <| .cons "description" none str .nil)
      (by simp [Fields.names_cons, Fields.names_nil])).via
      { toFun := fun s => (s.name, s.targetSkill, s.description, ())
        invFun := fun (name, targetSkill, description, _) => { name, targetSkill, description }
        left_inv := fun _ => rfl
        right_inv := fun _ => rfl })
    SubagentSpec.ok

instance : Exact (subagentSpec (F := F)) := by unfold subagentSpec; infer_instance

def ContextPlane.text : ContextPlane → String
  | .workingMemory => "working_memory"
  | .artifact => "artifact"

def ContextPlane.ofText (s : String) : Option ContextPlane :=
  if s = "working_memory" then some .workingMemory else if s = "artifact" then some .artifact else none

def contextPlane : Codec F ContextPlane :=
  enumeration ContextPlane.text ContextPlane.ofText fun p => by cases p <;> decide

instance : Exact (contextPlane (F := F)) := by unfold contextPlane; infer_instance

def logicFields :=
  Fields.cons "mode" none (literal "logic") <| .cons "name" none str <|
    .cons "allow_sequential_overwrite" (some []) str.list <|
    .cons "iterate" (some none) ((iterateSpec D).option (iterateSpec_null D)) <|
    .cons "io" none (phaseIOSchema D) <| .cons "actions" (some []) str.list <|
    .cons "validator" (some false) bool .nil

instance : Fields.Exact (logicFields D) := by unfold logicFields; infer_instance

theorem logicFields_nodup : (logicFields D).names.Nodup := by simp [logicFields, Fields.names_cons, Fields.names_nil]

def logicRecord : Codec F (LogicNodeAST F) :=
  (object true (logicFields D) (logicFields_nodup D)).via
    { toFun := fun a => ((), a.name, a.allowSequentialOverwrite, a.iterate, a.io, a.actions, a.validator, ())
      invFun := fun (_, name, allowSequentialOverwrite, iterate, io, actions, validator, _) =>
        { name, allowSequentialOverwrite, iterate, io, actions, validator }
      left_inv := fun _ => rfl
      right_inv := fun _ => rfl }

instance : Exact (logicRecord D) := by unfold logicRecord; infer_instance

def logicNodeAST : Codec F (LogicNodeAST F) := (logicRecord D).guard LogicNodeAST.ok

instance : Exact (logicNodeAST D) := by unfold logicNodeAST; infer_instance

def subgraphFields :=
  Fields.cons "mode" none (literal "subgraph") <| .cons "name" none str <|
    .cons "allow_sequential_overwrite" (some []) str.list <|
    .cons "iterate" (some none) ((iterateSpec D).option (iterateSpec_null D)) <|
    .cons "graph" none str <| .cons "io" none (phaseIOSchema D) <| .cons "validator" (some false) bool .nil

instance : Fields.Exact (subgraphFields D) := by unfold subgraphFields; infer_instance

theorem subgraphFields_nodup : (subgraphFields D).names.Nodup := by
  simp [subgraphFields, Fields.names_cons, Fields.names_nil]

def subgraphRecord : Codec F (SubgraphNodeAST F) :=
  (object true (subgraphFields D) (subgraphFields_nodup D)).via
    { toFun := fun a => ((), a.name, a.allowSequentialOverwrite, a.iterate, a.graph, a.io, a.validator, ())
      invFun := fun (_, name, allowSequentialOverwrite, iterate, graph, io, validator, _) =>
        { name, allowSequentialOverwrite, iterate, graph, io, validator }
      left_inv := fun _ => rfl
      right_inv := fun _ => rfl }

instance : Exact (subgraphRecord D) := by unfold subgraphRecord; infer_instance

def subgraphNodeAST : Codec F (SubgraphNodeAST F) := (subgraphRecord D).guard SubgraphNodeAST.ok

instance : Exact (subgraphNodeAST D) := by unfold subgraphNodeAST; infer_instance

def agentFields :=
  Fields.cons "mode" none (literal "agent") <| .cons "system_prompt" (some "") str <| .cons "name" none str <|
    .cons "allow_sequential_overwrite" (some []) str.list <|
    .cons "iterate" (some none) ((iterateSpec D).option (iterateSpec_null D)) <| .cons "role" none str <|
    .cons "goal" none str <| .cons "steps" (some []) agentStep.list <|
    .cons "protocols" (some []) agentProtocol.list <| .cons "io" none (phaseIOSchema D) <|
    .cons "validator" (some false) bool <| .cons "tools" (some []) str.list <|
    .cons "subagents" (some []) subagentSpec.list <| .cons "subgraphs" (some []) agentRegistryItem.list <|
    .cons "references" (some []) resourceSpec.list <| .cons "examples" (some []) resourceSpec.list <|
    .cons "examples_inline" (some []) agentExample.list <| .cons "max_iterations" (some 10) int <|
    .cons "llm_role" (some none) optionalText <| .cons "context_access" (some []) contextPlane.list <|
    .cons "use_graph_llm_role" (some false) bool .nil

instance : Fields.Exact (agentFields D) := by unfold agentFields; infer_instance

theorem agentFields_nodup : (agentFields D).names.Nodup := by
  have hnames : (agentFields D).names = ["mode", "system_prompt", "name", "allow_sequential_overwrite", "iterate",
      "role", "goal", "steps", "protocols", "io", "validator", "tools", "subagents", "subgraphs", "references",
      "examples", "examples_inline", "max_iterations", "llm_role", "context_access", "use_graph_llm_role"] := rfl
  rw [hnames]
  decide

def agentRecord : Codec F (AgentNodeAST F) :=
  (object true (agentFields D) (agentFields_nodup D)).via
    { toFun := fun a =>
        ((), a.systemPrompt, a.name, a.allowSequentialOverwrite, a.iterate, a.role, a.goal, a.steps, a.protocols,
          a.io, a.validator, a.tools, a.subagents, a.subgraphs, a.references, a.examples, a.examplesInline,
          a.maxIterations, a.llmRole, a.contextAccess, a.useGraphLlmRole, ())
      invFun := fun (_, systemPrompt, name, allowSequentialOverwrite, iterate, role, goal, steps, protocols, io,
          validator, tools, subagents, subgraphs, references, examples, examplesInline, maxIterations, llmRole,
          contextAccess, useGraphLlmRole, _) =>
        { name, allowSequentialOverwrite, iterate, role, goal, steps, protocols, io, validator, tools, subagents,
          subgraphs, references, examples, examplesInline, maxIterations, llmRole, contextAccess,
          useGraphLlmRole, systemPrompt }
      left_inv := fun _ => rfl
      right_inv := fun _ => rfl }

instance : Exact (agentRecord D) := by unfold agentRecord; infer_instance

theorem agentRecord_prompt {a b : AgentNodeAST F} {v : Json F} (h : (agentRecord D).encode a = some v)
    (hb : (agentRecord D).decode v = some b) : b.systemPrompt = a.systemPrompt := by
  obtain ⟨t, ht, rfl⟩ := Option.map_eq_some_iff.1 hb
  obtain ⟨kvs, hkvs, ht⟩ := object_back h ht
  have hn := agentFields_nodup D
  obtain ⟨_, kvs, hkvs, ht⟩ := Fields.cons_back hn hkvs ht
  obtain ⟨⟨w, hw, hprompt⟩, _⟩ := Fields.cons_back (List.nodup_cons.1 hn).2 hkvs ht
  obtain rfl := Option.some.inj hw
  exact (Option.some.inj hprompt).symm

def agentNodeAST : Codec F (AgentNodeAST F) :=
  Codec.guard
    ((agentRecord D).complete (fun a => a.systemPrompt ≠ "") (fun a => { a with systemPrompt := renderSystemPrompt a })
      (fun a => by
        have hrender : renderSystemPrompt a ≠ "" := by
          intro h
          have hchars := congrArg String.toList h
          simp [renderSystemPrompt] at hchars
        exact decide_eq_true hrender)
      (fun h hb => by rw [agentRecord_prompt D h hb]))
    AgentNodeAST.ok

instance : Exact (agentNodeAST D) := by unfold agentNodeAST; infer_instance

theorem subgraph_tag {a : SubgraphNodeAST F} {v : Json F} (h : (subgraphNodeAST D).encode a = some v) :
    tagOf "mode" v = some "subgraph" := tagOf_object (subgraphFields_nodup D) h

theorem logic_tag {a : LogicNodeAST F} {v : Json F} (h : (logicNodeAST D).encode a = some v) :
    tagOf "mode" v = some "logic" := tagOf_object (logicFields_nodup D) h

theorem agent_tag {a : AgentNodeAST F} {v : Json F} (h : (agentNodeAST D).encode a = some v) :
    tagOf "mode" v = some "agent" := tagOf_object (agentFields_nodup D) h

theorem agent_tag_ne {a : AgentNodeAST F} {v : Json F} (h : (agentNodeAST D).encode a = some v) :
    tagOf "mode" v ≠ some "subgraph" := by
  rw [agent_tag D h]
  decide

def delegateAST : Codec F (SubgraphNodeAST F ⊕ AgentNodeAST F) :=
  tagged "mode" "subgraph" (subgraphNodeAST D) (agentNodeAST D) (subgraph_tag D) (agent_tag_ne D)

instance : Exact (delegateAST D) := by unfold delegateAST; infer_instance

theorem delegate_tag {a : SubgraphNodeAST F ⊕ AgentNodeAST F} {v : Json F} (h : (delegateAST D).encode a = some v) :
    tagOf "mode" v ≠ some "logic" := by
  cases a with
  | inl a =>
    rw [subgraph_tag D h]
    decide
  | inr a =>
    rw [agent_tag D h]
    decide

def phaseAST : Codec F (PhaseAST F) :=
  (tagged "mode" "logic" (logicNodeAST D) (delegateAST D) (logic_tag D) (delegate_tag D)).via
    { toFun := fun ast => match ast with
        | .logic a => .inl a
        | .subgraph a => .inr (.inl a)
        | .agent a => .inr (.inr a)
      invFun := fun ast => match ast with
        | .inl a => .logic a
        | .inr (.inl a) => .subgraph a
        | .inr (.inr a) => .agent a
      left_inv := fun ast => by cases ast <;> rfl
      right_inv := fun ast => by rcases ast with a | a | a <;> rfl }

instance : Exact (phaseAST D) := by unfold phaseAST; infer_instance

end

end GraphSkillRuntime.CompileCache
