import GraphSkillRuntime.SkillManifests

/-!
Compiled graphs and the snapshot of a compiled skill. Of `raw`, the assembler and the runtime read the
topology and the schemas; the front matter of the graph is written with them, and so is the graph's root,
and nobody reads these two again. The phase tokens and `raw["phases"]`, which repeats the documents, are
left out.
-/

namespace GraphSkillRuntime.CompileCache

open OrderedDict JsonText PyData SnapshotCodec Codec

structure PhaseDocument (F : Type) where
  phaseName : String
  path : String
  mode : String
  frontmatter : Data F
  ast : PhaseAST F

structure CompiledSubagent (F : Type) where
  parentPhaseId : String
  name : String
  targetSkill : String
  description : String
  root : String
  inputSchema : Data F
  expectedSchema : Data F

structure TopologyRow where
  name : String
  dependsOn : List String
  output : Bool
  deriving DecidableEq

structure CompiledGraph (F : Type) where
  frontmatter : Data F
  topology : List TopologyRow
  order : List String
  inputs : Data F
  outputs : Data F
  outputSchemaKeys : Option (List String)
  manifest : GraphManifest F
  graphRoot : String
  nodes : List (PhaseDocument F)
  subagentsByPhase : Dict String (List (CompiledSubagent F))

structure SkillSnapshot (F : Type) where
  rootGraphId : String
  skillManifest : Option RootSkillManifest
  graphs : Dict String (CompiledGraph F)

/-- `pathlib`: `relativeTo` is the posix text of `relative_to`, which raises for a path outside. -/
structure Paths where
  resolve : String → String
  relativeTo : String → String → Option String
  join : String → String → String
  resolve_resolve : ∀ p, resolve (resolve p) = resolve p

/-- `buildInputModel` is `build_subagent_input_model` for a phase, a subagent and its schema, when it raises nothing. -/
structure Pydantic (F : Type) extends AnyDump F where
  buildInputModel : String → String → Data F → Bool

section

variable {F : Type} (D : Pydantic F) (paths : Paths)

def phaseDocument : Codec F (PhaseDocument F) :=
  (object false
    (.cons "phase_name" none str <| .cons "path" none str <| .cons "mode" none str <|
      .cons "frontmatter" none data <| .cons "ast" none (phaseAST D.toAnyDump) .nil)
    (by simp [Fields.cons, Fields.nil])).via
    { toFun := fun d => (d.phaseName, d.path, d.mode, d.frontmatter, d.ast, ())
      invFun := fun (phaseName, path, mode, frontmatter, ast, _) => { phaseName, path, mode, frontmatter, ast }
      left_inv := fun _ => rfl
      right_inv := fun _ => rfl }

instance : Exact (phaseDocument D) := by unfold phaseDocument; infer_instance

def compiledSubagent : Codec F (CompiledSubagent F) :=
  Codec.guard
    ((object false
      (.cons "parent_phase_id" none str <| .cons "name" none str <| .cons "target_skill" none str <|
        .cons "description" none str <| .cons "root" none str <| .cons "input_schema" none data <|
        .cons "expected_schema" none data .nil) (by simp [Fields.names_cons, Fields.names_nil])).via
      { toFun := fun s =>
          (s.parentPhaseId, s.name, s.targetSkill, s.description, s.root, s.inputSchema, s.expectedSchema, ())
        invFun := fun (parentPhaseId, name, targetSkill, description, root, inputSchema, expectedSchema, _) =>
          { parentPhaseId, name, targetSkill, description, root, inputSchema, expectedSchema }
        left_inv := fun _ => rfl
        right_inv := fun _ => rfl })
    (fun s => D.buildInputModel s.parentPhaseId s.name s.inputSchema)

instance : Exact (compiledSubagent D) := by unfold compiledSubagent; infer_instance

def topologyRow : Codec F TopologyRow :=
  (object false (.cons "name" none str <| .cons "depends_on" none str.list <| .cons "output" none bool .nil)
    (by simp [Fields.cons, Fields.nil])).via
    { toFun := fun r => (r.name, r.dependsOn, r.output, ())
      invFun := fun (name, dependsOn, output, _) => { name, dependsOn, output }
      left_inv := fun _ => rfl
      right_inv := fun _ => rfl }

instance : Exact (topologyRow (F := F)) := by unfold topologyRow; infer_instance

theorem texts_null : (str (F := F)).list.decode .null = none := rfl

def graphRoot (skillRoot root : String) : Codec F String where
  encode p := (paths.relativeTo p skillRoot).map .str
  decode v := match v with
    | .str s => some (paths.resolve (paths.join root s))
    | _ => none
  Good _ := True
  Same _ _ := True
  Canon p := (paths.relativeTo p skillRoot).isSome
  distinct _ h := by
    obtain ⟨s, _, rfl⟩ := Option.map_eq_some_iff.1 h
    trivial
  reads {p} h := by
    obtain ⟨s, hs⟩ := Option.isSome_iff_exists.1 h
    exact ⟨.str s, _, by rw [hs]; rfl, rfl, trivial⟩
  canon {p v b} h _ _ := by
    obtain ⟨s, hs, _⟩ := Option.map_eq_some_iff.1 h
    exact Option.isSome_iff_exists.2 ⟨s, hs⟩

def rawGraph :=
  object false (.cons "frontmatter" none (unread (F := F)) .nil) (by simp [Fields.names_cons, Fields.names_nil])

def rawTopology :=
  object false (.cons "phases" none (topologyRow (F := F)).list <| .cons "order" none str.list .nil)
    (by simp [Fields.names_cons, Fields.names_nil])

def rawIO :=
  object false
    (.cons "inputs" none (data (F := F)) <| .cons "outputs" none data <|
      .cons "output_schema_keys" none (str.list.option texts_null) .nil) (by simp [Fields.names_cons, Fields.names_nil])

def rawData :=
  object false
    (.cons "graph" none (rawGraph (F := F)) <| .cons "graph_topology" none rawTopology <| .cons "io" none rawIO .nil)
    (by simp [Fields.names_cons, Fields.names_nil])

def compiledGraph (skillRoot root : String) : Codec F (CompiledGraph F) :=
  (object false
    (.cons "raw" none rawData <| .cons "manifest" none (graphManifest D.toAnyDump) <|
      .cons "graph_root" none (graphRoot paths skillRoot root) <| .cons "nodes" none (phaseDocument D).list <|
      .cons "subagents_by_phase" none (compiledSubagent D).list.dictOf .nil)
      (by simp [Fields.names_cons, Fields.names_nil])).via
    { toFun := fun g =>
        (((g.frontmatter, ()), (g.topology, g.order, ()), (g.inputs, g.outputs, g.outputSchemaKeys, ()), ()),
          g.manifest, g.graphRoot, g.nodes, g.subagentsByPhase, ())
      invFun := fun (((frontmatter, _), (topology, order, _), (inputs, outputs, outputSchemaKeys, _), _), manifest,
          graphRoot, nodes, subagentsByPhase, _) =>
        { frontmatter, topology, order, inputs, outputs, outputSchemaKeys, manifest, graphRoot, nodes,
          subagentsByPhase }
      left_inv := fun _ => rfl
      right_inv := fun _ => rfl }

end

structure SameGraph {F : Type} (g h : CompiledGraph F) : Prop where
  topology : g.topology = h.topology
  order : g.order = h.order
  inputs : g.inputs = h.inputs
  outputs : g.outputs = h.outputs
  outputSchemaKeys : g.outputSchemaKeys = h.outputSchemaKeys
  manifest : g.manifest = h.manifest
  nodes : g.nodes = h.nodes
  subagentsByPhase : g.subagentsByPhase = h.subagentsByPhase

section

variable {F : Type} (D : Pydantic F) (paths : Paths) (skillRoot root : String)

theorem same_graph_iff (g h : CompiledGraph F) : (compiledGraph D paths skillRoot root).Same g h ↔ SameGraph g h := by
  constructor
  · rintro ⟨⟨_, ⟨htopology, horder, _⟩, ⟨hinputs, houtputs, hkeys, _⟩, _⟩, hmanifest, _, hnodes, hsubagents, _⟩
    exact ⟨(Exact.same _ _).1 htopology, (Exact.same _ _).1 horder, hinputs, houtputs, (Exact.same _ _).1 hkeys,
      (Exact.same _ _).1 hmanifest, (Exact.same _ _).1 hnodes, (Exact.same _ _).1 hsubagents⟩
  · rintro ⟨htopology, horder, hinputs, houtputs, hkeys, hmanifest, hnodes, hsubagents⟩
    exact ⟨⟨⟨trivial, trivial⟩, ⟨(Exact.same _ _).2 htopology, (Exact.same _ _).2 horder, trivial⟩,
      ⟨hinputs, houtputs, (Exact.same _ _).2 hkeys, trivial⟩, trivial⟩, (Exact.same _ _).2 hmanifest, trivial,
      (Exact.same _ _).2 hnodes, (Exact.same _ _).2 hsubagents, trivial⟩

def snapshotRecord : Codec F (SkillSnapshot F) :=
  (object false
    (.cons "format" none (literal "portable-v1") <| .cons "root_graph_id" none str <|
      .cons "skill_manifest" none rootSkillManifest.present <|
      .cons "graphs" none (compiledGraph D paths skillRoot root).dictOf .nil)
      (by simp [Fields.names_cons, Fields.names_nil])).via
    { toFun := fun s => ((), s.rootGraphId, s.skillManifest, s.graphs, ())
      invFun := fun (_, rootGraphId, skillManifest, graphs, _) => { rootGraphId, skillManifest, graphs }
      left_inv := fun _ => rfl
      right_inv := fun _ => rfl }

theorem same_snapshot_iff (s t : SkillSnapshot F) :
    (snapshotRecord D paths skillRoot root).Same s t ↔
      s.rootGraphId = t.rootGraphId ∧ s.skillManifest = t.skillManifest ∧ s.graphs.keys = t.graphs.keys ∧
        List.Forall₂ SameGraph (values s.graphs) (values t.graphs) := by
  have hgraphs : (compiledGraph D paths skillRoot root).Same = SameGraph :=
    funext fun g => funext fun h => propext (same_graph_iff D paths skillRoot root g h)
  constructor
  · rintro ⟨_, hid, hm, ⟨hkeys, hall⟩, _⟩
    exact ⟨hid, (Exact.same _ _).1 hm, hkeys, hgraphs ▸ hall⟩
  · rintro ⟨hid, hm, hkeys, hall⟩
    exact ⟨rfl, hid, (Exact.same _ _).2 hm, ⟨hkeys, hgraphs.symm ▸ hall⟩, trivial⟩

theorem hasRoot_same {s t : SkillSnapshot F} (h : (snapshotRecord D paths skillRoot root).Same t s) :
    t.graphs.contains t.rootGraphId = s.graphs.contains s.rootGraphId := by
  obtain ⟨hid, _, hkeys, _⟩ := (same_snapshot_iff D paths skillRoot root t s).1 h
  rw [Bool.eq_iff_iff, Dict.contains_iff, Dict.contains_iff, hid, hkeys]

/-- `_dehydrate_compiled_skill` and `_rehydrate_compiled_skill`. -/
def skillSnapshot : Codec F (SkillSnapshot F) :=
  (snapshotRecord D paths skillRoot root).checked (fun s => s.graphs.contains s.rootGraphId)
    (hasRoot_same D paths skillRoot root)

end

end GraphSkillRuntime.CompileCache
