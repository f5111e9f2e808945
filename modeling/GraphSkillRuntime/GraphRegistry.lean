import GraphSkillRuntime.Schema
import GraphSkillRuntime.DependencyOrder
import Mathlib.Data.List.Dedup
import Mathlib.Data.List.Sort
import Mathlib.Data.String.Basic

namespace GraphSkillRuntime

open OrderedDict ColorSearch DependencyOrder Relation Runs

/-! The graphs of one business skill, the calls between them and their assembly. -/

inductive GraphRoot where
  | skill
  | registry (slot : String)
  deriving DecidableEq

inductive PhaseCalls where
  | logic
  | subgraph (graph : String)
  | agent (subgraphs : List String)

structure CallingPhase where
  phaseName : String
  calls : PhaseCalls

structure ArtifactDeclaration where
  artifactId : String
  fields : List String

structure CompiledGraph where
  graphId : String
  graphRoot : GraphRoot
  outputFields : List String
  artifacts : List ArtifactDeclaration
  nodes : List CallingPhase

def GraphRoot.slot? : GraphRoot → Option String
  | .skill => none
  | .registry slot => some slot

/-- A skill all of whose graphs compile on their own: the root graph and one graph for each directory. -/
structure BusinessSkill where
  skillRoot : String
  root : CompiledGraph
  registry : List CompiledGraph
  root_place : root.graphRoot = .skill
  registry_place : ∀ graph ∈ registry, graph.graphRoot ≠ .skill

inductive RegistryPath where
  | graphFile (root : GraphRoot)
  | phaseFile (root : GraphRoot) (phaseName : String)

structure RegistryDiag where
  path : RegistryPath
  code : String
  message : String
  fieldPath : String

def callCycleCode : String := "[F-v3-graph-call-cycle]"

def GraphRoot.text (skillRoot : String) : GraphRoot → String
  | .skill => skillRoot
  | .registry slot => skillRoot ++ "/graphs/" ++ slot

def GraphRoot.mismatch (graphId : String) : GraphRoot → List RegistryDiag
  | .skill => []
  | .registry slot =>
    if slot = graphId then [] else [{
      path := .graphFile (.registry slot)
      code := "[F-v3-graph-id-directory-mismatch]"
      message := "registry directory '" ++ slot ++ "' must equal graph_id '" ++ graphId ++ "'"
      fieldPath := "graph_id" }]

def GraphRoot.strayArtifacts (artifacts : List ArtifactDeclaration) : GraphRoot → List RegistryDiag
  | .skill => []
  | .registry slot =>
    if artifacts.isEmpty then [] else [{
      path := .graphFile (.registry slot)
      code := "[F-v3-artifact-declaration-invalid]"
      message := "artifacts may be declared only by the root graph"
      fieldPath := "artifacts" }]

structure RegistryScan where
  byId : Dict String CompiledGraph := ∅
  diags : List RegistryDiag := []

def scanGraph (skillRoot : String) (s : RegistryScan) (graph : CompiledGraph) : RegistryScan :=
  let duplicate : RegistryScan :=
    match s.byId.get? graph.graphId with
    | some existing =>
      { s with diags := s.diags ++ [{
          path := .graphFile graph.graphRoot
          code := "[F-v3-graph-id-duplicate]"
          message := "graph_id '" ++ graph.graphId ++ "' is also declared by " ++
            existing.graphRoot.text skillRoot
          fieldPath := "graph_id" }] }
    | none => { s with byId := s.byId.set graph.graphId graph }
  { duplicate with diags := duplicate.diags ++ graph.graphRoot.mismatch graph.graphId ++
      graph.graphRoot.strayArtifacts graph.artifacts }

def unknownArtifactFields (graph : CompiledGraph) (index : ℕ) (artifact : ArtifactDeclaration) :
    List RegistryDiag :=
  let unknown := sortKeys (artifact.fields.dedup.filter (· ∉ graph.outputFields))
  if unknown.isEmpty then [] else [{
    path := .graphFile graph.graphRoot
    code := "[F-v3-artifact-declaration-invalid]"
    message := "artifact '" ++ artifact.artifactId ++ "' names unknown graph output fields: " ++
      ", ".intercalate unknown
    fieldPath := "artifacts." ++ toString index ++ ".fields" }]

def artifactDiags (graphs : List CompiledGraph) : List RegistryDiag :=
  match graphs.find? (fun graph => graph.graphRoot = .skill) with
  | none => []
  | some root => (root.artifacts.zipIdx.map (fun entry => unknownArtifactFields root entry.2 entry.1)).flatten

def CallingPhase.refs (phase : CallingPhase) : List (String × String) :=
  match phase.calls with
  | .logic => []
  | .subgraph graph => [(graph, "graph")]
  | .agent subgraphs => subgraphs.map (fun graph => (graph, "subgraphs"))

def registryIds (graphs : List CompiledGraph) : List String :=
  (graphs.filter (fun graph => graph.graphRoot ≠ .skill)).map CompiledGraph.graphId

structure CallScan where
  adjacency : Dict String (List String)
  edgeSources : Dict (String × String) (RegistryPath × String) := ∅
  diags : List RegistryDiag := []

structure CallRef where
  graphId : String
  path : RegistryPath
  target : String
  fieldPath : String

def callRefs (byId : Dict String CompiledGraph) : List CallRef :=
  byId.entries.flatMap (fun entry => entry.2.nodes.flatMap (fun phase => phase.refs.map (fun ref =>
    ⟨entry.1, .phaseFile entry.2.graphRoot phase.phaseName, ref.1, ref.2⟩)))

def scanCall (known : List String) (s : CallScan) (ref : CallRef) : CallScan :=
  if ref.target ∉ known then
    { s with diags := s.diags ++ [{
        path := ref.path
        code := "[F-v3-graph-reference-unknown]"
        message := "graph '" ++ ref.graphId ++ "' references graph '" ++ ref.target ++
          "', which is not in the flat registry"
        fieldPath := ref.fieldPath }] }
  else if ref.target ∉ s.adjacency.keys then s
  else
    { s with
      adjacency := s.adjacency.set ref.graphId ((targets s.adjacency ref.graphId).insert ref.target)
      edgeSources := s.edgeSources.set (ref.graphId, ref.target) (ref.path, ref.fieldPath) }

def scanCalls (known : List String) (byId : Dict String CompiledGraph) : CallScan :=
  (callRefs byId).foldl (scanCall known) { adjacency := byId.mapValues (fun _ _ => []) }

structure CallCycles where
  reported : List (List String) := []
  diags : List RegistryDiag := []

def recordCallCycle (edgeSources : Dict (String × String) (RegistryPath × String)) (stack : List String)
    (graphId target : String) (found : CallCycles) : CallCycles :=
  let cycle := stack.dropWhile (· ≠ target) ++ [target]
  let normalized := sortKeys cycle.dedup
  if normalized ∈ found.reported then found
  else
    { reported := normalized :: found.reported
      diags := found.diags ++ (edgeSources.get? (graphId, target)).toList.map (fun source =>
        { path := source.1
          code := callCycleCode
          message := "graph call cycle detected: " ++ " -> ".intercalate cycle
          fieldPath := source.2 }) }

def callCycles (s : CallScan) : CallCycles :=
  (search (s.adjacency.mapValues (fun _ called => sortKeys called)) (recordCallCycle s.edgeSources) {}).found

def validateGraphRegistry (skillRoot : String) (graphs : List CompiledGraph) (registrySlots : List String) :
    List RegistryDiag :=
  let scan := graphs.foldl (scanGraph skillRoot) {}
  let calls := scanCalls (registryIds graphs ++ registrySlots) scan.byId
  scan.diags ++ artifactDiags graphs ++ calls.diags ++ (callCycles calls).diags

inductive AssembledGraph where
  | leaf (phaseName : String)
  | subgraph (phaseName : String) (graph : List AssembledGraph)

inductive AssemblyFault where
  | exhausted
  | fatal (diag : RegistryDiag)

def buildPhaseNode (graphRegistry : Dict String CompiledGraph)
    (assemble : CompiledGraph → Except AssemblyFault (List AssembledGraph)) (graph : CompiledGraph)
    (phase : CallingPhase) : Except AssemblyFault AssembledGraph :=
  match phase.calls with
  | .subgraph target =>
    match graphRegistry.get? target with
    | none => .error (.fatal {
        path := .phaseFile graph.graphRoot phase.phaseName
        code := "[F-v3-graph-reference-unknown]"
        message := "graph registry does not contain '" ++ target ++ "'"
        fieldPath := "graph" })
    | some sub => (assemble sub).map (.subgraph phase.phaseName)
  | _ => .ok (.leaf phase.phaseName)

def assembleGraph (graphRegistry : Dict String CompiledGraph) :
    ℕ → CompiledGraph → Except AssemblyFault (List AssembledGraph)
  | 0, _ => .error .exhausted
  | fuel + 1, graph =>
    graph.nodes.mapM (buildPhaseNode graphRegistry (assembleGraph graphRegistry fuel) graph)

namespace BusinessSkill

def graphs (skill : BusinessSkill) : List CompiledGraph := skill.root :: skill.registry

def registrySlots (skill : BusinessSkill) : List String :=
  skill.registry.filterMap (fun graph => graph.graphRoot.slot?)

def diags (skill : BusinessSkill) : List RegistryDiag :=
  validateGraphRegistry skill.skillRoot skill.graphs skill.registrySlots

def graphRegistry (skill : BusinessSkill) : Dict String CompiledGraph :=
  Dict.ofList (skill.graphs.map (fun graph => (graph.graphId, graph)))

end BusinessSkill

theorem foldl_scanGraph_byId (skillRoot : String) (graphs : List CompiledGraph) (s : RegistryScan) (id : String) :
    (graphs.foldl (scanGraph skillRoot) s).byId.get? id =
      (s.byId.get? id).or (graphs.find? (fun graph => graph.graphId = id)) := by
  induction graphs generalizing s with
  | nil => simp
  | cons graph graphs ih =>
    rw [List.foldl_cons, ih, List.find?_cons]
    simp only [scanGraph]
    by_cases hid : graph.graphId = id
    · subst hid
      cases h : s.byId.get? graph.graphId <;> simp [h]
    · cases h : s.byId.get? graph.graphId <;> simp [hid]

theorem foldl_scanGraph_code (skillRoot : String) (graphs : List CompiledGraph) :
    ∀ d ∈ (graphs.foldl (scanGraph skillRoot) {}).diags, d.code ≠ callCycleCode := by
  apply foldl_invariant (I := fun s : RegistryScan => ∀ d ∈ s.diags, d.code ≠ callCycleCode)
  · intro s graph _ hs d hd
    have hmismatch : ∀ d ∈ graph.graphRoot.mismatch graph.graphId, d.code ≠ callCycleCode := by
      cases graph.graphRoot with
      | skill => simp [GraphRoot.mismatch]
      | registry slot =>
        intro d hd
        rw [GraphRoot.mismatch] at hd
        split_ifs at hd
        · simp at hd
        · rw [List.mem_singleton.mp hd]
          simp [callCycleCode]
    have hstray : ∀ d ∈ graph.graphRoot.strayArtifacts graph.artifacts, d.code ≠ callCycleCode := by
      cases graph.graphRoot with
      | skill => simp [GraphRoot.strayArtifacts]
      | registry slot =>
        intro d hd
        rw [GraphRoot.strayArtifacts] at hd
        split_ifs at hd
        · simp at hd
        · rw [List.mem_singleton.mp hd]
          simp [callCycleCode]
    simp only [scanGraph, List.mem_append] at hd
    rcases hd with (hd | hd) | hd
    · cases h : s.byId.get? graph.graphId with
      | none =>
        simp only [h] at hd
        exact hs d hd
      | some existing =>
        simp only [h, List.mem_append, List.mem_singleton] at hd
        rcases hd with hd | rfl
        · exact hs d hd
        · simp [callCycleCode]
    · exact hmismatch d hd
    · exact hstray d hd
  · simp

theorem artifactDiags_code (graphs : List CompiledGraph) : ∀ d ∈ artifactDiags graphs, d.code ≠ callCycleCode := by
  intro d hd
  unfold artifactDiags at hd
  split at hd
  · simp at hd
  · rename_i root _
    obtain ⟨l, hl, hd⟩ := List.mem_flatten.mp hd
    obtain ⟨entry, -, rfl⟩ := List.mem_map.mp hl
    simp only [unknownArtifactFields] at hd
    split_ifs at hd
    · simp at hd
    · rw [List.mem_singleton.mp hd]
      simp [callCycleCode]

section Calls

variable (known : List String) (byId : Dict String CompiledGraph)

def SameKeys (s : CallScan) : Prop := ∀ name, name ∈ s.adjacency.keys ↔ name ∈ byId.keys

theorem callRefs_graphId {byId : Dict String CompiledGraph} {ref : CallRef} (h : ref ∈ callRefs byId) :
    ref.graphId ∈ byId.keys := by
  simp only [callRefs, List.mem_flatMap, List.mem_map] at h
  obtain ⟨entry, hentry, -, -, -, -, rfl⟩ := h
  exact List.mem_map_of_mem hentry

theorem scanCall_sameKeys {s : CallScan} {ref : CallRef} (href : ref.graphId ∈ byId.keys) (h : SameKeys byId s) :
    SameKeys byId (scanCall known s ref) := by
  unfold scanCall
  split_ifs
  · intro name
    rw [Dict.mem_keys, Dict.get?_set]
    split_ifs with hn
    · simp [← hn, href]
    · rw [← Dict.mem_keys]
      exact h name
  · exact h
  · exact h

theorem scanCall_edge {s : CallScan} {ref : CallRef} (h : SameKeys byId s) (a b : String) :
    Edge (scanCall known s ref).adjacency a b ↔ Edge s.adjacency a b ∨
      (ref.graphId = a ∧ ref.target = b ∧ b ∈ known ∧ b ∈ byId.keys) := by
  unfold scanCall
  split_ifs with hknown hkey
  · rw [h ref.target] at hkey
    by_cases ha : ref.graphId = a
    · subst ha
      by_cases hb : ref.target = b
      · subst hb
        simp [Edge, targets, hknown, hkey]
      · simp [Edge, targets, hb, Ne.symm hb]
    · simp [Edge, targets, ha]
  · rw [h ref.target] at hkey
    refine ⟨Or.inl, fun hor => hor.resolve_right ?_⟩
    rintro ⟨-, rfl, -, hb⟩
    exact hkey hb
  · refine ⟨Or.inl, fun hor => hor.resolve_right ?_⟩
    rintro ⟨-, rfl, hb, -⟩
    exact hknown hb

theorem sameKeys_start : SameKeys byId { adjacency := byId.mapValues (fun _ _ => []) } := by
  intro name
  rw [Dict.mem_keys, Dict.get?_mapValues, Option.isSome_map, ← Dict.mem_keys]

theorem scanCalls_edge (a b : String) : Edge (scanCalls known byId).adjacency a b ↔
    ∃ ref ∈ callRefs byId, ref.graphId = a ∧ ref.target = b ∧ b ∈ known ∧ b ∈ byId.keys := by
  have hempty : ¬ Edge (byId.mapValues (fun _ _ => ([] : List String))) a b := by
    rw [Edge, targets, Dict.get?_mapValues]
    cases byId.get? a <;> simp
  rw [scanCalls, foldl_or_iff_of (I := SameKeys byId) (P := fun s : CallScan => Edge s.adjacency a b)
    (fun s ref href hs => scanCall_sameKeys known byId (callRefs_graphId href) hs)
    (fun s ref href hs => scanCall_edge known byId hs a b) (sameKeys_start byId)]
  simp only [hempty, false_or]

theorem scanCalls_sources {a b : String} (h : Edge (scanCalls known byId).adjacency a b) :
    ((scanCalls known byId).edgeSources.get? (a, b)).isSome := by
  revert h
  apply foldl_invariant (I := fun s : CallScan => Edge s.adjacency a b → (s.edgeSources.get? (a, b)).isSome)
  · intro s ref _ hs
    unfold scanCall
    split_ifs
    · intro hedge
      rw [Dict.get?_set]
      split_ifs with heq
      · rfl
      · apply hs
        by_cases ha : ref.graphId = a
        · subst ha
          have hb : b ≠ ref.target := fun hb => heq (by rw [hb])
          simpa [Edge, targets, hb] using hedge
        · simpa [Edge, targets, ha] using hedge
    · exact hs
    · exact hs
  · intro hedge
    rw [Edge, targets, Dict.get?_mapValues] at hedge
    cases h : byId.get? a <;> simp [h] at hedge

theorem scanCalls_diags :
    (scanCalls known byId).diags = [] ↔ ∀ ref ∈ callRefs byId, ref.target ∈ known := by
  have hstep : ∀ (s : CallScan) (ref : CallRef),
      (scanCall known s ref).diags = [] ↔ s.diags = [] ∧ ref.target ∈ known := by
    intro s ref
    unfold scanCall
    split_ifs with hknown hkey <;> simp [hknown]
  rw [scanCalls, foldl_and_iff (P := fun s : CallScan => s.diags = []) (fun s ref _ => hstep s ref)]
  simp

theorem scanCalls_code : ∀ d ∈ (scanCalls known byId).diags, d.code ≠ callCycleCode := by
  apply foldl_invariant (I := fun s : CallScan => ∀ d ∈ s.diags, d.code ≠ callCycleCode)
  · intro s ref _ hs d hd
    unfold scanCall at hd
    split_ifs at hd
    · exact hs d hd
    · exact hs d hd
    · rcases List.mem_append.mp hd with hd | hd
      · exact hs d hd
      · rw [List.mem_singleton.mp hd]
        simp [callCycleCode]
  · simp

end Calls

theorem edge_sorted (adjacency : Dict String (List String)) :
    Edge (adjacency.mapValues (fun _ called => sortKeys called)) = Edge adjacency := by
  funext a b
  rw [eq_iff_iff, Edge, Edge, targets, targets, Dict.get?_mapValues]
  cases adjacency.get? a <;> simp [sortKeys]

theorem callCycles_of_acyclic {s : CallScan} (h : ∀ id, ¬ TransGen (Edge s.adjacency) id id) :
    callCycles s = {} := by
  apply search_found_of_acyclic
  rw [edge_sorted]
  exact h

theorem callCycles_reported (known : List String) (byId : Dict String CompiledGraph) :
    (∃ d ∈ (callCycles (scanCalls known byId)).diags, d.code = callCycleCode) ↔
      ∃ id, TransGen (Edge (scanCalls known byId).adjacency) id id := by
  have hsound : ∀ found : CallCycles, found = callCycles (scanCalls known byId) →
      (found.reported ≠ [] → found.diags ≠ []) ∧ ∀ d ∈ found.diags, d.code = callCycleCode := by
    rintro _ rfl
    apply search_found_invariant
      (P := fun found : CallCycles => (found.reported ≠ [] → found.diags ≠ []) ∧
        ∀ d ∈ found.diags, d.code = callCycleCode)
    · intro stack graphId target found hedge hfound
      rw [edge_sorted] at hedge
      obtain ⟨source, hsource⟩ := Option.isSome_iff_exists.mp (scanCalls_sources known byId hedge)
      simp only [recordCallCycle, hsource]
      split_ifs
      · exact hfound
      · refine ⟨fun _ => by simp, fun d hd => ?_⟩
        rcases List.mem_append.mp hd with hd | hd
        · exact hfound.2 d hd
        · obtain rfl : d = _ := by simpa using hd
          rfl
    · simp
  constructor
  · rintro ⟨d, hd, -⟩
    by_contra hno
    rw [callCycles_of_acyclic (not_exists.mp hno)] at hd
    simp at hd
  · rintro ⟨id, hcycle⟩
    obtain ⟨hreported, hcode⟩ := hsound _ rfl
    have hne : (callCycles (scanCalls known byId)).reported ≠ [] := by
      intro hnil
      have hacyclic := acyclic_of_search (P := fun found : CallCycles => found.reported = [])
        (fun stack graphId target found => ?_) hnil
      · rw [edge_sorted] at hacyclic
        exact hacyclic id hcycle
      · simp only [recordCallCycle]
        split_ifs with hmem
        · exact List.ne_nil_of_mem hmem
        · simp
    obtain ⟨d, hd⟩ := List.exists_mem_of_ne_nil _ (hreported hne)
    exact ⟨d, hd, hcode d hd⟩

def CompiledGraph.callTargets (graph : CompiledGraph) : List String :=
  graph.nodes.flatMap (fun phase => phase.refs.map Prod.fst)

namespace BusinessSkill

variable {skill : BusinessSkill}

def DistinctIds (skill : BusinessSkill) : Prop := (skill.graphs.map CompiledGraph.graphId).Nodup

def Call (skill : BusinessSkill) (a b : String) : Prop :=
  (∃ graph ∈ skill.graphs, graph.graphId = a ∧ b ∈ graph.callTargets) ∧
    ∃ called ∈ skill.registry, called.graphId = b

/--
A call as it is resolved: a registry directory with the id of the root graph makes the root a target as
well.
-/
def ResolvedCall (skill : BusinessSkill) (a b : String) : Prop :=
  (∃ graph ∈ skill.graphs, graph.graphId = a ∧ b ∈ graph.callTargets) ∧
    ((∃ called ∈ skill.registry, called.graphId = b) ∨
      (b = skill.root.graphId ∧ b ∈ skill.registrySlots))

def ReportsCallCycle (skill : BusinessSkill) : Prop := ∃ d ∈ skill.diags, d.code = callCycleCode

def byId (skill : BusinessSkill) : Dict String CompiledGraph :=
  (skill.graphs.foldl (scanGraph skill.skillRoot) {}).byId

def calls (skill : BusinessSkill) : CallScan :=
  scanCalls (registryIds skill.graphs ++ skill.registrySlots) skill.byId

theorem mem_registryIds {id : String} :
    id ∈ registryIds skill.graphs ↔ ∃ called ∈ skill.registry, called.graphId = id := by
  simp only [registryIds, graphs, List.mem_map, List.mem_filter, List.mem_cons, decide_eq_true_eq]
  constructor
  · rintro ⟨graph, ⟨rfl | hg, hplace⟩, rfl⟩
    · exact absurd skill.root_place hplace
    · exact ⟨graph, hg, rfl⟩
  · rintro ⟨graph, hg, rfl⟩
    exact ⟨graph, ⟨Or.inr hg, skill.registry_place graph hg⟩, rfl⟩

theorem reportsCallCycle_iff :
    skill.ReportsCallCycle ↔ ∃ id, TransGen (Edge skill.calls.adjacency) id id := by
  rw [calls, ← callCycles_reported, ReportsCallCycle, diags, validateGraphRegistry]
  simp only [List.mem_append]
  constructor
  · rintro ⟨d, ((hd | hd) | hd) | hd, hcode⟩
    · exact absurd hcode (foldl_scanGraph_code _ _ d hd)
    · exact absurd hcode (artifactDiags_code _ d hd)
    · exact absurd hcode (scanCalls_code _ _ d hd)
    · exact ⟨d, hd, hcode⟩
  · rintro ⟨d, hd, hcode⟩
    exact ⟨d, Or.inr hd, hcode⟩

theorem byId_get? (hd : skill.DistinctIds) {id : String} {graph : CompiledGraph} :
    skill.byId.get? id = some graph ↔ graph ∈ skill.graphs ∧ graph.graphId = id := by
  have hget : skill.byId.get? id = skill.graphs.find? (fun graph => graph.graphId = id) := by
    rw [byId, foldl_scanGraph_byId]
    simp
  rw [hget]
  constructor
  · intro h
    exact ⟨List.mem_of_find?_eq_some h, by simpa using List.find?_some h⟩
  · rintro ⟨hg, rfl⟩
    cases hfind : skill.graphs.find? (fun other => other.graphId = graph.graphId) with
    | none => simpa using List.find?_eq_none.mp hfind graph hg
    | some other =>
      have hother : other.graphId = graph.graphId := by simpa using List.find?_some hfind
      rw [List.inj_on_of_nodup_map hd (List.mem_of_find?_eq_some hfind) hg hother]

theorem mem_callRefs (hd : skill.DistinctIds) {a b : String} :
    (∃ ref ∈ callRefs skill.byId, ref.graphId = a ∧ ref.target = b) ↔
      ∃ graph ∈ skill.graphs, graph.graphId = a ∧ b ∈ graph.callTargets := by
  simp only [callRefs, CompiledGraph.callTargets, List.mem_flatMap, List.mem_map]
  constructor
  · rintro ⟨_, ⟨entry, hentry, phase, hphase, ref, href, rfl⟩, rfl, rfl⟩
    obtain ⟨hg, hid⟩ := (byId_get? hd).mp (Dict.get?_mem.mpr hentry)
    exact ⟨entry.2, hg, hid, phase, hphase, ref, href, rfl⟩
  · rintro ⟨graph, hg, rfl, phase, hphase, ref, href, rfl⟩
    have hentry := Dict.get?_mem.mp ((byId_get? hd).mpr ⟨hg, rfl⟩)
    exact ⟨_, ⟨(graph.graphId, graph), hentry, phase, hphase, ref, href, rfl⟩, rfl, rfl⟩

theorem edge_iff_resolvedCall (hd : skill.DistinctIds) : Edge skill.calls.adjacency = skill.ResolvedCall := by
  funext a b
  have hkey : b ∈ skill.byId.keys ↔ ∃ graph ∈ skill.graphs, graph.graphId = b := by
    rw [Dict.mem_keys, Option.isSome_iff_exists]
    exact exists_congr fun graph => byId_get? hd
  rw [eq_iff_iff, calls, scanCalls_edge, ResolvedCall, ← mem_callRefs hd]
  have hknown : b ∈ registryIds skill.graphs ++ skill.registrySlots ∧ b ∈ skill.byId.keys ↔
      (∃ called ∈ skill.registry, called.graphId = b) ∨
        (b = skill.root.graphId ∧ b ∈ skill.registrySlots) := by
    rw [List.mem_append, mem_registryIds, hkey]
    constructor
    · rintro ⟨hreg | hslot, graph, hg, hid⟩
      · exact Or.inl hreg
      · rcases List.mem_cons.mp hg with rfl | hg
        · exact Or.inr ⟨hid.symm, hslot⟩
        · exact Or.inl ⟨graph, hg, hid⟩
    · rintro (⟨called, hc, rfl⟩ | ⟨rfl, hslot⟩)
      · exact ⟨Or.inl ⟨called, hc, rfl⟩, called, List.mem_cons_of_mem _ hc, rfl⟩
      · exact ⟨Or.inr hslot, skill.root, List.mem_cons_self .., rfl⟩
  rw [← hknown]
  constructor
  · rintro ⟨ref, href, ha, hb, hrest⟩
    exact ⟨⟨ref, href, ha, hb⟩, hrest⟩
  · rintro ⟨⟨ref, href, ha, hb⟩, hrest⟩
    exact ⟨ref, href, ha, hb, hrest⟩

theorem resolvedCall_eq_call (h : skill.root.graphId ∉ skill.registrySlots) :
    skill.ResolvedCall = skill.Call := by
  funext a b
  rw [eq_iff_iff]
  refine and_congr_right fun _ => ⟨fun hor => hor.resolve_right ?_, Or.inl⟩
  rintro ⟨rfl, hslot⟩
  exact h hslot

theorem scanGraph_diags {skillRoot : String} {s : RegistryScan} {graph : CompiledGraph}
    (h : (scanGraph skillRoot s graph).diags = []) :
    s.diags = [] ∧ s.byId.get? graph.graphId = none ∧ graph.graphRoot.mismatch graph.graphId = [] ∧
      (scanGraph skillRoot s graph).byId = s.byId.set graph.graphId graph := by
  simp only [scanGraph] at h ⊢
  cases hget : s.byId.get? graph.graphId with
  | none =>
    simp only [hget, List.append_eq_nil_iff] at h ⊢
    exact ⟨h.1.1, trivial, h.1.2, trivial⟩
  | some existing => simp [hget] at h

theorem foldl_scanGraph_diags {skillRoot : String} {graphs : List CompiledGraph} {s : RegistryScan}
    (h : (graphs.foldl (scanGraph skillRoot) s).diags = []) :
    s.diags = [] ∧ (graphs.map CompiledGraph.graphId).Nodup ∧
      ∀ graph ∈ graphs, s.byId.get? graph.graphId = none ∧ graph.graphRoot.mismatch graph.graphId = [] := by
  induction graphs generalizing s with
  | nil => exact ⟨h, List.nodup_nil, by simp⟩
  | cons graph graphs ih =>
    obtain ⟨hdiags, hnodup, hrest⟩ := ih h
    obtain ⟨hs, hfree, hmismatch, hbyId⟩ := scanGraph_diags hdiags
    have hother : ∀ other ∈ graphs, graph.graphId ≠ other.graphId ∧ s.byId.get? other.graphId = none := by
      intro other ho
      have hnone := (hrest other ho).1
      rw [hbyId, Dict.get?_set] at hnone
      split_ifs at hnone with hid
      exact ⟨hid, hnone⟩
    refine ⟨hs, ?_, fun other ho => ?_⟩
    · rw [List.map_cons, List.nodup_cons]
      refine ⟨fun hm => ?_, hnodup⟩
      obtain ⟨other, ho, hid⟩ := List.mem_map.mp hm
      exact (hother other ho).1 hid.symm
    · rcases List.mem_cons.mp ho with rfl | ho
      · exact ⟨hfree, hmismatch⟩
      · exact ⟨(hother other ho).2, (hrest other ho).2⟩

structure Compiles (skill : BusinessSkill) : Prop where
  distinct : skill.DistinctIds
  matched : ∀ graph ∈ skill.registry, graph.graphRoot = .registry graph.graphId
  known : ∀ graph ∈ skill.graphs, ∀ target ∈ graph.callTargets,
    target ∈ registryIds skill.graphs ++ skill.registrySlots
  acyclic : ∀ id, ¬ TransGen skill.ResolvedCall id id

theorem compiles_of_diags (h : skill.diags = []) : skill.Compiles := by
  have hno : ¬ skill.ReportsCallCycle := by
    rintro ⟨d, hd, -⟩
    rw [h] at hd
    simp at hd
  rw [diags, validateGraphRegistry] at h
  simp only [List.append_eq_nil_iff] at h
  obtain ⟨⟨⟨hscan, -⟩, hcalls⟩, -⟩ := h
  obtain ⟨-, hdistinct, hgraphs⟩ := foldl_scanGraph_diags hscan
  refine ⟨hdistinct, fun graph hg => ?_, fun graph hg target ht => ?_, fun id hcycle => ?_⟩
  · have hmismatch := (hgraphs graph (List.mem_cons_of_mem _ hg)).2
    have hplace := skill.registry_place graph hg
    cases hroot : graph.graphRoot with
    | skill => exact absurd hroot hplace
    | registry slot =>
      rw [hroot, GraphRoot.mismatch] at hmismatch
      split_ifs at hmismatch with hslot
      rw [hslot]
  · obtain ⟨ref, href, -, rfl⟩ := (mem_callRefs hdistinct).mpr ⟨graph, hg, rfl, ht⟩
    exact (scanCalls_diags _ _).mp hcalls ref href
  · rw [reportsCallCycle_iff, edge_iff_resolvedCall hdistinct] at hno
    exact hno ⟨id, hcycle⟩

theorem Compiles.called (h : skill.Compiles) {graph : CompiledGraph} (hg : graph ∈ skill.graphs)
    {target : String} (ht : target ∈ graph.callTargets) :
    ∃ called ∈ skill.graphs, skill.graphRegistry.get? target = some called ∧ called.graphId = target ∧
      skill.ResolvedCall graph.graphId target := by
  have hregistry : ∃ called ∈ skill.registry, called.graphId = target := by
    rcases List.mem_append.mp (h.known graph hg target ht) with hid | hslot
    · exact mem_registryIds.mp hid
    · obtain ⟨called, hc, hslot⟩ := List.mem_filterMap.mp hslot
      rw [h.matched called hc] at hslot
      exact ⟨called, hc, Option.some.inj hslot⟩
  obtain ⟨called, hc, rfl⟩ := hregistry
  have hcalled : called ∈ skill.graphs := List.mem_cons_of_mem _ hc
  refine ⟨called, hcalled, ?_, rfl, ⟨graph, hg, rfl, ht⟩, Or.inl ⟨called, hc, rfl⟩⟩
  apply Dict.get?_ofList_of_mem
  · rw [List.map_map]
    exact h.distinct
  · exact List.mem_map_of_mem hcalled

end BusinessSkill

theorem mapM_eventually {α β ε : Type} {f : ℕ → α → Except ε β} {xs : List α}
    (h : ∀ x ∈ xs, ∃ n y, ∀ fuel ≥ n, f fuel x = .ok y) :
    ∃ n ys, ∀ fuel ≥ n, xs.mapM (f fuel) = .ok ys := by
  induction xs with
  | nil => exact ⟨0, [], fun fuel _ => rfl⟩
  | cons x xs ih =>
    obtain ⟨n, y, hy⟩ := h x (List.mem_cons_self ..)
    obtain ⟨m, ys, hys⟩ := ih (fun z hz => h z (List.mem_cons_of_mem _ hz))
    refine ⟨max n m, y :: ys, fun fuel hfuel => ?_⟩
    rw [List.mapM_cons, hy fuel (le_of_max_le_left hfuel), hys fuel (le_of_max_le_right hfuel)]
    rfl

theorem BusinessSkill.Compiles.assembles {skill : BusinessSkill} (h : skill.Compiles) {graph : CompiledGraph}
    (hg : graph ∈ skill.graphs) :
    ∃ n assembled, ∀ fuel ≥ n, assembleGraph skill.graphRegistry fuel graph = .ok assembled := by
  have hacyclic : ∀ id, ¬ TransGen (Function.swap skill.ResolvedCall) id id := by
    intro id hcycle
    exact h.acyclic id (transGen_swap.mp hcycle)
  have hwf := wellFounded_of_acyclic hacyclic (skill.graphs.map CompiledGraph.graphId)
  -- a graph is assembled after every graph it calls
  have hall : ∀ id : {id // id ∈ skill.graphs.map CompiledGraph.graphId}, ∀ graph ∈ skill.graphs,
      graph.graphId = id.1 →
        ∃ n assembled, ∀ fuel ≥ n, assembleGraph skill.graphRegistry fuel graph = .ok assembled := by
    intro id
    induction id using hwf.induction with
    | _ id ih =>
    intro graph hg hid
    have hphase : ∀ phase ∈ graph.nodes, ∃ n built, ∀ fuel ≥ n,
        buildPhaseNode skill.graphRegistry (assembleGraph skill.graphRegistry fuel) graph phase = .ok built := by
      intro phase hp
      cases hcalls : phase.calls with
      | logic => exact ⟨0, .leaf phase.phaseName, fun fuel _ => by rw [buildPhaseNode, hcalls]⟩
      | agent subgraphs => exact ⟨0, .leaf phase.phaseName, fun fuel _ => by rw [buildPhaseNode, hcalls]⟩
      | subgraph target =>
        have ht : target ∈ graph.callTargets :=
          List.mem_flatMap.mpr ⟨phase, hp, by simp [CallingPhase.refs, hcalls]⟩
        obtain ⟨called, hc, hget, rfl, hcall⟩ := h.called hg ht
        have hbelow : TransGen (Function.swap skill.ResolvedCall) called.graphId id.1 := .single (hid ▸ hcall)
        obtain ⟨n, sub, hsub⟩ := ih ⟨called.graphId, List.mem_map_of_mem hc⟩ hbelow called hc rfl
        refine ⟨n, .subgraph phase.phaseName sub, fun fuel hfuel => ?_⟩
        simp only [buildPhaseNode, hcalls, hget, hsub fuel hfuel]
        rfl
    obtain ⟨n, assembled, hn⟩ := mapM_eventually hphase
    refine ⟨n + 1, assembled, fun fuel hfuel => ?_⟩
    obtain ⟨fuel, rfl⟩ := Nat.exists_eq_add_of_le' (Nat.le_of_add_left_le hfuel)
    exact hn fuel (by omega)
  exact hall ⟨graph.graphId, List.mem_map_of_mem hg⟩ graph hg rfl

theorem BusinessSkill.reportsCallCycle_iff_resolved {skill : BusinessSkill} (hd : skill.DistinctIds) :
    skill.ReportsCallCycle ↔ ∃ id, TransGen skill.ResolvedCall id id := by
  rw [BusinessSkill.reportsCallCycle_iff, BusinessSkill.edge_iff_resolvedCall hd]

theorem call_cycles_and_assembly (skill : BusinessSkill) :
    (skill.DistinctIds → (skill.ReportsCallCycle ↔ ∃ id, TransGen skill.ResolvedCall id id)) ∧
    (skill.DistinctIds → skill.root.graphId ∉ skill.registrySlots →
      (skill.ReportsCallCycle ↔ ∃ id, TransGen skill.Call id id)) ∧
    (skill.diags = [] → ∀ graph ∈ skill.graphs, ∃ n assembled, ∀ fuel ≥ n,
      assembleGraph skill.graphRegistry fuel graph = .ok assembled) := by
  refine ⟨BusinessSkill.reportsCallCycle_iff_resolved, fun hd hroot => ?_, fun h graph hg => ?_⟩
  · rw [BusinessSkill.reportsCallCycle_iff_resolved hd, BusinessSkill.resolvedCall_eq_call hroot]
  · exact (BusinessSkill.compiles_of_diags h).assembles hg

def loopingSkill : BusinessSkill where
  skillRoot := "/skills/book"
  root := ⟨"book", .skill, [], [], [⟨"write", .subgraph "chapter"⟩]⟩
  registry := [⟨"chapter", .registry "chapter", [], [], [⟨"draft", .agent ["chapter"]⟩]⟩]
  root_place := rfl
  registry_place := by decide

def plainSkill : BusinessSkill where
  skillRoot := "/skills/book"
  root := ⟨"book", .skill, [], [], [⟨"plan", .logic⟩, ⟨"write", .subgraph "chapter"⟩]⟩
  registry := [⟨"chapter", .registry "chapter", [], [], [⟨"draft", .logic⟩]⟩]
  root_place := rfl
  registry_place := by decide

theorem plainSkill_diags : plainSkill.diags = [] := by
  have hcycles : callCycles plainSkill.calls = {} := by
    apply callCycles_of_acyclic
    -- the only call leads from the book to the chapter
    have hedge {a b : String} (h : Edge plainSkill.calls.adjacency a b) : a = "book" ∧ b = "chapter" := by
      obtain ⟨ref, href, rfl, rfl, -⟩ := (scanCalls_edge _ _ _ _).mp h
      obtain rfl := List.mem_singleton.mp href
      exact ⟨rfl, rfl⟩
    intro id hcycle
    obtain ⟨next, hfirst, -⟩ := TransGen.head'_iff.mp hcycle
    obtain ⟨last, -, hlast⟩ := TransGen.tail'_iff.mp hcycle
    have hbook := (hedge hfirst).1
    rw [(hedge hlast).2] at hbook
    simp at hbook
  exact congrArg CallCycles.diags hcycles

theorem looping_skill_reported_plain_skill_assembled :
    loopingSkill.ReportsCallCycle ∧ ∀ graph ∈ plainSkill.graphs, ∃ n assembled, ∀ fuel ≥ n,
      assembleGraph plainSkill.graphRegistry fuel graph = .ok assembled := by
  have hloop := call_cycles_and_assembly loopingSkill
  constructor
  · refine (hloop.2.1 ?_ ?_).mpr ⟨"chapter", .single ⟨⟨_, List.mem_cons_of_mem _ (List.mem_cons_self ..), rfl, ?_⟩,
      _, List.mem_cons_self .., rfl⟩⟩
    · unfold BusinessSkill.DistinctIds
      decide
    · decide
    · decide
  · exact (call_cycles_and_assembly plainSkill).2.2 plainSkill_diags

/-- The registry directory `book` carries the id of the root graph and holds the graph `notes`. -/
def clashingSkill : BusinessSkill where
  skillRoot := "/skills/book"
  root := ⟨"book", .skill, [], [], [⟨"write", .subgraph "chapter"⟩]⟩
  registry := [⟨"notes", .registry "book", [], [], [⟨"collect", .logic⟩]⟩,
    ⟨"chapter", .registry "chapter", [], [], [⟨"draft", .subgraph "book"⟩]⟩]
  root_place := rfl
  registry_place := by decide

theorem root_directory_reports_missing_cycle :
    clashingSkill.DistinctIds ∧ clashingSkill.ReportsCallCycle ∧
      ¬ ∃ id, TransGen clashingSkill.Call id id := by
  have hd : clashingSkill.DistinctIds := by
    unfold BusinessSkill.DistinctIds
    decide
  have hcall : ∀ a b, clashingSkill.Call a b → a = "book" ∧ b = "chapter" := by
    rintro a b ⟨⟨graph, hg, rfl, hb⟩, called, hc, rfl⟩
    simp only [BusinessSkill.graphs, clashingSkill, List.mem_cons, List.not_mem_nil, or_false] at hg hc
    rcases hg with rfl | rfl | rfl <;> rcases hc with rfl | rfl <;>
      simp [CompiledGraph.callTargets, CallingPhase.refs] at hb ⊢
  refine ⟨hd, ?_, ?_⟩
  · rw [BusinessSkill.reportsCallCycle_iff_resolved hd]
    refine ⟨"book", .head (b := "chapter") ?_ (.single ?_)⟩
    · exact ⟨⟨_, List.mem_cons_self .., rfl, by decide⟩,
        Or.inl ⟨_, List.mem_cons_of_mem _ (List.mem_cons_self ..), rfl⟩⟩
    · exact ⟨⟨_, List.mem_cons_of_mem _ (List.mem_cons_of_mem _ (List.mem_cons_self ..)), rfl, by decide⟩,
        Or.inr ⟨rfl, by decide⟩⟩
  · rintro ⟨id, hcycle⟩
    obtain ⟨next, hfirst, -⟩ := TransGen.head'_iff.mp hcycle
    obtain ⟨prev, -, hlast⟩ := TransGen.tail'_iff.mp hcycle
    have hbook := (hcall _ _ hfirst).1
    rw [(hcall _ _ hlast).2] at hbook
    simp at hbook

end GraphSkillRuntime
