import GraphSkillRuntime.SkillGraph
import GraphSkillRuntime.DependencyOrder
import GraphSkillRuntime.Runs
import Mathlib.Data.Finset.Sort
import Mathlib.Data.List.Dedup
import Mathlib.Data.String.Basic

namespace GraphSkillRuntime

open OrderedDict ColorSearch DependencyOrder Relation Runs

/-! The checks on the phases of one graph: their directories, their dependencies and their order. -/

def phaseNameMismatch : String := "[F-v3-graph-phase-name-mismatch]"

def validatePhaseNameSets (phases : List String) (physical : Finset String) : List Diag :=
  ((phases.toFinset \ physical).sort).map (fun phaseId =>
    { path := .graph
      code := phaseNameMismatch
      message := "graph.yaml phase '" ++ phaseId ++ "' has no matching phase directory"
      fieldPath := some "phases" }) ++
  ((physical \ phases.toFinset).sort).map (fun phaseId =>
    { path := .phaseDir phaseId
      code := phaseNameMismatch
      message := "phase directory '" ++ phaseId ++ "' is not registered in graph.yaml"
      fieldPath := some "phases" })

structure DependencyScan where
  adjacency : Dict String (List String)
  inputRoots : List String := []
  flagged : List String := []
  diags : List Diag := []

def DependencyScan.flag (s : DependencyScan) (name code message : String) : DependencyScan :=
  { s with
    diags := s.diags ++ [{ path := .graph, code, message, fieldPath := some (name ++ ".depends_on") }]
    flagged := s.flagged.insert name }

def scanDependency (phases : List String) (ref : PhaseTopologyRef) (s : DependencyScan) (dep : String) :
    DependencyScan :=
  if dep = "input" then { s with inputRoots := s.inputRoots ++ [ref.name] }
  else if dep ∉ phases then
    s.flag ref.name "[F-v3-graph-depends-unknown]"
      ("phase '" ++ ref.name ++ "' depends_on unknown phase '" ++ dep ++ "'")
  else if dep = ref.name then
    s.flag ref.name "[F-v3-graph-phase-cycle]" ("phase '" ++ ref.name ++ "' cannot depend on itself")
  else { s with adjacency := s.adjacency.set dep (targets s.adjacency dep ++ [ref.name]) }

def flagBare (s : DependencyScan) (ref : PhaseTopologyRef) : DependencyScan :=
  if ref.dependsOn.isEmpty then
    s.flag ref.name "[F-v3-graph-phase-island]" ("phase '" ++ ref.name ++ "' declares no depends_on " ++
      "(every phase must connect to \"input\" or an upstream phase)")
  else s

def scanPhase (phases : List String) (s : DependencyScan) (ref : PhaseTopologyRef) : DependencyScan :=
  ref.dependsOn.foldl (scanDependency phases ref) (flagBare s ref)

def collectGraphDependencies (phases : List String) (refs : List PhaseTopologyRef) : DependencyScan :=
  refs.foldl (scanPhase phases) { adjacency := Dict.ofList (phases.map (fun name => (name, []))) }

structure CycleScan where
  cycleNodes : List String := []
  diags : List Diag := []

def recordCycle (stack : List String) (_node nxt : String) (found : CycleScan) : CycleScan :=
  let cycle := stack.dropWhile (· ≠ nxt) ++ [nxt]
  { cycleNodes := found.cycleNodes ∪ cycle
    diags := found.diags ++ [{
      path := .graph
      code := "[F-v3-graph-phase-cycle]"
      message := "cycle detected: " ++ " -> ".intercalate cycle }] }

def validateAcyclicGraph (adjacency : Dict String (List String)) : CycleScan :=
  (search adjacency recordCycle {}).found

def reachFrom (adjacency : Dict String (List String)) (stack visited : List String) : List String :=
  match stack with
  | [] => visited
  | node :: stack =>
    if node ∈ visited ∨ node ∉ adjacency.keys then reachFrom adjacency stack visited
    else
      let added := visited ++ [node]
      reachFrom adjacency
        ((sortKeys ((targets adjacency node).dedup.filter (· ∉ added))).reverse ++ stack) added
termination_by ((unseen adjacency.keys visited).length, stack.length)
decreasing_by
  · exact Prod.Lex.right _ (by simp)
  · rename_i hc
    simp only [not_or, not_not] at hc
    exact Prod.Lex.left _ _ (length_unseen_lt hc.2 hc.1)

def validateNoIslands (adjacency : Dict String (List String)) (inputRoots suppress : List String) :
    List Diag :=
  let visited := reachFrom adjacency (inputRoots ++ sortKeys suppress).reverse []
  (adjacency.keys.filter (· ∉ visited)).map (fun phaseId =>
    { path := .graph
      code := "[F-v3-graph-phase-island]"
      message := "phase '" ++ phaseId ++ "' is unreachable from input"
      fieldPath := some (phaseId ++ ".depends_on") })

def validateOutputPhases (refs : List PhaseTopologyRef) (adjacency : Dict String (List String)) : List Diag :=
  let outputs := (refs.filter PhaseTopologyRef.output).map PhaseTopologyRef.name
  let nonTerminal := (adjacency.entries.filter (fun entry => !entry.2.isEmpty)).map Prod.fst
  let invalid := sortKeys (outputs.dedup.filter (· ∈ nonTerminal))
  if invalid.isEmpty then []
  else [{
    path := .graph
    code := "[F-v3-graph-output-phase-invalid]"
    message := "output phase has downstream edges: " ++ ", ".intercalate invalid }]

structure GraphTopology where
  phases : List PhaseTopologyRef
  order : List String

def validateGraphTopology (refs : List PhaseTopologyRef) (physical : Finset String) :
    GraphTopology × List Diag :=
  let phases := refs.map PhaseTopologyRef.name
  let scan := collectGraphDependencies phases refs
  let cycles := validateAcyclicGraph scan.adjacency
  let diags := validatePhaseNameSets phases physical ++ scan.diags ++ cycles.diags ++
    validateNoIslands scan.adjacency scan.inputRoots (scan.flagged ∪ cycles.cycleNodes) ++
    validateOutputPhases refs scan.adjacency
  (⟨refs, if diags.isEmpty then topologicalOrder scan.adjacency phases else []⟩, diags)

theorem validatePhaseNameSets_eq_nil {phases : List String} {physical : Finset String} :
    validatePhaseNameSets phases physical = [] ↔ ∀ name, name ∈ phases ↔ name ∈ physical := by
  have hsort : ∀ s : Finset String, s.sort = [] ↔ s = ∅ := by
    intro s
    rw [← List.toFinset_eq_empty_iff, Finset.sort_toFinset]
  rw [validatePhaseNameSets, List.append_eq_nil_iff, List.map_eq_nil_iff, List.map_eq_nil_iff, hsort, hsort,
    Finset.sdiff_eq_empty_iff_subset, Finset.sdiff_eq_empty_iff_subset]
  constructor
  · rintro ⟨h, h'⟩ name
    exact ⟨fun hm => h (List.mem_toFinset.mpr hm), fun hm => List.mem_toFinset.mp (h' hm)⟩
  · intro h
    exact ⟨fun name hm => (h name).mp (List.mem_toFinset.mp hm),
      fun name hm => List.mem_toFinset.mpr ((h name).mpr hm)⟩

section Scan

variable (phases : List String)

def KnownDependency (ref : PhaseTopologyRef) (dep : String) : Prop :=
  dep = "input" ∨ (dep ≠ ref.name ∧ dep ∈ phases)

theorem scanDependency_diags (ref : PhaseTopologyRef) (s : DependencyScan) (dep : String) :
    (scanDependency phases ref s dep).diags = [] ↔ s.diags = [] ∧ KnownDependency phases ref dep := by
  unfold scanDependency KnownDependency
  split_ifs with hinput hknown hself
  · simp [hinput]
  · simp [DependencyScan.flag, ← hself, hinput]
  · simp [hself, hknown]
  · simp [DependencyScan.flag, hinput, hknown]

theorem scanPhase_diags (s : DependencyScan) (ref : PhaseTopologyRef) :
    (scanPhase phases s ref).diags = [] ↔
      s.diags = [] ∧ ref.dependsOn ≠ [] ∧ ∀ dep ∈ ref.dependsOn, KnownDependency phases ref dep := by
  rw [scanPhase, foldl_and_iff (P := fun s : DependencyScan => s.diags = [])
    (fun s dep _ => scanDependency_diags phases ref s dep), flagBare]
  split_ifs with hbare
  · simp [DependencyScan.flag, List.isEmpty_iff.mp hbare]
  · simp [List.isEmpty_iff.not.mp hbare]

theorem scanDependency_edge (a b : String) (ref : PhaseTopologyRef) (s : DependencyScan) (dep : String) :
    Edge (scanDependency phases ref s dep).adjacency a b ↔ Edge s.adjacency a b ∨
      (dep = a ∧ a ≠ "input" ∧ a ∈ phases ∧ a ≠ ref.name ∧ b = ref.name) := by
  unfold scanDependency
  split_ifs with hinput hknown hself
  · constructor
    · exact Or.inl
    · rintro (h | ⟨rfl, h, -⟩)
      · exact h
      · exact absurd hinput h
  · constructor
    · exact Or.inl
    · rintro (h | ⟨rfl, -, -, h, -⟩)
      · exact h
      · exact absurd hself h
  · by_cases ha : dep = a
    · subst ha
      simp [Edge, targets, hinput, hself, hknown]
    · simp [Edge, targets, ha]
  · constructor
    · exact Or.inl
    · rintro (h | ⟨rfl, -, h, -⟩)
      · exact h
      · exact absurd h hknown

@[simp] theorem flagBare_adjacency (s : DependencyScan) (ref : PhaseTopologyRef) :
    (flagBare s ref).adjacency = s.adjacency := by
  unfold flagBare
  split_ifs <;> rfl

@[simp] theorem flagBare_inputRoots (s : DependencyScan) (ref : PhaseTopologyRef) :
    (flagBare s ref).inputRoots = s.inputRoots := by
  unfold flagBare
  split_ifs <;> rfl

theorem scanPhase_edge (a b : String) (s : DependencyScan) (ref : PhaseTopologyRef) :
    Edge (scanPhase phases s ref).adjacency a b ↔ Edge s.adjacency a b ∨
      (a ∈ ref.dependsOn ∧ a ≠ "input" ∧ a ∈ phases ∧ a ≠ ref.name ∧ b = ref.name) := by
  rw [scanPhase, foldl_or_iff (P := fun s : DependencyScan => Edge s.adjacency a b)
    (fun s dep _ => scanDependency_edge phases a b ref s dep), flagBare_adjacency]
  refine or_congr_right ?_
  constructor
  · rintro ⟨dep, hdep, rfl, h⟩
    exact ⟨hdep, h⟩
  · rintro ⟨hdep, h⟩
    exact ⟨a, hdep, rfl, h⟩

theorem scanDependency_keys (name : String) (ref : PhaseTopologyRef) (s : DependencyScan) (dep : String) :
    name ∈ (scanDependency phases ref s dep).adjacency.keys ↔ name ∈ s.adjacency.keys ∨
      (dep = name ∧ dep ≠ "input" ∧ dep ∈ phases ∧ dep ≠ ref.name) := by
  unfold scanDependency
  split_ifs with hinput hknown hself
  · simp [hinput]
  · simp [DependencyScan.flag, hself]
  · rw [Dict.mem_keys, Dict.mem_keys, Dict.get?_set]
    by_cases hn : dep = name
    · simp [hn, hn ▸ hinput, hn ▸ hknown, hn ▸ hself]
    · simp [hn]
  · simp [DependencyScan.flag, hknown]

theorem scanDependency_roots (name : String) (ref : PhaseTopologyRef) (s : DependencyScan) (dep : String) :
    name ∈ (scanDependency phases ref s dep).inputRoots ↔ name ∈ s.inputRoots ∨
      (dep = "input" ∧ name = ref.name) := by
  unfold scanDependency
  split_ifs with hinput hknown hself
  · simp [hinput]
  · simp [DependencyScan.flag, hinput]
  · simp [hinput]
  · simp [DependencyScan.flag, hinput]

theorem scanDependency_flagged (ref : PhaseTopologyRef) {s : DependencyScan} {dep : String}
    (h : s.diags = [] → s.flagged = []) (hd : (scanDependency phases ref s dep).diags = []) :
    (scanDependency phases ref s dep).flagged = [] := by
  have hs : s.flagged = [] := h ((scanDependency_diags phases ref s dep).mp hd).1
  have hk : KnownDependency phases ref dep := ((scanDependency_diags phases ref s dep).mp hd).2
  unfold scanDependency
  split_ifs with hinput hknown hself
  · exact hs
  · exact absurd hself (hk.resolve_left hinput).1
  · exact hs
  · exact absurd (hk.resolve_left hinput).2 hknown

theorem collect_diags (refs : List PhaseTopologyRef) :
    (collectGraphDependencies phases refs).diags = [] ↔
      ∀ ref ∈ refs, ref.dependsOn ≠ [] ∧ ∀ dep ∈ ref.dependsOn, KnownDependency phases ref dep := by
  rw [collectGraphDependencies, foldl_and_iff (P := fun s : DependencyScan => s.diags = [])
    (fun s ref _ => scanPhase_diags phases s ref)]
  simp

theorem collect_flagged (refs : List PhaseTopologyRef) :
    (collectGraphDependencies phases refs).diags = [] → (collectGraphDependencies phases refs).flagged = [] := by
  apply foldl_invariant (I := fun s : DependencyScan => s.diags = [] → s.flagged = [])
  · intro s ref _ hs
    apply foldl_invariant (I := fun s : DependencyScan => s.diags = [] → s.flagged = [])
    · exact fun s dep _ h => scanDependency_flagged phases ref h
    · unfold flagBare
      split_ifs
      · simp [DependencyScan.flag]
      · exact hs
  · exact fun _ => rfl

theorem collect_edge (refs : List PhaseTopologyRef) (a b : String) :
    Edge (collectGraphDependencies phases refs).adjacency a b ↔
      ∃ ref ∈ refs, a ∈ ref.dependsOn ∧ a ≠ "input" ∧ a ∈ phases ∧ a ≠ ref.name ∧ b = ref.name := by
  have hempty : ¬ Edge (Dict.ofList (phases.map (fun name => (name, ([] : List String))))) a b := by
    rw [Edge, targets, Dict.get?_ofList, ← List.map_reverse]
    induction phases.reverse with
    | nil => simp [Dict.find]
    | cons name names ih =>
      rw [List.map_cons, Dict.find]
      split_ifs
      · simp
      · exact ih
  rw [collectGraphDependencies, foldl_or_iff (P := fun s : DependencyScan => Edge s.adjacency a b)
    (fun s ref _ => scanPhase_edge phases a b s ref)]
  simp only [hempty, false_or]

theorem collect_keys (refs : List PhaseTopologyRef) (name : String) :
    name ∈ (collectGraphDependencies phases refs).adjacency.keys ↔ name ∈ phases := by
  have hstep : ∀ (s : DependencyScan) (ref : PhaseTopologyRef), name ∈ (scanPhase phases s ref).adjacency.keys ↔
      name ∈ s.adjacency.keys ∨ (name ∈ ref.dependsOn ∧ name ≠ "input" ∧ name ∈ phases ∧ name ≠ ref.name) := by
    intro s ref
    rw [scanPhase, foldl_or_iff (P := fun s : DependencyScan => name ∈ s.adjacency.keys)
      (fun s dep _ => scanDependency_keys phases name ref s dep), flagBare_adjacency]
    refine or_congr_right ⟨?_, ?_⟩
    · rintro ⟨dep, hdep, rfl, h⟩
      exact ⟨hdep, h⟩
    · rintro ⟨hdep, h⟩
      exact ⟨name, hdep, rfl, h⟩
  rw [collectGraphDependencies, foldl_or_iff (P := fun s : DependencyScan => name ∈ s.adjacency.keys)
    (fun s ref _ => hstep s ref),
    Dict.mem_keys, Dict.get?_ofList, Dict.find_isSome]
  simp only [← List.map_reverse, List.map_map, Function.comp_def, List.map_id', List.mem_reverse]
  constructor
  · rintro (h | ⟨ref, -, -, -, h, -⟩)
    · exact h
    · exact h
  · exact Or.inl

theorem collect_roots (refs : List PhaseTopologyRef) (name : String) :
    name ∈ (collectGraphDependencies phases refs).inputRoots ↔
      ∃ ref ∈ refs, "input" ∈ ref.dependsOn ∧ name = ref.name := by
  have hstep : ∀ (s : DependencyScan) (ref : PhaseTopologyRef), name ∈ (scanPhase phases s ref).inputRoots ↔
      name ∈ s.inputRoots ∨ ("input" ∈ ref.dependsOn ∧ name = ref.name) := by
    intro s ref
    rw [scanPhase, foldl_or_iff (P := fun s : DependencyScan => name ∈ s.inputRoots)
      (fun s dep _ => scanDependency_roots phases name ref s dep), flagBare_inputRoots]
    refine or_congr_right ⟨?_, ?_⟩
    · rintro ⟨dep, hdep, rfl, h⟩
      exact ⟨hdep, h⟩
    · rintro ⟨hdep, h⟩
      exact ⟨"input", hdep, rfl, h⟩
  rw [collectGraphDependencies, foldl_or_iff (P := fun s : DependencyScan => name ∈ s.inputRoots)
    (fun s ref _ => hstep s ref)]
  simp

end Scan

theorem validateAcyclicGraph_diags {adjacency : Dict String (List String)} :
    (validateAcyclicGraph adjacency).diags = [] ↔ ∀ name, ¬ TransGen (Edge adjacency) name name := by
  constructor
  · intro h
    exact acyclic_of_search (P := fun found : CycleScan => found.diags = [])
      (fun stack node nxt found => by simp [recordCycle]) h
  · intro h
    rw [validateAcyclicGraph, search_found_of_acyclic h]

theorem validateAcyclicGraph_nodes {adjacency : Dict String (List String)}
    (h : (validateAcyclicGraph adjacency).diags = []) : (validateAcyclicGraph adjacency).cycleNodes = [] := by
  rw [validateAcyclicGraph, search_found_of_acyclic (validateAcyclicGraph_diags.mp h)]

section Reach

variable {adjacency : Dict String (List String)}

theorem mem_added (stack visited : List String) {node b : String} (hb : b ∈ targets adjacency node) :
    b ∈ visited ++ [node] ∨
      b ∈ (sortKeys ((targets adjacency node).dedup.filter (· ∉ visited ++ [node]))).reverse ++ stack := by
  by_cases hv : b ∈ visited ++ [node]
  · exact Or.inl hv
  · refine Or.inr (List.mem_append_left _ ?_)
    rw [List.mem_reverse, sortKeys, List.mem_insertionSort, List.mem_filter, List.mem_dedup]
    exact ⟨hb, by simpa using hv⟩

theorem visited_subset_reachFrom (stack visited : List String) :
    ∀ name ∈ visited, name ∈ reachFrom adjacency stack visited := by
  fun_induction reachFrom adjacency stack visited with
  | case1 visited => exact fun name hm => hm
  | case2 visited node stack hskip ih => exact ih
  | case3 visited node stack hnew added ih => exact fun name hm => ih name (List.mem_append_left _ hm)

theorem reachFrom_complete (stack visited : List String) :
    (∀ node ∈ stack, node ∈ adjacency.keys → node ∈ reachFrom adjacency stack visited) ∧
      ∀ a ∈ reachFrom adjacency stack visited, a ∉ visited → ∀ b, Edge adjacency a b → b ∈ adjacency.keys →
        b ∈ reachFrom adjacency stack visited := by
  fun_induction reachFrom adjacency stack visited with
  | case1 visited => exact ⟨by simp, fun a ha hn => absurd ha hn⟩
  | case2 visited node stack hskip ih =>
    refine ⟨fun a ha hk => ?_, ih.2⟩
    rcases List.mem_cons.mp ha with rfl | ha
    · exact visited_subset_reachFrom _ _ a (hskip.resolve_right (fun h => h hk))
    · exact ih.1 a ha hk
  | case3 visited node stack hnew added ih =>
    have hsub : added ⊆ reachFrom adjacency
        ((sortKeys ((targets adjacency node).dedup.filter (· ∉ added))).reverse ++ stack) added :=
      visited_subset_reachFrom _ _
    constructor
    · intro a ha hk
      rcases List.mem_cons.mp ha with rfl | ha
      · exact hsub (by simp [added])
      · exact ih.1 a (List.mem_append_right _ ha) hk
    · intro a ha hn b hedge hk
      by_cases hnode : a = node
      · subst hnode
        rcases mem_added stack visited hedge with hb | hb
        · exact hsub hb
        · exact ih.1 b hb hk
      · exact ih.2 a ha (by simp [added, hn, hnode]) b hedge hk

theorem reachFrom_sound (stack visited : List String) :
    ∀ a ∈ reachFrom adjacency stack visited, a ∈ visited ∨
      ∃ node ∈ stack, node ∈ adjacency.keys ∧ ReflTransGen (Edge adjacency) node a := by
  fun_induction reachFrom adjacency stack visited with
  | case1 visited => exact fun a ha => Or.inl ha
  | case2 visited node stack hskip ih =>
    intro a ha
    rcases ih a ha with ha | ⟨root, hroot, hpath⟩
    · exact Or.inl ha
    · exact Or.inr ⟨root, List.mem_cons_of_mem _ hroot, hpath⟩
  | case3 visited node stack hnew added ih =>
    simp only [not_or, not_not] at hnew
    intro a ha
    rcases ih a ha with ha | ⟨root, hroot, hk, hpath⟩
    · rw [List.mem_append, List.mem_singleton] at ha
      rcases ha with ha | rfl
      · exact Or.inl ha
      · exact Or.inr ⟨a, List.mem_cons_self .., hnew.2, .refl⟩
    · rcases List.mem_append.mp hroot with hroot | hroot
      · rw [List.mem_reverse, sortKeys, List.mem_insertionSort, List.mem_filter, List.mem_dedup] at hroot
        exact Or.inr ⟨node, List.mem_cons_self .., hnew.2, .head hroot.1 hpath⟩
      · exact Or.inr ⟨root, List.mem_cons_of_mem _ hroot, hk, hpath⟩

theorem mem_reachFrom {stack : List String} (htargets : ∀ a b, Edge adjacency a b → b ∈ adjacency.keys)
    (a : String) : a ∈ reachFrom adjacency stack [] ↔
      ∃ node ∈ stack, node ∈ adjacency.keys ∧ ReflTransGen (Edge adjacency) node a := by
  constructor
  · intro h
    exact (reachFrom_sound stack [] a h).resolve_left (by simp)
  · rintro ⟨node, hnode, hk, hpath⟩
    induction hpath with
    | refl => exact (reachFrom_complete stack []).1 node hnode hk
    | tail _ hedge ih => exact (reachFrom_complete stack []).2 _ ih (by simp) _ hedge (htargets _ _ hedge)

end Reach

theorem validateNoIslands_eq_nil {adjacency : Dict String (List String)} {inputRoots : List String}
    (htargets : ∀ a b, Edge adjacency a b → b ∈ adjacency.keys) :
    validateNoIslands adjacency inputRoots [] = [] ↔ ∀ name ∈ adjacency.keys,
      ∃ root ∈ inputRoots, root ∈ adjacency.keys ∧ ReflTransGen (Edge adjacency) root name := by
  have hmem : ∀ name, name ∈ reachFrom adjacency (inputRoots ++ sortKeys []).reverse [] ↔
      ∃ root ∈ inputRoots, root ∈ adjacency.keys ∧ ReflTransGen (Edge adjacency) root name := by
    intro name
    simp [mem_reachFrom htargets, sortKeys]
  rw [validateNoIslands, List.map_eq_nil_iff, List.filter_eq_nil_iff]
  refine forall₂_congr fun name _ => ?_
  rw [decide_eq_true_eq, not_not, hmem]

theorem validateOutputPhases_eq_nil {refs : List PhaseTopologyRef} {adjacency : Dict String (List String)} :
    validateOutputPhases refs adjacency = [] ↔
      ∀ ref ∈ refs, ref.output = true → ∀ name, ¬ Edge adjacency ref.name name := by
  have hterminal : ∀ a, a ∈ (adjacency.entries.filter (fun entry => !entry.2.isEmpty)).map Prod.fst ↔
      ∃ name, Edge adjacency a name := by
    intro a
    rw [List.mem_map]
    constructor
    · rintro ⟨entry, hentry, rfl⟩
      rw [List.mem_filter] at hentry
      obtain ⟨name, hname⟩ := List.exists_mem_of_ne_nil entry.2 (by simpa using hentry.2)
      exact ⟨name, by rw [Edge, targets, Dict.get?_mem.mpr hentry.1]; exact hname⟩
    · rintro ⟨name, hedge⟩
      rw [Edge, targets] at hedge
      cases hget : adjacency.get? a with
      | none => simp [hget] at hedge
      | some names =>
        rw [hget, Option.getD_some] at hedge
        refine ⟨(a, names), List.mem_filter.mpr ⟨Dict.get?_mem.mp hget, ?_⟩, rfl⟩
        simpa using List.ne_nil_of_mem hedge
  have hinvalid : ∀ outputs nonTerminal : List String,
      sortKeys (outputs.dedup.filter (· ∈ nonTerminal)) = [] ↔ ∀ name ∈ outputs, name ∉ nonTerminal := by
    intro outputs nonTerminal
    rw [← List.length_eq_zero_iff, sortKeys, List.length_insertionSort, List.length_eq_zero_iff,
      List.filter_eq_nil_iff]
    simp
  rw [validateOutputPhases]
  simp only [List.isEmpty_iff, ite_eq_left_iff, List.cons_ne_nil, imp_false, not_not, hinvalid, hterminal,
    not_exists, List.mem_map, List.mem_filter]
  constructor
  · intro h ref href hout
    exact h ref.name ⟨ref, ⟨href, hout⟩, rfl⟩
  · rintro h name ⟨ref, ⟨href, hout⟩, rfl⟩
    exact h ref href hout

/-- What the topology of a graph should be; `input` is a dependency that no phase provides. -/
structure WellFormedTopology (refs : List PhaseTopologyRef) (physical : Finset String) : Prop where
  directories : ∀ name, name ∈ refs.map PhaseTopologyRef.name ↔ name ∈ physical
  connected : ∀ ref ∈ refs, ref.dependsOn ≠ []
  known : ∀ ref ∈ refs, ∀ dep ∈ ref.dependsOn, dep = "input" ∨
    (dep ≠ ref.name ∧ dep ∈ refs.map PhaseTopologyRef.name)
  acyclic : ∀ name, ¬ DependencyPath refs name name
  reachable : ∀ ref ∈ refs, ∃ root ∈ refs, "input" ∈ root.dependsOn ∧
    ReflTransGen (DependsOn refs) root.name ref.name
  outputs_final : ∀ ref ∈ refs, ref.output = true → ∀ name, ¬ DependsOn refs ref.name name

theorem dependsOn_iff {refs : List PhaseTopologyRef} (hunique : (refs.map PhaseTopologyRef.name).Nodup)
    {a b : String} : DependsOn refs a b ↔ a ≠ "input" ∧ ∃ ref ∈ refs, ref.name = b ∧ a ∈ ref.dependsOn := by
  refine and_congr_right fun _ => ?_
  have hkeys : ((refs.map (fun ref => (ref.name, ref.dependsOn))).map Prod.fst).Nodup := by
    simpa [List.map_map, Function.comp_def] using hunique
  constructor
  · intro h
    cases hget : (dependsOnMap refs).get? b with
    | none => simp [hget] at h
    | some deps =>
      rw [hget, Option.getD_some] at h
      have hmem : (b, deps) ∈ (refs.map (fun ref => (ref.name, ref.dependsOn))).reverse := by
        rw [dependsOnMap, Dict.get?_ofList] at hget
        exact (Dict.find_mem (by simpa [List.map_reverse] using hkeys)).mp hget
      obtain ⟨ref, href, heq⟩ := List.mem_map.mp (List.mem_reverse.mp hmem)
      obtain ⟨rfl, rfl⟩ := Prod.mk.inj heq
      exact ⟨ref, href, rfl, h⟩
  · rintro ⟨ref, href, rfl, ha⟩
    rw [dependsOnMap, Dict.get?_ofList_of_mem hkeys (List.mem_map.mpr ⟨ref, href, rfl⟩), Option.getD_some]
    exact ha

section Exact

variable {refs : List PhaseTopologyRef} (hunique : (refs.map PhaseTopologyRef.name).Nodup)

include hunique

theorem edge_iff_dependsOn
    (hknown : ∀ ref ∈ refs, ∀ dep ∈ ref.dependsOn, KnownDependency (refs.map PhaseTopologyRef.name) ref dep) :
    Edge (collectGraphDependencies (refs.map PhaseTopologyRef.name) refs).adjacency = DependsOn refs := by
  funext a b
  rw [eq_iff_iff, collect_edge, dependsOn_iff hunique]
  constructor
  · rintro ⟨ref, href, ha, hinput, -, -, rfl⟩
    exact ⟨hinput, ref, href, rfl, ha⟩
  · rintro ⟨hinput, ref, href, rfl, ha⟩
    have hdep := (hknown ref href a ha).resolve_left hinput
    exact ⟨ref, href, ha, hinput, hdep.2, hdep.1, rfl⟩

theorem validateGraphTopology_diags (physical : Finset String) :
    (validateGraphTopology refs physical).2 = [] ↔ WellFormedTopology refs physical := by
  have hscan := collect_diags (refs.map PhaseTopologyRef.name) refs
  have hkeys := collect_keys (refs.map PhaseTopologyRef.name) refs
  have hroots := collect_roots (refs.map PhaseTopologyRef.name) refs
  have hflagged := collect_flagged (refs.map PhaseTopologyRef.name) refs
  have hedge := edge_iff_dependsOn hunique
  have htargets : ∀ a b, Edge (collectGraphDependencies (refs.map PhaseTopologyRef.name) refs).adjacency a b →
      b ∈ (collectGraphDependencies (refs.map PhaseTopologyRef.name) refs).adjacency.keys := by
    intro a b h
    obtain ⟨ref, href, -, -, -, -, rfl⟩ := (collect_edge _ _ _ _).mp h
    exact (hkeys ref.name).mpr (List.mem_map_of_mem href)
  simp only [validateGraphTopology]
  generalize collectGraphDependencies (refs.map PhaseTopologyRef.name) refs = scan at *
  -- the earlier checks leave nothing to suppress, so the walk starts from the input phases alone
  have hislands : scan.diags = [] → (validateAcyclicGraph scan.adjacency).diags = [] →
      (validateNoIslands scan.adjacency scan.inputRoots
        (scan.flagged ∪ (validateAcyclicGraph scan.adjacency).cycleNodes) = [] ↔
      ∀ ref ∈ refs, ∃ root ∈ refs, "input" ∈ root.dependsOn ∧
        ReflTransGen (DependsOn refs) root.name ref.name) := by
    intro hd hc
    rw [hflagged hd, validateAcyclicGraph_nodes hc, List.nil_union, validateNoIslands_eq_nil htargets,
      hedge (fun ref href => (hscan.mp hd ref href).2)]
    constructor
    · intro h ref href
      obtain ⟨root, hroot, -, hpath⟩ := h ref.name ((hkeys ref.name).mpr (List.mem_map_of_mem href))
      obtain ⟨source, hsource, hinput, rfl⟩ := (hroots root).mp hroot
      exact ⟨source, hsource, hinput, hpath⟩
    · intro h name hname
      obtain ⟨ref, href, rfl⟩ := List.mem_map.mp ((hkeys name).mp hname)
      obtain ⟨root, hroot, hinput, hpath⟩ := h ref href
      exact ⟨root.name, (hroots root.name).mpr ⟨root, hroot, hinput, rfl⟩,
        (hkeys root.name).mpr (List.mem_map_of_mem hroot), hpath⟩
  constructor
  · intro h
    obtain ⟨⟨⟨⟨hnames, hd⟩, hc⟩, hi⟩, ho⟩ := by simpa only [List.append_eq_nil_iff] using h
    have heq := hedge (fun ref href => (hscan.mp hd ref href).2)
    constructor
    · exact validatePhaseNameSets_eq_nil.mp hnames
    · exact fun ref href => (hscan.mp hd ref href).1
    · exact fun ref href => (hscan.mp hd ref href).2
    · have hacyclic := validateAcyclicGraph_diags.mp hc
      rw [heq] at hacyclic
      exact hacyclic
    · exact (hislands hd hc).mp hi
    · exact heq ▸ validateOutputPhases_eq_nil.mp ho
  · intro h
    have hd : scan.diags = [] := hscan.mpr fun ref href => ⟨h.connected ref href, h.known ref href⟩
    have heq := hedge h.known
    have hc : (validateAcyclicGraph scan.adjacency).diags = [] :=
      validateAcyclicGraph_diags.mpr (by rw [heq]; exact h.acyclic)
    rw [validatePhaseNameSets_eq_nil.mpr h.directories, hd, hc, (hislands hd hc).mpr h.reachable,
      validateOutputPhases_eq_nil.mpr (heq ▸ h.outputs_final)]
    rfl

theorem validateGraphTopology_order {physical : Finset String} (h : WellFormedTopology refs physical) :
    (validateGraphTopology refs physical).1.order.Perm (refs.map PhaseTopologyRef.name) ∧
      ∀ a b, DependsOn refs a b →
        (validateGraphTopology refs physical).1.order.idxOf a <
          (validateGraphTopology refs physical).1.order.idxOf b := by
  have hdiags := (validateGraphTopology_diags hunique physical).mpr h
  have horder : (validateGraphTopology refs physical).1.order = topologicalOrder
      (collectGraphDependencies (refs.map PhaseTopologyRef.name) refs).adjacency
      (refs.map PhaseTopologyRef.name) := if_pos (List.isEmpty_iff.mpr hdiags)
  have hedge := edge_iff_dependsOn hunique h.known
  rw [horder, ← hedge]
  apply topologicalOrder_spec hunique (collect_keys _ refs)
  · intro a b hab
    obtain ⟨ref, href, -, -, -, -, rfl⟩ := (collect_edge _ _ _ _).mp hab
    exact List.mem_map_of_mem href
  · rw [hedge]
    exact h.acyclic

end Exact

theorem graph_topology_exact (refs : List PhaseTopologyRef) (physical : Finset String)
    (hunique : (refs.map PhaseTopologyRef.name).Nodup) :
    ((validateGraphTopology refs physical).2 = [] ↔ WellFormedTopology refs physical) ∧
      ((validateGraphTopology refs physical).2 = [] →
        (validateGraphTopology refs physical).1.order.Perm (refs.map PhaseTopologyRef.name) ∧
        ∀ a b, DependsOn refs a b →
          (validateGraphTopology refs physical).1.order.idxOf a <
            (validateGraphTopology refs physical).1.order.idxOf b) := by
  have hdiags := validateGraphTopology_diags hunique physical
  exact ⟨hdiags, fun h => validateGraphTopology_order hunique (hdiags.mp h)⟩

def waitingPair : List PhaseTopologyRef :=
  [⟨"draft", ["input", "review"], false⟩, ⟨"review", ["draft"], true⟩]

theorem waiting_pair_reported :
    (waitingPair.map PhaseTopologyRef.name).Nodup ∧
      (validateGraphTopology waitingPair {"draft", "review"}).2 ≠ [] := by
  refine ⟨by decide, fun h => ?_⟩
  have hformed := (graph_topology_exact waitingPair {"draft", "review"} (by decide)).1.mp h
  have hdraft : DependsOn waitingPair "draft" "review" := by
    rw [DependsOn]
    decide
  have hreview : DependsOn waitingPair "review" "draft" := by
    rw [DependsOn]
    decide
  exact hformed.acyclic "draft" (.head hdraft (.single hreview))

end GraphSkillRuntime
