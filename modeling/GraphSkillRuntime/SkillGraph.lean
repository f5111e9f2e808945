import GraphSkillRuntime.GraphRun
import GraphSkillRuntime.Worklist

namespace GraphSkillRuntime

open OrderedDict

/-! The documents of one graph, and the compile-time checks on who writes which field. -/

inductive PhaseMode where
  | logic
  | agent
  | subgraph
  deriving DecidableEq

structure PhaseDocument where
  phaseName : String
  mode : PhaseMode
  inputs : Schema
  outputs : Schema
  iterate : Option IterateSpec := none
  validator : Bool := false
  allowSequentialOverwrite : List String := []
  inputs_object : (dictAt inputs "properties").isSome := by decide
  outputs_object : (dictAt outputs "properties").isSome := by decide

structure PhaseTopologyRef where
  name : String
  dependsOn : List String
  output : Bool

structure GraphDocument where
  refs : List PhaseTopologyRef
  docs : List PhaseDocument
  refs_unique : (refs.map PhaseTopologyRef.name).Nodup
  docs_unique : (docs.map PhaseDocument.phaseName).Nodup
  docs_listed : ∀ doc ∈ docs, doc.phaseName ∈ refs.map PhaseTopologyRef.name

inductive DocumentPath where
  | graph
  | phase (name : String)
  | phaseDir (name : String)
  deriving DecidableEq

structure Diag where
  path : DocumentPath
  code : String
  message : String
  fieldPath : Option String := none
  conflictingPhase : Option String := none
  deriving DecidableEq

def dependsOnMap (refs : List PhaseTopologyRef) : Dict String (List String) :=
  Dict.ofList (refs.map (fun ref => (ref.name, ref.dependsOn)))

def unseen (names seen : List String) : List String := names.filter (· ∉ seen)

theorem unseen_append (names seen : List String) (name : String) :
    unseen names (seen ++ [name]) = (unseen names seen).filter (· ≠ name) := by
  unfold unseen
  rw [List.filter_filter]
  congr 1
  funext k
  simp [and_comm]

theorem length_unseen_lt {names seen : List String} {name : String} (hm : name ∈ names)
    (hs : name ∉ seen) : (unseen names (seen ++ [name])).length < (unseen names seen).length := by
  rw [unseen_append, List.length_filter_lt_length_iff_exists]
  exact ⟨name, by simp [unseen, hm, hs], by simp⟩

theorem length_unseen_le (names seen : List String) (name : String) :
    (unseen names (seen ++ [name])).length ≤ (unseen names seen).length := by
  rw [unseen_append]
  exact List.length_filter_le _ _

def ancestorsFrom (deps : Dict String (List String)) (queue ancestors : List String) : List String :=
  match queue with
  | [] => ancestors
  | curr :: queue =>
    if curr ≠ "input" ∧ curr ∉ ancestors then
      ancestorsFrom deps (queue ++ (deps.get? curr).getD []) (ancestors ++ [curr])
    else ancestorsFrom deps queue ancestors
termination_by ((unseen deps.keys ancestors).length, queue.length)
decreasing_by
  · rename_i hc
    rw [Prod.lex_def]
    -- a phase of the graph is seen for the first time; any other name depends on nothing
    by_cases hk : curr ∈ deps.keys
    · exact Or.inl (length_unseen_lt hk hc.2)
    · have hnone : deps.get? curr = none := Dict.get?_eq_none.mpr hk
      rcases Nat.lt_or_eq_of_le (length_unseen_le deps.keys ancestors curr) with hlt | heq
      · exact Or.inl hlt
      · exact Or.inr ⟨heq, by simp [hnone]⟩
  · exact Prod.Lex.right _ (by simp)

def phaseAncestorSets (refs : List PhaseTopologyRef) (name : String) : List String :=
  ancestorsFrom (dependsOnMap refs) (((dependsOnMap refs).get? name).getD []) []

def phaseDeclaredOutputKeys (docs : List PhaseDocument) (name : String) : List String :=
  ((Dict.ofList (docs.map (fun doc => (doc.phaseName, schemaProperties (some doc.outputs))))).get?
    name).getD []

def docByName (docs : List PhaseDocument) (name : String) : Option PhaseDocument :=
  (Dict.ofList (docs.map (fun doc => (doc.phaseName, doc)))).get? name

def parallelWriteDiag (phase first second key : String) : Diag where
  path := .phase phase
  code := "[F-v3-parallel-write-conflict]"
  message := "Phases '" ++ first ++ "' and '" ++ second ++ "' have no dependency path between them " ++
    "(they may run in parallel) but both declare output field '" ++ key ++ "'. Parallel writers of one " ++
    "field race nondeterministically; give the field a single owner or order the phases with depends_on."
  fieldPath := "io.outputs.properties." ++ key

def parallelWriteConflicts (g : GraphDocument) (first second : String) : List Diag :=
  if first ∈ phaseAncestorSets g.refs second ∨ second ∈ phaseAncestorSets g.refs first then []
  else
    match (docByName g.docs second).or (docByName g.docs first) with
    | none => []
    | some report =>
      let overlap := (phaseDeclaredOutputKeys g.docs first).filter (· ∈ phaseDeclaredOutputKeys g.docs second)
      (sortKeys overlap).map (parallelWriteDiag report.phaseName first second)

def orderedPairs : List String → List (String × String)
  | [] => []
  | first :: rest => rest.map (fun second => (first, second)) ++ orderedPairs rest

def validateParallelWriters (g : GraphDocument) : List Diag :=
  (orderedPairs (g.refs.map PhaseTopologyRef.name)).flatMap
    (fun pair => parallelWriteConflicts g pair.1 pair.2)

def PhaseMode.fileName : PhaseMode → String
  | .logic => "LOGIC.md"
  | .agent => "AGENT.md"
  | .subgraph => "SUBGRAPH.md"

def sequentialOverwriteDiag (doc : PhaseDocument) (ancestor key : String) : Diag where
  path := .phase doc.phaseName
  code := "[F-v3-sequential-overwrite-unauthorized]"
  message := "Phase '" ++ doc.phaseName ++ "' sequentially overwrites field '" ++ key ++
    "' outputted by upstream phase '" ++ ancestor ++ "'. Declare '" ++ key ++
    "' in allow_sequential_overwrite in " ++ doc.mode.fileName ++ " to allow this."
  fieldPath := "io.outputs.properties." ++ key
  conflictingPhase := some ancestor

def validateSequentialOverwrites (g : GraphDocument) : List Diag :=
  g.docs.flatMap (fun doc => (phaseAncestorSets g.refs doc.phaseName).flatMap (fun ancestor =>
    ((phaseDeclaredOutputKeys g.docs doc.phaseName).filter (fun key =>
      key ∈ phaseDeclaredOutputKeys g.docs ancestor ∧ key ∉ doc.allowSequentialOverwrite)).map
        (sequentialOverwriteDiag doc ancestor)))

structure WritersAccepted (g : GraphDocument) : Prop where
  parallel : validateParallelWriters g = []
  sequential : validateSequentialOverwrites g = []

def DependsOn (refs : List PhaseTopologyRef) (a b : String) : Prop :=
  a ≠ "input" ∧ a ∈ ((dependsOnMap refs).get? b).getD []

def DependencyPath (refs : List PhaseTopologyRef) : String → String → Prop :=
  Relation.TransGen (DependsOn refs)

/-! The closures of the dependencies are searches with a worklist. -/

def dependencies (refs : List PhaseTopologyRef) (name : String) : Set String := {dep | DependsOn refs dep name}

theorem reached_dependencies {refs : List PhaseTopologyRef} {a b : String} :
    Worklist.Reached (dependencies refs) (dependencies refs b) a ↔ DependencyPath refs a b := by
  rw [DependencyPath, ← Relation.transGen_swap, Relation.TransGen.head'_iff]
  rfl

theorem mem_filter_dependencies {refs : List PhaseTopologyRef} {a b : String} :
    a ∈ (((dependsOnMap refs).get? b).getD []).filter (· ≠ "input") ↔ a ∈ dependencies refs b := by
  rw [List.mem_filter, decide_eq_true_eq]
  exact And.comm

theorem mem_of_run {refs : List PhaseTopologyRef} {name : String} {pending : List String} {found : Finset String}
    (hstart : ∀ x, x ∈ pending ↔ x ∈ dependencies refs name)
    (h : Worklist.Run (dependencies refs) ⟨pending, ∅⟩ ⟨0, found⟩) (a : String) :
    a ∈ found ↔ DependencyPath refs a name := by
  have hpending : {x | x ∈ (pending : Multiset String)} = dependencies refs name := Set.ext hstart
  rw [h.mem_found, hpending, reached_dependencies]

theorem ancestorsFrom_run (refs : List PhaseTopologyRef) (queue ancestors : List String) :
    Worklist.Run (dependencies refs) ⟨(queue.filter (· ≠ "input") : List String), ancestors.toFinset⟩
      ⟨0, (ancestorsFrom (dependsOnMap refs) queue ancestors).toFinset⟩ := by
  fun_induction ancestorsFrom (dependsOnMap refs) queue ancestors with
  | case1 ancestors => exact .refl
  | case2 ancestors curr queue hc ih =>
    rw [List.filter_append] at ih
    rw [List.filter_cons_of_pos (by simpa using hc.1)]
    exact .head (.take_head hc.2 (fun x => mem_filter_dependencies) List.perm_append_comm) ih
  | case3 ancestors curr queue hc ih =>
    by_cases hinput : curr = "input"
    · rwa [List.filter_cons_of_neg (by simpa using hinput)]
    · rw [List.filter_cons_of_pos (by simpa using hinput)]
      have hfound : curr ∈ ancestors := by
        by_contra hnew
        exact hc ⟨hinput, hnew⟩
      exact .head (.skip_head hfound) ih

theorem mem_phaseAncestorSets {refs : List PhaseTopologyRef} {a b : String} :
    a ∈ phaseAncestorSets refs b ↔ DependencyPath refs a b := by
  rw [← List.mem_toFinset]
  exact mem_of_run (fun x => mem_filter_dependencies) (ancestorsFrom_run refs _ []) a

theorem mem_orderedPairs {names : List String} {a b : String} (ha : a ∈ names) (hb : b ∈ names)
    (hne : a ≠ b) : (a, b) ∈ orderedPairs names ∨ (b, a) ∈ orderedPairs names := by
  induction names with
  | nil => simp at ha
  | cons name names ih =>
    simp only [orderedPairs, List.mem_append, List.mem_map, Prod.mk.injEq]
    rcases List.mem_cons.mp ha with rfl | ha'
    · rcases List.mem_cons.mp hb with rfl | hb'
      · exact absurd rfl hne
      · exact Or.inl (Or.inl ⟨b, hb', rfl, rfl⟩)
    · rcases List.mem_cons.mp hb with rfl | hb'
      · exact Or.inr (Or.inl ⟨a, ha', rfl, rfl⟩)
      · rcases ih ha' hb' with h | h
        · exact Or.inl (Or.inr h)
        · exact Or.inr (Or.inr h)

namespace GraphDocument

variable {g : GraphDocument} {p q : PhaseDocument}

theorem phaseDeclaredOutputKeys_of_mem (hp : p ∈ g.docs) :
    phaseDeclaredOutputKeys g.docs p.phaseName = schemaProperties (some p.outputs) := by
  have hget : (Dict.ofList (g.docs.map (fun doc => (doc.phaseName, schemaProperties (some doc.outputs))))).get?
      p.phaseName = some (schemaProperties (some p.outputs)) := by
    apply Dict.get?_ofList_of_mem
    · simpa [List.map_map, Function.comp_def] using g.docs_unique
    · exact List.mem_map_of_mem hp
  rw [phaseDeclaredOutputKeys, hget, Option.getD_some]

theorem docByName_of_mem (hp : p ∈ g.docs) : docByName g.docs p.phaseName = some p := by
  apply Dict.get?_ofList_of_mem
  · simpa [List.map_map, Function.comp_def] using g.docs_unique
  · exact List.mem_map_of_mem hp

theorem declared_disjoint (h : validateParallelWriters g = []) (hp : p ∈ g.docs) (hq : q ∈ g.docs)
    (hne : p.phaseName ≠ q.phaseName) (hpq : ¬ DependencyPath g.refs p.phaseName q.phaseName)
    (hqp : ¬ DependencyPath g.refs q.phaseName p.phaseName) :
    ∀ key ∈ schemaProperties (some p.outputs), key ∉ schemaProperties (some q.outputs) := by
  have hconf : ∀ {a b : PhaseDocument}, a ∈ g.docs → b ∈ g.docs →
      (a.phaseName, b.phaseName) ∈ orderedPairs (g.refs.map PhaseTopologyRef.name) →
      ¬ DependencyPath g.refs a.phaseName b.phaseName → ¬ DependencyPath g.refs b.phaseName a.phaseName →
      ∀ key ∈ schemaProperties (some a.outputs), key ∉ schemaProperties (some b.outputs) := by
    intro a b ha hb hpair hab hba key hka hkb
    have hnil := List.flatMap_eq_nil_iff.mp h _ hpair
    have hanc : ¬ (a.phaseName ∈ phaseAncestorSets g.refs b.phaseName ∨
        b.phaseName ∈ phaseAncestorSets g.refs a.phaseName) := by
      rintro (hm | hm)
      · exact hab (mem_phaseAncestorSets.mp hm)
      · exact hba (mem_phaseAncestorSets.mp hm)
    simp only [parallelWriteConflicts, hanc, ↓reduceIte, docByName_of_mem hb, Option.some_or,
      phaseDeclaredOutputKeys_of_mem ha, phaseDeclaredOutputKeys_of_mem hb, List.map_eq_nil_iff] at hnil
    have hmem : key ∈ sortKeys ((schemaProperties (some a.outputs)).filter
        (· ∈ schemaProperties (some b.outputs))) := by
      simp [sortKeys, hka, hkb]
    rw [hnil] at hmem
    simp at hmem
  rcases mem_orderedPairs (g.docs_listed p hp) (g.docs_listed q hq) hne with hpair | hpair
  · exact hconf hp hq hpair hpq hqp
  · intro key hkp hkq
    exact hconf hq hp hpair hqp hpq key hkq hkp

end GraphDocument

end GraphSkillRuntime
