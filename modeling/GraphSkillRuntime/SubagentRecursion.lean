import GraphSkillRuntime.GraphRegistry

/-!
The compilation of skills that name other skills as subagents. Every graph of a skill compiles the skills that its
agent phases name, on a stack of the graphs in progress and with a cache of the graphs that are done; the errors of
the graphs of one skill are collected. The assembly of the runtimes follows the same declarations.
-/

namespace GraphSkillRuntime.SubagentRecursion

open OrderedDict DependencyOrder Relation

structure LoadIssue where
  code : String
  message : String

structure GraphChecks where
  batch : List LoadIssue
  post : List LoadIssue
  /-- The discovery of actions and tools; no subagent is compiled after it fails. -/
  discovery : List LoadIssue
  child : String → List LoadIssue
  injection : List LoadIssue
  declaredTools : List LoadIssue
  returnKeys : List LoadIssue

def GraphChecks.late (checks : GraphChecks) : List LoadIssue :=
  checks.post ++ checks.injection ++ (if checks.injection.isEmpty then checks.declaredTools else []) ++
    checks.returnKeys

structure SkillSource where
  skill : BusinessSkill
  guard : List LoadIssue
  manifest : List LoadIssue
  checks : GraphRoot → GraphChecks
  subagents : GraphRoot → String → List String
  distinct : (skill.graphs.map CompiledGraph.graphRoot).Nodup

structure Family (ι : Type) where
  source : ι → SkillSource
  resolve : String → ι

abbrev GraphKey (ι : Type) := ι × GraphRoot

abbrev Cache (ι : Type) := List (GraphKey ι)

inductive Outcome (α : Type) where
  | exhausted
  | raised (issues : List LoadIssue)
  | ok (value : α)

def maxDepth : ℕ := 20

def cycleCode : String := "[F-v3-compile-recursion-cycle]"

def depthCode : String := "[F-v3-compile-depth-exceeded]"

structure Collected where
  compiled : List CompiledGraph := []
  issues : List LoadIssue := []

namespace Family

variable {ι : Type} [DecidableEq ι] (F : Family ι)

def graphs (i : ι) : List CompiledGraph := (F.source i).skill.graphs

def phaseTargets (i : ι) (graph : CompiledGraph) (phase : CallingPhase) : List String :=
  match phase.calls with
  | .agent _ => (F.source i).subagents graph.graphRoot phase.phaseName
  | _ => []

def targets (i : ι) (graph : CompiledGraph) : List String := graph.nodes.flatMap (F.phaseTargets i graph)

def rootKey (key : GraphKey ι) : String := key.2.text (F.source key.1).skill.skillRoot

def cycleIssue (key : GraphKey ι) : LoadIssue :=
  ⟨cycleCode, "recursive skill compilation cycle detected at " ++ F.rootKey key⟩

def depthIssue (key : GraphKey ι) : LoadIssue :=
  ⟨depthCode, "recursive skill compilation depth exceeded at " ++ F.rootKey key⟩

def compileSubagents (compile : Cache ι → ι → Outcome Unit × Cache ι) (child : String → List LoadIssue) :
    List String → Cache ι → Outcome Unit × Cache ι
  | [], cache => (.ok (), cache)
  | target :: rest, cache =>
    match compile cache (F.resolve target) with
    | (.exhausted, cache) => (.exhausted, cache)
    | (.raised issues, cache) => (.raised issues, cache)
    | (.ok _, cache) =>
      if (child target).isEmpty then compileSubagents compile child rest cache else (.raised (child target), cache)

def compileGraph (compile : List (GraphKey ι) → Cache ι → ι → Outcome Unit × Cache ι) (stack : List (GraphKey ι))
    (cache : Cache ι) (i : ι) (graph : CompiledGraph) : Outcome Unit × Cache ι :=
  let key := (i, graph.graphRoot)
  let checks := (F.source i).checks graph.graphRoot
  if key ∈ stack then (.raised [F.cycleIssue key], cache)
  else if maxDepth ≤ stack.length then (.raised [F.depthIssue key], cache)
  else if key ∈ cache then (.ok (), cache)
  else if ¬ checks.batch.isEmpty then (.raised checks.batch, cache)
  else if ¬ checks.discovery.isEmpty then (.raised (checks.post ++ checks.discovery), cache)
  else
    match F.compileSubagents (compile (key :: stack)) checks.child (F.targets i graph) cache with
    | (.exhausted, cache) => (.exhausted, cache)
    | (.raised issues, cache) => (.raised (checks.post ++ issues ++ checks.returnKeys), cache)
    | (.ok _, cache) => if checks.late.isEmpty then (.ok (), key :: cache) else (.raised checks.late, cache)

def compileGraphs (compile : Cache ι → CompiledGraph → Outcome Unit × Cache ι) :
    List CompiledGraph → Option (Cache ι) → Collected → Outcome Collected × Option (Cache ι)
  | [], cache, collected => (.ok collected, cache)
  | graph :: rest, cache, collected =>
    match compile (cache.getD []) graph with
    | (.exhausted, _) => (.exhausted, cache)
    | (.raised issues, after) => compileGraphs compile rest (cache.map fun _ => after)
        { collected with issues := collected.issues ++ issues }
    | (.ok _, after) => compileGraphs compile rest (cache.map fun _ => after)
        { collected with compiled := collected.compiled ++ [graph] }

def registryIssues (i : ι) (compiled : List CompiledGraph) : List LoadIssue :=
  if compiled.isEmpty then []
  else
    (validateGraphRegistry (F.source i).skill.skillRoot compiled (F.source i).skill.registrySlots).map fun diag =>
      ⟨diag.code, diag.message⟩

def compileSkill : ℕ → List (GraphKey ι) → Option (Cache ι) → ι → Outcome Unit × Option (Cache ι)
  | 0, _, cache, _ => (.exhausted, cache)
  | fuel + 1, stack, cache, i =>
    if ¬ (F.source i).guard.isEmpty then (.raised (F.source i).guard, cache)
    else
      match compileGraphs (fun cache graph => F.compileGraph
          (fun stack cache j => (compileSkill fuel stack (some cache) j).map id (·.getD cache)) stack cache i graph)
          (F.graphs i) cache { issues := (F.source i).manifest } with
      | (.exhausted, cache) => (.exhausted, cache)
      | (.raised issues, cache) => (.raised issues, cache)
      | (.ok collected, cache) =>
        let issues := collected.issues ++ F.registryIssues i collected.compiled
        if issues.isEmpty then (.ok (), cache) else (.raised issues, cache)

def compile (fuel : ℕ) (i : ι) : Outcome Unit := (F.compileSkill fuel [] none i).1

end Family

def nested {ι : Type} [DecidableEq ι] (F : Family ι) (fuel : ℕ) (stack : List (GraphKey ι)) (cache : Cache ι) (j : ι) :
    Outcome Unit × Cache ι :=
  (F.compileSkill fuel stack (some cache) j).map id (·.getD cache)

namespace Family

variable {ι : Type} [DecidableEq ι] (F : Family ι)

def subagentRuntimeMap (assemble : Cache ι → ι → Outcome Unit × Cache ι) :
    List String → Cache ι → Outcome Unit × Cache ι
  | [], cache => (.ok (), cache)
  | name :: rest, cache =>
    match if (F.resolve name, GraphRoot.skill) ∈ cache then (.ok (), cache)
      else nested F (maxDepth + 1) [] cache (F.resolve name) with
    | (.exhausted, cache) => (.exhausted, cache)
    | (.raised issues, cache) => (.raised issues, cache)
    | (.ok _, cache) =>
      match assemble cache (F.resolve name) with
      | (.exhausted, cache) => (.exhausted, cache)
      | (.raised issues, cache) => (.raised issues, cache)
      | (.ok _, cache) => subagentRuntimeMap assemble rest cache

def buildPhaseNode (assemble : Cache ι → ι → CompiledGraph → Outcome Unit × Cache ι) (cache : Cache ι) (i : ι)
    (graph : CompiledGraph) (phase : CallingPhase) : Outcome Unit × Cache ι :=
  match phase.calls with
  | .logic => (.ok (), cache)
  | .subgraph target =>
    match (F.source i).skill.graphRegistry.get? target with
    | none => (.raised [⟨"[F-v3-graph-reference-unknown]", "graph registry does not contain '" ++ target ++ "'"⟩],
      cache)
    | some sub => assemble cache i sub
  | .agent _ => F.subagentRuntimeMap (fun cache j => assemble cache j (F.source j).skill.root)
      (F.phaseTargets i graph phase) cache

def buildPhaseNodes (build : Cache ι → CallingPhase → Outcome Unit × Cache ι) :
    List CallingPhase → Cache ι → Outcome Unit × Cache ι
  | [], cache => (.ok (), cache)
  | phase :: rest, cache =>
    match build cache phase with
    | (.exhausted, cache) => (.exhausted, cache)
    | (.raised issues, cache) => (.raised issues, cache)
    | (.ok _, cache) => buildPhaseNodes build rest cache

def assembleGraph : ℕ → Cache ι → ι → CompiledGraph → Outcome Unit × Cache ι
  | 0, cache, _, _ => (.exhausted, cache)
  | fuel + 1, cache, i, graph =>
    buildPhaseNodes (fun cache phase => F.buildPhaseNode (assembleGraph fuel) cache i graph phase) graph.nodes cache

def Edge (i j : ι) : Prop := ∃ graph ∈ F.graphs i, ∃ name ∈ F.targets i graph, F.resolve name = j

def ReachesCycle (i : ι) : Prop := ∃ j, ReflTransGen F.Edge i j ∧ TransGen F.Edge j j

def ReportsCycle (i : ι) : Prop :=
  ∃ first rest, F.compile (maxDepth + 1) i = .raised (first :: rest) ∧ first.code = cycleCode

inductive Nested (top : ι) : List (GraphKey ι) → ι → Prop where
  | start : Nested top [] top
  | push {stack : List (GraphKey ι)} {i : ι} {graph : CompiledGraph} {name : String} (h : Nested top stack i)
      (hgraph : graph ∈ F.graphs i) (hname : name ∈ F.targets i graph) :
      Nested top ((i, graph.graphRoot) :: stack) (F.resolve name)

/-- No chain of nested compilations of different graphs is longer than the limit. -/
def WithinDepth (top : ι) : Prop :=
  ∀ stack i graph, F.Nested top stack i → graph ∈ F.graphs i → ((i, graph.graphRoot) :: stack).Nodup →
    ((i, graph.graphRoot) :: stack).length ≤ maxDepth

end Family

structure GraphChecks.Clean (checks : GraphChecks) : Prop where
  batch : checks.batch = []
  post : checks.post = []
  discovery : checks.discovery = []
  child : ∀ target, checks.child target = []
  injection : checks.injection = []
  declaredTools : checks.declaredTools = []
  returnKeys : checks.returnKeys = []

theorem GraphChecks.Clean.late {checks : GraphChecks} (h : checks.Clean) : checks.late = [] := by
  simp [GraphChecks.late, h.post, h.injection, h.declaredTools, h.returnKeys]

structure Family.OtherwiseValid {ι : Type} (F : Family ι) : Prop where
  guard : ∀ i, (F.source i).guard = []
  manifest : ∀ i, (F.source i).manifest = []
  registry : ∀ i, (F.source i).skill.diags = []
  graphs : ∀ i, ∀ graph ∈ F.graphs i, ((F.source i).checks graph.graphRoot).Clean

def Verdict {α : Type} (exhausted good : Prop) (bad : List LoadIssue → Prop) : Outcome α → Prop
  | .exhausted => exhausted
  | .raised issues => bad issues
  | .ok _ => good

section Cases

variable {ι : Type} [DecidableEq ι] {F : Family ι}

inductive GraphCase (F : Family ι) (compile : List (GraphKey ι) → Cache ι → ι → Outcome Unit × Cache ι)
    (stack : List (GraphKey ι)) (cache : Cache ι) (i : ι) (graph : CompiledGraph) : Outcome Unit × Cache ι → Prop where
  | cycle (h : (i, graph.graphRoot) ∈ stack) :
      GraphCase F compile stack cache i graph (.raised [F.cycleIssue (i, graph.graphRoot)], cache)
  | depth (hnew : (i, graph.graphRoot) ∉ stack) (h : maxDepth ≤ stack.length) :
      GraphCase F compile stack cache i graph (.raised [F.depthIssue (i, graph.graphRoot)], cache)
  | cached (h : (i, graph.graphRoot) ∈ cache) : GraphCase F compile stack cache i graph (.ok (), cache)
  | objected {issues : List LoadIssue} {after : Cache ι} (hne : issues ≠ [])
      (h : ¬ ((F.source i).checks graph.graphRoot).Clean)
      (hafter : after = cache ∨ (i, graph.graphRoot) ∉ stack ∧ stack.length < maxDepth ∧ ∃ outcome, F.compileSubagents
        (compile ((i, graph.graphRoot) :: stack)) ((F.source i).checks graph.graphRoot).child (F.targets i graph)
        cache = (outcome, after)) :
      GraphCase F compile stack cache i graph (.raised issues, after)
  | exhausted {after : Cache ι} (hnew : (i, graph.graphRoot) ∉ stack) (hroom : stack.length < maxDepth)
      (h : F.compileSubagents (compile ((i, graph.graphRoot) :: stack)) ((F.source i).checks graph.graphRoot).child
        (F.targets i graph) cache = (.exhausted, after)) :
      GraphCase F compile stack cache i graph (.exhausted, after)
  | nested {issues : List LoadIssue} {after : Cache ι} (hnew : (i, graph.graphRoot) ∉ stack)
      (hroom : stack.length < maxDepth)
      (h : F.compileSubagents (compile ((i, graph.graphRoot) :: stack)) ((F.source i).checks graph.graphRoot).child
        (F.targets i graph) cache = (.raised issues, after)) :
      GraphCase F compile stack cache i graph (.raised (((F.source i).checks graph.graphRoot).post ++ issues ++
        ((F.source i).checks graph.graphRoot).returnKeys), after)
  | done {after : Cache ι} (hnew : (i, graph.graphRoot) ∉ stack) (hroom : stack.length < maxDepth)
      (h : F.compileSubagents (compile ((i, graph.graphRoot) :: stack)) ((F.source i).checks graph.graphRoot).child
        (F.targets i graph) cache = (.ok (), after)) :
      GraphCase F compile stack cache i graph (.ok (), (i, graph.graphRoot) :: after)

theorem compileGraph_case (compile : List (GraphKey ι) → Cache ι → ι → Outcome Unit × Cache ι)
    (stack : List (GraphKey ι)) (cache : Cache ι) (i : ι) (graph : CompiledGraph) :
    GraphCase F compile stack cache i graph (F.compileGraph compile stack cache i graph) := by
  unfold Family.compileGraph
  dsimp only
  by_cases hcycle : (i, graph.graphRoot) ∈ stack
  · rw [if_pos hcycle]
    exact .cycle hcycle
  rw [if_neg hcycle]
  by_cases hdepth : maxDepth ≤ stack.length
  · rw [if_pos hdepth]
    exact .depth hcycle hdepth
  rw [if_neg hdepth]
  have hroom : stack.length < maxDepth := Nat.lt_of_not_le hdepth
  by_cases hcached : (i, graph.graphRoot) ∈ cache
  · rw [if_pos hcached]
    exact .cached hcached
  rw [if_neg hcached]
  by_cases hbatch : ((F.source i).checks graph.graphRoot).batch = []
  · rw [if_neg (by simp [hbatch])]
    by_cases hdiscovery : ((F.source i).checks graph.graphRoot).discovery = []
    · rw [if_neg (by simp [hdiscovery])]
      cases hsub : F.compileSubagents (compile ((i, graph.graphRoot) :: stack))
          ((F.source i).checks graph.graphRoot).child (F.targets i graph) cache with
      | mk outcome after =>
        cases outcome with
        | exhausted => exact .exhausted hcycle hroom hsub
        | raised issues => exact .nested hcycle hroom hsub
        | ok value =>
          by_cases hlate : ((F.source i).checks graph.graphRoot).late = []
          · dsimp only
            rw [if_pos (by simp [hlate])]
            exact .done hcycle hroom hsub
          · dsimp only
            rw [if_neg (by simpa using hlate)]
            exact .objected hlate (fun h => hlate h.late) (Or.inr ⟨hcycle, hroom, _, hsub⟩)
    · rw [if_pos (by simpa using hdiscovery)]
      exact .objected (by simp [hdiscovery]) (fun h => hdiscovery h.discovery) (Or.inl rfl)
  · rw [if_pos (by simpa using hbatch)]
    exact .objected hbatch (fun h => hbatch h.batch) (Or.inl rfl)

omit [DecidableEq ι] in
theorem compileSubagents_spec {compile : Cache ι → ι → Outcome Unit × Cache ι} {child : String → List LoadIssue}
    {P : Cache ι → Prop} {E : Prop} {A : ι → Prop} {B : List LoadIssue → Prop} {names : List String}
    (h : ∀ cache, ∀ name ∈ names, P cache → P (compile cache (F.resolve name)).2 ∧
      Verdict E (A (F.resolve name)) B (compile cache (F.resolve name)).1)
    (hchild : ∀ name ∈ names, child name ≠ [] → B (child name)) {cache : Cache ι} (hcache : P cache) :
    P (F.compileSubagents compile child names cache).2 ∧
      Verdict E (∀ name ∈ names, A (F.resolve name)) B (F.compileSubagents compile child names cache).1 := by
  induction names generalizing cache with
  | nil => exact ⟨hcache, by simp [Family.compileSubagents, Verdict]⟩
  | cons name rest ih =>
    have hfirst := h cache name (List.mem_cons_self ..) hcache
    rw [Family.compileSubagents]
    cases hc : compile cache (F.resolve name) with
    | mk outcome after =>
      rw [hc] at hfirst
      cases outcome with
      | exhausted => exact hfirst
      | raised issues => exact hfirst
      | ok value =>
        dsimp only
        by_cases hobject : child name = []
        · rw [if_pos (by simp [hobject])]
          obtain ⟨hP, hV⟩ := ih (fun cache name hname => h cache name (List.mem_cons_of_mem _ hname))
            (fun name hname => hchild name (List.mem_cons_of_mem _ hname)) hfirst.1
          refine ⟨hP, ?_⟩
          revert hV
          cases (F.compileSubagents compile child rest after).1 with
          | exhausted => exact id
          | raised issues => exact id
          | ok _ => exact fun hrest => List.forall_mem_cons.mpr ⟨hfirst.2, hrest⟩
        · rw [if_neg (by simpa using hobject)]
          exact ⟨hfirst.1, hchild name (List.mem_cons_self ..) hobject⟩

structure Gathered (good : CompiledGraph → Prop) (bad : List LoadIssue → Prop) (graphs : List CompiledGraph)
    (before after : Collected) : Prop where
  all : after.issues = [] → before.issues = [] ∧ after.compiled = before.compiled ++ graphs ∧
    ∀ graph ∈ graphs, good graph
  first : before.issues = [] → after.issues = [] ∨ ∃ issues rest, after.issues = issues ++ rest ∧ bad issues
  kept : ∃ rest, after.issues = before.issues ++ rest

omit [DecidableEq ι] in
theorem compileGraphs_spec {compile : Cache ι → CompiledGraph → Outcome Unit × Cache ι} {P : Cache ι → Prop}
    {E : Prop} {good : CompiledGraph → Prop} {bad : List LoadIssue → Prop} {graphs : List CompiledGraph}
    (h : ∀ cache, ∀ graph ∈ graphs, P cache → P (compile cache graph).2 ∧
      Verdict E (good graph) bad (compile cache graph).1)
    (hbad : ∀ issues, bad issues → issues ≠ []) (hempty : P []) {cache : Option (Cache ι)} (hcache : ∀ c ∈ cache, P c)
    (collected : Collected) :
    (∀ c ∈ (Family.compileGraphs compile graphs cache collected).2, P c) ∧
      ((Family.compileGraphs compile graphs cache collected).1 = .exhausted ∧ E ∨
        ∃ after, (Family.compileGraphs compile graphs cache collected).1 = .ok after ∧
          Gathered good bad graphs collected after) := by
  induction graphs generalizing cache collected with
  | nil =>
    refine ⟨hcache, Or.inr ⟨collected, rfl, ?_, fun hnone => Or.inl hnone, ⟨[], (List.append_nil _).symm⟩⟩⟩
    intro hnone
    exact ⟨hnone, (List.append_nil _).symm, by simp⟩
  | cons graph rest ih =>
    have hstart : P (cache.getD []) := by
      cases cache with
      | none => exact hempty
      | some c => exact hcache c rfl
    have hrest := fun cache graph (hgraph : graph ∈ rest) => h cache graph (List.mem_cons_of_mem _ hgraph)
    have hfirst := h (cache.getD []) graph (List.mem_cons_self ..) hstart
    rw [Family.compileGraphs]
    cases hc : compile (cache.getD []) graph with
    | mk outcome after =>
      rw [hc] at hfirst
      have hnext : ∀ c ∈ cache.map (fun _ => after), P c := by
        intro c hin
        obtain ⟨old, -, rfl⟩ := Option.map_eq_some_iff.mp hin
        exact hfirst.1
      cases outcome with
      | exhausted => exact ⟨hcache, Or.inl ⟨rfl, hfirst.2⟩⟩
      | raised issues =>
        dsimp only
        obtain ⟨hP, hrun | ⟨final, hfinal, hall, -, more, hmore⟩⟩ := ih hrest hnext
          { collected with issues := collected.issues ++ issues }
        · exact ⟨hP, Or.inl hrun⟩
        · have hissues : issues ≠ [] := hbad issues hfirst.2
          refine ⟨hP, Or.inr ⟨final, hfinal, ?_, ?_, issues ++ more, ?_⟩⟩
          · intro hnone
            have hboth := (hall hnone).1
            rw [List.append_eq_nil_iff] at hboth
            exact absurd hboth.2 hissues
          · intro hnone
            right
            refine ⟨issues, more, ?_, hfirst.2⟩
            rw [hmore, hnone, List.nil_append]
          · rw [hmore, List.append_assoc]
      | ok value =>
        dsimp only
        obtain ⟨hP, hrun | ⟨final, hfinal, hall, hone, hkept⟩⟩ := ih hrest hnext
          { collected with compiled := collected.compiled ++ [graph] }
        · exact ⟨hP, Or.inl hrun⟩
        · refine ⟨hP, Or.inr ⟨final, hfinal, ?_, hone, hkept⟩⟩
          intro hnone
          obtain ⟨hbefore, hcompiled, hgood⟩ := hall hnone
          refine ⟨hbefore, ?_, List.forall_mem_cons.mpr ⟨hfirst.2, hgood⟩⟩
          rw [hcompiled, List.append_assoc, List.singleton_append]

theorem compileSkill_spec {P : Cache ι → Prop} {E : Prop} {good : CompiledGraph → Prop} {bad : List LoadIssue → Prop}
    {fuel : ℕ} {stack : List (GraphKey ι)} {i : ι}
    (h : ∀ cache, ∀ graph ∈ F.graphs i, P cache →
      P (F.compileGraph (nested F fuel) stack cache i graph).2 ∧
        Verdict E (good graph) bad (F.compileGraph (nested F fuel) stack cache i graph).1)
    (hbad : ∀ issues, bad issues → issues ≠ []) (hempty : P []) {cache : Option (Cache ι)} (hcache : ∀ c ∈ cache, P c) :
    (∀ c ∈ (F.compileSkill (fuel + 1) stack cache i).2, P c) ∧
      ((F.compileSkill (fuel + 1) stack cache i).1 = .exhausted ∧ E ∨
        (F.compileSkill (fuel + 1) stack cache i).1 = .ok () ∧ (F.source i).skill.diags = [] ∧
          (∀ graph ∈ F.graphs i, good graph) ∨
        ∃ issues rest, (F.compileSkill (fuel + 1) stack cache i).1 = .raised (issues ++ rest) ∧ issues ≠ [] ∧
          ((F.source i).guard = [] → (F.source i).manifest = [] → (F.source i).skill.diags = [] → bad issues)) := by
  rw [Family.compileSkill]
  by_cases hguard : (F.source i).guard = []
  swap
  · rw [if_pos (by simpa using hguard)]
    refine ⟨hcache, Or.inr (Or.inr ⟨(F.source i).guard, [], by rw [List.append_nil], hguard, ?_⟩)⟩
    intro hnone
    exact absurd hnone hguard
  rw [if_neg (by simp [hguard])]
  have hgraphs := compileGraphs_spec h hbad hempty hcache { issues := (F.source i).manifest }
  generalize hrun : Family.compileGraphs (fun cache graph => F.compileGraph (nested F fuel) stack cache i graph)
    (F.graphs i) cache { issues := (F.source i).manifest } = run at hgraphs
  obtain ⟨hP, hcases⟩ := hgraphs
  have hmatch : Family.compileGraphs (fun cache graph => F.compileGraph
      (fun stack cache j => Prod.map id (fun x => x.getD cache) (F.compileSkill fuel stack (some cache) j))
        stack cache i
      graph) (F.graphs i) cache { issues := (F.source i).manifest } = run := hrun
  rw [hmatch]
  obtain ⟨outcome, after⟩ := run
  rcases hcases with ⟨hex, hE⟩ | ⟨final, hfinal, hgathered⟩
  · dsimp only at hex
    subst hex
    exact ⟨hP, Or.inl ⟨rfl, hE⟩⟩
  dsimp only at hfinal
  subst hfinal
  have hnonempty : F.graphs i ≠ [] := by simp [Family.graphs, BusinessSkill.graphs]
  have hregistry : final.compiled = F.graphs i →
      (F.registryIssues i final.compiled = [] ↔ (F.source i).skill.diags = []) := by
    intro hcompiled
    rw [Family.registryIssues, if_neg (by simpa [hcompiled] using hnonempty), List.map_eq_nil_iff, hcompiled]
    rfl
  dsimp only
  by_cases hissues : final.issues ++ F.registryIssues i final.compiled = []
  · rw [if_pos (by simpa using hissues)]
    rw [List.append_eq_nil_iff] at hissues
    obtain ⟨-, hcompiled, hgood⟩ := hgathered.all hissues.1
    exact ⟨hP, Or.inr (Or.inl ⟨rfl, (hregistry hcompiled).mp hissues.2, hgood⟩)⟩
  rw [if_neg (by simpa using hissues)]
  refine ⟨hP, Or.inr (Or.inr ?_)⟩
  by_cases hclean : (F.source i).manifest = [] ∧ (F.source i).skill.diags = []
  · rcases hgathered.first hclean.1 with hnone | ⟨issues, rest, hsplit, hissue⟩
    · obtain ⟨-, hcompiled, -⟩ := hgathered.all hnone
      exact absurd (by rw [hnone, (hregistry hcompiled).mpr hclean.2]; rfl) hissues
    · exact ⟨issues, rest ++ F.registryIssues i final.compiled, by rw [hsplit, List.append_assoc], hbad _ hissue,
        fun _ _ _ => hissue⟩
  · exact ⟨_, [], by rw [List.append_nil], hissues, fun _ hm hd => absurd ⟨hm, hd⟩ hclean⟩

theorem compileGraph_congr {compile compile' : List (GraphKey ι) → Cache ι → ι → Outcome Unit × Cache ι}
    {stack : List (GraphKey ι)} {cache : Cache ι} {i : ι} {graph : CompiledGraph}
    (h : stack.length < maxDepth → compile ((i, graph.graphRoot) :: stack) = compile' ((i, graph.graphRoot) :: stack)) :
    F.compileGraph compile stack cache i graph = F.compileGraph compile' stack cache i graph := by
  unfold Family.compileGraph
  dsimp only
  by_cases hdepth : maxDepth ≤ stack.length
  · simp only [if_pos hdepth]
  · rw [h (Nat.lt_of_not_le hdepth)]

theorem compileSkill_fuel {fuel fuel' : ℕ} {stack : List (GraphKey ι)} (hstack : stack.length ≤ maxDepth)
    (h : maxDepth < fuel + stack.length) (h' : maxDepth < fuel' + stack.length) (cache : Option (Cache ι)) (i : ι) :
    F.compileSkill fuel stack cache i = F.compileSkill fuel' stack cache i := by
  induction fuel generalizing fuel' stack cache i with
  | zero => omega
  | succ fuel ih =>
    obtain ⟨fuel', rfl⟩ : ∃ n, fuel' = n + 1 := ⟨fuel' - 1, by omega⟩
    have hnested : ∀ graph : CompiledGraph, stack.length < maxDepth →
        nested F fuel ((i, graph.graphRoot) :: stack) = nested F fuel' ((i, graph.graphRoot) :: stack) := by
      intro graph hroom
      funext cache j
      have hlength : ((i, graph.graphRoot) :: stack).length = stack.length + 1 := List.length_cons
      rw [nested, nested, ih (by omega) (by omega) (by omega : maxDepth < fuel' + _)]
    have hgraphs : (fun (cache : Cache ι) (graph : CompiledGraph) =>
        F.compileGraph (nested F fuel) stack cache i graph) =
        fun cache graph => F.compileGraph (nested F fuel') stack cache i graph := by
      funext cache graph
      exact compileGraph_congr (hnested graph)
    unfold nested at hgraphs
    rw [Family.compileSkill, Family.compileSkill, hgraphs]

theorem compileGraph_spec {compile : List (GraphKey ι) → Cache ι → ι → Outcome Unit × Cache ι} {P : Cache ι → Prop}
    {E good : Prop} {A : ι → Prop} {bad B : List LoadIssue → Prop} {stack : List (GraphKey ι)} {i : ι}
    {graph : CompiledGraph} (hcycle : (i, graph.graphRoot) ∈ stack → bad [F.cycleIssue (i, graph.graphRoot)])
    (hdepth : (i, graph.graphRoot) ∉ stack → maxDepth ≤ stack.length → bad [F.depthIssue (i, graph.graphRoot)])
    (hcached : ∀ cache, P cache → (i, graph.graphRoot) ∈ cache → good)
    (hobject : ¬ ((F.source i).checks graph.graphRoot).Clean → ∀ issues, issues ≠ [] → bad issues ∧ B issues)
    (hnested : (i, graph.graphRoot) ∉ stack → stack.length < maxDepth → ∀ cache, ∀ name ∈ F.targets i graph, P cache →
      P (compile ((i, graph.graphRoot) :: stack) cache (F.resolve name)).2 ∧
        Verdict E (A (F.resolve name)) B (compile ((i, graph.graphRoot) :: stack) cache (F.resolve name)).1)
    (hraise : ∀ issues, B issues → bad (((F.source i).checks graph.graphRoot).post ++ issues ++
      ((F.source i).checks graph.graphRoot).returnKeys))
    (hdone : (∀ name ∈ F.targets i graph, A (F.resolve name)) →
      good ∧ ∀ cache, P cache → P ((i, graph.graphRoot) :: cache)) {cache : Cache ι} (hP : P cache) :
    P (F.compileGraph compile stack cache i graph).2 ∧
      Verdict E good bad (F.compileGraph compile stack cache i graph).1 := by
  have hsub : (i, graph.graphRoot) ∉ stack → stack.length < maxDepth →
      P (F.compileSubagents (compile ((i, graph.graphRoot) :: stack)) ((F.source i).checks graph.graphRoot).child
        (F.targets i graph) cache).2 ∧
      Verdict E (∀ name ∈ F.targets i graph, A (F.resolve name)) B
        (F.compileSubagents (compile ((i, graph.graphRoot) :: stack)) ((F.source i).checks graph.graphRoot).child
          (F.targets i graph) cache).1 := by
    intro hnew hroom
    apply compileSubagents_spec (hnested hnew hroom)
    · intro name _ hchild
      exact (hobject (fun hclean => hchild (hclean.child name)) _ hchild).2
    · exact hP
  have hcase := compileGraph_case (F := F) compile stack cache i graph
  generalize F.compileGraph compile stack cache i graph = result at hcase
  cases hcase with
  | cycle h => exact ⟨hP, hcycle h⟩
  | depth hnew h => exact ⟨hP, hdepth hnew h⟩
  | cached h => exact ⟨hP, hcached cache hP h⟩
  | objected hne h hafter =>
    refine ⟨?_, (hobject h _ hne).1⟩
    rcases hafter with rfl | ⟨hnew, hroom, outcome, hrun⟩
    · exact hP
    · have := (hsub hnew hroom).1
      rwa [hrun] at this
  | exhausted hnew hroom hrun =>
    have := hsub hnew hroom
    rwa [hrun] at this
  | nested hnew hroom hrun =>
    have hboth := hsub hnew hroom
    rw [hrun] at hboth
    exact ⟨hboth.1, hraise _ hboth.2⟩
  | done hnew hroom hrun =>
    have hboth := hsub hnew hroom
    rw [hrun] at hboth
    obtain ⟨hgood, hpush⟩ := hdone hboth.2
    exact ⟨hpush _ hboth.1, hgood⟩

theorem nested_snd {P : Cache ι → Prop} {fuel : ℕ} {stack : List (GraphKey ι)} {cache : Cache ι} {j : ι}
    (hP : P cache) (h : ∀ c ∈ (F.compileSkill fuel stack (some cache) j).2, P c) :
    P (nested F fuel stack cache j).2 := by
  rw [nested, Prod.map_snd]
  cases hc : (F.compileSkill fuel stack (some cache) j).2 with
  | none => exact hP
  | some c => exact h c hc

theorem compileSkill_verdict {P : Cache ι → Prop} {E G : Prop} (good : CompiledGraph → Prop)
    (bad : List LoadIssue → Prop) {B : List LoadIssue → Prop} {fuel : ℕ} {stack : List (GraphKey ι)} {i : ι}
    (h : ∀ cache, ∀ graph ∈ F.graphs i, P cache →
      P (F.compileGraph (nested F fuel) stack cache i graph).2 ∧
        Verdict E (good graph) bad (F.compileGraph (nested F fuel) stack cache i graph).1)
    (hbad : ∀ issues, bad issues → issues ≠ []) (hempty : P []) {cache : Option (Cache ι)} (hcache : ∀ c ∈ cache, P c)
    (hgood : (F.source i).skill.diags = [] → (∀ graph ∈ F.graphs i, good graph) → G)
    (hraise : ∀ issues rest, issues ≠ [] → ((F.source i).guard = [] → (F.source i).manifest = [] →
      (F.source i).skill.diags = [] → bad issues) → B (issues ++ rest)) :
    (∀ c ∈ (F.compileSkill (fuel + 1) stack cache i).2, P c) ∧
      Verdict E G B (F.compileSkill (fuel + 1) stack cache i).1 := by
  obtain ⟨hP, hcases⟩ := compileSkill_spec h hbad hempty hcache
  refine ⟨hP, ?_⟩
  rcases hcases with ⟨hrun, hE⟩ | ⟨hrun, hdiags, hall⟩ | ⟨issues, rest, hrun, hne, hissues⟩
  · rw [hrun]
    exact hE
  · rw [hrun]
    exact hgood hdiags hall
  · rw [hrun]
    exact hraise issues rest hne hissues

theorem compileSkill_ends {fuel : ℕ} {stack : List (GraphKey ι)} (hstack : stack.length ≤ maxDepth)
    (h : maxDepth < fuel + stack.length) (cache : Option (Cache ι)) (i : ι) :
    Verdict False True (fun issues => issues ≠ []) (F.compileSkill fuel stack cache i).1 := by
  induction fuel generalizing stack cache i with
  | zero => omega
  | succ fuel ih =>
    refine (compileSkill_verdict (P := fun _ => True) (fun _ => True) (fun issues => issues ≠ []) ?_
      (fun _ hne => hne) trivial (fun _ _ => trivial) (fun _ _ => trivial) ?_).2
    · intro cache graph _ _
      apply compileGraph_spec (P := fun _ => True) (A := fun _ => True) (B := fun issues => issues ≠ [])
      · exact fun _ => List.cons_ne_nil _ _
      · exact fun _ _ => List.cons_ne_nil _ _
      · exact fun _ _ _ => trivial
      · exact fun _ issues hne => ⟨hne, hne⟩
      · intro _ hroom cache name _ _
        have hlength : ((i, graph.graphRoot) :: stack).length = stack.length + 1 := List.length_cons
        exact ⟨trivial, ih (by omega) (by omega) (some cache) (F.resolve name)⟩
      · intro issues hne
        simp [hne]
      · exact fun _ => ⟨trivial, fun _ _ => trivial⟩
      · trivial
    · intro issues rest hne _
      simp [hne]

inductive Built (F : Family ι) : ι → Prop where
  | intro {i : ι} (hdiags : (F.source i).skill.diags = []) (h : ∀ j, F.Edge i j → Built F j) : Built F i

def Good (F : Family ι) (cache : Cache ι) : Prop :=
  ∀ key ∈ cache, ∀ graph ∈ F.graphs key.1, graph.graphRoot = key.2 → ∀ name ∈ F.targets key.1 graph,
    Built F (F.resolve name)

omit [DecidableEq ι] in
theorem eq_of_graphRoot {i : ι} {graph graph' : CompiledGraph} (h : graph ∈ F.graphs i) (h' : graph' ∈ F.graphs i)
    (hroot : graph.graphRoot = graph'.graphRoot) : graph = graph' :=
  List.inj_on_of_nodup_map (F.source i).distinct h h' hroot

theorem compileSkill_built (fuel : ℕ) (stack : List (GraphKey ι)) (cache : Option (Cache ι)) (i : ι)
    (hcache : ∀ c ∈ cache, Good F c) :
    (∀ c ∈ (F.compileSkill fuel stack cache i).2, Good F c) ∧
      Verdict True (Built F i) (fun issues => issues ≠ []) (F.compileSkill fuel stack cache i).1 := by
  induction fuel generalizing stack cache i with
  | zero => exact ⟨hcache, trivial⟩
  | succ fuel ih =>
    apply compileSkill_verdict (fun graph => ∀ name ∈ F.targets i graph, Built F (F.resolve name))
      (fun issues => issues ≠ [])
    · intro cache graph hgraph hgood
      apply compileGraph_spec (P := Good F) (A := Built F) (B := fun issues => issues ≠ [])
      · exact fun _ => List.cons_ne_nil _ _
      · exact fun _ _ => List.cons_ne_nil _ _
      · intro cache hgood hin
        exact hgood _ hin graph hgraph rfl
      · exact fun _ issues hne => ⟨hne, hne⟩
      · intro _ _ cache name _ hgood
        have hchild := ih ((i, graph.graphRoot) :: stack) (some cache) (F.resolve name)
          (fun c hc => Option.some.inj hc ▸ hgood)
        exact ⟨nested_snd hgood hchild.1, hchild.2⟩
      · intro issues hne
        simp [hne]
      · intro hall
        refine ⟨hall, ?_⟩
        intro cache hgood key hin other hother hroot
        rcases List.mem_cons.mp hin with rfl | hin
        · rw [eq_of_graphRoot hother hgraph hroot]
          exact hall
        · exact hgood key hin other hother hroot
      · exact hgood
    · exact fun _ hne => hne
    · intro key hin
      cases hin
    · exact hcache
    · intro hdiags hall
      refine .intro hdiags ?_
      rintro j ⟨graph, hgraph, name, hname, rfl⟩
      exact hall graph hgraph name hname
    · intro issues rest hne _
      simp [hne]

omit [DecidableEq ι] in
theorem Built.of_reachable {i j : ι} (h : Built F i) (hreach : ReflTransGen F.Edge i j) : Built F j := by
  induction hreach with
  | refl => exact h
  | tail _ hedge ih =>
    cases ih with
    | intro _ hnext => exact hnext _ hedge

omit [DecidableEq ι] in
theorem Built.acyclic {i : ι} (h : Built F i) : ¬ TransGen F.Edge i i := by
  induction h with
  | @intro i _ _ ih =>
    intro hcycle
    obtain ⟨j, hedge, hback⟩ := TransGen.head'_iff.mp hcycle
    exact ih j hedge (TransGen.tail' hback hedge)

omit [DecidableEq ι] in
theorem Built.no_cycle {i : ι} (h : Built F i) : ¬ F.ReachesCycle i := by
  rintro ⟨j, hreach, hcycle⟩
  exact (h.of_reachable hreach).acyclic hcycle

def Caught (F : Family ι) (top : ι) (stack : List (GraphKey ι)) (i : ι) (issues : List LoadIssue) : Prop :=
  ∃ first rest, issues = first :: rest ∧
    (first.code = cycleCode ∧ (F.ReachesCycle i ∨ ∃ key ∈ stack, ReflTransGen F.Edge i key.1) ∨
      first.code = depthCode ∧ ¬ F.WithinDepth top)

omit [DecidableEq ι] in
theorem Caught.of_child {top i : ι} {stack : List (GraphKey ι)} {graph : CompiledGraph} (hgraph : graph ∈ F.graphs i)
    {name : String} (hname : name ∈ F.targets i graph) {issues : List LoadIssue}
    (h : Caught F top ((i, graph.graphRoot) :: stack) (F.resolve name) issues) : Caught F top stack i issues := by
  have hedge : F.Edge i (F.resolve name) := ⟨graph, hgraph, name, hname, rfl⟩
  obtain ⟨first, rest, hissues, hcycle | hdepth⟩ := h
  · refine ⟨first, rest, hissues, Or.inl ⟨hcycle.1, ?_⟩⟩
    rcases hcycle.2 with ⟨j, hreach, hloop⟩ | ⟨key, hkey, hreach⟩
    · exact Or.inl ⟨j, .head hedge hreach, hloop⟩
    · rcases List.mem_cons.mp hkey with rfl | hkey
      · exact Or.inl ⟨i, .refl, TransGen.head' hedge hreach⟩
      · exact Or.inr ⟨key, hkey, .head hedge hreach⟩
  · exact ⟨first, rest, hissues, Or.inr hdepth⟩

theorem compileSkill_caught (hvalid : F.OtherwiseValid) (top : ι) (fuel : ℕ) {stack : List (GraphKey ι)}
    (cache : Option (Cache ι)) {i : ι} (hstack : F.Nested top stack i) (hnodup : stack.Nodup) :
    Verdict True True (Caught F top stack i) (F.compileSkill fuel stack cache i).1 := by
  induction fuel generalizing stack cache i with
  | zero => trivial
  | succ fuel ih =>
    refine (compileSkill_verdict (P := fun _ => True) (fun _ => True) (Caught F top stack i) ?_ ?_ trivial
      (fun _ _ => trivial) (fun _ _ => trivial) ?_).2
    · intro cache graph hgraph _
      have hclean := hvalid.graphs i graph hgraph
      apply compileGraph_spec (P := fun _ => True) (A := fun _ => True)
        (B := fun issues => ∃ name ∈ F.targets i graph, Caught F top ((i, graph.graphRoot) :: stack)
          (F.resolve name) issues)
      · intro hin
        exact ⟨_, [], rfl, Or.inl ⟨rfl, Or.inr ⟨_, hin, .refl⟩⟩⟩
      · intro hnew hfull
        refine ⟨_, [], rfl, Or.inr ⟨rfl, fun hwithin => ?_⟩⟩
        have hlength := hwithin stack i graph hstack hgraph (List.nodup_cons.mpr ⟨hnew, hnodup⟩)
        rw [List.length_cons] at hlength
        omega
      · exact fun _ _ _ => trivial
      · exact fun hdirty => absurd hclean hdirty
      · intro hnew _ cache name hname _
        have hchild := ih (some cache) (.push hstack hgraph hname) (List.nodup_cons.mpr ⟨hnew, hnodup⟩)
        refine ⟨trivial, ?_⟩
        change Verdict _ _ _ (F.compileSkill fuel ((i, graph.graphRoot) :: stack) (some cache) (F.resolve name)).1
        revert hchild
        cases (F.compileSkill fuel ((i, graph.graphRoot) :: stack) (some cache) (F.resolve name)).1 with
        | exhausted => exact id
        | raised issues => exact fun hcaught => ⟨name, hname, hcaught⟩
        | ok _ => exact id
      · rintro issues ⟨name, hname, hcaught⟩
        rw [hclean.post, hclean.returnKeys, List.nil_append, List.append_nil]
        exact hcaught.of_child hgraph hname
      · exact fun _ => ⟨trivial, fun _ _ => trivial⟩
      · trivial
    · rintro issues ⟨first, rest, rfl, -⟩
      exact List.cons_ne_nil _ _
    · intro issues rest _ hcaught
      obtain ⟨first, more, rfl, hfirst⟩ := hcaught (hvalid.guard i) (hvalid.manifest i) (hvalid.registry i)
      exact ⟨first, more ++ rest, rfl, hfirst⟩

theorem reportsCycle_iff (hvalid : F.OtherwiseValid) {i : ι} (hdepth : F.WithinDepth i) :
    F.ReportsCycle i ↔ F.ReachesCycle i := by
  have hcaught := compileSkill_caught hvalid i (maxDepth + 1) none .start List.nodup_nil
  have hbuilt := (compileSkill_built (maxDepth + 1) [] none i (by simp) (F := F)).2
  have hends := compileSkill_ends (F := F) (Nat.zero_le _)
    (by simp : maxDepth < maxDepth + 1 + ([] : List (GraphKey ι)).length)
    none i
  rw [Family.ReportsCycle, Family.compile]
  revert hcaught hbuilt hends
  cases (F.compileSkill (maxDepth + 1) [] none i).1 with
  | exhausted => exact fun _ _ h => h.elim
  | raised issues =>
    rintro ⟨first, rest, rfl, ⟨hcode, hcycle⟩ | ⟨-, hlong⟩⟩ - -
    · have hreach : F.ReachesCycle i := by
        rcases hcycle with hcycle | ⟨key, hkey, -⟩
        · exact hcycle
        · cases hkey
      exact ⟨fun _ => hreach, fun _ => ⟨first, rest, rfl, hcode⟩⟩
    · exact absurd hdepth hlong
  | ok value =>
    intro _ hbuilt _
    constructor
    · rintro ⟨first, rest, h, -⟩
      cases h
    · intro hcycle
      exact absurd hcycle (Built.no_cycle hbuilt)

theorem nested_ends (cache : Cache ι) (j : ι) : (nested F (maxDepth + 1) [] cache j).1 ≠ .exhausted := by
  have hends := compileSkill_ends (F := F) (Nat.zero_le _)
    (by simp : maxDepth < maxDepth + 1 + ([] : List (GraphKey ι)).length) (some cache) j
  intro hrun
  have hrun' : (F.compileSkill (maxDepth + 1) [] (some cache) j).1 = .exhausted := hrun
  rw [hrun'] at hends
  exact hends

def Ends (run : ℕ → Cache ι → Outcome Unit × Cache ι) : Prop :=
  ∃ n, ∀ fuel ≥ n, ∀ cache, (run fuel cache).1 ≠ .exhausted

theorem subagentRuntimeMap_ends (assemble : ℕ → Cache ι → ι → Outcome Unit × Cache ι) {names : List String}
    (h : ∀ name ∈ names, Ends fun fuel cache => assemble fuel cache (F.resolve name)) :
    Ends fun fuel cache => F.subagentRuntimeMap (assemble fuel) names cache := by
  induction names with
  | nil => exact ⟨0, fun _ _ cache => by simp [Family.subagentRuntimeMap]⟩
  | cons name rest ih =>
    obtain ⟨n, hn⟩ := h name (List.mem_cons_self ..)
    obtain ⟨m, hm⟩ := ih (fun other hother => h other (List.mem_cons_of_mem _ hother))
    refine ⟨max n m, fun fuel hfuel cache => ?_⟩
    have hcompiled : (if (F.resolve name, GraphRoot.skill) ∈ cache then (Outcome.ok (), cache)
        else nested F (maxDepth + 1) [] cache (F.resolve name)).1 ≠ .exhausted := by
      split_ifs
      · simp
      · exact nested_ends cache (F.resolve name)
    dsimp only
    rw [Family.subagentRuntimeMap]
    generalize (if (F.resolve name, GraphRoot.skill) ∈ cache then (Outcome.ok (), cache)
        else nested F (maxDepth + 1) [] cache (F.resolve name)) = compiled at hcompiled
    obtain ⟨outcome, after⟩ := compiled
    cases outcome with
    | exhausted => exact absurd rfl hcompiled
    | raised issues => simp
    | ok value =>
      have hassembled := hn fuel (le_of_max_le_left hfuel) after
      dsimp only at hassembled ⊢
      generalize assemble fuel after (F.resolve name) = assembled at hassembled
      obtain ⟨outcome, after⟩ := assembled
      cases outcome with
      | exhausted => exact absurd rfl hassembled
      | raised issues => simp
      | ok value => exact hm fuel (le_of_max_le_right hfuel) after

omit [DecidableEq ι] in
theorem buildPhaseNodes_ends {build : ℕ → Cache ι → CallingPhase → Outcome Unit × Cache ι} {phases : List CallingPhase}
    (h : ∀ phase ∈ phases, Ends fun fuel cache => build fuel cache phase) :
    Ends fun fuel cache => Family.buildPhaseNodes (build fuel) phases cache := by
  induction phases with
  | nil => exact ⟨0, fun _ _ cache => by simp [Family.buildPhaseNodes]⟩
  | cons phase rest ih =>
    obtain ⟨n, hn⟩ := h phase (List.mem_cons_self ..)
    obtain ⟨m, hm⟩ := ih (fun other hother => h other (List.mem_cons_of_mem _ hother))
    refine ⟨max n m, fun fuel hfuel cache => ?_⟩
    have hbuilt := hn fuel (le_of_max_le_left hfuel) cache
    dsimp only at hbuilt ⊢
    rw [Family.buildPhaseNodes]
    generalize build fuel cache phase = built at hbuilt
    obtain ⟨outcome, after⟩ := built
    cases outcome with
    | exhausted => exact absurd rfl hbuilt
    | raised issues => simp
    | ok value => exact hm fuel (le_of_max_le_right hfuel) after

theorem Built.assembles {i : ι} (h : Built F i) :
    ∀ graph ∈ F.graphs i, Ends fun fuel cache => F.assembleGraph fuel cache i graph := by
  induction h with
  | @intro i hdiags hbelow ih =>
    have hcompiles := BusinessSkill.compiles_of_diags hdiags
    have hacyclic : ∀ id, ¬ TransGen (Function.swap (F.source i).skill.ResolvedCall) id id := by
      intro id hcycle
      exact hcompiles.acyclic id (transGen_swap.mp hcycle)
    have hwf := wellFounded_of_acyclic hacyclic ((F.source i).skill.graphs.map CompiledGraph.graphId)
    have hall : ∀ id : {id // id ∈ (F.source i).skill.graphs.map CompiledGraph.graphId},
        ∀ graph ∈ (F.source i).skill.graphs, graph.graphId = id.1 →
          Ends fun fuel cache => F.assembleGraph fuel cache i graph := by
      intro id
      induction id using hwf.induction with
      | _ id ihid =>
      intro graph hgraph hid
      have hphase : ∀ phase ∈ graph.nodes, Ends fun fuel cache =>
          F.buildPhaseNode (F.assembleGraph fuel) cache i graph phase := by
        intro phase hp
        cases hcalls : phase.calls with
        | logic => exact ⟨0, fun _ _ cache => by simp [Family.buildPhaseNode, hcalls]⟩
        | subgraph target =>
          have ht : target ∈ graph.callTargets :=
            List.mem_flatMap.mpr ⟨phase, hp, by simp [CallingPhase.refs, hcalls]⟩
          obtain ⟨called, hc, hget, rfl, hcall⟩ := hcompiles.called hgraph ht
          have hfirst : TransGen (Function.swap (F.source i).skill.ResolvedCall) called.graphId id.1 :=
            .single (hid ▸ hcall)
          obtain ⟨n, hn⟩ := ihid ⟨called.graphId, List.mem_map_of_mem hc⟩ hfirst called hc rfl
          refine ⟨n, fun fuel hfuel cache => ?_⟩
          simp only [Family.buildPhaseNode, hcalls, hget]
          exact hn fuel hfuel cache
        | agent subgraphs =>
          have hnames : ∀ name ∈ F.phaseTargets i graph phase, Ends fun fuel cache =>
              F.assembleGraph fuel cache (F.resolve name) (F.source (F.resolve name)).skill.root := by
            intro name hname
            have hedge : F.Edge i (F.resolve name) :=
              ⟨graph, hgraph, name, List.mem_flatMap.mpr ⟨phase, hp, hname⟩, rfl⟩
            exact ih (F.resolve name) hedge _ (List.mem_cons_self ..)
          obtain ⟨n, hn⟩ := subagentRuntimeMap_ends
            (fun fuel cache j => F.assembleGraph fuel cache j (F.source j).skill.root) hnames
          refine ⟨n, fun fuel hfuel cache => ?_⟩
          simp only [Family.buildPhaseNode, hcalls]
          exact hn fuel hfuel cache
      obtain ⟨n, hn⟩ := buildPhaseNodes_ends hphase
      refine ⟨n + 1, fun fuel hfuel cache => ?_⟩
      obtain ⟨fuel, rfl⟩ : ∃ k, fuel = k + 1 := ⟨fuel - 1, by omega⟩
      exact hn fuel (by omega) cache
    intro graph hgraph
    exact hall ⟨graph.graphId, List.mem_map_of_mem hgraph⟩ graph hgraph rfl

theorem compile_of_no_cycle (hvalid : F.OtherwiseValid) {top : ι} (hdepth : F.WithinDepth top)
    (hno : ¬ F.ReachesCycle top) : F.compile (maxDepth + 1) top = .ok () := by
  have hcaught := compileSkill_caught hvalid top (maxDepth + 1) none .start List.nodup_nil
  have hends := compileSkill_ends (F := F) (Nat.zero_le _)
    (by simp : maxDepth < maxDepth + 1 + ([] : List (GraphKey ι)).length) none top
  rw [Family.compile]
  revert hcaught hends
  cases (F.compileSkill (maxDepth + 1) [] none top).1 with
  | exhausted => exact fun _ h => h.elim
  | ok value => exact fun _ _ => rfl
  | raised issues =>
    rintro ⟨first, rest, -, ⟨-, hcycle | ⟨key, hkey, -⟩⟩ | ⟨-, hlong⟩⟩ -
    · exact absurd hcycle hno
    · cases hkey
    · exact absurd hdepth hlong

theorem subagent_recursion_caught (F : Family ι) (i : ι) :
    ((∀ fuel > maxDepth, F.compile fuel i = F.compile (maxDepth + 1) i) ∧
      F.compile (maxDepth + 1) i ≠ .exhausted) ∧
    (F.OtherwiseValid → F.WithinDepth i → (F.ReportsCycle i ↔ F.ReachesCycle i)) ∧
    (F.compile (maxDepth + 1) i = .ok () → ∀ graph ∈ F.graphs i, ∃ n, ∀ fuel ≥ n, ∀ cache,
      (F.assembleGraph fuel cache i graph).1 ≠ .exhausted) := by
  have hroom : maxDepth < maxDepth + 1 + ([] : List (GraphKey ι)).length := by simp
  refine ⟨⟨?_, ?_⟩, fun hvalid hdepth => reportsCycle_iff hvalid hdepth, ?_⟩
  · intro fuel hfuel
    have hfuel' : maxDepth < fuel + ([] : List (GraphKey ι)).length := hfuel
    rw [Family.compile, Family.compile, compileSkill_fuel (Nat.zero_le _) hfuel' hroom]
  · intro hrun
    have hends := compileSkill_ends (F := F) (Nat.zero_le _) hroom none i
    rw [Family.compile] at hrun
    rw [hrun] at hends
    exact hends
  · intro hok
    have hbuilt := (compileSkill_built (F := F) (maxDepth + 1) [] none i (by simp)).2
    rw [Family.compile] at hok
    rw [hok] at hbuilt
    exact Built.assembles hbuilt

end Cases

def cleanChecks : GraphChecks := ⟨[], [], [], fun _ => [], [], [], []⟩

inductive Demo where
  | parent
  | child
  | leaf
  deriving DecidableEq

def demoSkill (name : String) : BusinessSkill where
  skillRoot := "/skills/" ++ name
  root := ⟨name, .skill, [], [], [⟨"main", .logic⟩]⟩
  registry := [⟨"work", .registry "work", [], [], [⟨"write", .agent []⟩]⟩]
  root_place := rfl
  registry_place := by simp

/-- The registry graphs of parent and child name each other; the leaf names nobody. -/
def demoFamily : Family Demo where
  source i :=
    { skill := demoSkill "demo"
      guard := []
      manifest := []
      checks := fun _ => cleanChecks
      subagents := fun _ _ =>
        match i with
        | .parent => ["child", "leaf"]
        | .child => ["parent"]
        | .leaf => []
      distinct := by decide }
  resolve name := if name = "parent" then .parent else if name = "child" then .child else .leaf

theorem demoSkill_diags : (demoSkill "demo").diags = [] := by
  have hcycles : callCycles (demoSkill "demo").calls = {} := by
    apply callCycles_of_acyclic
    intro id hcycle
    obtain ⟨next, hedge, -⟩ := TransGen.head'_iff.mp hcycle
    obtain ⟨ref, href, -⟩ := (scanCalls_edge _ _ _ _).mp hedge
    exact List.not_mem_nil href
  exact congrArg CallCycles.diags hcycles

theorem demoFamily_valid : demoFamily.OtherwiseValid :=
  ⟨fun _ => rfl, fun _ => rfl, fun _ => demoSkill_diags, fun _ _ _ => ⟨rfl, rfl, rfl, fun _ => rfl, rfl, rfl, rfl⟩⟩

theorem demoFamily_within (top : Demo) : demoFamily.WithinDepth top := by
  have hroots : ∀ i graph, graph ∈ demoFamily.graphs i →
      (i, graph.graphRoot) ∈ [Demo.parent, .child, .leaf].product [GraphRoot.skill, .registry "work"] := by
    intro i graph hgraph
    rw [List.pair_mem_product]
    refine ⟨by cases i <;> simp, ?_⟩
    simp only [Family.graphs, demoFamily, demoSkill, BusinessSkill.graphs, List.mem_cons, List.not_mem_nil,
      or_false] at hgraph
    rcases hgraph with rfl | rfl <;> simp
  have hstack : ∀ stack i, demoFamily.Nested top stack i →
      stack ⊆ [Demo.parent, .child, .leaf].product [GraphRoot.skill, .registry "work"] := by
    intro stack i h
    induction h with
    | start => simp
    | push _ hgraph _ ih => exact List.cons_subset.mpr ⟨hroots _ _ hgraph, ih⟩
  intro stack i graph hnested hgraph hnodup
  have hsub := List.cons_subset.mpr ⟨hroots i graph hgraph, hstack stack i hnested⟩
  calc ((i, graph.graphRoot) :: stack).length
      ≤ ([Demo.parent, .child, .leaf].product [GraphRoot.skill, .registry "work"]).length :=
        (hnodup.subperm hsub).length_le
    _ ≤ maxDepth := by decide

theorem demo_leaf_compiles : demoFamily.compile (maxDepth + 1) .leaf = .ok () := by
  have hno : ¬ demoFamily.ReachesCycle .leaf := by
    have hedge : ∀ j, ¬ demoFamily.Edge .leaf j := by
      rintro j ⟨graph, hgraph, name, hname, -⟩
      simp only [Family.graphs, demoFamily, demoSkill, BusinessSkill.graphs, List.mem_cons, List.not_mem_nil,
        or_false] at hgraph
      rcases hgraph with rfl | rfl <;> simp [Family.targets, Family.phaseTargets, demoFamily] at hname
    rintro ⟨j, hreach, hcycle⟩
    rcases ReflTransGen.cases_head hreach with rfl | ⟨k, hk, -⟩
    · obtain ⟨k, hk, -⟩ := TransGen.head'_iff.mp hcycle
      exact hedge k hk
    · exact hedge k hk
  exact compile_of_no_cycle demoFamily_valid (demoFamily_within .leaf) hno

theorem subagent_recursion_caught_demo :
    demoFamily.ReportsCycle .parent ∧ demoFamily.compile (maxDepth + 1) .leaf = .ok () ∧
      ∀ graph ∈ demoFamily.graphs .leaf, ∃ n, ∀ fuel ≥ n, ∀ cache,
        (demoFamily.assembleGraph fuel cache .leaf graph).1 ≠ .exhausted := by
  have hedge : demoFamily.Edge .parent .child :=
    ⟨_, List.mem_cons_of_mem _ (List.mem_cons_self ..), "child", List.mem_cons_self .., rfl⟩
  have hback : demoFamily.Edge .child .parent :=
    ⟨_, List.mem_cons_of_mem _ (List.mem_cons_self ..), "parent", List.mem_cons_self .., rfl⟩
  refine ⟨?_, demo_leaf_compiles, (subagent_recursion_caught demoFamily .leaf).2.2 demo_leaf_compiles⟩
  apply ((subagent_recursion_caught demoFamily .parent).2.1 demoFamily_valid (demoFamily_within .parent)).mpr
  exact ⟨.parent, .refl, .tail (.single hedge) hback⟩

end GraphSkillRuntime.SubagentRecursion
