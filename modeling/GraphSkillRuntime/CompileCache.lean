import GraphSkillRuntime.CompiledSnapshot
import GraphSkillRuntime.Runs

/-!
`compile_skill` with its cache. The loader is given by what it reads from the tree; what it does with the
roles the host allows is written out, since the key of the cache says nothing about them.
-/

namespace GraphSkillRuntime.CompileCache

open OrderedDict JsonText PyData SnapshotCodec Codec

structure SkillFile where
  path : String
  mtime : ℤ
  size : ℕ
  content : String
  deriving DecidableEq

structure SkillTree where
  files : List SkillFile
  directories : List String
  sorted : files.Pairwise fun f g => f.path < g.path

def isSkippedDir (name : List Char) : Bool := name.head? == some '.' || name == "__pycache__".toList

def suffix (name : List Char) : List Char :=
  let tail := (name.reverse.takeWhile fun c => c != '.').reverse
  if tail ≠ [] ∧ tail.length + 1 < name.length then '.' :: tail else []

def compileInputSuffixes : List (List Char) := [".md".toList, ".py".toList, ".yaml".toList]

def isCompileInput (f : SkillFile) : Bool :=
  let parts := f.path.toList.splitOn '/'
  parts.dropLast.all (fun name => !isSkippedDir name) && compileInputSuffixes.contains (suffix (parts.getLast?.getD []))

def collectSkillFiles (t : SkillTree) : List SkillFile := orderBy SkillFile.path (t.files.filter isCompileInput)

def skillFileMetadata (t : SkillTree) : List (String × ℤ × ℕ) :=
  (collectSkillFiles t).map fun f => (f.path, f.mtime, f.size)

def SkillTree.unkeyed (t : SkillTree) : List SkillFile × List String :=
  (t.files.filter fun f => !isCompileInput f, t.directories)

theorem eq_of_map_eq {α β : Type} {f : α → β} {xs ys : List α} (h : xs.map f = ys.map f)
    (hinj : ∀ x ∈ xs, ∀ y ∈ ys, f x = f y → x = y) : xs = ys := by
  induction xs generalizing ys with
  | nil => exact (List.map_eq_nil_iff.1 h.symm).symm
  | cons x xs ih =>
    cases ys with
    | nil => cases h
    | cons y ys =>
      rw [List.map_cons, List.map_cons, List.cons.injEq] at h
      rw [hinj x List.mem_cons_self y List.mem_cons_self h.1,
        ih h.2 fun a ha b hb => hinj a (List.mem_cons_of_mem _ ha) b (List.mem_cons_of_mem _ hb)]

theorem mem_collectSkillFiles {t : SkillTree} {f : SkillFile} (h : f ∈ collectSkillFiles t) : f ∈ t.files :=
  (List.mem_filter.1 (orderBy_perm.mem_iff.1 h)).1

theorem files_perm (t : SkillTree) : t.files.Perm (collectSkillFiles t ++ t.unkeyed.1) :=
  (List.filter_append_perm isCompileInput t.files).symm.trans (orderBy_perm.symm.append (.refl _))

theorem tree_eq {t u : SkillTree} (hkey : skillFileMetadata t = skillFileMetadata u) (hrest : t.unkeyed = u.unkeyed)
    (hcontent : ∀ f ∈ t.files, ∀ g ∈ u.files, f.path = g.path → f.mtime = g.mtime → f.size = g.size →
      f.content = g.content) : t = u := by
  have hcollect : collectSkillFiles t = collectSkillFiles u := by
    apply eq_of_map_eq hkey
    intro f hf g hg heq
    simp only [Prod.mk.injEq] at heq
    have hc := hcontent f (mem_collectSkillFiles hf) g (mem_collectSkillFiles hg) heq.1 heq.2.1 heq.2.2
    cases f
    cases g
    simp_all
  have hperm : t.files.Perm u.files := by
    have ht := files_perm t
    rw [hcollect, hrest] at ht
    exact ht.trans (files_perm u).symm
  have hfiles : t.files = u.files := by
    apply hperm.eq_of_pairwise _ t.sorted u.sorted
    intro f g _ _ hfg hgf
    exact absurd (hfg.trans hgf) (lt_irrefl _)
  have hdirs : t.directories = u.directories := congrArg Prod.snd hrest
  cases t
  cases u
  simp_all

structure Issue where
  path : String
  line : ℕ
  code : String
  message : String
  fieldPath : Option String
  deriving DecidableEq

structure ParsedPhase (F : Type) where
  document : Except (List Issue) (PhaseDocument F)
  llmRoleLine : ℕ
  validatorIssues : List Issue

structure ParsedGraph (F : Type) where
  path : String
  frontmatter : Data F
  manifest : GraphManifest F
  llmRoleLine : ℕ
  manifestIssues : List Issue
  structureIssues : List Issue
  topology : List TopologyRow
  order : List String
  inputs : Data F
  outputs : Data F
  outputSchemaKeys : Option (List String)
  graphRoot : String
  phases : List (ParsedPhase F)

/-- What `SkillLoader` reads from the tree and checks; no part of it is told the roles that the host allows. -/
structure Loader (F R Resolver Inputs : Type) where
  rootIssues : SkillTree → String → List Issue
  skillManifest : SkillTree → String → RootSkillManifest × List Issue
  graphs : SkillTree → String → List (Except (List Issue) (ParsedGraph F))
  staticIssues : SkillTree → String → Option Inputs → ParsedGraph F → List (PhaseDocument F) → List Issue
  actionsAndTools : SkillTree → String → List (PhaseDocument F) → Except (List Issue) R
  subagents : SkillTree → Resolver → List (PhaseDocument F) →
    Except (List Issue) (Dict String (List (CompiledSubagent F)))
  injectSubagentTools : R → Dict String (List (CompiledSubagent F)) → Except (List Issue) R
  declaredToolIssues : List (PhaseDocument F) → R → List Issue
  returnKeyIssues : ParsedGraph F → List (PhaseDocument F) → R → List Issue
  registryIssues : SkillTree → String → List (CompiledGraph F) → List Issue

section

variable {F : Type}

def effectiveLlmRole (a : AgentNodeAST F) (graphLlmRole : Option String) : Option String :=
  if a.useGraphLlmRole then graphLlmRole
  else if a.llmRole.getD "" ≠ "" then a.llmRole
  else graphLlmRole

def graphRoleIssues (allowedRoles : Option (List String)) (g : ParsedGraph F) : List Issue :=
  match allowedRoles, g.manifest.llmRole with
  | some roles, some role =>
    if roles.contains role then []
    else [{ path := g.path
            line := g.llmRoleLine
            code := "[F-v3-graph-llm-role-unknown]"
            message := "Graph default LLM role '" ++ role ++ "' is not declared in the host allowed roles set"
            fieldPath := some "llm_role" }]
  | _, _ => []

def missingRoleIssues (graphLlmRole : Option String) (line : ℕ) (d : PhaseDocument F) (a : AgentNodeAST F) :
    List Issue :=
  if (effectiveLlmRole a graphLlmRole).isSome then []
  else [{ path := d.path
          line := line
          code := "[F-v3-agent-llm-role-missing]"
          message := "Agent phase '" ++ d.phaseName ++ "' resolves no LLM role: set `llm_role` in this phase's " ++
            "frontmatter or a graph default `llm_role` in this graph's graph.yaml (a registry graph declares " ++
            "its own default; the calling graph's does not reach inside it)"
          fieldPath := some "llm_role" }]

def nodeRoleIssues (allowedRoles : Option (List String)) (line : ℕ) (d : PhaseDocument F) (a : AgentNodeAST F) :
    List Issue :=
  match allowedRoles, a.llmRole with
  | some roles, some role =>
    if roles.contains role then []
    else [{ path := d.path
            line := line
            code := "[F-v3-agent-llm-role-unknown]"
            message := "Agent node LLM role '" ++ role ++ "' in phase '" ++ d.phaseName ++
              "' is not declared in the host allowed roles set"
            fieldPath := some "llm_role" }]
  | _, _ => []

def phaseIssues (allowedRoles : Option (List String)) (graphLlmRole : Option String) (p : ParsedPhase F) :
    List Issue :=
  match p.document with
  | .error issues => issues
  | .ok d =>
    match d.ast with
    | .agent a => missingRoleIssues graphLlmRole p.llmRoleLine d a ++ nodeRoleIssues allowedRoles p.llmRoleLine d a
    | _ => p.validatorIssues

def batchIssues (allowedRoles : Option (List String)) (g : ParsedGraph F) : List Issue :=
  g.manifestIssues ++ graphRoleIssues allowedRoles g ++ g.structureIssues ++
    g.phases.flatMap (phaseIssues allowedRoles g.manifest.llmRole)

def ParsedGraph.documents (g : ParsedGraph F) : List (PhaseDocument F) :=
  g.phases.filterMap fun p => p.document.toOption

def ParsedGraph.compiled (g : ParsedGraph F) (subagentsByPhase : Dict String (List (CompiledSubagent F))) :
    CompiledGraph F :=
  { g with nodes := g.documents, subagentsByPhase }

end

structure CompiledSkill (F R : Type) where
  rootGraphId : String
  skillManifest : Option RootSkillManifest
  skillRoot : String
  graphs : Dict String (CompiledGraph F × R)

namespace Loader

variable {F R Resolver Inputs : Type} (L : Loader F R Resolver Inputs)

/-- The actions and tools of a graph, from the files below `root`. -/
def registry (tree : SkillTree) (root : String) (g : CompiledGraph F) : Except (List Issue) R :=
  match L.actionsAndTools tree root g.nodes with
  | .error issues => .error issues
  | .ok found => L.injectSubagentTools found g.subagentsByPhase

def linkGraph (tree : SkillTree) (root : String) (resolver : Resolver) (inputs : Option Inputs) (g : ParsedGraph F) :
    Except (List Issue) (CompiledGraph F × R) :=
  let static := L.staticIssues tree root inputs g g.documents
  match L.actionsAndTools tree root g.documents with
  | .error issues => .error (static ++ issues)
  | .ok found =>
    let keys := L.returnKeyIssues g g.documents found
    match L.subagents tree resolver g.documents with
    | .error issues => .error (static ++ issues ++ keys)
    | .ok subagents =>
      match L.injectSubagentTools found subagents with
      | .error issues => .error (static ++ issues ++ keys)
      | .ok tools =>
        match static ++ L.declaredToolIssues g.documents tools ++ keys with
        | [] => .ok (g.compiled subagents, tools)
        | issues => .error issues

def compileGraph (tree : SkillTree) (root : String) (resolver : Resolver) (inputs : Option Inputs)
    (allowedRoles : Option (List String)) (g : ParsedGraph F) : Except (List Issue) (CompiledGraph F × R) :=
  match batchIssues allowedRoles g with
  | [] => L.linkGraph tree root resolver inputs g
  | issues => .error issues

def compileGraphs (tree : SkillTree) (root : String) (resolver : Resolver) (inputs : Option Inputs)
    (allowedRoles : Option (List String)) : List (Except (List Issue) (CompiledGraph F × R)) :=
  (L.graphs tree root).map fun parsed =>
    match parsed with
    | .error issues => .error issues
    | .ok g => L.compileGraph tree root resolver inputs allowedRoles g

def errorsOf {α : Type} (r : Except (List Issue) α) : List Issue :=
  match r with
  | .error issues => issues
  | .ok _ => []

/-- `SkillLoader.compile_skill`; the first graph is the root graph, which is always there. -/
def compileSkill (paths : Paths) (tree : SkillTree) (root : String) (resolver : Resolver) (inputs : Option Inputs)
    (allowedRoles : Option (List String)) : Except (List Issue) (CompiledSkill F R) :=
  match L.rootIssues tree root with
  | [] =>
    let results := L.compileGraphs tree root resolver inputs allowedRoles
    let compiled := results.filterMap Except.toOption
    match (L.skillManifest tree root).2 ++ results.flatMap errorsOf ++
        (if compiled.isEmpty then [] else L.registryIssues tree root (compiled.map Prod.fst)) with
    | [] =>
      .ok { rootGraphId := (compiled.head?.map fun g => g.1.manifest.graphId).getD ""
            skillManifest := some (L.skillManifest tree root).1
            skillRoot := paths.resolve root
            graphs := .ofList (compiled.map fun g => (g.1.manifest.graphId, g)) }
    | issues => .error issues
  | issues => .error issues

end Loader

def cacheSchemaVersion : ℕ := 1

structure CacheKey where
  rules : ℕ
  root : String
  python : List ℕ
  package : String
  files : List (String × ℤ × ℕ)
  deriving DecidableEq

structure CompileCall (Resolver Inputs : Type) where
  tree : SkillTree
  root : String
  cache : Bool
  skillResolver : Resolver
  runtimeInputFields : Option Inputs
  allowedRoles : Option (List String)

/-- A compilation that ended in an error of the loader, or in an error of `save_to_cache`. -/
inductive CompileError where
  | load (issues : List Issue)
  | save

structure CompileHost (F R Resolver Inputs : Type) where
  loader : Loader F R Resolver Inputs
  floats : FloatFormat F
  pydantic : Pydantic F
  paths : Paths
  digest : CacheKey → String
  python : List ℕ
  package : String

def CompiledSkill.snapshot {F R : Type} (c : CompiledSkill F R) : SkillSnapshot F where
  rootGraphId := c.rootGraphId
  skillManifest := c.skillManifest
  graphs := c.graphs.mapValues fun _ g => g.1

namespace CompileHost

variable {F R Resolver Inputs : Type} (H : CompileHost F R Resolver Inputs)

def cacheKey (tree : SkillTree) (root : String) : CacheKey where
  rules := cacheSchemaVersion
  root := H.paths.resolve root
  python := H.python
  package := H.package
  files := skillFileMetadata tree

def computeCacheKey (tree : SkillTree) (root : String) : String := H.digest (H.cacheKey tree root)

/-- Only `decode` depends on the root that is asked for. -/
def codec (skillRoot root : String) : Codec F (SkillSnapshot F) :=
  skillSnapshot H.pydantic H.paths skillRoot (H.paths.resolve root)

def saveToCache (c : CompiledSkill F R) : Option (List Char) :=
  (H.codec c.skillRoot c.skillRoot).save H.floats c.snapshot

def hydrate (tree : SkillTree) (root : String) (s : SkillSnapshot F) : Except (List Issue) (CompiledSkill F R) :=
  match s.graphs.entries.mapM fun e => (H.loader.registry tree root e.2).map fun r => (e.1, e.2, r) with
  | .error issues => .error issues
  | .ok graphs => .ok { s with skillRoot := root, graphs := .ofList graphs }

/-- A snapshot that does not load is no error; an error of the lookup is. -/
def loadFromCache (tree : SkillTree) (root : String) (text : List Char) :
    Except (List Issue) (Option (CompiledSkill F R)) :=
  match (H.codec (H.paths.resolve root) root).load H.floats text with
  | none => .ok none
  | some s => (H.hydrate tree (H.paths.resolve root) s).map some

def compileUncached (call : CompileCall Resolver Inputs) : Except CompileError (CompiledSkill F R) :=
  match H.loader.compileSkill H.paths call.tree call.root call.skillResolver call.runtimeInputFields
      call.allowedRoles with
  | .error issues => .error (.load issues)
  | .ok c => .ok c

def compileAndSave (files : Dict String (List Char)) (call : CompileCall Resolver Inputs) :
    Except CompileError (CompiledSkill F R) × Dict String (List Char) :=
  match H.compileUncached call with
  | .error e => (.error e, files)
  | .ok c =>
    match H.saveToCache c with
    | none => (.error .save, files)
    | some text => (.ok c, files.set (H.computeCacheKey call.tree call.root) text)

end CompileHost

def CompileCall.usesCache {Resolver Inputs : Type} (call : CompileCall Resolver Inputs) : Bool :=
  call.cache && call.runtimeInputFields.isNone

namespace CompileHost

variable {F R Resolver Inputs : Type} (H : CompileHost F R Resolver Inputs)

/-- `compile_skill`, with the files of the cache directory before and after. -/
def compileSkill (files : Dict String (List Char)) (call : CompileCall Resolver Inputs) :
    Except CompileError (CompiledSkill F R) × Dict String (List Char) :=
  if call.usesCache then
    match files.get? (H.computeCacheKey call.tree call.root) with
    | none => H.compileAndSave files call
    | some text =>
      match H.loadFromCache call.tree call.root text with
      | .error issues => (.error (.load issues), files)
      | .ok none => H.compileAndSave files call
      | .ok (some c) => (.ok c, files)
  else (H.compileUncached call, files)

def compileAll (files : Dict String (List Char)) :
    List (CompileCall Resolver Inputs) → List (Except CompileError (CompiledSkill F R))
  | [] => []
  | call :: calls => (H.compileSkill files call).1 :: compileAll (H.compileSkill files call).2 calls

end CompileHost

/-- Equal in the fields the assembler and the runtime read, the mappings in the same order. -/
structure SameSkill {F R : Type} (c d : CompiledSkill F R) : Prop where
  rootGraphId : c.rootGraphId = d.rootGraphId
  skillManifest : c.skillManifest = d.skillManifest
  skillRoot : c.skillRoot = d.skillRoot
  keys : c.graphs.keys = d.graphs.keys
  graphs : List.Forall₂ (fun g h => SameGraph g.1 h.1 ∧ g.2 = h.2) (values c.graphs) (values d.graphs)

theorem Loader.registry_same {F R Resolver Inputs : Type} (L : Loader F R Resolver Inputs) (tree : SkillTree)
    (root : String) {g h : CompiledGraph F} (hsame : SameGraph g h) :
    L.registry tree root g = L.registry tree root h := by
  rw [Loader.registry, Loader.registry, hsame.nodes, hsame.subagentsByPhase]

theorem mem_values_ofList {α : Type} {es : List (String × α)} {a : α} (h : a ∈ values (Dict.ofList es)) :
    ∃ k, (k, a) ∈ es := by
  obtain ⟨e, he, rfl⟩ := List.mem_map.1 h
  have hfind : (Dict.ofList es).get? e.1 = some e.2 := Dict.get?_mem.2 he
  rw [Dict.get?_ofList] at hfind
  exact ⟨e.1, List.mem_reverse.1 (Dict.mem_of_find hfind)⟩

namespace Loader

variable {F R Resolver Inputs : Type} (L : Loader F R Resolver Inputs) {tree : SkillTree} {root : String}
  {resolver : Resolver} {inputs : Option Inputs} {allowedRoles : Option (List String)}

theorem linkGraph_eq_ok {g : ParsedGraph F} {r : CompiledGraph F × R}
    (h : L.linkGraph tree root resolver inputs g = .ok r) :
    ∃ found subagents, L.actionsAndTools tree root g.documents = .ok found ∧
      L.subagents tree resolver g.documents = .ok subagents ∧ L.injectSubagentTools found subagents = .ok r.2 ∧
      L.declaredToolIssues g.documents r.2 = [] ∧ r.1 = g.compiled subagents := by
  unfold linkGraph at h
  split at h
  · cases h
  · next found hfound =>
    simp only at h
    split at h
    · cases h
    · next subagents hsubagents =>
      split at h
      · cases h
      · next tools htools =>
        split at h
        · next hissues =>
          obtain rfl := Except.ok.inj h
          obtain ⟨hdeclared, -⟩ := List.append_eq_nil_iff.mp hissues
          exact ⟨found, subagents, hfound, hsubagents, htools, (List.append_eq_nil_iff.mp hdeclared).2, rfl⟩
        · cases h

theorem linkGraph_registry {g : ParsedGraph F} {r : CompiledGraph F × R}
    (h : L.linkGraph tree root resolver inputs g = .ok r) : L.registry tree root r.1 = .ok r.2 := by
  obtain ⟨found, subagents, hfound, -, htools, -, hr⟩ := L.linkGraph_eq_ok h
  have hnodes : L.actionsAndTools tree root (g.compiled subagents).nodes = .ok found := hfound
  rw [registry, hr, hnodes]
  exact htools

theorem compileGraphs_linked {r : CompiledGraph F × R}
    (h : .ok r ∈ L.compileGraphs tree root resolver inputs allowedRoles) :
    ∃ g, L.linkGraph tree root resolver inputs g = .ok r := by
  obtain ⟨parsed, _, hr⟩ := List.mem_map.1 h
  cases parsed with
  | error issues => cases hr
  | ok g =>
    simp only [compileGraph] at hr
    split at hr
    · exact ⟨g, hr⟩
    · cases hr

theorem compileSkill_linked {paths : Paths} {c : CompiledSkill F R}
    (h : L.compileSkill paths tree root resolver inputs allowedRoles = .ok c) :
    c.skillRoot = paths.resolve root ∧
      ∀ r ∈ values c.graphs, ∃ g, L.linkGraph tree root resolver inputs g = .ok r := by
  unfold compileSkill at h
  split at h
  · simp only at h
    split at h
    · obtain rfl := Except.ok.inj h
      refine ⟨rfl, fun g hg => ?_⟩
      obtain ⟨k, hk⟩ := mem_values_ofList hg
      obtain ⟨r, hr, heq⟩ := List.mem_map.1 hk
      obtain ⟨result, hresult, hok⟩ := List.mem_filterMap.1 hr
      cases result with
      | error issues => cases hok
      | ok x =>
        obtain rfl := Option.some.inj hok
        rw [← (Prod.mk.inj heq).2]
        exact L.compileGraphs_linked hresult
    · cases h
  · cases h

theorem compileSkill_registry {paths : Paths} {c : CompiledSkill F R}
    (h : L.compileSkill paths tree root resolver inputs allowedRoles = .ok c) :
    c.skillRoot = paths.resolve root ∧ ∀ g ∈ values c.graphs, L.registry tree root g.1 = .ok g.2 := by
  obtain ⟨hroot, hlinked⟩ := L.compileSkill_linked h
  refine ⟨hroot, fun r hr => ?_⟩
  obtain ⟨g, hg⟩ := hlinked r hr
  exact L.linkGraph_registry hg

end Loader

namespace CompileHost

variable {F R Resolver Inputs : Type} (H : CompileHost F R Resolver Inputs)

/-- The keys of every mapping of the skill's data are distinct, as those of a Python dictionary are. -/
def DistinctKeys (c : CompiledSkill F R) : Prop := (H.codec c.skillRoot c.skillRoot).Good c.snapshot

def Canonical (c : CompiledSkill F R) : Prop := (H.codec c.skillRoot c.skillRoot).Canon c.snapshot

/-- The actions and tools are those of the files below `root`. -/
def Discovered (tree : SkillTree) (root : String) (c : CompiledSkill F R) : Prop :=
  ∀ g ∈ values c.graphs, H.loader.registry tree root g.1 = .ok g.2

theorem lookup_all {tree : SkillTree} {root : String} {es : List (String × CompiledGraph F)}
    {graphs : List (String × CompiledGraph F × R)}
    (h : List.Forall₂ (fun e g => (H.loader.registry tree root e.2).map (fun r => (e.1, e.2, r)) = .ok g) es graphs) :
    graphs.map (fun g => (g.1, g.2.1)) = es ∧ ∀ g ∈ graphs, H.loader.registry tree root g.2.1 = .ok g.2.2 := by
  induction h with
  | nil => exact ⟨rfl, List.forall_mem_nil _⟩
  | @cons e g es gs heg _ ih =>
    cases hr : H.loader.registry tree root e.2 with
    | error issues =>
      rw [hr] at heg
      cases heg
    | ok r =>
      rw [hr] at heg
      obtain rfl := Except.ok.inj heg
      exact ⟨by rw [List.map_cons, ih.1], List.forall_mem_cons.2 ⟨hr, ih.2⟩⟩

theorem hydrate_snapshot {tree : SkillTree} {root : String} {s : SkillSnapshot F} {c : CompiledSkill F R}
    (h : H.hydrate tree root s = .ok c) : c.snapshot = s ∧ c.skillRoot = root ∧ H.Discovered tree root c := by
  rw [hydrate] at h
  split at h
  · cases h
  · next graphs hgraphs =>
    obtain rfl := Except.ok.inj h
    have hentry := H.lookup_all (mapM_ok_iff.1 hgraphs)
    have hkeys : (graphs.map Prod.fst).Nodup := by
      have hfst : graphs.map Prod.fst = (graphs.map fun g => (g.1, g.2.1)).map Prod.fst := by
        rw [List.map_map]
        rfl
      rw [hfst, hentry.1]
      exact s.graphs.nodup
    have hentries : (Dict.ofList graphs).entries = graphs := congrArg Dict.entries (Dict.ofList_entries ⟨graphs, hkeys⟩)
    refine ⟨?_, rfl, ?_⟩
    · have hdict : (Dict.ofList graphs).mapValues (fun _ g => g.1) = s.graphs := by
        apply Dict.ext_entries
        rw [← hentry.1]
        change (Dict.ofList graphs).entries.map _ = _
        rw [hentries]
      change SkillSnapshot.mk s.rootGraphId s.skillManifest ((Dict.ofList graphs).mapValues fun _ g => g.1) = s
      rw [hdict]
    · intro g hg
      rw [values, hentries] at hg
      obtain ⟨e, he, rfl⟩ := List.mem_map.1 hg
      exact hentry.2 e he

theorem lookup_exists (tree : SkillTree) (root : String) {es : List (String × CompiledGraph F)}
    (h : ∀ e ∈ es, ∃ r, H.loader.registry tree root e.2 = .ok r) :
    ∃ graphs, List.Forall₂ (fun e g => (H.loader.registry tree root e.2).map (fun r => (e.1, e.2, r)) = .ok g) es
      graphs := by
  induction es with
  | nil => exact ⟨[], .nil⟩
  | cons e es ih =>
    rw [List.forall_mem_cons] at h
    obtain ⟨r, hr⟩ := h.1
    obtain ⟨graphs, hgraphs⟩ := ih h.2
    exact ⟨(e.1, e.2, r) :: graphs, .cons (by rw [hr]; rfl) hgraphs⟩

theorem hydrate_exists {tree : SkillTree} {root : String} {s : SkillSnapshot F}
    (h : ∀ g ∈ values s.graphs, ∃ r, H.loader.registry tree root g = .ok r) :
    ∃ c, H.hydrate tree root s = .ok c := by
  have hentries : ∀ e ∈ s.graphs.entries, ∃ r, H.loader.registry tree root e.2 = .ok r :=
    fun e he => h e.2 (List.mem_map_of_mem he)
  obtain ⟨graphs, hgraphs⟩ := H.lookup_exists tree root hentries
  rw [hydrate, mapM_ok_iff.2 hgraphs]
  exact ⟨_, rfl⟩

theorem same_registries {tree : SkillTree} {root : String} {gs hs : List (CompiledGraph F × R)}
    (hsame : List.Forall₂ (fun g h => SameGraph g.1 h.1) gs hs)
    (hgs : ∀ g ∈ gs, H.loader.registry tree root g.1 = .ok g.2)
    (hhs : ∀ h ∈ hs, H.loader.registry tree root h.1 = .ok h.2) :
    List.Forall₂ (fun g h => SameGraph g.1 h.1 ∧ g.2 = h.2) gs hs := by
  induction hsame with
  | nil => exact .nil
  | cons hgh _ ih =>
    rw [List.forall_mem_cons] at hgs hhs
    have hr := H.loader.registry_same tree root hgh
    rw [hgs.1, hhs.1] at hr
    exact .cons ⟨hgh, Except.ok.inj hr⟩ (ih hgs.2 hhs.2)

theorem lookup_of_same {tree : SkillTree} {root : String} {gs : List (CompiledGraph F)}
    {hs : List (CompiledGraph F × R)}
    (hsame : List.Forall₂ (fun g h => SameGraph g h.1) gs hs)
    (hhs : ∀ h ∈ hs, H.loader.registry tree root h.1 = .ok h.2) :
    ∀ g ∈ gs, ∃ r, H.loader.registry tree root g = .ok r := by
  induction hsame with
  | nil => exact List.forall_mem_nil _
  | cons hgh _ ih =>
    rw [List.forall_mem_cons] at hhs
    exact List.forall_mem_cons.2 ⟨⟨_, (H.loader.registry_same tree root hgh).trans hhs.1⟩, ih hhs.2⟩

theorem values_snapshot (c : CompiledSkill F R) : values c.snapshot.graphs = (values c.graphs).map Prod.fst := by
  change (c.graphs.entries.map fun e => (e.1, e.2.1)).map Prod.snd = (c.graphs.entries.map Prod.snd).map Prod.fst
  rw [List.map_map, List.map_map]
  rfl

theorem keys_snapshot (c : CompiledSkill F R) : c.snapshot.graphs.keys = c.graphs.keys := by
  change (c.graphs.entries.map fun e => (e.1, e.2.1)).map Prod.fst = c.graphs.entries.map Prod.fst
  rw [List.map_map]
  rfl

theorem codec_same_iff (skillRoot root : String) (s t : SkillSnapshot F) :
    (H.codec skillRoot root).Same s t ↔
      s.rootGraphId = t.rootGraphId ∧ s.skillManifest = t.skillManifest ∧ s.graphs.keys = t.graphs.keys ∧
        List.Forall₂ SameGraph (values s.graphs) (values t.graphs) :=
  same_snapshot_iff H.pydantic H.paths skillRoot (H.paths.resolve root) s t

theorem sameSkill_iff {tree : SkillTree} {root : String} {c d : CompiledSkill F R} (hroot : c.skillRoot = d.skillRoot)
    (hc : H.Discovered tree root c) (hd : H.Discovered tree root d) (skillRoot askedRoot : String) :
    SameSkill c d ↔ (H.codec skillRoot askedRoot).Same c.snapshot d.snapshot := by
  rw [codec_same_iff, keys_snapshot, keys_snapshot, values_snapshot, values_snapshot, List.forall₂_map_left_iff,
    List.forall₂_map_right_iff]
  constructor
  · rintro ⟨hid, hmanifest, _, hkeys, hgraphs⟩
    exact ⟨hid, hmanifest, hkeys, hgraphs.imp fun _ _ h => h.1⟩
  · rintro ⟨hid, hmanifest, hkeys, hgraphs⟩
    exact ⟨hid, hmanifest, hroot, hkeys, H.same_registries hgraphs hc hd⟩

theorem load_after_save_iff {tree : SkillTree} {root : String} {c : CompiledSkill F R}
    (hroot : c.skillRoot = H.paths.resolve root) (hdisc : H.Discovered tree (H.paths.resolve root) c)
    (hkeys : H.DistinctKeys c) :
    (∃ text d, H.saveToCache c = some text ∧ H.loadFromCache tree root text = .ok (some d) ∧ SameSkill d c) ↔
      H.Canonical c := by
  have hcodec : H.codec (H.paths.resolve root) root = H.codec c.skillRoot c.skillRoot := by
    rw [codec, codec, hroot, H.paths.resolve_resolve]
  rw [Canonical, ← Codec.load_save_iff _ H.floats hkeys]
  constructor
  · rintro ⟨text, d, htext, hload, hsame⟩
    rw [loadFromCache, hcodec] at hload
    split at hload
    · cases hload
    · next s hs =>
      cases hd : H.hydrate tree (H.paths.resolve root) s with
      | error issues =>
        rw [hd] at hload
        cases hload
      | ok e =>
        rw [hd] at hload
        obtain rfl : e = d := Option.some.inj (Except.ok.inj hload)
        obtain ⟨rfl, hskill, hdisc'⟩ := H.hydrate_snapshot hd
        refine ⟨e.snapshot, ?_, (H.sameSkill_iff (hskill.trans hroot.symm) hdisc' hdisc _ _).1 hsame⟩
        rw [saveToCache] at htext
        rw [htext]
        exact hs
  · rintro ⟨s, hs, hsame⟩
    obtain ⟨text, htext, hs⟩ := Option.bind_eq_some_iff.1 hs
    have hsame' := (H.codec_same_iff _ _ _ _).1 hsame
    have hlookup : ∀ g ∈ values s.graphs, ∃ r, H.loader.registry tree (H.paths.resolve root) g = .ok r := by
      rw [values_snapshot, List.forall₂_map_right_iff] at hsame'
      exact H.lookup_of_same hsame'.2.2.2 hdisc
    obtain ⟨d, hd⟩ := H.hydrate_exists hlookup
    obtain ⟨rfl, hskill, hdisc'⟩ := H.hydrate_snapshot hd
    refine ⟨text, d, htext, ?_, (H.sameSkill_iff (hskill.trans hroot.symm) hdisc' hdisc _ _).2 hsame⟩
    rw [loadFromCache, hcodec, hs]
    simp only [hd]
    rfl

end CompileHost

inductive SameResult {F R : Type} :
    Except CompileError (CompiledSkill F R) → Except CompileError (CompiledSkill F R) → Prop
  | error (e : CompileError) : SameResult (.error e) (.error e)
  | ok {c d : CompiledSkill F R} (h : SameSkill c d) : SameResult (.ok c) (.ok d)

theorem SameSkill.refl {F R : Type} (c : CompiledSkill F R) : SameSkill c c :=
  ⟨rfl, rfl, rfl, rfl, List.forall₂_same.2 fun _ _ => ⟨⟨rfl, rfl, rfl, rfl, rfl, rfl, rfl, rfl⟩, rfl⟩⟩

theorem SameResult.refl {F R : Type} (r : Except CompileError (CompiledSkill F R)) : SameResult r r := by
  cases r with
  | error e => exact .error e
  | ok c => exact .ok (.refl c)

def ContentDetermined {Resolver Inputs : Type} (calls : List (CompileCall Resolver Inputs)) : Prop :=
  ∀ a ∈ calls, ∀ b ∈ calls, a.root = b.root → ∀ f ∈ a.tree.files, ∀ g ∈ b.tree.files,
    f.path = g.path → f.mtime = g.mtime → f.size = g.size → f.content = g.content

namespace CompileHost

variable {F R Resolver Inputs : Type} (H : CompileHost F R Resolver Inputs)

/-- No two keys have one digest, and the calls that share a key agree in what the key leaves out. -/
def KeysCover (calls : List (CompileCall Resolver Inputs)) : Prop :=
  ∀ a ∈ calls, ∀ b ∈ calls, a.usesCache → b.usesCache →
    H.computeCacheKey a.tree a.root = H.computeCacheKey b.tree b.root →
      H.cacheKey a.tree a.root = H.cacheKey b.tree b.root ∧ a.allowedRoles = b.allowedRoles ∧
        a.skillResolver = b.skillResolver ∧ a.tree.unkeyed = b.tree.unkeyed

def RootsResolved (calls : List (CompileCall Resolver Inputs)) : Prop :=
  ∀ a ∈ calls, a.usesCache → H.paths.resolve a.root = a.root

def SkillsCanonical (calls : List (CompileCall Resolver Inputs)) : Prop :=
  ∀ a ∈ calls, a.usesCache → ∀ c, H.compileUncached a = .ok c → H.DistinctKeys c ∧ H.Canonical c

def FilesFrom (calls : List (CompileCall Resolver Inputs)) (files : Dict String (List Char)) : Prop :=
  ∀ key text, files.get? key = some text → ∃ a ∈ calls, a.usesCache ∧ H.computeCacheKey a.tree a.root = key ∧
    ∃ c, H.compileUncached a = .ok c ∧ H.saveToCache c = some text

theorem compileUncached_loader {call : CompileCall Resolver Inputs} {c : CompiledSkill F R}
    (h : H.compileUncached call = .ok c) :
    H.loader.compileSkill H.paths call.tree call.root call.skillResolver call.runtimeInputFields call.allowedRoles =
      .ok c := by
  unfold compileUncached at h
  split at h
  · cases h
  · next d hd =>
    rw [hd, Except.ok.inj h]

variable {calls : List (CompileCall Resolver Inputs)}

theorem uncached_eq (hcover : H.KeysCover calls) (hroots : H.RootsResolved calls) (hcontent : ContentDetermined calls)
    {a b : CompileCall Resolver Inputs} (ha : a ∈ calls) (hb : b ∈ calls) (hau : a.usesCache) (hbu : b.usesCache)
    (hkey : H.computeCacheKey a.tree a.root = H.computeCacheKey b.tree b.root) :
    a.tree = b.tree ∧ a.root = b.root ∧ H.compileUncached a = H.compileUncached b := by
  obtain ⟨hkeys, hroles, hresolver, hrest⟩ := hcover a ha b hb hau hbu hkey
  have hroot : a.root = b.root := by
    rw [← hroots a ha hau, ← hroots b hb hbu]
    exact congrArg CacheKey.root hkeys
  have htree : a.tree = b.tree := tree_eq (congrArg CacheKey.files hkeys) hrest (hcontent a ha b hb hroot)
  have hnone : ∀ {call : CompileCall Resolver Inputs}, call.usesCache → call.runtimeInputFields = none := by
    intro call h
    rw [CompileCall.usesCache, Bool.and_eq_true, Option.isNone_iff_eq_none] at h
    exact h.2
  refine ⟨htree, hroot, ?_⟩
  rw [compileUncached, compileUncached, htree, hroot, hresolver, hroles, hnone hau, hnone hbu]

theorem load_canonical (hroots : H.RootsResolved calls) (hcanon : H.SkillsCanonical calls)
    {a : CompileCall Resolver Inputs} (ha : a ∈ calls) (hau : a.usesCache) {c : CompiledSkill F R}
    (hc : H.compileUncached a = .ok c) :
    ∃ text, H.saveToCache c = some text ∧
      ∃ d, H.loadFromCache a.tree a.root text = .ok (some d) ∧ SameSkill d c := by
  have hloader := H.loader.compileSkill_registry (H.compileUncached_loader hc)
  have hresolved := hroots a ha hau
  obtain ⟨hkeys, hcanonical⟩ := hcanon a ha hau c hc
  have hdisc : H.Discovered a.tree (H.paths.resolve a.root) c := by
    rw [hresolved]
    exact hloader.2
  obtain ⟨text, d, htext, hd, hsame⟩ := (H.load_after_save_iff hloader.1 hdisc hkeys).2 hcanonical
  exact ⟨text, htext, d, hd, hsame⟩

theorem compileAndSave_step (hroots : H.RootsResolved calls) (hcanon : H.SkillsCanonical calls)
    {files : Dict String (List Char)} (hfiles : H.FilesFrom calls files) {a : CompileCall Resolver Inputs}
    (ha : a ∈ calls) (hau : a.usesCache) :
    (H.compileAndSave files a).1 = H.compileUncached a ∧ H.FilesFrom calls (H.compileAndSave files a).2 := by
  cases hc : H.compileUncached a with
  | error e =>
    rw [compileAndSave, hc]
    exact ⟨rfl, hfiles⟩
  | ok c =>
    obtain ⟨text, htext, _⟩ := H.load_canonical hroots hcanon ha hau hc
    rw [compileAndSave, hc]
    simp only [htext]
    refine ⟨trivial, fun key content hget => ?_⟩
    rw [Dict.get?_set] at hget
    split_ifs at hget with hk
    · obtain rfl := Option.some.inj hget
      exact ⟨a, ha, hau, hk, c, hc, htext⟩
    · exact hfiles key content hget

theorem compileSkill_step (hcover : H.KeysCover calls) (hroots : H.RootsResolved calls)
    (hcontent : ContentDetermined calls) (hcanon : H.SkillsCanonical calls) {files : Dict String (List Char)}
    (hfiles : H.FilesFrom calls files) {a : CompileCall Resolver Inputs} (ha : a ∈ calls) :
    SameResult (H.compileSkill files a).1 (H.compileUncached a) ∧ H.FilesFrom calls (H.compileSkill files a).2 := by
  unfold compileSkill
  split_ifs with hau
  · cases hget : files.get? (H.computeCacheKey a.tree a.root) with
    | none =>
      obtain ⟨hres, hkeep⟩ := H.compileAndSave_step hroots hcanon hfiles ha hau
      exact ⟨hres ▸ .refl _, hkeep⟩
    | some text =>
      obtain ⟨b, hb, hbu, hkey, c, hc, htext⟩ := hfiles _ _ hget
      obtain ⟨htree, hroot, hsame⟩ := H.uncached_eq hcover hroots hcontent hb ha hbu hau hkey
      obtain ⟨text', htext', d, hd, hdc⟩ := H.load_canonical hroots hcanon hb hbu hc
      rw [htext, Option.some.injEq] at htext'
      rw [← htext', htree, hroot] at hd
      simp only [hd]
      rw [← hsame, hc]
      exact ⟨.ok hdc, hfiles⟩
  · exact ⟨.refl _, hfiles⟩

theorem compileAll_same (hcover : H.KeysCover calls) (hroots : H.RootsResolved calls)
    (hcontent : ContentDetermined calls) (hcanon : H.SkillsCanonical calls) {todo : List (CompileCall Resolver Inputs)}
    (htodo : ∀ a ∈ todo, a ∈ calls) {files : Dict String (List Char)} (hfiles : H.FilesFrom calls files) :
    List.Forall₂ (fun a r => SameResult r (H.compileUncached a)) todo (H.compileAll files todo) := by
  induction todo generalizing files with
  | nil => exact .nil
  | cons a todo ih =>
    rw [List.forall_mem_cons] at htodo
    obtain ⟨hres, hkeep⟩ := H.compileSkill_step hcover hroots hcontent hcanon hfiles htodo.1
    exact .cons hres (ih htodo.2 hkeep)

/-- A canonical skill comes back from the cache equal and no other does; and in a run from the empty cache whose
calls name resolved roots and agree, where they share a key, in what the key leaves out, and whose skills are
canonical, every call returns what it returns without the cache. -/
theorem cache_transparent (H : CompileHost F R Resolver Inputs) :
    (∀ (tree : SkillTree) (root : String) (c : CompiledSkill F R), c.skillRoot = H.paths.resolve root →
      H.Discovered tree (H.paths.resolve root) c → H.DistinctKeys c →
        ((∃ text d, H.saveToCache c = some text ∧ H.loadFromCache tree root text = .ok (some d) ∧ SameSkill d c) ↔
          H.Canonical c)) ∧
    ∀ calls : List (CompileCall Resolver Inputs), ContentDetermined calls → H.KeysCover calls →
      H.RootsResolved calls → H.SkillsCanonical calls →
        List.Forall₂ (fun a r => SameResult r (H.compileUncached a)) calls (H.compileAll ∅ calls) := by
  constructor
  · intro tree root c hroot hdisc hkeys
    exact H.load_after_save_iff hroot hdisc hkeys
  · intro calls hcontent hcover hroots hcanon
    apply H.compileAll_same hcover hroots hcontent hcanon (fun a ha => ha)
    intro key text h
    rw [Dict.get?_empty] at h
    cases h

end CompileHost

/-! A skill of one phase whose graph names a role. -/

def demoSchema : Data FloatLiteral := .dict [(.str "type", .str "object")]

def demoManifest : GraphManifest FloatLiteral where
  graphId := "demo"
  description := "d"
  llmRole := some "writer"
  io := ⟨demoSchema, demoSchema⟩
  phases := [⟨"p", ["input"], true⟩]
  iterate := none
  artifacts := []

def demoDocument : PhaseDocument FloatLiteral where
  phaseName := "p"
  path := "/skill/phases/p/LOGIC.md"
  mode := "logic"
  frontmatter := .dict []
  ast := .logic
    { name := "p", allowSequentialOverwrite := [], iterate := none, io := ⟨demoSchema, demoSchema⟩, actions := ["act"],
      validator := false }

def demoGraph : ParsedGraph FloatLiteral where
  path := "/skill/graph.yaml"
  frontmatter := .dict []
  manifest := demoManifest
  llmRoleLine := 4
  manifestIssues := []
  structureIssues := []
  topology := [⟨"p", ["input"], true⟩]
  order := ["p"]
  inputs := demoSchema
  outputs := demoSchema
  outputSchemaKeys := none
  graphRoot := "/skill"
  phases := [⟨.ok demoDocument, 1, []⟩]

def demoRoot : RootSkillManifest := ⟨"demo", "d", none, none, ∅, none⟩

def demoLoader : Loader FloatLiteral Unit Unit Unit where
  rootIssues _ _ := []
  skillManifest _ _ := (demoRoot, [])
  graphs _ _ := [.ok demoGraph]
  staticIssues _ _ _ _ _ := []
  actionsAndTools _ _ _ := .ok ()
  subagents _ _ _ := .ok ∅
  injectSubagentTools _ _ := .ok ()
  declaredToolIssues _ _ := []
  returnKeyIssues _ _ _ := []
  registryIssues _ _ _ := []

def demoHost : CompileHost FloatLiteral Unit Unit Unit where
  loader := demoLoader
  floats := literalFormat
  pydantic :=
    { serialize := some, json := fun _ => rfl, distinct := fun h hy => Option.some.inj h ▸ hy,
      buildInputModel := fun _ _ _ => true }
  paths :=
    { resolve := id, relativeTo := fun p root => if p = root then some "." else none, join := fun root _ => root,
      resolve_resolve := fun _ => rfl }
  digest key := key.root
  python := [3, 12, 0]
  package := "0.1.0a1"

def demoCall (allowedRoles : Option (List String)) : CompileCall Unit Unit where
  tree := ⟨[⟨"graph.yaml", 1, 90, "graph_id: demo"⟩], [], List.pairwise_singleton _ _⟩
  root := "/skill"
  cache := true
  skillResolver := ()
  runtimeInputFields := none
  allowedRoles := allowedRoles

def demoSkill : CompiledSkill FloatLiteral Unit where
  rootGraphId := "demo"
  skillManifest := some demoRoot
  skillRoot := "/skill"
  graphs := .single "demo" (demoGraph.compiled ∅, ())

theorem demo_compiles : demoHost.compileUncached (demoCall none) = .ok demoSkill := rfl

theorem demoSchema_canon : ∃ v : Json FloatLiteral, sortJson v = v ∧ demoSchema = ofJson v :=
  ⟨.dict [("type", .str "object")], rfl, rfl⟩

theorem emptyData_canon : ∃ v : Json FloatLiteral, sortJson v = v ∧ Data.dict [] = ofJson v := ⟨.dict [], rfl, rfl⟩

theorem demoIO_canon : (phaseIOSchema demoHost.pydantic.toAnyDump).Canon ⟨demoSchema, demoSchema⟩ :=
  ⟨⟨rfl, demoSchema_canon⟩, ⟨rfl, demoSchema_canon⟩, trivial⟩

theorem demoManifest_canon : (graphManifest demoHost.pydantic.toAnyDump).Canon demoManifest := by
  refine ⟨by decide, trivial, trivial, trivial, fun _ _ => trivial, demoIO_canon, ?_, fun x hx => ?_, ?_, trivial⟩
  · intro r hr
    obtain rfl := List.mem_singleton.1 hr
    exact ⟨by decide, trivial, fun _ _ => trivial, trivial, trivial⟩
  · cases hx
  · exact List.forall_mem_nil _

theorem demoDocument_canon : (phaseDocument demoHost.pydantic).Canon demoDocument := by
  refine ⟨trivial, trivial, trivial, emptyData_canon, ?_, trivial⟩
  refine ⟨by decide, trivial, trivial, List.forall_mem_nil _, fun x hx => ?_, demoIO_canon, fun _ _ => trivial, trivial,
    trivial⟩
  cases hx

theorem demo_canonical : demoHost.Canonical demoSkill := by
  refine ⟨rfl, trivial, trivial, ⟨demoRoot, rfl, ?_⟩, ⟨List.pairwise_singleton _ _, ?_⟩, trivial⟩
  · refine ⟨by decide, trivial, trivial, fun x hx => ?_, fun x hx => ?_, ⟨List.Pairwise.nil, List.forall_mem_nil _⟩,
      fun x hx => ?_, trivial⟩
    · cases hx
    · cases hx
    · cases hx
  · intro g hg
    obtain rfl := List.mem_singleton.1 hg
    refine ⟨⟨⟨rfl, trivial⟩, ⟨fun _ _ => ?_, fun _ _ => trivial, trivial⟩,
      ⟨demoSchema_canon, demoSchema_canon, ?_, trivial⟩,
      trivial⟩, demoManifest_canon, rfl, ?_, ⟨List.Pairwise.nil, List.forall_mem_nil _⟩, trivial⟩
    · exact ⟨trivial, fun _ _ => trivial, trivial, trivial⟩
    · intro x hx
      cases hx
    · intro d hd
      obtain rfl := List.mem_singleton.1 hd
      exact demoDocument_canon

theorem demoSchema_distinct : demoSchema.Distinct := ⟨List.nodup_singleton _, trivial, trivial⟩

theorem demoIO_good : (phaseIOSchema demoHost.pydantic.toAnyDump).Good ⟨demoSchema, demoSchema⟩ :=
  ⟨demoSchema_distinct, demoSchema_distinct, trivial⟩

theorem emptyData_distinct : (Data.dict [] : Data FloatLiteral).Distinct := ⟨List.nodup_nil, trivial⟩

theorem demo_distinctKeys : demoHost.DistinctKeys demoSkill := by
  refine ⟨trivial, trivial, fun m _ => ?_, fun g hg => ?_, trivial⟩
  · exact ⟨trivial, trivial, fun _ _ => trivial, fun _ _ => trivial, fun _ _ => trivial, fun _ _ => trivial, trivial⟩
  · obtain rfl := List.mem_singleton.1 hg
    refine ⟨⟨⟨emptyData_distinct, trivial⟩, ⟨fun _ _ => ?_, fun _ _ => trivial, trivial⟩,
      ⟨demoSchema_distinct, demoSchema_distinct, fun _ _ _ _ => trivial, trivial⟩, trivial⟩, ?_, trivial, ?_,
      List.forall_mem_nil _, trivial⟩
    · exact ⟨trivial, fun _ _ => trivial, trivial, trivial⟩
    · refine ⟨trivial, trivial, trivial, fun _ _ => trivial, demoIO_good, fun _ _ => ?_, fun x hx => ?_,
        List.forall_mem_nil _, trivial⟩
      · exact ⟨trivial, fun _ _ => trivial, trivial, trivial⟩
      · cases hx
    · intro d hd
      obtain rfl := List.mem_singleton.1 hd
      refine ⟨trivial, trivial, trivial, emptyData_distinct, ⟨trivial, trivial, fun _ _ => trivial, fun x hx => ?_,
        demoIO_good, fun _ _ => trivial, trivial, trivial⟩, trivial⟩
      cases hx

theorem demo_content (roles : List (Option (List String))) : ContentDetermined (roles.map demoCall) := by
  intro a ha b hb _ f hf g hg _ _ _
  obtain ⟨_, _, rfl⟩ := List.mem_map.1 ha
  obtain ⟨_, _, rfl⟩ := List.mem_map.1 hb
  rw [List.mem_singleton.1 hf, List.mem_singleton.1 hg]

theorem demo_covered (n : ℕ) : demoHost.KeysCover (List.replicate n (demoCall none)) := by
  intro a ha b hb _ _ _
  rw [List.eq_of_mem_replicate ha, List.eq_of_mem_replicate hb]
  exact ⟨rfl, rfl, rfl, rfl⟩

theorem demo_skills (n : ℕ) : demoHost.SkillsCanonical (List.replicate n (demoCall none)) := by
  intro a ha _ c hc
  rw [List.eq_of_mem_replicate ha, demo_compiles] at hc
  rw [← Except.ok.inj hc]
  exact ⟨demo_distinctKeys, demo_canonical⟩

theorem demo_three_calls :
    (∃ text d, demoHost.saveToCache demoSkill = some text ∧
      demoHost.loadFromCache (demoCall none).tree "/skill" text = .ok (some d) ∧ SameSkill d demoSkill) ∧
    List.Forall₂ (fun a r => SameResult r (demoHost.compileUncached a)) (List.replicate 3 (demoCall none))
      (demoHost.compileAll ∅ (List.replicate 3 (demoCall none))) := by
  constructor
  · apply ((CompileHost.cache_transparent demoHost).1 (demoCall none).tree "/skill" demoSkill rfl _ demo_distinctKeys).2
    · exact demo_canonical
    · intro g hg
      obtain rfl := List.mem_singleton.1 hg
      rfl
  · apply (CompileHost.cache_transparent demoHost).2
    · exact demo_content [none, none, none]
    · exact demo_covered 3
    · exact fun _ _ _ => rfl
    · exact demo_skills 3

/-- The graph's role is not allowed, and the snapshot of a call that allowed every role hides it. -/
theorem disallowed_role_hidden :
    ContentDetermined [demoCall none, demoCall (some ["critic"])] ∧
      ¬ List.Forall₂ (fun a r => SameResult r (demoHost.compileUncached a)) [demoCall none, demoCall (some ["critic"])]
        (demoHost.compileAll ∅ [demoCall none, demoCall (some ["critic"])]) := by
  refine ⟨demo_content [none, some ["critic"]], fun h => ?_⟩
  have hroots : demoHost.RootsResolved [demoCall none] := fun _ _ _ => rfl
  obtain ⟨text, htext, d, hd, _⟩ :=
    demoHost.load_canonical hroots (demo_skills 1) List.mem_cons_self rfl demo_compiles
  have hfirst : demoHost.compileSkill ∅ (demoCall none) = (.ok demoSkill, Dict.single "/skill" text) := by
    have hsave : demoHost.compileSkill ∅ (demoCall none) = demoHost.compileAndSave ∅ (demoCall none) := rfl
    rw [hsave, CompileHost.compileAndSave, demo_compiles]
    simp only [htext]
    rfl
  have hsecond : (demoHost.compileSkill (Dict.single "/skill" text) (demoCall (some ["critic"]))).1 = .ok d := by
    have hget : (Dict.single "/skill" text).get?
        (demoHost.computeCacheKey (demoCall (some ["critic"])).tree (demoCall (some ["critic"])).root) =
          some text := rfl
    have hload : demoHost.loadFromCache (demoCall (some ["critic"])).tree (demoCall (some ["critic"])).root text =
        .ok (some d) := hd
    have huses : (demoCall (some ["critic"])).usesCache = true := rfl
    rw [CompileHost.compileSkill, if_pos huses, hget]
    simp only [hload]
  have hcompiled : demoHost.compileAll ∅ [demoCall none, demoCall (some ["critic"])] = [.ok demoSkill, .ok d] := by
    rw [CompileHost.compileAll, CompileHost.compileAll, CompileHost.compileAll, hfirst, hsecond]
  rw [hcompiled] at h
  obtain _ | ⟨_, _ | ⟨hlast, _⟩⟩ := h
  cases hlast

end GraphSkillRuntime.CompileCache
