import GraphSkillRuntime.CompileCache
import GraphSkillRuntime.Runs
import Mathlib.Data.List.Infix

/-!
The business tools of an agent phase: the tools of the skill root and of the phase as they are discovered, the tools
that call its subagents, and the names that `AGENT.md` lists.
-/

namespace GraphSkillRuntime.CompileCache.MountedTools

open OrderedDict JsonText PyData SnapshotCodec Codec

structure ModuleFunction where
  name : String
  own : Bool
  parameters : List String

/-- A Python file of a `tools/` directory; `issue` is what the scans or the import of the file raise. -/
structure ToolModule where
  fileName : String
  path : String
  issue : Option Issue
  members : List (String × ModuleFunction)

structure ToolDef where
  id : String
  phaseId : Option String
  path : String
  deriving DecidableEq

structure ToolRegistry where
  rootTools : List ToolDef
  byPhase : Dict String (List ToolDef)

def ToolRegistry.forPhase (registry : ToolRegistry) (phaseId : String) : List ToolDef :=
  registry.rootTools ++ (registry.byPhase.get? phaseId).getD []

def moduleFunctions (m : ToolModule) : List ModuleFunction :=
  ((orderBy Prod.fst m.members).map Prod.snd).filter (·.own)

def toolUnknown : String := "[F-v3-agent-tool-unknown]"

def actionDirMissing : String := "[F-v3-logic-action-dir-missing]"

def actionsIssue (path code message : String) : Issue where
  path := path
  line := 1
  code := code
  message := message
  fieldPath := none

def validateToolSignature (path : String) (func : ModuleFunction) : Except (List Issue) Unit :=
  match func.parameters.find? (["context", "ctx", "state", "blackboard"].contains ·) with
  | some param =>
    .error [actionsIssue path toolUnknown
      ("tool '" ++ func.name ++ "' must not accept blackboard parameter '" ++ param ++ "'")]
  | none => .ok ()

def loadToolModule (phaseId : Option String) (m : ToolModule) : Except (List Issue) (List ToolDef) :=
  match m.issue with
  | some issue => .error [issue]
  | none =>
    (moduleFunctions m).mapM fun func =>
      (validateToolSignature m.path func).map fun _ => { id := func.name, phaseId, path := m.path }

def toolModules (dir : List ToolModule) : List ToolModule :=
  (orderBy ToolModule.fileName dir).filter fun m => m.fileName ≠ "__init__.py"

def loadToolDir (phaseId : Option String) (dir : List ToolModule) : Except (List Issue) (List ToolDef) :=
  ((toolModules dir).mapM (loadToolModule phaseId)).map List.flatten

/-- What the compiler finds below a skill root: the directories of tools and actions and the targets of subagents. -/
structure Sources (F A Resolver : Type) where
  rootTools : SkillTree → String → Option (List ToolModule)
  phaseTools : SkillTree → PhaseDocument F → Option (List ToolModule)
  phaseActions : SkillTree → PhaseDocument F → Option (Except (List Issue) A)
  subagent : SkillTree → Resolver → PhaseDocument F → SubagentSpec → Except (List Issue) (CompiledSubagent F)
  subagent_name : ∀ tree resolver d spec s, subagent tree resolver d spec = .ok s → s.name = spec.name

structure Registry (A : Type) where
  actions : Dict String A
  tools : ToolRegistry

section

variable {F A Resolver : Type}

def discoverPhase (S : Sources F A Resolver) (tree : SkillTree) (d : PhaseDocument F) :
    Except (List Issue) (Option A × Option (List ToolDef)) :=
  match d.ast with
  | .logic _ =>
    match S.phaseTools tree d, S.phaseActions tree d with
    | some _, _ => .error [actionsIssue d.path toolUnknown "tools/ is only allowed for AGENT phases"]
    | none, some actions => actions.map fun found => (some found, none)
    | none, none => .ok (none, none)
  | .agent _ =>
    match S.phaseActions tree d, S.phaseTools tree d with
    | some _, _ => .error [actionsIssue d.path actionDirMissing "actions/ is only allowed for LOGIC phases"]
    | none, some dir => (loadToolDir (some d.phaseName) dir).map fun tools => (none, some tools)
    | none, none => .ok (none, none)
  | .subgraph _ =>
    match S.phaseActions tree d, S.phaseTools tree d with
    | some _, _ => .error [actionsIssue d.path actionDirMissing "actions/ is not allowed for SUBGRAPH phases"]
    | none, some _ => .error [actionsIssue d.path toolUnknown "tools/ is not allowed for SUBGRAPH phases"]
    | none, none => .ok (none, none)

def phaseEntries {α : Type} (docs : List (PhaseDocument F)) (found : List (Option α)) : List (String × α) :=
  (docs.zip found).filterMap fun (d, entry) => entry.map (d.phaseName, ·)

def discoverActionsAndTools (S : Sources F A Resolver) (tree : SkillTree) (root : String)
    (docs : List (PhaseDocument F)) : Except (List Issue) (Registry A) := do
  let rootTools ← ((S.rootTools tree root).map (loadToolDir none)).getD (.ok [])
  let found ← docs.mapM (discoverPhase S tree)
  .ok
    { actions := .ofList (phaseEntries docs (found.map Prod.fst))
      tools := { rootTools, byPhase := .ofList (phaseEntries docs (found.map Prod.snd)) } }

def compilePhaseSubagents (S : Sources F A Resolver) (tree : SkillTree) (resolver : Resolver) (d : PhaseDocument F) :
    Except (List Issue) (Option (List (CompiledSubagent F))) :=
  match d.ast with
  | .agent a =>
    if a.subagents = [] then .ok none else (a.subagents.mapM (S.subagent tree resolver d)).map some
  | _ => .ok none

def compileSubagentMetadata (S : Sources F A Resolver) (tree : SkillTree) (resolver : Resolver)
    (docs : List (PhaseDocument F)) : Except (List Issue) (Dict String (List (CompiledSubagent F))) :=
  (docs.mapM (compilePhaseSubagents S tree resolver)).map fun found => .ofList (phaseEntries docs found)

def subagentToolName (name : String) : String := "call_subagent_" ++ name

def subagentToolDef (phaseId : String) (s : CompiledSubagent F) : ToolDef where
  id := subagentToolName s.name
  phaseId := some phaseId
  path := s.root ++ "/graph.yaml"

def injectSubagent (rootToolNames : List String) (phaseId : String) (tools : List ToolDef) (s : CompiledSubagent F) :
    Except (List Issue) (List ToolDef) :=
  if subagentToolName s.name ∈ rootToolNames ++ tools.map ToolDef.id then
    .error [actionsIssue s.root toolUnknown
      ("subagent '" ++ s.name ++ "' dynamic tool '" ++ subagentToolName s.name ++ "' conflicts with an existing tool")]
  else .ok (tools ++ [subagentToolDef phaseId s])

def injectSubagentTools (registry : Registry A) (subagentsByPhase : Dict String (List (CompiledSubagent F))) :
    Except (List Issue) (Registry A) := do
  let byPhase ← subagentsByPhase.entries.foldlM (fun byPhase (phaseId, subagents) => do
    let tools ← subagents.foldlM (injectSubagent (registry.tools.rootTools.map ToolDef.id) phaseId)
      ((byPhase.get? phaseId).getD [])
    .ok (byPhase.set phaseId tools)) registry.tools.byPhase
  .ok { registry with tools := { registry.tools with byPhase } }

def frameworkToolNames : List String :=
  ["finish_task", "read_reference", "read_example", "log_ambiguity", "ask_clarification", "update_working_memory",
    "query_working_memory", "read_artifact"]

/-- `lower` is `str.lower`. -/
def isCriticToolName (lower : String → String) (name : String) : Bool :=
  ["critic", "reviewer", "auditor"].any fun keyword => keyword.toList <:+: (lower name).toList

def declaredToolIssue (lower : String → String) (d : PhaseDocument F) (line : ℕ) (available : List String)
    (name : String) : Option Issue :=
  if name ∈ frameworkToolNames then
    some
      { path := d.path
        line := line
        code := "[F-v3-agent-tool-reserved]"
        message := "tool '" ++ name ++ "' in AGENT phase '" ++ d.phaseName ++ "' is a built-in framework tool: it " ++
          "is always available and must not be declared in `tools`; remove the line"
        fieldPath := some "tools" }
  else if name ∈ available ∨ isCriticToolName lower name = true then none
  else
    some
      { path := d.path
        line := line
        code := toolUnknown
        message := "tool '" ++ name ++ "' in AGENT phase '" ++ d.phaseName ++ "' is not declared"
        fieldPath := some "tools" }

/-- `toolsLine` is the line of the key `tools` in a front matter. -/
def validateAgentDeclaredTools (lower : String → String) (toolsLine : PhaseDocument F → ℕ)
    (docs : List (PhaseDocument F)) (registry : Registry A) : List Issue :=
  docs.flatMap fun d =>
    match d.ast with
    | .agent a =>
      a.tools.filterMap (declaredToolIssue lower d (toolsLine d)
        ((registry.tools.forPhase d.phaseName).map ToolDef.id))
    | _ => []

/-- The compiler with its handling of tools; its other parts are those of `L`. -/
def toolLoader {Inputs : Type} (L : Loader F (Registry A) Resolver Inputs) (S : Sources F A Resolver)
    (lower : String → String) (toolsLine : PhaseDocument F → ℕ) : Loader F (Registry A) Resolver Inputs :=
  { L with
    actionsAndTools := discoverActionsAndTools S
    subagents := compileSubagentMetadata S
    injectSubagentTools := injectSubagentTools
    declaredToolIssues := validateAgentDeclaredTools lower toolsLine }

end

def definedTools (dir : Option (List ToolModule)) : List String :=
  (toolModules (dir.getD [])).flatMap fun m => (moduleFunctions m).map (·.name)

theorem loadToolModule_ids {phaseId : Option String} {m : ToolModule} {tools : List ToolDef}
    (h : loadToolModule phaseId m = .ok tools) : tools.map ToolDef.id = (moduleFunctions m).map (·.name) := by
  unfold loadToolModule at h
  split at h
  · cases h
  · apply map_eq_of_forall₂ (mapM_ok_iff.mp h)
    intro func tool hfunc
    obtain ⟨_, -, rfl⟩ := map_eq_ok hfunc
    rfl

theorem loadToolDir_ids {phaseId : Option String} {dir : List ToolModule} {tools : List ToolDef}
    (h : loadToolDir phaseId dir = .ok tools) : tools.map ToolDef.id = definedTools (some dir) := by
  obtain ⟨found, hfound, rfl⟩ := map_eq_ok h
  have hmaps : found.map (·.map ToolDef.id) = (toolModules dir).map (fun m => (moduleFunctions m).map (·.name)) :=
    map_eq_of_forall₂ (mapM_ok_iff.mp hfound) fun m tools hm => loadToolModule_ids hm
  rw [definedTools, Option.getD_some, List.flatMap, ← hmaps, List.map_flatten]

section

variable {F A Resolver : Type}

theorem phaseEntries_keys {α : Type} (docs : List (PhaseDocument F)) (found : List (Option α)) :
    ((phaseEntries docs found).map Prod.fst).Sublist (docs.map (·.phaseName)) := by
  induction docs generalizing found with
  | nil => exact .refl _
  | cons d docs ih =>
    cases found with
    | nil => exact List.nil_sublist _
    | cons entry found =>
      cases entry with
      | none => exact (ih found).cons _
      | some v => exact (ih found).cons_cons _

theorem find_phaseEntries {α : Type} {docs : List (PhaseDocument F)} {found : List (Option α)}
    (hn : (docs.map (·.phaseName)).Nodup) {d : PhaseDocument F} {entry : Option α} (h : (d, entry) ∈ docs.zip found) :
    Dict.find (phaseEntries docs found) d.phaseName = entry := by
  induction docs generalizing found with
  | nil => cases h
  | cons first docs ih =>
    cases found with
    | nil => cases h
    | cons e found =>
      obtain ⟨hfirst, hn⟩ := List.nodup_cons.mp hn
      have hrest : Dict.find (phaseEntries docs found) first.phaseName = none := by
        apply Dict.find_eq_none.mpr
        exact fun hmem => hfirst ((phaseEntries_keys docs found).subset hmem)
      rw [List.zip_cons_cons] at h
      rcases List.mem_cons.mp h with heq | hmem
      · obtain ⟨rfl, rfl⟩ := Prod.mk.inj heq
        cases entry with
        | none => exact hrest
        | some v =>
          change Dict.find ((d.phaseName, v) :: phaseEntries docs found) d.phaseName = some v
          rw [Dict.find, if_pos rfl]
      · have hd : first.phaseName ≠ d.phaseName := by
          intro heq
          exact hfirst (List.mem_map.mpr ⟨d, (List.of_mem_zip hmem).1, heq.symm⟩)
        cases e with
        | none => exact ih hn hmem
        | some v =>
          change Dict.find ((first.phaseName, v) :: phaseEntries docs found) d.phaseName = entry
          rw [Dict.find, if_neg hd]
          exact ih hn hmem

theorem get?_phaseEntries {α : Type} {docs : List (PhaseDocument F)} {found : List (Option α)}
    (hn : (docs.map (·.phaseName)).Nodup) {d : PhaseDocument F} {entry : Option α} (h : (d, entry) ∈ docs.zip found) :
    (Dict.ofList (phaseEntries docs found)).get? d.phaseName = entry := by
  rw [Dict.get?_ofList_nodup (hn.sublist (phaseEntries_keys docs found))]
  exact find_phaseEntries hn h

theorem discoverPhase_agent {S : Sources F A Resolver} {tree : SkillTree} {d : PhaseDocument F} {a : AgentNodeAST F}
    (ha : d.ast = .agent a) {actions : Option A} {tools : Option (List ToolDef)}
    (h : discoverPhase S tree d = .ok (actions, tools)) :
    (tools.getD []).map ToolDef.id = definedTools (S.phaseTools tree d) := by
  unfold discoverPhase at h
  rw [ha] at h
  simp only at h
  split at h
  · cases h
  · next dir _ hdir =>
    obtain ⟨found, hfound, heq⟩ := map_eq_ok h
    cases heq
    rw [hdir]
    exact loadToolDir_ids hfound
  · next _ hdir =>
    cases h
    rw [hdir]
    rfl

theorem discoverActionsAndTools_ids {S : Sources F A Resolver} {tree : SkillTree} {root : String}
    {docs : List (PhaseDocument F)} {registry : Registry A} (hn : (docs.map (·.phaseName)).Nodup)
    (h : discoverActionsAndTools S tree root docs = .ok registry) :
    registry.tools.rootTools.map ToolDef.id = definedTools (S.rootTools tree root) ∧
      ∀ d ∈ docs, ∀ a, d.ast = .agent a →
        ((registry.tools.byPhase.get? d.phaseName).getD []).map ToolDef.id = definedTools (S.phaseTools tree d) := by
  obtain ⟨rootTools, hroot, h⟩ := bind_ok h
  obtain ⟨found, hfound, h⟩ := bind_ok h
  cases h
  constructor
  · cases hdir : S.rootTools tree root with
    | none =>
      rw [hdir] at hroot
      cases hroot
      rfl
    | some dir =>
      rw [hdir] at hroot
      exact loadToolDir_ids hroot
  · intro d hd a ha
    obtain ⟨⟨actions, tools⟩, hzip, hphase⟩ := exists_zip_of_forall₂ (mapM_ok_iff.mp hfound) hd
    have hmem : (d, tools) ∈ docs.zip (found.map Prod.snd) := by
      rw [List.zip_map_right]
      exact List.mem_map.mpr ⟨_, hzip, rfl⟩
    rw [get?_phaseEntries hn hmem]
    exact discoverPhase_agent ha hphase

theorem compilePhaseSubagents_names {S : Sources F A Resolver} {tree : SkillTree} {resolver : Resolver}
    {d : PhaseDocument F} {a : AgentNodeAST F} (ha : d.ast = .agent a) {subagents : Option (List (CompiledSubagent F))}
    (h : compilePhaseSubagents S tree resolver d = .ok subagents) :
    (subagents.getD []).map (·.name) = a.subagents.map SubagentSpec.name := by
  unfold compilePhaseSubagents at h
  rw [ha] at h
  simp only at h
  split at h
  · next hnil =>
    cases h
    rw [hnil]
    rfl
  · obtain ⟨found, hfound, rfl⟩ := map_eq_ok h
    exact map_eq_of_forall₂ (mapM_ok_iff.mp hfound) fun spec s hs => S.subagent_name tree resolver d spec s hs

theorem compileSubagentMetadata_names {S : Sources F A Resolver} {tree : SkillTree} {resolver : Resolver}
    {docs : List (PhaseDocument F)} {subagents : Dict String (List (CompiledSubagent F))}
    (hn : (docs.map (·.phaseName)).Nodup) (h : compileSubagentMetadata S tree resolver docs = .ok subagents)
    {d : PhaseDocument F} (hd : d ∈ docs) {a : AgentNodeAST F} (ha : d.ast = .agent a) :
    ((subagents.get? d.phaseName).getD []).map (·.name) = a.subagents.map SubagentSpec.name := by
  obtain ⟨found, hfound, rfl⟩ := map_eq_ok h
  obtain ⟨entry, hzip, hphase⟩ := exists_zip_of_forall₂ (mapM_ok_iff.mp hfound) hd
  rw [get?_phaseEntries hn hzip]
  exact compilePhaseSubagents_names ha hphase

theorem injectSubagents_ok {rootToolNames : List String} {phaseId : String} {subagents : List (CompiledSubagent F)}
    {tools tools' : List ToolDef}
    (h : subagents.foldlM (injectSubagent rootToolNames phaseId) tools = .ok tools') :
    tools' = tools ++ subagents.map (subagentToolDef phaseId) ∧
      (subagents.map fun s => subagentToolName s.name).Nodup ∧
      ∀ s ∈ subagents, subagentToolName s.name ∉ rootToolNames ++ tools.map ToolDef.id := by
  induction subagents generalizing tools with
  | nil =>
    cases h
    simp
  | cons s subagents ih =>
    rw [List.foldlM_cons] at h
    obtain ⟨next, hnext, h⟩ := bind_ok h
    unfold injectSubagent at hnext
    split at hnext
    · cases hnext
    next hfree =>
    cases hnext
    obtain ⟨htools, hnodup, hrest⟩ := ih h
    refine ⟨by simp [htools], ?_, ?_⟩
    · rw [List.map_cons, List.nodup_cons]
      refine ⟨?_, hnodup⟩
      intro hmem
      obtain ⟨other, hother, heq⟩ := List.mem_map.mp hmem
      apply hrest other hother
      simp [subagentToolDef, heq]
    · intro other hother
      rcases List.mem_cons.mp hother with rfl | hother
      · exact hfree
      · have hlast := hrest other hother
        simp only [List.map_append, List.mem_append, not_or] at hlast ⊢
        exact ⟨hlast.1, hlast.2.1⟩

theorem foldlM_phase_ok {entries : List (String × List (CompiledSubagent F))} (hn : (entries.map Prod.fst).Nodup)
    {rootToolNames : List String} {byPhase byPhase' : Dict String (List ToolDef)}
    (h : entries.foldlM (fun byPhase (phaseId, subagents) => do
      let tools ← subagents.foldlM (injectSubagent rootToolNames phaseId) ((byPhase.get? phaseId).getD [])
      .ok (byPhase.set phaseId tools)) byPhase = Except.ok (ε := List Issue) byPhase') (phaseId : String) :
    ((Dict.find entries phaseId).getD []).foldlM (injectSubagent rootToolNames phaseId)
      ((byPhase.get? phaseId).getD []) = .ok ((byPhase'.get? phaseId).getD []) := by
  induction entries generalizing byPhase with
  | nil =>
    cases h
    rfl
  | cons entry entries ih =>
    obtain ⟨name, subagents⟩ := entry
    obtain ⟨hname, hn⟩ := List.nodup_cons.mp hn
    rw [List.foldlM_cons] at h
    obtain ⟨next, hnext, h⟩ := bind_ok h
    obtain ⟨tools, htools, hnext⟩ := bind_ok hnext
    cases hnext
    have hlast := ih hn h
    rw [Dict.find]
    by_cases heq : name = phaseId
    · subst heq
      rw [Dict.find_eq_none.mpr hname] at hlast
      simp only [Option.getD_none, List.foldlM_nil, Dict.get?_set, if_true, Option.getD_some] at hlast
      cases hlast
      rw [if_pos rfl]
      exact htools
    · rw [if_neg heq]
      simp only [Dict.get?_set, if_neg heq] at hlast
      exact hlast

/-- The phase's agent has the tools that it lists and those of its subagents, each once. -/
def MountsListed (registry : ToolRegistry) (d : PhaseDocument F) (a : AgentNodeAST F) : Prop :=
  ((registry.forPhase d.phaseName).map ToolDef.id).Nodup ∧
    ∀ name, name ∈ (registry.forPhase d.phaseName).map ToolDef.id ↔
      name ∈ a.tools ∨ ∃ spec ∈ a.subagents, name = subagentToolName spec.name

/-- No two tools of the two directories share a name, all of them are listed, and a listed name of a critic is the
name of a tool. -/
def ToolsListed (lower : String → String) (rootTools phaseTools : Option (List ToolModule)) (a : AgentNodeAST F) :
    Prop :=
  (definedTools rootTools ++ definedTools phaseTools).Nodup ∧
    (∀ name ∈ definedTools rootTools ++ definedTools phaseTools, name ∈ a.tools) ∧
    ∀ name ∈ a.tools, isCriticToolName lower name = true →
      name ∈ definedTools rootTools ++ definedTools phaseTools ∨
        ∃ spec ∈ a.subagents, name = subagentToolName spec.name

variable {Inputs : Type} {L : Loader F (Registry A) Resolver Inputs} {S : Sources F A Resolver}
  {lower : String → String} {toolsLine : PhaseDocument F → ℕ} {tree : SkillTree} {root : String} {resolver : Resolver}
  {inputs : Option Inputs}

theorem forPhase_ids {g : ParsedGraph F} {r : CompiledGraph F × Registry A}
    (h : (toolLoader L S lower toolsLine).linkGraph tree root resolver inputs g = .ok r)
    (hn : (r.1.nodes.map (·.phaseName)).Nodup) {d : PhaseDocument F} (hd : d ∈ r.1.nodes) {a : AgentNodeAST F}
    (ha : d.ast = .agent a) :
    (r.2.tools.forPhase d.phaseName).map ToolDef.id =
        definedTools (S.rootTools tree root) ++ definedTools (S.phaseTools tree d) ++
          a.subagents.map (fun spec => subagentToolName spec.name) ∧
      (a.subagents.map fun spec => subagentToolName spec.name).Nodup ∧
      ∀ spec ∈ a.subagents, subagentToolName spec.name ∉
        definedTools (S.rootTools tree root) ++ definedTools (S.phaseTools tree d) := by
  obtain ⟨found, subagents, hfound, hsubagents, hinject, -, hr⟩ := Loader.linkGraph_eq_ok _ h
  rw [hr] at hn hd
  obtain ⟨hroot, hphase⟩ := discoverActionsAndTools_ids hn hfound
  have hnames := compileSubagentMetadata_names hn hsubagents hd ha
  obtain ⟨byPhase, hfold, hinject⟩ := bind_ok hinject
  have hmine := foldlM_phase_ok subagents.nodup hfold d.phaseName
  obtain ⟨htools, hnodup, hfree⟩ := injectSubagents_ok hmine
  change _ ∧ _
  have hsubagentNames : ((subagents.get? d.phaseName).getD []).map (fun s => subagentToolName s.name) =
      a.subagents.map fun spec => subagentToolName spec.name := by
    have hmap := congrArg (List.map subagentToolName) hnames
    rwa [List.map_map, List.map_map] at hmap
  rw [hroot, hphase d hd a ha] at hfree
  refine ⟨?_, ?_, ?_⟩
  · rw [← Except.ok.inj hinject]
    change ((found.tools.rootTools ++ (byPhase.get? d.phaseName).getD []).map ToolDef.id) = _
    rw [htools, List.map_append, List.map_append, hroot, hphase d hd a ha, List.map_map, List.append_assoc]
    congr 2
  · rw [← hsubagentNames]
    exact hnodup
  · intro spec hspec
    have hmem : spec.name ∈ ((subagents.get? d.phaseName).getD []).map (·.name) := by
      rw [hnames]
      exact List.mem_map.mpr ⟨spec, hspec, rfl⟩
    obtain ⟨s, hs, heq⟩ := List.mem_map.mp hmem
    rw [← heq]
    exact hfree s hs

theorem listed_of_link {g : ParsedGraph F} {r : CompiledGraph F × Registry A}
    (h : (toolLoader L S lower toolsLine).linkGraph tree root resolver inputs g = .ok r) {d : PhaseDocument F}
    (hd : d ∈ r.1.nodes) {a : AgentNodeAST F} (ha : d.ast = .agent a) {name : String} (hname : name ∈ a.tools) :
    name ∈ (r.2.tools.forPhase d.phaseName).map ToolDef.id ∨ isCriticToolName lower name = true := by
  obtain ⟨found, subagents, -, -, -, hissues, hr⟩ := Loader.linkGraph_eq_ok _ h
  rw [hr] at hd
  have hphase := List.flatMap_eq_nil_iff.mp hissues d hd
  rw [ha] at hphase
  have hissue := List.filterMap_eq_nil_iff.mp hphase name hname
  unfold declaredToolIssue at hissue
  split at hissue
  · cases hissue
  · split at hissue
    · next hknown => exact hknown
    · cases hissue

theorem mountsListed_iff {g : ParsedGraph F} {r : CompiledGraph F × Registry A}
    (h : (toolLoader L S lower toolsLine).linkGraph tree root resolver inputs g = .ok r)
    (hn : (r.1.nodes.map (·.phaseName)).Nodup) {d : PhaseDocument F} (hd : d ∈ r.1.nodes) {a : AgentNodeAST F}
    (ha : d.ast = .agent a) :
    MountsListed r.2.tools d a ↔ ToolsListed lower (S.rootTools tree root) (S.phaseTools tree d) a := by
  obtain ⟨hids, hsubagents, hfree⟩ := forPhase_ids h hn hd ha
  have hlisted : ∀ name ∈ a.tools, _ := fun name hname => listed_of_link h hd ha hname
  have hsubagent : ∀ name, name ∈ a.subagents.map (fun spec => subagentToolName spec.name) ↔
      ∃ spec ∈ a.subagents, name = subagentToolName spec.name := by
    intro name
    simp only [List.mem_map, eq_comm]
  unfold MountsListed ToolsListed
  rw [hids] at hlisted ⊢
  generalize definedTools (S.rootTools tree root) ++ definedTools (S.phaseTools tree d) = own at hlisted hfree ⊢
  constructor
  · rintro ⟨hnodup, hnames⟩
    refine ⟨(List.nodup_append.mp hnodup).1, ?_, ?_⟩
    · intro name hname
      rcases (hnames name).mp (List.mem_append_left _ hname) with h | ⟨spec, hspec, rfl⟩
      · exact h
      · exact absurd hname (hfree spec hspec)
    · intro name hname _
      rcases List.mem_append.mp ((hnames name).mpr (.inl hname)) with h | h
      · exact .inl h
      · exact .inr ((hsubagent name).mp h)
  · rintro ⟨hnodup, hall, hcritic⟩
    refine ⟨?_, ?_⟩
    · rw [List.nodup_append]
      refine ⟨hnodup, hsubagents, ?_⟩
      rintro name hname other hother rfl
      obtain ⟨spec, hspec, rfl⟩ := (hsubagent name).mp hother
      exact hfree spec hspec hname
    · intro name
      rw [List.mem_append, hsubagent]
      constructor
      · rintro (h | h)
        · exact .inl (hall name h)
        · exact .inr h
      · rintro (hname | h)
        · rcases hlisted name hname with h | h
          · rwa [List.mem_append, hsubagent] at h
          · exact hcritic name hname h
        · exact .inr h

theorem mounted_tools_listed_iff {paths : Paths} {allowedRoles : Option (List String)}
    {c : CompiledSkill F (Registry A)}
    (h : (toolLoader L S lower toolsLine).compileSkill paths tree root resolver inputs allowedRoles = .ok c)
    (hphases : ∀ r ∈ values c.graphs, (r.1.nodes.map (·.phaseName)).Nodup) :
    (∀ r ∈ values c.graphs, ∀ d ∈ r.1.nodes, ∀ a, d.ast = .agent a → MountsListed r.2.tools d a) ↔
      ∀ r ∈ values c.graphs, ∀ d ∈ r.1.nodes, ∀ a, d.ast = .agent a →
        ToolsListed lower (S.rootTools tree root) (S.phaseTools tree d) a := by
  obtain ⟨-, hlinked⟩ := Loader.compileSkill_linked _ h
  refine forall₂_congr fun r hr => forall₂_congr fun d hd => forall₂_congr fun a ha => ?_
  obtain ⟨g, hg⟩ := hlinked r hr
  exact mountsListed_iff hg (hphases r hr) hd ha

end

/-! A skill whose root defines the tool `search`. -/

def searchModule : ToolModule where
  fileName := "search.py"
  path := "/skill/tools/search.py"
  issue := none
  members := [("search", ⟨"search", true, ["query"]⟩)]

def searchSources (phaseTools : Option (List ToolModule)) : Sources FloatLiteral Unit Unit where
  rootTools _ _ := some [searchModule]
  phaseTools _ _ := phaseTools
  phaseActions _ _ := none
  subagent _ _ d spec :=
    .ok
      { parentPhaseId := d.phaseName
        name := spec.name
        targetSkill := spec.targetSkill
        description := spec.description
        root := "/skills"
        inputSchema := demoSchema
        expectedSchema := demoSchema }
  subagent_name _ _ _ _ _ h := by
    cases h
    rfl

def searchAgent : AgentNodeAST FloatLiteral where
  name := "p"
  allowSequentialOverwrite := []
  iterate := none
  role := "r"
  goal := "g"
  steps := []
  protocols := []
  io := ⟨demoSchema, demoSchema⟩
  validator := false
  tools := ["search"]
  subagents := []
  subgraphs := []
  references := []
  examples := []
  examplesInline := []
  maxIterations := 10
  llmRole := none
  contextAccess := []
  useGraphLlmRole := true
  systemPrompt := "Role: r\n\nGoal: g"

def searchDocument : PhaseDocument FloatLiteral :=
  { demoDocument with
    path := "/skill/phases/p/AGENT.md"
    mode := "agent"
    ast := .agent searchAgent }

def searchLoader (phaseTools : Option (List ToolModule)) : Loader FloatLiteral (Registry Unit) Unit Unit :=
  toolLoader
    { rootIssues := fun _ _ => []
      skillManifest := fun _ _ => (demoRoot, [])
      graphs := fun _ _ => [.ok { demoGraph with phases := [⟨.ok searchDocument, 1, []⟩] }]
      staticIssues := fun _ _ _ _ _ => []
      actionsAndTools := fun _ _ _ => .ok ⟨∅, [], ∅⟩
      subagents := fun _ _ _ => .ok ∅
      injectSubagentTools := fun found _ => .ok found
      declaredToolIssues := fun _ _ => []
      returnKeyIssues := fun _ _ _ => []
      registryIssues := fun _ _ _ => [] } (searchSources phaseTools) id fun _ => 1

theorem search_compiles {phaseTools : Option (List ToolModule)}
    (h : phaseTools = none ∨ phaseTools = some [searchModule]) :
    ∃ c, (searchLoader phaseTools).compileSkill demoHost.paths (demoCall none).tree "/skill" () none none = .ok c ∧
      (∃ r, r ∈ values c.graphs) ∧ ∀ r ∈ values c.graphs, r.1.nodes = [searchDocument] ∧
        (r.2.tools.forPhase "p").map ToolDef.id = "search" :: (phaseTools.map fun _ => "search").toList := by
  rcases h with rfl | rfl
  · refine ⟨_, rfl, ⟨_, List.mem_singleton.mpr rfl⟩, fun r hr => ?_⟩
    obtain rfl := List.mem_singleton.mp hr
    exact ⟨rfl, rfl⟩
  · refine ⟨_, rfl, ⟨_, List.mem_singleton.mpr rfl⟩, fun r hr => ?_⟩
    obtain rfl := List.mem_singleton.mp hr
    exact ⟨rfl, rfl⟩

theorem search_listed : ∃ c,
    (searchLoader none).compileSkill demoHost.paths (demoCall none).tree "/skill" () none none = .ok c ∧
      ∀ r ∈ values c.graphs, ∀ d ∈ r.1.nodes, ∀ a, d.ast = .agent a → MountsListed r.2.tools d a := by
  obtain ⟨c, hc, -, hgraphs⟩ := search_compiles (.inl rfl)
  refine ⟨c, hc, (mounted_tools_listed_iff hc ?_).mpr ?_⟩
  · intro r hr
    rw [(hgraphs r hr).1]
    exact List.nodup_singleton _
  · intro r hr d hd a ha
    rw [(hgraphs r hr).1] at hd
    obtain rfl := List.mem_singleton.mp hd
    obtain rfl : searchAgent = a := PhaseAST.agent.inj ha
    refine ⟨List.nodup_singleton _, fun name hname => hname, fun name hname _ => .inl hname⟩

theorem search_mounted_twice : ∃ c,
    (searchLoader (some [searchModule])).compileSkill demoHost.paths (demoCall none).tree "/skill" () none none =
        .ok c ∧
      ¬ ∀ r ∈ values c.graphs, ∀ d ∈ r.1.nodes, ∀ a, d.ast = .agent a → MountsListed r.2.tools d a := by
  obtain ⟨c, hc, ⟨r, hr⟩, hgraphs⟩ := search_compiles (.inr rfl)
  refine ⟨c, hc, fun h => ?_⟩
  obtain ⟨hnodes, hids⟩ := hgraphs r hr
  have hmounts := h r hr searchDocument (by rw [hnodes]; exact List.mem_singleton.mpr rfl) searchAgent rfl
  have hnodup : ((r.2.tools.forPhase "p").map ToolDef.id).Nodup := hmounts.1
  rw [hids] at hnodup
  exact absurd hnodup (by decide)

end GraphSkillRuntime.CompileCache.MountedTools
