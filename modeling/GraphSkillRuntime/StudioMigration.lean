import GraphSkillRuntime.FileActions
import Mathlib.Data.List.Infix

/-!
The migration of a legacy skill: the portable tree is rendered in a staging directory beside the destination, compiled
there, given its report and published by one exclusive rename. The texts that are rendered, the reading of the legacy
source and the compiler are what the migration is built from; the files it makes of them are here.
-/

namespace GraphSkillRuntime.StudioMigration

open FileActions

inductive MigrationErrorCode where
  | artifactDuplicate | artifactIdCollision | artifactInvalid | configConflict | configInvalid | destinationExists
  | destinationInvalid | externalSkillInvalid | graphIdCollision | graphIdInvalid | graphInvalid
  | graphReferenceInvalid | graphResourceUnsupported | nestedSubgraphUnsupported | phaseInvalid
  | phaseInventoryInvalid | presetInvalid | resourceCollision | resourcePathUnsupported | skillMetadataInvalid
  | sourceInvalid | sourceVersionUnsupported | stagedValidationFailed | symlinkUnsupported | topologyInvalid
  | unknownField
  deriving DecidableEq

structure MigrationDiagnostic where
  code : MigrationErrorCode
  message : String
  sourcePath : Option Path := none
  fieldPath : Option String := none
  deriving DecidableEq

inductive Raised where
  | problem (diagnostic : MigrationDiagnostic)
  | fileExists (path : Path)
  | other (message : String)
  deriving DecidableEq

inductive MigrationError where
  | failure (diagnostic : MigrationDiagnostic)
  | other (message : String)
  deriving DecidableEq

inductive MappingKind where
  | skill | graph | phase | resource | config
  deriving DecidableEq

structure MigrationFileMapping where
  source : Path
  destination : Path
  kind : MappingKind
  graphId : Option String := none
  phaseId : Option String := none
  deriving DecidableEq

inductive LegacyMode where
  | logic | subgraph | agent
  deriving DecidableEq

def isLowerAlnum (c : Char) : Bool := ('a' ≤ c && c ≤ 'z') || ('0' ≤ c && c ≤ '9')

def skillNameFrom : Bool → List Char → Bool
  | afterGroup, [] => afterGroup
  | afterGroup, c :: cs =>
    if isLowerAlnum c then skillNameFrom true cs else c == '-' && afterGroup && skillNameFrom false cs

def isAgentSkillName (name : String) : Bool := skillNameFrom false name.toList

def isLetter (c : Char) : Bool := ('a' ≤ c && c ≤ 'z') || ('A' ≤ c && c ≤ 'Z')

def isPhaseId (name : String) : Bool :=
  match name.toList with
  | [] => false
  | c :: cs => isLetter c && cs.all fun d => isLetter d || ('0' ≤ d && d ≤ '9') || d == '_' || d == '-'

structure LegacyPhase where
  phaseId : String
  phaseId_ok : isPhaseId phaseId = true
  mode : LegacyMode
  sourceDir : Path
  sourceName : String

structure LegacyGraph where
  sourceRoot : Path
  graphId : String
  graphId_ok : isAgentSkillName graphId = true
  documents : List LegacyPhase

structure MigrationPlan where
  source : Path
  destination : Path
  rootGraph : LegacyGraph
  registryGraphs : List LegacyGraph
  presetId : String
  runtimeConfigSource : Option Path

structure MigrationReport where
  plan : MigrationPlan
  fileMappings : List MigrationFileMapping

structure Converter where
  readPlan : FileSystem → Path → Except Raised (LegacyGraph × List LegacyGraph × Option Path)
  renderRootSkill : MigrationPlan → Except Raised String
  graphYaml : MigrationPlan → LegacyGraph → Except Raised String
  phaseMarkdown : MigrationPlan → LegacyGraph → LegacyPhase → Except Raised String
  projectConfigText : MigrationPlan → Except Raised String
  reportText : MigrationReport → Except Raised String
  compileSkill : FileSystem → MigrationPlan → Path → Except Raised Unit
  isSymlink : FileSystem → Path → Bool
  listdir : FileSystem → Path → List String
  validPresetId : String → Bool

def phaseFiles : List String := ["LOGIC.md", "SUBGRAPH.md", "SKILL.md"]
def resourceDirs : List String := ["references", "examples", "scripts", "assets", "tools"]
def graphResources : List String := ["references", "examples", "scripts", "assets"]
def reportName : String := ".gskill-migration-report.json"

def LegacyMode.targetName : LegacyMode → String
  | .logic => "LOGIC.md"
  | .subgraph => "SUBGRAPH.md"
  | .agent => "AGENT.md"

section Operations

variable (S : Surroundings) (C : Converter)

def fromExcept {α : Type} : Except Raised α → Action Raised α
  | .ok a => pure a
  | .error e => throw e

def setNode (fs : FileSystem) (p : Path) (node : Option Node) : FileSystem := fun q => if q = p then node else fs q

def failedAt (p : Path) : Raised := .other ("OSError: " ++ "/".intercalate p)

/-- `exist_ok` decides what an existing directory means. -/
def mkdir (existOk : Bool) (p : Path) : Action Raised Unit :=
  operation S (fun _ => false) (failedAt p) fun fs =>
    match fs p with
    | none => .ok ((), setNode fs p (some .dir))
    | some .dir => if existOk then .ok ((), fs) else .error (.fileExists p)
    | some (.file _) => .error (.fileExists p)

def mkdirs (p : Path) : Action Raised (List Unit) := each (mkdir S true) p.inits

def writeText (p : Path) (content : String) : Action Raised Unit := do
  let _ ← mkdirs S p.dropLast
  operation S (fun q => q == p) (failedAt p) fun fs => .ok ((), setNode fs p (some (.file content)))

def pathExists (p : Path) : Action Raised Bool := reading S (failedAt p) fun fs => .ok (lookup fs p).isSome

/-- The subtree at `src` also at `dst`. -/
def graft (fs : FileSystem) (src dst : Path) : FileSystem := fun p =>
  if below dst p then fs (src ++ p.drop dst.length) else fs p

def copyEntry (src dst : Path) : Action Raised Unit := do
  let link ← reading S (failedAt src) fun fs => .ok (C.isSymlink fs src)
  if link then
    throw (.problem ⟨.symlinkUnsupported, "migration does not copy symlinks", some src, none⟩)
  let dir ← reading S (failedAt src) fun fs => .ok (decide (lookup fs src = some .dir))
  if dir then
    operation S (below dst) (failedAt dst) fun fs =>
      if (fs dst).isSome then .error (.fileExists dst) else .ok ((), graft fs src dst)
  else do
    let _ ← mkdirs S dst.dropLast
    operation S (fun q => q == dst) (failedAt dst) fun fs => .ok ((), setNode fs dst (fs src))

end Operations

section Migration

variable (S : Surroundings) (C : Converter)

def problem {α : Type} (code : MigrationErrorCode) (message : String) (source : Option Path) : Except Raised α :=
  .error (.problem ⟨code, message, source, none⟩)

def validateMigrationPaths (fs : FileSystem) (source destination : Path) (presetId : String) : Except Raised Unit :=
  if lookup fs source ≠ some .dir then problem .sourceInvalid "SOURCE must be a directory" (some source)
  else if source = destination then problem .destinationInvalid "SOURCE and DESTINATION must differ" none
  else if below source destination then
    problem .destinationInvalid "DESTINATION must not be inside SOURCE" (some destination)
  else if (lookup fs destination).isSome then
    problem .destinationExists "DESTINATION already exists; migration never overwrites it" (some destination)
  else if isAgentSkillName (destination.getLastD "") = false ∨ 64 < (destination.getLastD "").length then
    problem .destinationInvalid "DESTINATION basename must be a valid Agent Skills name" (some destination)
  else if C.validPresetId presetId = false then
    problem .presetInvalid ("invalid preset id '" ++ presetId ++ "'") none
  else .ok ()

def buildPlan (source destination : Path) (presetId : String) : Action Raised MigrationPlan :=
  reading S (failedAt source) fun fs => do
    validateMigrationPaths C fs source destination presetId
    let (rootGraph, registryGraphs, runtimeConfigSource) ← C.readPlan fs source
    return { source, destination, rootGraph, registryGraphs, presetId, runtimeConfigSource }

def relativeTo (root p : Path) : Path := p.drop root.length

def renderPhase (plan : MigrationPlan) (graph : LegacyGraph) (bundleRoot destinationGraph : Path)
    (phase : LegacyPhase) : Action Raised MigrationFileMapping := do
  let destinationPhase := destinationGraph ++ ["phases", phase.phaseId]
  let _ ← mkdirs S destinationPhase.dropLast
  mkdir S false destinationPhase
  let text ← fromExcept (C.phaseMarkdown plan graph phase)
  let children ← reading S (failedAt phase.sourceDir) fun fs => .ok (C.listdir fs phase.sourceDir)
  let _ ← each (fun child => copyEntry S C (phase.sourceDir ++ [child]) (destinationPhase ++ [child]))
    (children.filter (· ∉ phaseFiles))
  let target := destinationPhase ++ [phase.mode.targetName]
  writeText S target text
  return ⟨relativeTo plan.source (phase.sourceDir ++ [phase.sourceName]), relativeTo bundleRoot target, .phase,
    some graph.graphId, some phase.phaseId⟩

def copyResource (sourceRoot destinationRoot : Path) (resource : String) :
    Action Raised (List MigrationFileMapping) := do
  let source := sourceRoot ++ [resource]
  if ← pathExists S source then
    copyEntry S C source (destinationRoot ++ [resource])
    return [⟨[resource], [resource], .resource, none, none⟩]
  else
    return []

def copyLegacyRefs (sourceRoot destinationRoot : Path) (message : String) :
    Action Raised (List MigrationFileMapping) := do
  let legacyRefs := sourceRoot ++ ["refs"]
  if ← pathExists S legacyRefs then
    if ← pathExists S (sourceRoot ++ ["references"]) then
      throw (.problem ⟨.resourceCollision, message, some sourceRoot, none⟩)
    copyEntry S C legacyRefs (destinationRoot ++ ["references"])
    return [⟨["refs"], ["references"], .resource, none, none⟩]
  else
    return []

def renderGraph (plan : MigrationPlan) (graph : LegacyGraph) (bundleRoot destinationGraph : Path) :
    Action Raised (List MigrationFileMapping) := do
  let yaml ← fromExcept (C.graphYaml plan graph)
  let target := destinationGraph ++ ["graph.yaml"]
  writeText S target yaml
  let phases ← each (renderPhase S C plan graph bundleRoot destinationGraph) graph.documents
  if graph.sourceRoot ≠ plan.source then
    let _ ← each (copyResource S C graph.sourceRoot destinationGraph) graphResources
    let _ ← copyLegacyRefs S C graph.sourceRoot destinationGraph
      "legacy graph contains both refs/ and references/ resource owners"
  return ⟨relativeTo plan.source (graph.sourceRoot ++ ["GRAPH.md"]), relativeTo bundleRoot target, .graph,
    some graph.graphId, none⟩ :: phases

def renderConfig (plan : MigrationPlan) (stage : Path) : Action Raised (List MigrationFileMapping) :=
  match plan.runtimeConfigSource with
  | none => pure []
  | some config => do
    let text ← fromExcept (C.projectConfigText plan)
    writeText S (stage ++ ["gskill.toml"]) text
    return [⟨if below plan.source config then relativeTo plan.source config else config, ["gskill.toml"], .config, none,
      none⟩]

def renderPlan (plan : MigrationPlan) (stage : Path) : Action Raised (List MigrationFileMapping) := do
  let skill ← fromExcept (C.renderRootSkill plan)
  writeText S (stage ++ ["SKILL.md"]) skill
  let root ← renderGraph S C plan plan.rootGraph stage stage
  let registry ← each (fun graph => renderGraph S C plan graph stage (stage ++ ["graphs", graph.graphId]))
    plan.registryGraphs
  let resources ← each (copyResource S C plan.source stage) resourceDirs
  let refs ← copyLegacyRefs S C plan.source stage "legacy root contains both refs/ and references/ resource owners"
  let config ← renderConfig S C plan stage
  return ⟨["GRAPH.md"], ["SKILL.md"], .skill, none, none⟩ ::
    root ++ registry.flatten ++ resources.flatten ++ refs ++ config

/-- The subtree at `src`, now at `dst`. -/
def moved (fs : FileSystem) (src dst : Path) : FileSystem := fun p =>
  if below dst p then fs (src ++ p.drop dst.length) else if below src p then none else fs p

def publishDirectoryNoReplace (src dst : Path) : Action Raised Unit :=
  operation S (fun _ => false) (failedAt dst) fun fs =>
    if (fs dst).isSome then .error (.fileExists dst) else .ok ((), moved fs src dst)

def stagingName (suffix : String) : String := ".gskill-migrate-" ++ suffix

def mkdtemp (parent : Path) (suffix : String) : Action Raised Path := do
  mkdir S false (parent ++ [stagingName suffix])
  return parent ++ [stagingName suffix]

def removeTree (p : Path) : Action Raised Unit :=
  operation S (below p) (failedAt p) fun fs => .ok ((), fun q => if below p q then none else fs q)

def destinationAppeared (destination : Path) : Raised → Raised
  | .fileExists _ => .problem ⟨.destinationExists,
      "DESTINATION appeared while migration was staged; migration never overwrites it", some destination, none⟩
  | e => e

def prepareStage (plan : MigrationPlan) (stage : Path) : Action Raised MigrationReport := do
  let mappings ← renderPlan S C plan stage
  reading S (failedAt stage) fun fs => C.compileSkill fs plan stage
  let text ← fromExcept (C.reportText ⟨plan, mappings⟩)
  writeText S (stage ++ [reportName]) text
  return ⟨plan, mappings⟩

def migrateStaged (plan : MigrationPlan) (stage : Path) : Action Raised MigrationReport := do
  let report ← prepareStage S C plan stage
  mapError (destinationAppeared plan.destination) (publishDirectoryNoReplace S stage plan.destination)
  return report

def planError : Raised → MigrationError
  | .problem diagnostic => .failure diagnostic
  | .fileExists p => .other ("FileExistsError: " ++ "/".intercalate p)
  | .other message => .other message

def stagedError (stage : Path) : Raised → MigrationError
  | .problem diagnostic => .failure diagnostic
  | .fileExists p => .failure ⟨.stagedValidationFailed, "FileExistsError: " ++ "/".intercalate p, some stage, none⟩
  | .other message => .failure ⟨.stagedValidationFailed, message, some stage, none⟩

def makeStage (plan : MigrationPlan) (suffix : String) : Action Raised (Path × Path) := do
  let _ ← mkdirs S plan.destination.dropLast
  let stagingParent ← mkdtemp S plan.destination.dropLast suffix
  let stage := stagingParent ++ [plan.destination.getLastD ""]
  mkdir S false stage
  return (stagingParent, stage)

def migrateStudioSkill (source destination : Path) (presetId suffix : String) :
    Action MigrationError MigrationReport := do
  let plan ← mapError planError (buildPlan S C source destination presetId)
  let (stagingParent, stage) ← mapError planError (makeStage S plan suffix)
  andFinally (mapError (stagedError stage) (migrateStaged S C plan stage))
    (mapError planError (removeTree S stagingParent))

end Migration

/-- The directory that the call stages in, and the tree in it that is published. -/
def stagingParent (destination : Path) (suffix : String) : Path := destination.dropLast ++ [stagingName suffix]

def stageOf (destination : Path) (suffix : String) : Path :=
  stagingParent destination suffix ++ [destination.getLastD ""]

section Confinement

variable {S : Surroundings} {C : Converter} {region : Path → Prop}

structure Owned (region : Path → Prop) (base : Path) : Prop where
  above : ∀ q, q <+: base → region q
  inside : ∀ q, below base q = true → region q

theorem Owned.append {base : Path} (h : Owned region base) (rest : Path) : Owned region (base ++ rest) := by
  constructor
  · intro q hq
    by_cases hlong : base <+: q
    · apply h.inside
      rw [below, List.isPrefixOf_iff_prefix]
      exact hlong
    · apply h.above
      exact (List.prefix_or_prefix_of_prefix hq (List.prefix_append base rest)).resolve_right hlong
  · intro q hq
    apply h.inside
    rw [below_iff] at hq ⊢
    obtain ⟨more, rfl⟩ := hq
    exact ⟨rest ++ more, List.append_assoc ..⟩

theorem Owned.dropLast {base : Path} (h : Owned region base) : ∀ q, q <+: base.dropLast → region q :=
  fun q hq => h.above q (hq.trans (List.dropLast_prefix base))

theorem Owned.self {base : Path} (h : Owned region base) : region base := h.above base (List.prefix_refl base)

theorem confined_fromExcept {α : Type} (r : Except Raised α) : Confined S region (fromExcept r) := by
  cases r with
  | ok a => exact confined_pure a
  | error e => exact confined_throw e

theorem setNode_ne {fs : FileSystem} {p q : Path} {node : Option Node} (h : q ≠ p) : setNode fs p node q = fs q := by
  rw [setNode, if_neg h]

theorem confined_setNode {p : Path} (hp : region p) {target : Path → Bool} (htarget : ∀ q, target q = true → q = p)
    {failed : Raised} {node : FileSystem → Option Node} :
    Confined S region (operation S target failed fun fs => .ok ((), setNode fs p (node fs))) := by
  apply confined_operation
  · intro q hq
    rw [htarget q hq]
    exact hp
  · intro fs a fs' h q hq
    simp only [Except.ok.injEq, Prod.mk.injEq] at h
    rw [← h.2]
    apply setNode_ne
    rintro rfl
    exact hq hp

theorem confined_mkdir {existOk : Bool} {p : Path} (hp : region p) : Confined S region (mkdir S existOk p) := by
  apply confined_operation
  · intro q hq
    cases hq
  · intro fs a fs' h q hq
    have hne : q ≠ p := by
      rintro rfl
      exact hq hp
    cases hnode : fs p with
    | none =>
      simp only [hnode, Except.ok.injEq, Prod.mk.injEq] at h
      rw [← h.2, setNode_ne hne]
    | some node =>
      cases node with
      | file content => simp [hnode] at h
      | dir =>
        cases existOk <;> simp [hnode] at h
        rw [← h]

theorem confined_mkdirs {p : Path} (hp : ∀ q, q <+: p → region q) : Confined S region (mkdirs S p) := by
  apply confined_each
  intro q hq
  exact confined_mkdir (hp q ((List.mem_inits q p).mp hq))

theorem confined_writeText {p : Path} (hp : Owned region p) (content : String) :
    Confined S region (writeText S p content) := by
  apply confined_bind (confined_mkdirs hp.dropLast)
  intro _
  apply confined_setNode hp.self
  intro q hq
  simpa using hq

theorem confined_copyEntry {src dst : Path} (hdst : Owned region dst) : Confined S region (copyEntry S C src dst) := by
  apply confined_bind (confined_reading _ _)
  intro link
  cases link with
  | true =>
    exact confined_throw _
  | false =>
    apply confined_bind (confined_reading _ _)
    intro dir
    cases dir with
    | true =>
      rw [if_pos rfl]
      apply confined_operation hdst.inside
      intro fs a fs' h q hq
      split_ifs at h with hsome
      simp only [Except.ok.injEq, Prod.mk.injEq] at h
      have hnot : ¬ below dst q = true := fun hb => hq (hdst.inside q hb)
      rw [← h.2, graft, if_neg hnot]
    | false =>
      rw [if_neg Bool.false_ne_true]
      apply confined_bind (confined_mkdirs hdst.dropLast)
      intro _
      apply confined_setNode hdst.self
      intro q hq
      simpa using hq

theorem confined_renderPhase {plan : MigrationPlan} {graph : LegacyGraph} {bundleRoot destinationGraph : Path}
    (h : Owned region destinationGraph) (phase : LegacyPhase) :
    Confined S region (renderPhase S C plan graph bundleRoot destinationGraph phase) := by
  have hphase : Owned region (destinationGraph ++ ["phases", phase.phaseId]) := h.append _
  apply confined_bind (confined_mkdirs hphase.dropLast)
  intro _
  apply confined_bind (confined_mkdir hphase.self)
  intro _
  apply confined_bind (confined_fromExcept _)
  intro text
  apply confined_bind (confined_reading _ _)
  intro children
  apply confined_bind
  · apply confined_each
    intro child _
    exact confined_copyEntry (hphase.append [child])
  intro _
  apply confined_bind (confined_writeText (hphase.append _) text)
  intro _
  exact confined_pure _

theorem confined_copyResource {sourceRoot destinationRoot : Path} (h : Owned region destinationRoot)
    (resource : String) : Confined S region (copyResource S C sourceRoot destinationRoot resource) := by
  apply confined_bind (confined_reading _ _)
  intro present
  cases present with
  | false => exact confined_pure _
  | true =>
    apply confined_bind (confined_copyEntry (h.append _))
    intro _
    exact confined_pure _

theorem confined_copyLegacyRefs {sourceRoot destinationRoot : Path} (h : Owned region destinationRoot)
    (message : String) : Confined S region (copyLegacyRefs S C sourceRoot destinationRoot message) := by
  apply confined_bind (confined_reading _ _)
  intro present
  cases present with
  | false => exact confined_pure _
  | true =>
    apply confined_bind (confined_reading _ _)
    intro both
    cases both with
    | true => exact confined_throw _
    | false =>
      apply confined_bind (confined_copyEntry (h.append _))
      intro _
      exact confined_pure _

theorem confined_renderGraph {plan : MigrationPlan} {bundleRoot destinationGraph : Path}
    (h : Owned region destinationGraph) (graph : LegacyGraph) :
    Confined S region (renderGraph S C plan graph bundleRoot destinationGraph) := by
  apply confined_bind (confined_fromExcept _)
  intro yaml
  apply confined_bind (confined_writeText (h.append _) yaml)
  intro _
  apply confined_bind (confined_each _ (fun phase _ => confined_renderPhase h phase))
  intro phases
  by_cases hroot : graph.sourceRoot ≠ plan.source
  · simp only [if_pos hroot]
    apply confined_bind (confined_each _ (fun resource _ => confined_copyResource h resource))
    intro _
    apply confined_bind (confined_copyLegacyRefs h _)
    intro _
    exact confined_pure _
  · simp only [if_neg hroot]
    exact confined_pure _

theorem confined_renderConfig {plan : MigrationPlan} {stage : Path} (h : Owned region stage) :
    Confined S region (renderConfig S C plan stage) := by
  rw [renderConfig]
  cases plan.runtimeConfigSource with
  | none => exact confined_pure _
  | some config =>
    apply confined_bind (confined_fromExcept _)
    intro text
    apply confined_bind (confined_writeText (h.append _) text)
    intro _
    exact confined_pure _

theorem confined_renderPlan {plan : MigrationPlan} {stage : Path} (h : Owned region stage) :
    Confined S region (renderPlan S C plan stage) := by
  apply confined_bind (confined_fromExcept _)
  intro skill
  apply confined_bind (confined_writeText (h.append _) skill)
  intro _
  apply confined_bind (confined_renderGraph h _)
  intro root
  apply confined_bind (confined_each _ (fun graph _ => confined_renderGraph (h.append _) graph))
  intro registry
  apply confined_bind (confined_each _ (fun resource _ => confined_copyResource h resource))
  intro resources
  apply confined_bind (confined_copyLegacyRefs h _)
  intro refs
  apply confined_bind (confined_renderConfig h)
  intro config
  exact confined_pure _

theorem confined_prepareStage {plan : MigrationPlan} {stage : Path} (h : Owned region stage) :
    Confined S region (prepareStage S C plan stage) := by
  apply confined_bind (confined_renderPlan h)
  intro mappings
  apply confined_bind (confined_reading _ _)
  intro _
  apply confined_bind (confined_fromExcept _)
  intro text
  apply confined_bind (confined_writeText (h.append _) text)
  intro _
  exact confined_pure _

theorem makeStage_eq (plan : MigrationPlan) (suffix : String) :
    makeStage S plan suffix = (do
      let _ ← mkdirs S plan.destination.dropLast
      mkdir S false (stagingParent plan.destination suffix)
      mkdir S false (stageOf plan.destination suffix)
      return (stagingParent plan.destination suffix, stageOf plan.destination suffix)) := by
  simp [makeStage, mkdtemp, stagingParent, stageOf]

theorem makeStage_ok {plan : MigrationPlan} {suffix : String} {dirs : Path × Path} {w w' : World}
    (h : makeStage S plan suffix w = .ok dirs w') :
    dirs = (stagingParent plan.destination suffix, stageOf plan.destination suffix) := by
  rw [makeStage_eq, bind_ok_iff] at h
  obtain ⟨_, _, _, h⟩ := h
  rw [bind_ok_iff] at h
  obtain ⟨_, _, _, h⟩ := h
  rw [bind_ok_iff] at h
  obtain ⟨_, _, _, h⟩ := h
  cases h
  rfl

theorem confined_makeStage {plan : MigrationPlan} {suffix : String}
    (h : Owned region (stagingParent plan.destination suffix)) : Confined S region (makeStage S plan suffix) := by
  rw [makeStage_eq]
  apply confined_bind (confined_mkdirs (fun q hq => h.above q (hq.trans (List.prefix_append ..))))
  intro _
  apply confined_bind (confined_mkdir h.self)
  intro _
  apply confined_bind (confined_mkdir (h.append _).self)
  intro _
  exact confined_pure _

theorem confined_removeTree {p : Path} (h : Owned region p) : Confined S region (removeTree S p) := by
  apply confined_operation h.inside
  intro fs a fs' hfs q hq
  simp only [Except.ok.injEq, Prod.mk.injEq] at hfs
  have hnot : ¬ below p q = true := fun hb => hq (h.inside q hb)
  rw [← hfs.2]
  exact if_neg hnot

end Confinement

section Publication

variable {S : Surroundings} {C : Converter}

theorem skillNameFrom_dot (afterGroup : Bool) (rest : List Char) : skillNameFrom afterGroup ('.' :: rest) = false := rfl

theorem stagingName_not_skill (suffix : String) : isAgentSkillName (stagingName suffix) = false := by
  have hliteral : (".gskill-migrate-" : String).toList = _ := String.toList_ofList
  have hname : (stagingName suffix).toList = _ ++ suffix.toList :=
    String.toList_append.trans (congrArg (fun l => l ++ suffix.toList) hliteral)
  exact (congrArg (skillNameFrom false) hname).trans (skillNameFrom_dot false _)

def Worksite (destination : Path) (suffix : String) (p : Path) : Prop :=
  below (stagingParent destination suffix) p = true ∨ p <+: destination.dropLast

theorem owned_worksite (destination : Path) (suffix : String) :
    Owned (Worksite destination suffix) (stagingParent destination suffix) := by
  constructor
  · intro q hq
    rw [stagingParent, List.prefix_concat_iff] at hq
    rcases hq with rfl | hq
    · left
      rw [stagingParent, below_iff]
      exact ⟨[], (List.append_nil _).symm⟩
    · right
      exact hq
  · intro q hq
    left
    exact hq

structure Planned (seen : FileSystem) (source destination : Path) : Prop where
  source_dir : lookup seen source = some .dir
  apart : below source destination = false
  free : lookup seen destination = none
  name : isAgentSkillName (destination.getLastD "") = true

theorem Planned.destination_eq {seen : FileSystem} {source destination : Path} (h : Planned seen source destination) :
    destination = destination.dropLast ++ [destination.getLastD ""] := by
  rcases List.eq_nil_or_concat destination with rfl | ⟨init, last, rfl⟩
  · have := h.name
    simp [isAgentSkillName, skillNameFrom] at this
  · simp

theorem Planned.staging_apart {seen : FileSystem} {source destination : Path} (h : Planned seen source destination)
    {suffix : String} {p : Path} (hp : below destination p = true) :
    below (stagingParent destination suffix) p = false := by
  rw [Bool.eq_false_iff]
  intro hstaging
  rw [below_iff] at hp hstaging
  obtain ⟨rest, rfl⟩ := hp
  obtain ⟨more, heq⟩ := hstaging
  rw [stagingParent] at heq
  nth_rewrite 1 [h.destination_eq] at heq
  simp only [List.append_assoc, List.append_cancel_left_eq, List.cons_append, List.cons.injEq] at heq
  have hname := h.name
  rw [heq.1, stagingName_not_skill] at hname
  exact Bool.false_ne_true hname

theorem Planned.destination_outside {seen : FileSystem} {source destination : Path}
    (h : Planned seen source destination)
    (suffix : String) {p : Path} (hp : below destination p = true) : ¬ Worksite destination suffix p := by
  rintro (hstaging | hparent)
  · rw [h.staging_apart hp] at hstaging
    exact Bool.false_ne_true hstaging
  · rw [below, List.isPrefixOf_iff_prefix] at hp
    have hlong := (hp.trans hparent).length_le
    rw [List.length_dropLast] at hlong
    have hpos : 0 < destination.length := by
      rw [h.destination_eq]
      simp
    omega

theorem Planned.source_apart {seen : FileSystem} {source destination : Path} (h : Planned seen source destination)
    {p : Path} (hp : below source p = true) : below destination p = false := by
  rw [Bool.eq_false_iff]
  intro hdest
  have hcases : source <+: destination ∨ destination <+: source := by
    rw [below, List.isPrefixOf_iff_prefix] at hp hdest
    exact List.prefix_or_prefix_of_prefix hp hdest
  rw [← List.isPrefixOf_iff_prefix, ← List.isPrefixOf_iff_prefix] at hcases
  have hapart := h.apart
  rcases hcases with hin | hin
  · rw [below, hin] at hapart
    exact Bool.false_ne_true hapart.symm
  · -- the source would be found through the destination
    have hne : destination ≠ source := by
      rintro rfl
      rw [below, hin] at hapart
      exact Bool.false_ne_true hapart.symm
    have hdir := lookup_of_below hin hne h.source_dir
    rw [h.free] at hdir
    cases hdir

theorem Planned.source_outside {seen : FileSystem} {source destination : Path} (h : Planned seen source destination)
    {suffix : String} (hfresh : ∀ p, below (stagingParent destination suffix) p = true → seen p = none) {p : Path}
    (hp : below source p = true) : ¬ Worksite destination suffix p := by
  have hapart : ¬ source <+: destination.dropLast := by
    intro hpre
    have hin : below source destination = true := by
      rw [below, List.isPrefixOf_iff_prefix]
      exact hpre.trans (List.dropLast_prefix destination)
    rw [h.apart] at hin
    exact Bool.false_ne_true hin
  have hsource : ¬ stagingParent destination suffix <+: source := by
    intro hpre
    rw [← List.isPrefixOf_iff_prefix] at hpre
    have hnone := hfresh source hpre
    have hdir := h.source_dir
    rw [lookup, hnone, ite_self] at hdir
    cases hdir
  rw [below, List.isPrefixOf_iff_prefix] at hp
  rintro (hstaging | hparent)
  · rw [below, List.isPrefixOf_iff_prefix] at hstaging
    rcases List.prefix_or_prefix_of_prefix hp hstaging with hpre | hpre
    · have hpre' := hpre
      rw [stagingParent, List.prefix_concat_iff] at hpre'
      rcases hpre' with heq | hpre'
      · apply hsource
        rw [heq]
        exact List.prefix_refl _
      · exact hapart hpre'
    · exact hsource hpre
  · exact hapart (hp.trans hparent)

theorem confined_buildPlan {region : Path → Prop} (source destination : Path) (presetId : String) :
    Confined S region (buildPlan S C source destination presetId) := confined_reading _ _

theorem buildPlan_ok {source destination : Path} {presetId : String} {w w' : World} {plan : MigrationPlan}
    (h : buildPlan S C source destination presetId w = .ok plan w') :
    plan.source = source ∧ plan.destination = destination ∧
      Planned ((S.others w.tick).apply w.fs) source destination := by
  have hread := (reading_ok h).1
  simp only [bind, Except.bind] at hread
  cases hpaths : validateMigrationPaths C ((S.others w.tick).apply w.fs) source destination presetId with
  | error e => simp [hpaths] at hread
  | ok u =>
    simp only [hpaths] at hread
    cases hplan : C.readPlan ((S.others w.tick).apply w.fs) source with
    | error e => simp [hplan] at hread
    | ok parts =>
      simp only [hplan, pure, Except.pure, Except.ok.injEq] at hread
      rw [validateMigrationPaths] at hpaths
      split_ifs at hpaths with hdir hsame hbelow hexists hname hpreset
      all_goals first | contradiction | skip
      refine ⟨by rw [← hread], by rw [← hread], ?_, ?_, ?_, ?_⟩
      · exact Classical.not_not.mp hdir
      · simpa using hbelow
      · simpa using hexists
      · by_contra hbad
        apply hname
        left
        simpa using hbad

def publishedTree (accepted : FileSystem) (stage : Path) (text : String) : Path → Option Node
  | [] => some .dir
  | name :: rel => if name :: rel = [reportName] then some (.file text) else accepted (stage ++ name :: rel)

theorem mkdir_ok {p : Path} {w w' : World} {u : Unit} (h : mkdir S true p w = .ok u w') : w'.fs p = some .dir := by
  have hop := (operation_ok h).1
  cases hnode : (S.others w.tick).apply w.fs p with
  | none =>
    simp only [hnode, Except.ok.injEq, Prod.mk.injEq] at hop
    rw [← hop.2, setNode, if_pos rfl]
  | some node =>
    cases node with
    | file content => simp [hnode] at hop
    | dir =>
      simp only [hnode, if_true, Except.ok.injEq, Prod.mk.injEq] at hop
      rw [← hop.2]
      exact hnode

theorem each_append_ok {ε α β : Type} {m : α → Action ε β} {xs : List α} {x : α} {w w' : World} {bs : List β}
    (h : each m (xs ++ [x]) w = .ok bs w') : ∃ b v, m x v = .ok b w' := by
  induction xs generalizing w bs with
  | nil =>
    rw [List.nil_append, each, bind_ok_iff] at h
    obtain ⟨b, v, hb, hrest⟩ := h
    obtain ⟨_, rfl⟩ : [b] = bs ∧ v = w' := by simpa [each, pure, EStateM.pure, bind, EStateM.bind] using hrest
    exact ⟨b, w, hb⟩
  | cons y ys ih =>
    rw [List.cons_append, each, bind_ok_iff] at h
    obtain ⟨b, v, _, hrest⟩ := h
    rw [bind_ok_iff] at hrest
    obtain ⟨bs', v', hys, hpure⟩ := hrest
    obtain ⟨_, rfl⟩ : b :: bs' = bs ∧ v' = w' := by simpa [pure, EStateM.pure] using hpure
    exact ih hys

theorem mkdirs_ok {p : Path} {w w' : World} {us : List Unit} (h : mkdirs S p w = .ok us w') :
    w'.fs p = some .dir := by
  have hlast : ∃ front, p.inits = front ++ [p] := by
    rcases List.eq_nil_or_concat p with rfl | ⟨init, last, rfl⟩
    · exact ⟨[], rfl⟩
    · exact ⟨init.inits, by simp⟩
  obtain ⟨front, hfront⟩ := hlast
  rw [mkdirs, hfront] at h
  obtain ⟨u, v, hv⟩ := each_append_ok h
  exact mkdir_ok hv

def Private (S : Surroundings) (base : Path) : Prop := ∀ p, below base p = true → ∀ n, S.others n p = none

theorem Private.append {base : Path} (h : Private S base) (rest : Path) : Private S (base ++ rest) := by
  intro p hp
  apply h
  rw [below_iff] at hp ⊢
  obtain ⟨more, rfl⟩ := hp
  exact ⟨rest ++ more, List.append_assoc ..⟩

theorem Private.apply_eq {base : Path} (h : Private S base) (n : ℕ) (fs : FileSystem) (rest : Path) :
    (S.others n).apply fs (base ++ rest) = fs (base ++ rest) := by
  rw [Change.apply, h (base ++ rest) (below_iff.mpr ⟨rest, rfl⟩), Option.getD_none]

theorem writeReport_ok {stage : Path} {text : String} (hprivate : Private S stage) {w w' : World} {u : Unit}
    (h : writeText S (stage ++ [reportName]) text w = .ok u w') (rel : Path) :
    w'.fs (stage ++ rel) = publishedTree w.fs stage text rel := by
  rw [writeText, bind_ok_iff] at h
  obtain ⟨us, v, hdirs, hwrite⟩ := h
  rw [List.dropLast_concat] at hdirs
  have hop := (operation_ok hwrite).1
  simp only [Except.ok.injEq, Prod.mk.injEq] at hop
  rw [← hop.2, setNode, hprivate.apply_eq]
  cases rel with
  | nil =>
    have hne : stage ++ [] ≠ stage ++ [reportName] := by simp
    rw [if_neg hne, List.append_nil]
    exact mkdirs_ok hdirs
  | cons name rel =>
    rw [publishedTree]
    simp only [List.append_cancel_left_eq]
    split_ifs with hreport
    · rfl
    · -- the directories that are made again are not below the stage
      have hout := confined_mkdirs (S := S) (p := stage) (fun q hq => hq) w
      have hend : endOf (mkdirs S stage) w = v := by rw [endOf, hdirs]
      rw [hend] at hout
      rw [hout.2, evolve_eq]
      · exact hprivate _ (below_iff.mpr ⟨name :: rel, rfl⟩)
      · intro hpre
        have hlong := hpre.length_le
        rw [List.length_append, List.length_cons] at hlong
        omega

theorem fromExcept_ok {α : Type} {r : Except Raised α} {a : α} {w w' : World} (h : fromExcept r w = .ok a w') :
    r = .ok a ∧ w' = w := by
  cases r with
  | error e => cases h
  | ok b =>
    cases h
    exact ⟨rfl, rfl⟩

theorem pure_ok {α : Type} {a b : α} {w w' : World} (h : (pure a : Action Raised α) w = .ok b w') :
    a = b ∧ w = w' := by
  cases h
  exact ⟨rfl, rfl⟩

theorem prepareStage_ok {plan : MigrationPlan} {stage : Path} (hprivate : Private S stage) {w u : World}
    {report : MigrationReport} (h : prepareStage S C plan stage w = .ok report u) :
    ∃ rendered text, report.plan = plan ∧ renderPlan S C plan stage w = .ok report.fileMappings rendered ∧
      C.compileSkill ((S.others rendered.tick).apply rendered.fs) plan stage = .ok () ∧
      C.reportText report = .ok text ∧
      ∀ rel, u.fs (stage ++ rel) = publishedTree ((S.others rendered.tick).apply rendered.fs) stage text rel := by
  rw [prepareStage, bind_ok_iff] at h
  obtain ⟨mappings, rendered, hrender, h⟩ := h
  rw [bind_ok_iff] at h
  obtain ⟨_, v, hread, h⟩ := h
  obtain ⟨hcompile, rfl⟩ := reading_ok hread
  rw [bind_ok_iff] at h
  obtain ⟨text, v', hreport, h⟩ := h
  obtain ⟨htext, rfl⟩ := fromExcept_ok hreport
  rw [bind_ok_iff] at h
  obtain ⟨_, v, hwrite, h⟩ := h
  obtain ⟨rfl, rfl⟩ := pure_ok h
  exact ⟨rendered, text, rfl, hrender, hcompile, htext, writeReport_ok hprivate hwrite⟩

theorem publish_cases (S : Surroundings) (src dst : Path) (w : World) :
    (∃ e, publishDirectoryNoReplace S src dst w = .error e ⟨(S.others w.tick).apply w.fs, w.tick + 1⟩) ∨
      ((S.others w.tick).apply w.fs dst = none ∧ publishDirectoryNoReplace S src dst w =
        .ok () ⟨moved ((S.others w.tick).apply w.fs) src dst, w.tick + 1⟩) := by
  rw [publishDirectoryNoReplace, operation]
  cases S.fault w.tick with
  | some debris =>
    left
    exact ⟨_, rfl⟩
  | none =>
    cases hdst : (S.others w.tick).apply w.fs dst with
    | some node =>
      left
      exact ⟨.fileExists dst, by simp only [Option.isSome_some, if_true]⟩
    | none =>
      right
      exact ⟨rfl, by simp only [Option.isSome_none, Bool.false_eq_true, if_false]⟩

theorem migrateStaged_cases {region : Path → Prop} (plan : MigrationPlan) {stage : Path} (howned : Owned region stage)
    (w : World) :
    (∃ e w', migrateStaged S C plan stage w = .error e w' ∧ Outside S region w w') ∨
      ∃ report u, prepareStage S C plan stage w = .ok report u ∧
        (S.others u.tick).apply u.fs plan.destination = none ∧ migrateStaged S C plan stage w =
          .ok report ⟨moved ((S.others u.tick).apply u.fs) stage plan.destination, u.tick + 1⟩ := by
  have hconfined : Confined S region (prepareStage S C plan stage) := confined_prepareStage howned
  have hprepare := hconfined w
  simp only [migrateStaged, bind, EStateM.bind, endOf] at hprepare ⊢
  cases hp : prepareStage S C plan stage w with
  | error e u =>
    rw [hp] at hprepare
    left
    exact ⟨e, u, rfl, hprepare⟩
  | ok report u =>
    rw [hp] at hprepare
    rcases publish_cases S stage plan.destination u with ⟨e, he⟩ | ⟨hfree, hok⟩
    · left
      refine ⟨destinationAppeared plan.destination e, ⟨(S.others u.tick).apply u.fs, u.tick + 1⟩, ?_, ?_⟩
      · simp only [mapError, he]
      · exact hprepare.trans (Outside.of_tick rfl (fun _ _ => rfl))
    · right
      refine ⟨report, u, rfl, hfree, ?_⟩
      simp only [mapError, hok]
      rfl

def Untouched (S : Surroundings) (start w : World) (root : Path) : Prop :=
  ∀ p, below root p = true → w.fs p = evolve S.others start.tick (w.tick - start.tick) start.fs p

/-- At one moment the destination, where nothing was then, became the accepted tree with its report; only the others
have changed anything there before and after. -/
def Published (S : Surroundings) (C : Converter) (start w : World) (source destination : Path) (suffix : String)
    (report : MigrationReport) : Prop :=
  ∃ before rendered text moment,
    report.plan.source = source ∧ report.plan.destination = destination ∧
    renderPlan S C report.plan (stageOf destination suffix) before = .ok report.fileMappings rendered ∧
    C.compileSkill ((S.others rendered.tick).apply rendered.fs) report.plan (stageOf destination suffix) = .ok () ∧
    C.reportText report = .ok text ∧
    start.tick ≤ moment ∧ moment < w.tick ∧
    evolve S.others start.tick (moment + 1 - start.tick) start.fs destination = none ∧
    ∀ rel, w.fs (destination ++ rel) = evolve S.others (moment + 1) (w.tick - (moment + 1))
      (fun p => publishedTree ((S.others rendered.tick).apply rendered.fs) (stageOf destination suffix) text
        (relativeTo destination p)) (destination ++ rel)

def AllOrNothing (S : Surroundings) (C : Converter) (start : World) (source destination : Path) (suffix : String) :
    EStateM.Result MigrationError World MigrationReport → Prop
  | .error _ w => Untouched S start w destination
  | .ok report w => Published S C start w source destination suffix report ∧
      ∀ p, below (stagingParent destination suffix) p = true → below destination p = false

theorem untouched_of_outside {region : Path → Prop} {start w : World} {root : Path} (h : Outside S region start w)
    (hroot : ∀ p, below root p = true → ¬ region p) : Untouched S start w root := fun p hp => h.2 p (hroot p hp)

theorem migrate_cases (S : Surroundings) (C : Converter) (source destination : Path) (presetId suffix : String)
    (start : World) :
    (∃ e w, migrateStudioSkill S C source destination presetId suffix start = .error e w ∧
      Outside S (fun _ => False) start w) ∨
    Planned ((S.others start.tick).apply start.fs) source destination ∧
      ((∃ e w, migrateStudioSkill S C source destination presetId suffix start = .error e w ∧
        Outside S (Worksite destination suffix) start w) ∨
      ∃ plan before report u w, plan.source = source ∧ plan.destination = destination ∧
        prepareStage S C plan (stageOf destination suffix) before = .ok report u ∧
        Outside S (Worksite destination suffix) start u ∧
        (S.others u.tick).apply u.fs destination = none ∧
        migrateStudioSkill S C source destination presetId suffix start = .ok report w ∧
        Outside S (Worksite destination suffix)
          ⟨moved ((S.others u.tick).apply u.fs) (stageOf destination suffix) destination, u.tick + 1⟩ w) := by
  have hreads : Confined S (fun _ => False) (buildPlan S C source destination presetId) :=
    confined_buildPlan source destination presetId
  have hplan := hreads start
  simp only [migrateStudioSkill, bind, EStateM.bind, mapError]
  cases hb : buildPlan S C source destination presetId start with
  | error e w =>
    rw [endOf, hb] at hplan
    left
    exact ⟨planError e, w, rfl, hplan⟩
  | ok plan planned =>
    rw [endOf, hb] at hplan
    obtain ⟨hsource, hdest, hpaths⟩ := buildPlan_ok hb
    right
    refine ⟨hpaths, ?_⟩
    have hplanned : Outside S (Worksite destination suffix) start planned := hplan.mono (fun p h => h.elim)
    have howned := owned_worksite destination suffix
    have hmake : Confined S (Worksite destination suffix) (makeStage S plan suffix) := by
      apply confined_makeStage
      rw [hdest]
      exact howned
    have hmade := hmake planned
    cases hm : makeStage S plan suffix planned with
    | error e w =>
      rw [endOf, hm] at hmade
      left
      exact ⟨planError e, w, by simp only [hm], hplanned.trans hmade⟩
    | ok dirs made =>
      rw [endOf, hm] at hmade
      have hdirs : dirs = (stagingParent destination suffix, stageOf destination suffix) := by
        rw [← hdest]
        exact makeStage_ok hm
      subst hdirs
      have hremove := confined_removeTree (S := S) howned
      have howned' : Owned (Worksite destination suffix) (stageOf destination suffix) := howned.append _
      rcases migrateStaged_cases (S := S) (C := C) plan howned' made with
        ⟨e, w, herr, hout⟩ | ⟨report, u, hprepare, hfree, hok⟩
      · left
        have hend := hplanned.trans (hmade.trans (hout.trans (confined_mapError planError hremove w)))
        refine ⟨stagedError (stageOf destination suffix) e,
          endOf (mapError planError (removeTree S (stagingParent destination suffix))) w, ?_, hend⟩
        simp only [hm, andFinally, mapError, herr]
      · right
        rw [hdest] at hfree hok
        have hconfined : Confined S (Worksite destination suffix)
            (prepareStage S C plan (stageOf destination suffix)) :=
          confined_prepareStage howned'
        have hconf := hconfined made
        rw [endOf, hprepare] at hconf
        refine ⟨plan, made, report, u, endOf (mapError planError (removeTree S (stagingParent destination suffix)))
          ⟨moved ((S.others u.tick).apply u.fs) (stageOf destination suffix) destination, u.tick + 1⟩, hsource, hdest,
          hprepare, hplanned.trans (hmade.trans hconf), hfree, ?_, confined_mapError planError hremove _⟩
        simp only [hm, andFinally, mapError, hok]

theorem moved_destination {fs : FileSystem} {src dst rel : Path} : moved fs src dst (dst ++ rel) = fs (src ++ rel) := by
  have hbelow : below dst (dst ++ rel) = true := below_iff.mpr ⟨rel, rfl⟩
  rw [moved, if_pos hbelow, List.drop_left]

theorem published_of_prepared {source destination : Path} {suffix : String} {plan : MigrationPlan}
    {start before u w : World} {report : MigrationReport} (hprivate : Private S (stagingParent destination suffix))
    (hout : ∀ p, below destination p = true → ¬ Worksite destination suffix p)
    (hsource : plan.source = source) (hdest : plan.destination = destination)
    (hprepare : prepareStage S C plan (stageOf destination suffix) before = .ok report u)
    (hu : Outside S (Worksite destination suffix) start u) (hfree : (S.others u.tick).apply u.fs destination = none)
    (hw : Outside S (Worksite destination suffix)
      ⟨moved ((S.others u.tick).apply u.fs) (stageOf destination suffix) destination, u.tick + 1⟩ w) :
    Published S C start w source destination suffix report := by
  have hstage : Private S (stageOf destination suffix) := hprivate.append _
  obtain ⟨rendered, text, hplan, hrender, hcompile, htext, htree⟩ := prepareStage_ok hstage hprepare
  rw [← hplan] at hrender hcompile hsource hdest
  refine ⟨before, rendered, text, u.tick, hsource, hdest, hrender, hcompile, htext, hu.1, ?_, ?_, ?_⟩
  · exact hw.1
  · have hself : below destination destination = true := below_iff.mpr ⟨[], (List.append_nil _).symm⟩
    have hticks : u.tick + 1 - start.tick = (u.tick - start.tick) + 1 := by
      have := hu.1
      omega
    have hmoment : start.tick + (u.tick - start.tick) = u.tick := by
      have := hu.1
      omega
    rw [hticks, evolve, hmoment, Change.apply, ← hu.2 destination (hout destination hself)]
    exact hfree
  · intro rel
    have hrel : below destination (destination ++ rel) = true := below_iff.mpr ⟨rel, rfl⟩
    rw [hw.2 _ (hout _ hrel)]
    apply evolve_congr
    dsimp only
    rw [moved_destination, hstage.apply_eq, htree, relativeTo, List.drop_left]

theorem outside_of_published {destination : Path} {suffix : String} {start u w : World}
    (hu : Outside S (Worksite destination suffix) start u)
    (hw : Outside S (Worksite destination suffix)
      ⟨moved ((S.others u.tick).apply u.fs) (stageOf destination suffix) destination, u.tick + 1⟩ w) :
    Outside S (fun p => Worksite destination suffix p ∨ below destination p = true) start w := by
  have hrename : Outside S (fun p => Worksite destination suffix p ∨ below destination p = true) u
      ⟨moved ((S.others u.tick).apply u.fs) (stageOf destination suffix) destination, u.tick + 1⟩ := by
    apply Outside.of_tick rfl
    intro p hp
    have hdest : ¬ below destination p = true := fun h => hp (Or.inr h)
    have hstage : ¬ below (stageOf destination suffix) p = true := by
      intro h
      apply hp
      left
      exact ((owned_worksite destination suffix).append _).inside p h
    dsimp only
    rw [moved, if_neg hdest, if_neg hstage]
  exact (hu.mono (fun p h => Or.inl h)).trans (hrename.trans (hw.mono (fun p h => Or.inl h)))

theorem migrate_all_or_nothing (S : Surroundings) (C : Converter) (source destination : Path)
    (presetId suffix : String) (start : World) (hprivate : Private S (stagingParent destination suffix))
    (hfresh : ∀ p, below (stagingParent destination suffix) p = true → start.fs p = none) :
    AllOrNothing S C start source destination suffix
        (migrateStudioSkill S C source destination presetId suffix start) ∧
      Untouched S start (endOf (migrateStudioSkill S C source destination presetId suffix) start) source := by
  have hseen : ∀ p, below (stagingParent destination suffix) p = true →
      (S.others start.tick).apply start.fs p = none := by
    intro p hp
    rw [Change.apply, hprivate p hp, Option.getD_none]
    exact hfresh p hp
  rcases migrate_cases S C source destination presetId suffix start with ⟨e, w, hrun, hout⟩ | ⟨hplanned, hrest⟩
  · rw [endOf, hrun]
    exact ⟨untouched_of_outside hout (fun p _ h => h), untouched_of_outside hout (fun p _ h => h)⟩
  · have hdestination : ∀ p, below destination p = true → ¬ Worksite destination suffix p :=
      fun p hp => hplanned.destination_outside suffix hp
    have hsourceOut : ∀ p, below source p = true → ¬ Worksite destination suffix p :=
      fun p hp => hplanned.source_outside hseen hp
    rcases hrest with ⟨e, w, hrun, hout⟩ | ⟨plan, before, report, u, w, hsource, hdest, hprepare, hu, hfree, hrun, hw⟩
    · rw [endOf, hrun]
      exact ⟨untouched_of_outside hout hdestination, untouched_of_outside hout hsourceOut⟩
    · rw [endOf, hrun]
      refine ⟨⟨published_of_prepared hprivate hdestination hsource hdest hprepare hu hfree hw, ?_⟩, ?_⟩
      · intro p hp
        rw [Bool.eq_false_iff]
        intro hin
        rw [hplanned.staging_apart hin] at hp
        exact Bool.false_ne_true hp
      · apply untouched_of_outside (outside_of_published hu hw)
        rintro p hp (hsite | hin)
        · exact hsourceOut p hp hsite
        · rw [hplanned.source_apart hp] at hin
          exact Bool.false_ne_true hin

def legacySource : FileSystem := fun p =>
  List.lookup p [([], .dir), (["work"], .dir), (["work", "old"], .dir), (["work", "old", "GRAPH.md"], .file "graph"),
    (["work", "old", "phases"], .dir), (["work", "old", "phases", "draft"], .dir),
    (["work", "old", "phases", "draft", "LOGIC.md"], .file "logic"), (["work", "old", "examples"], .dir),
    (["work", "old", "examples", "first.md"], .file "example")]

def legacyGraph : LegacyGraph where
  sourceRoot := ["work", "old"]
  graphId := "draft-graph"
  graphId_ok := by decide
  documents := [⟨"draft", by decide, .logic, ["work", "old", "phases", "draft"], "LOGIC.md"⟩]

def sampleConverter : Converter where
  readPlan fs source :=
    if (fs (source ++ ["GRAPH.md"])).isSome then .ok (legacyGraph, [], none)
    else problem .sourceInvalid "source graph has no GRAPH.md" (some source)
  renderRootSkill _ := .ok "skill"
  graphYaml _ _ := .ok "yaml"
  phaseMarkdown _ _ _ := .ok "portable logic"
  projectConfigText _ := .ok "toml"
  reportText _ := .ok "report"
  compileSkill fs _ stage :=
    if (fs (stage ++ ["SKILL.md"])).isSome && (fs (stage ++ ["graph.yaml"])).isSome then .ok ()
    else .error (.other "SkillLoadError")
  isSymlink _ _ := false
  listdir _ _ := ["LOGIC.md"]
  validPresetId _ := true

def racing (moment : Option ℕ) : Surroundings where
  others n p := if some n = moment ∧ p = ["work", "new"] then some (some .dir) else none
  fault _ := none

def published : EStateM.Result MigrationError World MigrationReport → Option Node
  | .ok _ w => w.fs ["work", "new", "examples", "first.md"]
  | .error _ _ => none

theorem migrate_all_or_nothing_sample :
    published (migrateStudioSkill (racing none) sampleConverter ["work", "old"] ["work", "new"] "migrated" "x"
        ⟨legacySource, 0⟩) = some (.file "example") ∧
      published (migrateStudioSkill (racing (some 20)) sampleConverter ["work", "old"] ["work", "new"] "migrated" "x"
        ⟨legacySource, 0⟩) = none ∧
      ∀ moment, AllOrNothing (racing moment) sampleConverter ⟨legacySource, 0⟩ ["work", "old"] ["work", "new"] "x"
        (migrateStudioSkill (racing moment) sampleConverter ["work", "old"] ["work", "new"] "migrated" "x"
          ⟨legacySource, 0⟩) := by
  refine ⟨by decide +kernel, by decide +kernel, ?_⟩
  intro moment
  have hprivate : Private (racing moment) (stagingParent ["work", "new"] "x") := by
    intro p hp n
    obtain ⟨rest, rfl⟩ := below_iff.mp hp
    refine if_neg fun h => ?_
    have hname : stagingName "x" = "new" := (List.cons.inj (List.cons.inj h.2).2).1
    exact absurd hname (by decide)
  have hfresh : ∀ p, below (stagingParent ["work", "new"] "x") p = true → legacySource p = none := by
    intro p hp
    obtain ⟨rest, rfl⟩ := below_iff.mp hp
    rw [legacySource, List.lookup_eq_none_iff]
    intro e he
    have hsecond : e.1[1]? ≠ some (stagingName "x") := by
      revert e
      decide
    exact bne_iff_ne.mpr fun h => hsecond (h ▸ rfl)
  exact (migrate_all_or_nothing (racing moment) sampleConverter ["work", "old"] ["work", "new"] "migrated" "x"
    ⟨legacySource, 0⟩ hprivate hfresh).1

end Publication

end GraphSkillRuntime.StudioMigration
