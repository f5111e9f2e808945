import GraphSkillRuntime.LinkedPaths
import GraphSkillRuntime.StudioMigration

/-!
What a migration publishes of a legacy source with symbolic links. The rendering of a plan is the list of what it does
in the stage, in the order of its loops: it makes directories, copies entries of the source and writes texts. The
source stays as it is meanwhile, and every copied file is kept with the path that it is read from.
-/

namespace GraphSkillRuntime.LinkedMigration

open OrderedDict
open LinkedPaths (Path Node FileSystem entriesOf)
open StudioMigration (MigrationPlan LegacyGraph LegacyPhase MigrationError Raised phaseFiles resourceDirs graphResources
  reportName failedAt stagedError)

section Source

variable {α : Type} (fs : FileSystem α)

def isDir (p : Path) : Bool := (fs.stat p).any LinkedPaths.isDir

def pathExists (p : Path) : Bool := (fs.stat p).isSome

def lstat (p : Path) : Option (Node α) :=
  match p.getLast? with
  | none => fs.nodes.get? []
  | some name => (fs.locate p.dropLast).bind fun dir => fs.nodes.get? (dir ++ [name])

def isSymlink (p : Path) : Bool := (lstat fs p).any fun node => !LinkedPaths.isPlain node

def listdir (p : Path) : List String :=
  match fs.locate p with
  | some dir => entriesOf fs.nodes.keys dir
  | none => []

def isName (part : String) : Bool := part ≠ "" && part ≠ "." && part ≠ ".."

def followed (src : Path) (rel : List String) : Option (Node α) :=
  if rel.all isName then fs.stat (src ++ rel) else none

end Source

/-- A child graph in the root directory itself would have the id of the root graph. -/
structure ReadPlan extends MigrationPlan where
  root_source : rootGraph.sourceRoot = source
  registry_roots : ∀ g ∈ registryGraphs, source <+: g.sourceRoot ∧ g.sourceRoot ≠ source
  phase_dirs : ∀ g ∈ rootGraph :: registryGraphs, ∀ phase ∈ g.documents,
    phase.sourceDir = g.sourceRoot ++ ["phases", phase.phaseId]
  phase_documents : ∀ g ∈ rootGraph :: registryGraphs, ∀ phase ∈ g.documents, ∀ other ∈ g.documents,
    phase.phaseId = other.phaseId → phase = other
  graph_ids : (registryGraphs.map LegacyGraph.graphId).Nodup

def ReadPlan.sites (plan : ReadPlan) : List (LegacyGraph × Path) :=
  (plan.rootGraph, []) :: plan.registryGraphs.map fun g => (g, ["graphs", g.graphId])

inductive Staged (α : Type) where
  | dir
  | rendered (text : String)
  | copied (origin : Path) (content : α)

def Staged.isDir {α : Type} : Staged α → Bool
  | .dir => true
  | _ => false

abbrev Stage (α : Type) := Path → Option (Staged α)

def emptyStage {α : Type} : Stage α := fun p => if p = [] then some .dir else none

inductive Op where
  | mkdir (p : Path)
  | copyEntry (src dst : Path)
  | writeText (p : Path) (text : String)
  | compileSkill
  | raised (e : Raised)

/-- What the rendering is built from; `copyable` is whether the copy of an entry ends without an error. -/
structure Converter (α : Type) where
  renderRootSkill : ReadPlan → Except Raised String
  graphYaml : ReadPlan → LegacyGraph → Except Raised String
  phaseMarkdown : ReadPlan → LegacyGraph → LegacyPhase → Except Raised String
  projectConfigText : ReadPlan → Except Raised String
  reportText : ReadPlan → Except Raised String
  compileSkill : Stage α → Except Raised Unit
  publish : Except Raised Unit
  copyable : FileSystem α → Path → Bool

section Run

variable {α : Type} (C : Converter α) (fs : FileSystem α)

def blocked (stage : Stage α) (p : Path) : Bool := p.inits.any fun q => (stage q).any fun node => !node.isDir

def refused : Op → Stage α → Option Raised
  | .mkdir p, stage =>
    if (stage p).isSome then some (.fileExists p) else if blocked stage p then some (failedAt p) else none
  | .copyEntry src dst, stage =>
    if isSymlink fs src then
      some (.problem ⟨.symlinkUnsupported, "migration does not copy symlinks", some src, none⟩)
    else if isDir fs src && (stage dst).isSome then some (.fileExists dst)
    else if (stage dst).any Staged.isDir || blocked stage dst.dropLast || !C.copyable fs src then some (failedAt dst)
    else none
  | .writeText p _, stage =>
    if (stage p).any Staged.isDir || blocked stage p.dropLast then some (failedAt p) else none
  | .compileSkill, stage => match C.compileSkill stage with | .error e => some e | .ok () => none
  | .raised e, _ => some e

def grafted (src : Path) (rel : List String) : Option (Staged α) :=
  match followed fs src rel with
  | some .dir => some .dir
  | some (.file content) => some (.copied (src ++ rel) content)
  | _ => none

def placed : Op → Path → Option (Staged α)
  | .mkdir p, q => if q <+: p then some .dir else none
  | .copyEntry src dst, q =>
    if dst <+: q then grafted fs src (q.drop dst.length) else if q <+: dst then some .dir else none
  | .writeText p text, q => if q = p then some (.rendered text) else if q <+: p then some .dir else none
  | _, _ => none

def exec (stage : Stage α) (op : Op) : Except Raised (Stage α) :=
  match refused C fs op stage with
  | some e => .error e
  | none => .ok fun q => (placed fs op q).or (stage q)

def run (ops : List Op) (stage : Stage α) : Except Raised (Stage α) := ops.foldlM (exec C fs) stage

def writeOps (p : Path) : Except Raised String → List Op
  | .error e => [.raised e]
  | .ok text => [.writeText p text]

def phaseOps (plan : ReadPlan) (graph : LegacyGraph) (destinationGraph : Path) (phase : LegacyPhase) : List Op :=
  let destinationPhase := destinationGraph ++ ["phases", phase.phaseId]
  .mkdir destinationPhase ::
    match C.phaseMarkdown plan graph phase with
    | .error e => [.raised e]
    | .ok text =>
      ((listdir fs phase.sourceDir).filter (!phaseFiles.contains ·)).map (fun child =>
        Op.copyEntry (phase.sourceDir ++ [child]) (destinationPhase ++ [child])) ++
      [.writeText (destinationPhase ++ [phase.mode.targetName]) text]

def copyResource (sourceRoot destinationRoot : Path) (resource : String) : List Op :=
  if pathExists fs (sourceRoot ++ [resource]) then
    [.copyEntry (sourceRoot ++ [resource]) (destinationRoot ++ [resource])]
  else []

def copyLegacyRefs (sourceRoot destinationRoot : Path) (message : String) : List Op :=
  if pathExists fs (sourceRoot ++ ["refs"]) then
    if pathExists fs (sourceRoot ++ ["references"]) then
      [.raised (.problem ⟨.resourceCollision, message, some sourceRoot, none⟩)]
    else [.copyEntry (sourceRoot ++ ["refs"]) (destinationRoot ++ ["references"])]
  else []

def graphOps (plan : ReadPlan) (graph : LegacyGraph) (destinationGraph : Path) : List Op :=
  writeOps (destinationGraph ++ ["graph.yaml"]) (C.graphYaml plan graph) ++
    graph.documents.flatMap (phaseOps C fs plan graph destinationGraph) ++
    if graph.sourceRoot ≠ plan.source then
      graphResources.flatMap (copyResource fs graph.sourceRoot destinationGraph) ++
        copyLegacyRefs fs graph.sourceRoot destinationGraph
          "legacy graph contains both refs/ and references/ resource owners"
    else []

def planOps (plan : ReadPlan) : List Op :=
  writeOps ["SKILL.md"] (C.renderRootSkill plan) ++
    plan.sites.flatMap (fun site => graphOps C fs plan site.1 site.2) ++
    resourceDirs.flatMap (copyResource fs plan.source []) ++
    copyLegacyRefs fs plan.source [] "legacy root contains both refs/ and references/ resource owners" ++
    match plan.runtimeConfigSource with
    | none => []
    | some _ => writeOps ["gskill.toml"] (C.projectConfigText plan)

def publishOps : List Op :=
  match C.publish with
  | .error e => [.raised e]
  | .ok () => []

def migrationOps (plan : ReadPlan) : List Op :=
  planOps C fs plan ++ .compileSkill :: (writeOps [reportName] (C.reportText plan) ++ publishOps C)

def migrate (plan : ReadPlan) : Except MigrationError (Stage α) :=
  match run C fs (migrationOps C fs plan) emptyStage with
  | .ok stage => .ok stage
  | .error e => .error (stagedError plan.destination e)

end Run

section Runs

variable {α : Type} {C : Converter α} {fs : FileSystem α} {stage stage' : Stage α} {d : Path}

theorem exec_ok {op : Op} (h : exec C fs stage op = .ok stage') :
    refused C fs op stage = none ∧ ∀ q, stage' q = (placed fs op q).or (stage q) := by
  unfold exec at h
  cases hrefused : refused C fs op stage with
  | some e =>
    rw [hrefused] at h
    cases h
  | none =>
    rw [hrefused] at h
    exact ⟨rfl, fun q => congrFun (Except.ok.inj h).symm q⟩

theorem run_cons {op : Op} {ops : List Op} (h : run C fs (op :: ops) stage = .ok stage') :
    ∃ mid, exec C fs stage op = .ok mid ∧ run C fs ops mid = .ok stage' := by
  rw [run, List.foldlM_cons] at h
  cases hexec : exec C fs stage op with
  | error e =>
    rw [hexec] at h
    cases h
  | ok mid =>
    rw [hexec] at h
    exact ⟨mid, rfl, h⟩

theorem not_raised {ops : List Op} (h : run C fs ops stage = .ok stage') (e : Raised) : Op.raised e ∉ ops := by
  induction ops generalizing stage with
  | nil => exact List.not_mem_nil
  | cons op ops ih =>
    obtain ⟨mid, hexec, hrest⟩ := run_cons h
    rintro hmem
    cases List.mem_cons.mp hmem with
    | inl heq =>
      rw [← heq] at hexec
      cases (exec_ok hexec).1
    | inr hmem => exact ih hrest hmem

theorem run_placed {ops : List Op} {node : Staged α} (h : run C fs ops stage = .ok stage')
    (hnode : stage' d = some node) : stage d = some node ∨ ∃ op ∈ ops, placed fs op d = some node := by
  induction ops generalizing stage with
  | nil =>
    obtain rfl := Except.ok.inj h
    exact .inl hnode
  | cons op ops ih =>
    obtain ⟨mid, hexec, hrest⟩ := run_cons h
    rcases ih hrest with hmid | ⟨op', hop', hplaced⟩
    · rw [(exec_ok hexec).2, Option.or_eq_some_iff] at hmid
      rcases hmid with hplaced | ⟨-, hstage⟩
      · exact .inr ⟨op, List.mem_cons_self, hplaced⟩
      · exact .inl hstage
    · exact .inr ⟨op', List.mem_cons_of_mem _ hop', hplaced⟩

def Covered (fs : FileSystem α) (d : Path) : List Op → Prop
  | [] => True
  | op :: ops =>
    ((∃ origin content, placed fs op d = some (.copied origin content)) → ∃ text, .writeText d text ∈ ops) ∧
      Covered fs d ops

theorem covered_append {xs ys : List Op} (hx : Covered fs d xs) (hy : Covered fs d ys) : Covered fs d (xs ++ ys) := by
  induction xs with
  | nil => exact hy
  | cons op xs ih =>
    refine ⟨fun hplaced => ?_, ih hx.2⟩
    obtain ⟨text, htext⟩ := hx.1 hplaced
    exact ⟨text, List.mem_append_left ys htext⟩

theorem covered_of_none {xs : List Op}
    (h : ∀ op ∈ xs, ∀ origin content, placed fs op d ≠ some (.copied origin content)) : Covered fs d xs := by
  induction xs with
  | nil => trivial
  | cons op xs ih =>
    obtain ⟨hop, hxs⟩ := List.forall_mem_cons.mp h
    exact ⟨fun ⟨origin, content, hplaced⟩ => absurd hplaced (hop origin content), ih hxs⟩

theorem covered_writeText (xs : List Op) (text : String) : Covered fs d (xs ++ [.writeText d text]) := by
  induction xs with
  | nil =>
    refine ⟨fun ⟨origin, content, hplaced⟩ => ?_, trivial⟩
    rw [placed, if_pos rfl] at hplaced
    cases hplaced
  | cons op xs ih => exact ⟨fun _ => ⟨text, List.mem_append_right xs (List.mem_singleton_self _)⟩, ih⟩

theorem covered_flatMap {β : Type} {xs : List β} {f : β → List Op} (h : ∀ x ∈ xs, Covered fs d (f x)) :
    Covered fs d (xs.flatMap f) := by
  induction xs with
  | nil => trivial
  | cons x xs ih =>
    obtain ⟨hx, hxs⟩ := List.forall_mem_cons.mp h
    exact covered_append hx (ih hxs)

theorem run_covered {ops : List Op} (h : run C fs ops stage = .ok stage') (hcovered : Covered fs d ops)
    (hstart : (∃ text, .writeText d text ∈ ops) ∨ ∀ origin content, stage d ≠ some (.copied origin content)) :
    ∀ origin content, stage' d ≠ some (.copied origin content) := by
  induction ops generalizing stage with
  | nil =>
    obtain rfl := Except.ok.inj h
    rcases hstart with ⟨text, htext⟩ | hstart
    · cases htext
    · exact hstart
  | cons op ops ih =>
    obtain ⟨mid, hexec, hrest⟩ := run_cons h
    apply ih hrest hcovered.2
    by_cases hlater : ∃ text, .writeText d text ∈ ops
    · exact .inl hlater
    · right
      intro origin content hmid
      rw [(exec_ok hexec).2, Option.or_eq_some_iff] at hmid
      rcases hmid with hplaced | ⟨hnone, hstage⟩
      · exact hlater (hcovered.1 ⟨origin, content, hplaced⟩)
      · rcases hstart with ⟨text, htext⟩ | hstart
        · cases List.mem_cons.mp htext with
          | inl heq =>
            rw [← heq, placed, if_pos rfl] at hnone
            cases hnone
          | inr htext => exact hlater ⟨text, htext⟩
        · exact hstart origin content hstage

def OnWay : Op → Path → Prop
  | .mkdir p, d => d <+: p
  | .copyEntry _ dst, d => d <+: dst ∧ d ≠ dst
  | .writeText p _, d => d <+: p ∧ d ≠ p
  | _, _ => False

theorem blocked_of_file {p : Path} {node : Staged α} (hnode : stage d = some node) (hfile : node.isDir = false)
    (hp : d <+: p) : blocked stage p = true := by
  rw [blocked, List.any_eq_true]
  refine ⟨d, (List.mem_inits d p).mpr hp, ?_⟩
  rw [hnode, Option.any_some, hfile]
  rfl

theorem isPrefix_dropLast {p q : Path} (h : q <+: p) (hne : q ≠ p) : q <+: p.dropLast := by
  obtain ⟨rest, rfl⟩ := h
  have hrest : rest ≠ [] := by
    rintro rfl
    exact hne (List.append_nil q).symm
  rw [List.dropLast_append_of_ne_nil hrest]
  exact List.prefix_append q _

theorem onWay_refused {op : Op} {node : Staged α} (hnode : stage d = some node) (hfile : node.isDir = false)
    (h : OnWay op d) : refused C fs op stage ≠ none := by
  cases op with
  | mkdir p =>
    rw [refused, blocked_of_file hnode hfile h, if_pos rfl]
    split_ifs <;> simp
  | copyEntry src dst =>
    rw [refused, blocked_of_file hnode hfile (isPrefix_dropLast h.1 h.2)]
    split_ifs <;> simp_all
  | writeText p text =>
    rw [refused, blocked_of_file hnode hfile (isPrefix_dropLast h.1 h.2)]
    simp
  | compileSkill => exact absurd h id
  | raised e => exact absurd h id

theorem run_keeps {ops : List Op} {node : Staged α} (h : run C fs ops stage = .ok stage') (hfile : node.isDir = false)
    (hstart : stage d = some node ∨ ∃ op ∈ ops, placed fs op d = some node)
    (honly : ∀ op ∈ ops, ∀ other, placed fs op d = some other → other = node ∨ OnWay op d) :
    stage' d = some node := by
  induction ops generalizing stage with
  | nil =>
    obtain rfl := Except.ok.inj h
    rcases hstart with hstart | ⟨op, hop, -⟩
    · exact hstart
    · cases hop
  | cons op ops ih =>
    obtain ⟨mid, hexec, hrest⟩ := run_cons h
    obtain ⟨hop, hops⟩ := List.forall_mem_cons.mp honly
    obtain ⟨hnot, hmid⟩ := exec_ok hexec
    apply ih hrest _ hops
    rcases hstart with hstage | ⟨op', hop', hplaced⟩
    · left
      rw [hmid, Option.or_eq_some_iff]
      cases hput : placed fs op d with
      | none => exact .inr ⟨rfl, hstage⟩
      | some other =>
        rcases hop other hput with rfl | hway
        · exact .inl rfl
        · exact absurd hnot (onWay_refused hstage hfile hway)
    · rcases List.mem_cons.mp hop' with rfl | hop'
      · left
        rw [hmid, hplaced]
        rfl
      · exact .inr ⟨op', hop', hplaced⟩

theorem placed_copied {op : Op} {origin : Path} {content : α} (h : placed fs op d = some (.copied origin content)) :
    ∃ src dst rel, op = .copyEntry src dst ∧ d = dst ++ rel ∧ followed fs src rel = some (.file content) ∧
      origin = src ++ rel := by
  cases op with
  | mkdir p =>
    rw [placed] at h
    split_ifs at h
    cases h
  | writeText p text =>
    rw [placed] at h
    split_ifs at h
    all_goals cases h
  | copyEntry src dst =>
    rw [placed] at h
    split_ifs at h with hbelow
    · obtain ⟨rel, rfl⟩ := hbelow
      rw [List.drop_left, grafted] at h
      refine ⟨src, dst, rel, rfl, rfl, ?_⟩
      cases hfollowed : followed fs src rel with
      | none =>
        rw [hfollowed] at h
        cases h
      | some node =>
        rw [hfollowed] at h
        cases node with
        | file found =>
          obtain ⟨rfl, rfl⟩ := Staged.copied.inj (Option.some.inj h)
          exact ⟨rfl, rfl⟩
        | dir => cases Option.some.inj h
        | link target => cases h
        | special => cases h
    · cases h
  | compileSkill => cases h
  | raised e => cases h

end Runs

section Places

variable {α : Type} {C : Converter α} {fs : FileSystem α} {plan : ReadPlan}

def IsSite (g : Path) : Prop := g = [] ∨ ∃ id, g = ["graphs", id]

theorem isSite_of_mem {site : LegacyGraph × Path} (h : site ∈ plan.sites) : IsSite site.2 := by
  rcases List.mem_cons.mp h with rfl | h
  · exact .inl rfl
  · obtain ⟨g, -, rfl⟩ := List.mem_map.mp h
    exact .inr ⟨g.graphId, rfl⟩

theorem site_inj {g g' : Path} {x y : String} {xs ys : Path} (hg : IsSite g) (hg' : IsSite g') (hx : x ≠ "graphs")
    (hy : y ≠ "graphs") (h : g ++ x :: xs = g' ++ y :: ys) : g = g' ∧ x = y ∧ xs = ys := by
  rcases hg with rfl | ⟨id, rfl⟩
  · rcases hg' with rfl | ⟨id', rfl⟩
    · obtain ⟨rfl, rfl⟩ := List.cons.inj h
      exact ⟨rfl, rfl, rfl⟩
    · exact absurd (List.cons.inj h).1 hx
  · rcases hg' with rfl | ⟨id', rfl⟩
    · exact absurd (List.cons.inj h).1.symm hy
    · simp only [List.cons_append, List.nil_append, List.cons.injEq, true_and] at h
      obtain ⟨rfl, rfl, rfl⟩ := h
      exact ⟨rfl, rfl, rfl⟩

theorem mem_graphs {site : LegacyGraph × Path} (h : site ∈ plan.sites) :
    site.1 ∈ plan.rootGraph :: plan.registryGraphs := by
  rcases List.mem_cons.mp h with rfl | h
  · exact List.mem_cons_self
  · obtain ⟨g, hg, rfl⟩ := List.mem_map.mp h
    exact List.mem_cons_of_mem _ hg

theorem site_unique {site other : LegacyGraph × Path} (hsite : site ∈ plan.sites) (hother : other ∈ plan.sites)
    (h : site.2 = other.2) : site = other := by
  rcases List.mem_cons.mp hsite with rfl | hsite
  · rcases List.mem_cons.mp hother with rfl | hother
    · rfl
    · obtain ⟨g, -, rfl⟩ := List.mem_map.mp hother
      cases h
  · obtain ⟨g, hg, rfl⟩ := List.mem_map.mp hsite
    rcases List.mem_cons.mp hother with rfl | hother
    · cases h
    · obtain ⟨g', hg', rfl⟩ := List.mem_map.mp hother
      have hid : g.graphId = g'.graphId := (List.cons.inj (List.cons.inj h).2).1
      rw [List.inj_on_of_nodup_map plan.graph_ids hg hg' hid]

def Overwritten (plan : ReadPlan) (d : Path) : Prop :=
  ∃ site ∈ plan.sites, ∃ phase ∈ site.1.documents,
    d = site.2 ++ ["phases", phase.phaseId] ++ [phase.mode.targetName]

def resourceNames (plan : ReadPlan) (graph : LegacyGraph) : List String :=
  if graph.sourceRoot = plan.source then resourceDirs else graphResources

inductive Handed (fs : FileSystem α) (plan : ReadPlan) : Path → Path → Prop
  | child (site : LegacyGraph × Path) (phase : LegacyPhase) (name : String) (hsite : site ∈ plan.sites)
      (hphase : phase ∈ site.1.documents) (hlisted : name ∈ listdir fs phase.sourceDir)
      (hname : phaseFiles.contains name = false) :
      Handed fs plan (phase.sourceDir ++ [name]) (site.2 ++ ["phases", phase.phaseId] ++ [name])
  | resource (site : LegacyGraph × Path) (name : String) (hsite : site ∈ plan.sites)
      (hname : name ∈ resourceNames plan site.1) (hexists : pathExists fs (site.1.sourceRoot ++ [name]) = true) :
      Handed fs plan (site.1.sourceRoot ++ [name]) (site.2 ++ [name])
  | refs (site : LegacyGraph × Path) (hsite : site ∈ plan.sites)
      (hexists : pathExists fs (site.1.sourceRoot ++ ["refs"]) = true) :
      Handed fs plan (site.1.sourceRoot ++ ["refs"]) (site.2 ++ ["references"])

theorem resourceNames_ne {graph : LegacyGraph} {name : String} (h : name ∈ resourceNames plan graph) :
    name ≠ "phases" ∧ name ≠ "graphs" ∧ name ∈ resourceDirs := by
  have hdirs : name ∈ resourceDirs := by
    unfold resourceNames at h
    split_ifs at h
    · exact h
    · exact List.mem_append_left ["tools"] h
  have hall : ∀ name ∈ resourceDirs, name ≠ "phases" ∧ name ≠ "graphs" := by
    decide
  exact ⟨(hall name hdirs).1, (hall name hdirs).2, hdirs⟩

theorem mem_writeOps {p : Path} {text : Except Raised String} {op : Op} (h : op ∈ writeOps p text) :
    (∃ t, op = .writeText p t) ∨ ∃ e, op = .raised e := by
  cases text with
  | error e => exact .inr ⟨e, List.mem_singleton.mp h⟩
  | ok t => exact .inl ⟨t, List.mem_singleton.mp h⟩

theorem mem_copyResource {root dest : Path} {name : String} {op : Op} (h : op ∈ copyResource fs root dest name) :
    pathExists fs (root ++ [name]) = true ∧ op = .copyEntry (root ++ [name]) (dest ++ [name]) := by
  unfold copyResource at h
  split_ifs at h with hexists
  · exact ⟨hexists, List.mem_singleton.mp h⟩
  · cases h

theorem mem_copyLegacyRefs {root dest : Path} {message : String} {op : Op}
    (h : op ∈ copyLegacyRefs fs root dest message) :
    (∃ e, op = .raised e) ∨
      pathExists fs (root ++ ["refs"]) = true ∧ op = .copyEntry (root ++ ["refs"]) (dest ++ ["references"]) := by
  unfold copyLegacyRefs at h
  split_ifs at h with hexists hboth
  · exact .inl ⟨_, List.mem_singleton.mp h⟩
  · exact .inr ⟨hexists, List.mem_singleton.mp h⟩
  · cases h

theorem mem_phaseOps {site : LegacyGraph × Path} {phase : LegacyPhase} {op : Op}
    (h : op ∈ phaseOps C fs plan site.1 site.2 phase) :
    op = .mkdir (site.2 ++ ["phases", phase.phaseId]) ∨ (∃ e, op = .raised e) ∨
    (∃ name ∈ listdir fs phase.sourceDir, phaseFiles.contains name = false ∧
      op = .copyEntry (phase.sourceDir ++ [name]) (site.2 ++ ["phases", phase.phaseId] ++ [name])) ∨
    ∃ text, op = .writeText (site.2 ++ ["phases", phase.phaseId] ++ [phase.mode.targetName]) text := by
  unfold phaseOps at h
  rcases List.mem_cons.mp h with rfl | h
  · exact .inl rfl
  cases hmarkdown : C.phaseMarkdown plan site.1 phase with
  | error e =>
    rw [hmarkdown] at h
    exact .inr (.inl ⟨e, List.mem_singleton.mp h⟩)
  | ok text =>
    rw [hmarkdown] at h
    rcases List.mem_append.mp h with h | h
    · obtain ⟨name, hname, rfl⟩ := List.mem_map.mp h
      rw [List.mem_filter, Bool.not_eq_true'] at hname
      exact .inr (.inr (.inl ⟨name, hname.1, hname.2, rfl⟩))
    · exact .inr (.inr (.inr ⟨text, List.mem_singleton.mp h⟩))

def ownTexts : List String := ["SKILL.md", "graph.yaml", "gskill.toml", reportName]

inductive Cause (C : Converter α) (fs : FileSystem α) (plan : ReadPlan) (op : Op) : Prop
  | phase (site : LegacyGraph × Path) (phase : LegacyPhase) (hsite : site ∈ plan.sites)
      (hphase : phase ∈ site.1.documents) (hop : op ∈ phaseOps C fs plan site.1 site.2 phase)
  | resource (site : LegacyGraph × Path) (name : String) (hsite : site ∈ plan.sites)
      (hname : name ∈ resourceNames plan site.1) (hop : op ∈ copyResource fs site.1.sourceRoot site.2 name)
  | refs (site : LegacyGraph × Path) (message : String) (hsite : site ∈ plan.sites)
      (hop : op ∈ copyLegacyRefs fs site.1.sourceRoot site.2 message)
  | text (g : Path) (name text : String) (hg : IsSite g) (hname : name ∈ ownTexts)
      (hop : op = .writeText (g ++ [name]) text)
  | compiled (hop : op = .compileSkill)
  | raised (e : Raised) (hop : op = .raised e)

theorem cause_writeOps {g : Path} {name : String} {text : Except Raised String} {op : Op} (hg : IsSite g)
    (hname : name ∈ ownTexts) (h : op ∈ writeOps (g ++ [name]) text) : Cause C fs plan op := by
  rcases mem_writeOps h with ⟨t, rfl⟩ | ⟨e, rfl⟩
  · exact .text g name t hg hname rfl
  · exact .raised e rfl

theorem cause_graphOps {site : LegacyGraph × Path} {op : Op} (hsite : site ∈ plan.sites)
    (h : op ∈ graphOps C fs plan site.1 site.2) : Cause C fs plan op := by
  rw [graphOps, List.mem_append, List.mem_append] at h
  rcases h with (h | h) | h
  · exact cause_writeOps (isSite_of_mem hsite) (by decide) h
  · obtain ⟨phase, hphase, hop⟩ := List.mem_flatMap.mp h
    exact .phase site phase hsite hphase hop
  · split_ifs at h with hne
    · rcases List.mem_append.mp h with h | h
      · obtain ⟨name, hname, hop⟩ := List.mem_flatMap.mp h
        refine .resource site name hsite ?_ hop
        rw [resourceNames, if_neg hne]
        exact hname
      · exact .refs site _ hsite h
    · cases h

theorem cause_of_mem {op : Op} (h : op ∈ migrationOps C fs plan) : Cause C fs plan op := by
  have hroot : (plan.rootGraph, ([] : Path)) ∈ plan.sites := List.mem_cons_self
  rw [migrationOps, List.mem_append, List.mem_cons, List.mem_append] at h
  rcases h with h | rfl | h | h
  · rw [planOps] at h
    simp only [List.mem_append] at h
    rcases h with (((h | h) | h) | h) | h
    · exact @cause_writeOps α C fs plan [] "SKILL.md" _ op (.inl rfl) (by decide) h
    · obtain ⟨site, hsite, hop⟩ := List.mem_flatMap.mp h
      exact cause_graphOps hsite hop
    · obtain ⟨name, hname, hop⟩ := List.mem_flatMap.mp h
      refine .resource (plan.rootGraph, []) name hroot ?_ (by rwa [plan.root_source])
      rw [resourceNames, if_pos plan.root_source]
      exact hname
    · exact .refs (plan.rootGraph, []) _ hroot (by rwa [plan.root_source])
    · cases hconfig : plan.runtimeConfigSource with
      | none =>
        rw [hconfig] at h
        cases h
      | some config =>
        rw [hconfig] at h
        exact @cause_writeOps α C fs plan [] "gskill.toml" _ op (.inl rfl) (by decide) h
  · exact .compiled rfl
  · exact @cause_writeOps α C fs plan [] reportName _ op (.inl rfl) (by decide) h
  · unfold publishOps at h
    cases hpublish : C.publish with
    | error e =>
      rw [hpublish] at h
      exact .raised e (List.mem_singleton.mp h)
    | ok u =>
      rw [hpublish] at h
      cases h

theorem mem_of_graphOps {site : LegacyGraph × Path} {op : Op} (hsite : site ∈ plan.sites)
    (h : op ∈ graphOps C fs plan site.1 site.2) : op ∈ migrationOps C fs plan := by
  rw [migrationOps, planOps]
  simp only [List.mem_append]
  exact .inl (.inl (.inl (.inl (.inr (List.mem_flatMap.mpr ⟨site, hsite, h⟩)))))

theorem mem_of_phaseOps {site : LegacyGraph × Path} {phase : LegacyPhase} {op : Op} (hsite : site ∈ plan.sites)
    (hphase : phase ∈ site.1.documents) (h : op ∈ phaseOps C fs plan site.1 site.2 phase) :
    op ∈ migrationOps C fs plan := by
  apply mem_of_graphOps hsite
  rw [graphOps]
  exact List.mem_append_left _ (List.mem_append_right _ (List.mem_flatMap.mpr ⟨phase, hphase, h⟩))

theorem sourceRoot_eq_iff {site : LegacyGraph × Path} (hsite : site ∈ plan.sites) :
    site.1.sourceRoot = plan.source ↔ site = (plan.rootGraph, []) := by
  constructor
  · intro hroot
    rcases List.mem_cons.mp hsite with rfl | hsite
    · rfl
    · obtain ⟨g, hg, rfl⟩ := List.mem_map.mp hsite
      exact absurd hroot (plan.registry_roots g hg).2
  · rintro rfl
    exact plan.root_source

theorem mem_of_resources {site : LegacyGraph × Path} (hsite : site ∈ plan.sites) : ∃ message, ∀ op,
    op ∈ (resourceNames plan site.1).flatMap (copyResource fs site.1.sourceRoot site.2) ++
      copyLegacyRefs fs site.1.sourceRoot site.2 message → op ∈ migrationOps C fs plan := by
  by_cases hroot : site.1.sourceRoot = plan.source
  · refine ⟨"legacy root contains both refs/ and references/ resource owners", fun op h => ?_⟩
    obtain rfl := (sourceRoot_eq_iff hsite).mp hroot
    rw [resourceNames, if_pos hroot, hroot, List.mem_append] at h
    rw [migrationOps, planOps]
    simp only [List.mem_append]
    rcases h with h | h
    · exact .inl (.inl (.inl (.inr h)))
    · exact .inl (.inl (.inr h))
  · refine ⟨"legacy graph contains both refs/ and references/ resource owners", fun op h => ?_⟩
    rw [resourceNames, if_neg hroot] at h
    apply mem_of_graphOps hsite
    rw [graphOps, if_pos hroot]
    exact List.mem_append_right _ h

theorem handed_of_cause {src dst : Path} (h : Cause C fs plan (.copyEntry src dst)) : Handed fs plan src dst := by
  cases h with
  | phase site phase hsite hphase hop =>
    rcases mem_phaseOps hop with hop | ⟨e, hop⟩ | ⟨name, hlisted, hname, hop⟩ | ⟨text, hop⟩
    · cases hop
    · cases hop
    · obtain ⟨rfl, rfl⟩ := Op.copyEntry.inj hop
      exact .child site phase name hsite hphase hlisted hname
    · cases hop
  | resource site name hsite hname hop =>
    obtain ⟨hexists, hop⟩ := mem_copyResource hop
    obtain ⟨rfl, rfl⟩ := Op.copyEntry.inj hop
    exact .resource site name hsite hname hexists
  | refs site message hsite hop =>
    rcases mem_copyLegacyRefs hop with ⟨e, hop⟩ | ⟨hexists, hop⟩
    · cases hop
    · obtain ⟨rfl, rfl⟩ := Op.copyEntry.inj hop
      exact .refs site hsite hexists
  | text g name text hg hname hop => cases hop
  | compiled hop => cases hop
  | raised e hop => cases hop

theorem writeText_of_cause {p : Path} {text : String} (h : Cause C fs plan (.writeText p text)) :
    Overwritten plan p ∨ ∃ g name, IsSite g ∧ name ∈ ownTexts ∧ p = g ++ [name] := by
  cases h with
  | phase site phase hsite hphase hop =>
    rcases mem_phaseOps hop with hop | ⟨e, hop⟩ | ⟨name, hlisted, hname, hop⟩ | ⟨text, hop⟩
    · cases hop
    · cases hop
    · cases hop
    · obtain ⟨rfl, rfl⟩ := Op.writeText.inj hop
      exact .inl ⟨site, hsite, phase, hphase, rfl⟩
  | resource site name hsite hname hop => cases (mem_copyResource hop).2
  | refs site message hsite hop =>
    rcases mem_copyLegacyRefs hop with ⟨e, hop⟩ | ⟨hexists, hop⟩
    · cases hop
    · cases hop
  | text g name text hg hname hop =>
    obtain ⟨rfl, rfl⟩ := Op.writeText.inj hop
    exact .inr ⟨g, name, hg, hname, rfl⟩
  | compiled hop => cases hop
  | raised e hop => cases hop

theorem handed_place {src dst : Path} (h : Handed fs plan src dst) :
    ∃ site ∈ plan.sites, ∃ x xs, dst = site.2 ++ x :: xs ∧ x ≠ "graphs" ∧
      ((x = "phases" ∧ ∃ id name, xs = [id, name] ∧ src = site.1.sourceRoot ++ ["phases", id, name]) ∨
        x ≠ "phases" ∧ xs = [] ∧ x ∈ resourceDirs ∧
          (pathExists fs (site.1.sourceRoot ++ [x]) = true ∧ src = site.1.sourceRoot ++ [x] ∨
            pathExists fs (site.1.sourceRoot ++ ["refs"]) = true ∧ x = "references" ∧
              src = site.1.sourceRoot ++ ["refs"])) := by
  cases h with
  | child site phase name hsite hphase hlisted hname =>
    refine ⟨site, hsite, "phases", [phase.phaseId, name], by simp, by decide, .inl ⟨rfl, _, _, rfl, ?_⟩⟩
    rw [plan.phase_dirs site.1 (mem_graphs hsite) phase hphase]
    simp
  | resource site name hsite hname hexists =>
    obtain ⟨hphases, hgraphs, hdirs⟩ := resourceNames_ne hname
    exact ⟨site, hsite, name, [], rfl, hgraphs, .inr ⟨hphases, rfl, hdirs, .inl ⟨hexists, rfl⟩⟩⟩
  | refs site hsite hexists =>
    exact ⟨site, hsite, "references", [], rfl, by decide, .inr ⟨by decide, rfl, by decide, .inr ⟨hexists, rfl, rfl⟩⟩⟩

theorem handed_inside {src dst : Path} (h : Handed fs plan src dst) : plan.source <+: src := by
  obtain ⟨site, hsite, x, xs, -, -, hsrc⟩ := handed_place h
  have hroot : plan.source <+: site.1.sourceRoot := by
    rcases List.mem_cons.mp hsite with rfl | hsite
    · rw [plan.root_source]
    · obtain ⟨g, hg, rfl⟩ := List.mem_map.mp hsite
      exact (plan.registry_roots g hg).1
  have hbelow {rest : Path} (heq : src = site.1.sourceRoot ++ rest) : plan.source <+: src :=
    heq ▸ hroot.trans (List.prefix_append _ rest)
  rcases hsrc with ⟨-, id, name, -, heq⟩ | ⟨-, -, -, ⟨-, heq⟩ | ⟨-, -, heq⟩⟩
  · exact hbelow heq
  · exact hbelow heq
  · exact hbelow heq

theorem covered_of_apart {d : Path} {xs : List Op} (h : ∀ src dst rel, .copyEntry src dst ∈ xs → d ≠ dst ++ rel) :
    Covered fs d xs := by
  apply covered_of_none
  intro op hop origin content hplaced
  obtain ⟨src, dst, rel, rfl, hd, -, -⟩ := placed_copied hplaced
  exact h src dst rel hop hd

theorem covered_writeOps {d p : Path} {text : Except Raised String} : Covered fs d (writeOps p text) := by
  apply covered_of_apart
  intro src dst rel hop
  rcases mem_writeOps hop with ⟨t, hop⟩ | ⟨e, hop⟩
  · cases hop
  · cases hop

theorem covered_resources {site : LegacyGraph × Path} {g : Path} {names : List String} {root : Path} {message : String}
    {rest : Path} (hsite : site ∈ plan.sites) (hg : IsSite g)
    (hnames : ∀ name ∈ names, name ≠ "phases" ∧ name ≠ "graphs") :
    Covered fs (site.2 ++ "phases" :: rest)
      (names.flatMap (copyResource fs root g) ++ copyLegacyRefs fs root g message) := by
  have hapart {name : String} {rel : Path} (hphases : name ≠ "phases") (hgraphs : name ≠ "graphs") :
      site.2 ++ "phases" :: rest ≠ g ++ [name] ++ rel := by
    intro heq
    rw [List.append_assoc] at heq
    exact hphases (site_inj (isSite_of_mem hsite) hg (by decide) hgraphs heq).2.1.symm
  apply covered_of_apart
  intro src dst rel hop
  rcases List.mem_append.mp hop with hop | hop
  · obtain ⟨name, hname, hop⟩ := List.mem_flatMap.mp hop
    obtain ⟨-, hop⟩ := mem_copyResource hop
    obtain ⟨rfl, rfl⟩ := Op.copyEntry.inj hop
    exact hapart (hnames name hname).1 (hnames name hname).2
  · rcases mem_copyLegacyRefs hop with ⟨e, hop⟩ | ⟨-, hop⟩
    · cases hop
    · obtain ⟨rfl, rfl⟩ := Op.copyEntry.inj hop
      exact hapart (by decide) (by decide)

theorem covered_phaseOps {site other : LegacyGraph × Path} {phase phase' : LegacyPhase} (hsite : site ∈ plan.sites)
    (hphase : phase ∈ site.1.documents) (hother : other ∈ plan.sites) (hphase' : phase' ∈ other.1.documents) :
    Covered fs (site.2 ++ ["phases", phase.phaseId] ++ [phase.mode.targetName])
      (phaseOps C fs plan other.1 other.2 phase') := by
  by_cases hsame : other.2 = site.2 ∧ phase'.phaseId = phase.phaseId
  · obtain ⟨hplace, hid⟩ := hsame
    obtain rfl := site_unique hother hsite hplace
    obtain rfl := plan.phase_documents other.1 (mem_graphs hother) phase' hphase' phase hphase hid
    unfold phaseOps
    cases C.phaseMarkdown plan other.1 phase' with
    | error e =>
      apply covered_of_apart
      intro src dst rel hop
      simp at hop
    | ok text =>
      rw [← List.cons_append]
      exact covered_writeText _ text
  · apply covered_of_apart
    intro src dst rel hop heq
    rcases mem_phaseOps hop with hop | ⟨e, hop⟩ | ⟨name, -, -, hop⟩ | ⟨text, hop⟩
    · cases hop
    · cases hop
    · obtain ⟨rfl, rfl⟩ := Op.copyEntry.inj hop
      simp only [List.append_assoc, List.cons_append, List.nil_append] at heq
      obtain ⟨hplace, -, hrest⟩ :=
        site_inj (isSite_of_mem hsite) (isSite_of_mem hother) (by decide) (by decide) heq
      exact hsame ⟨hplace.symm, (List.cons.inj hrest).1.symm⟩
    · cases hop

theorem covered_migrationOps {d : Path} (h : Overwritten plan d) : Covered fs d (migrationOps C fs plan) := by
  obtain ⟨site, hsite, phase, hphase, rfl⟩ := h
  have hrest : site.2 ++ ["phases", phase.phaseId] ++ [phase.mode.targetName] =
      site.2 ++ "phases" :: [phase.phaseId, phase.mode.targetName] := by
    simp
  have hdirs : ∀ name ∈ resourceDirs, name ≠ "phases" ∧ name ≠ "graphs" := by
    decide
  have hgraphs : ∀ name ∈ graphResources, name ≠ "phases" ∧ name ≠ "graphs" := by
    decide
  unfold migrationOps planOps
  apply covered_append
  · rw [List.append_assoc _ (resourceDirs.flatMap _)]
    apply covered_append
    · apply covered_append
      · apply covered_append
        · exact covered_writeOps
        · apply covered_flatMap
          intro other hother
          unfold graphOps
          apply covered_append
          · apply covered_append
            · exact covered_writeOps
            · apply covered_flatMap
              intro phase' hphase'
              exact covered_phaseOps hsite hphase hother hphase'
          · split_ifs
            · rw [hrest]
              exact covered_resources hsite (isSite_of_mem hother) hgraphs
            · trivial
      · rw [hrest]
        exact covered_resources hsite (.inl rfl) hdirs
    · cases plan.runtimeConfigSource with
      | none => trivial
      | some config => exact covered_writeOps
  · refine ⟨fun ⟨origin, content, hplaced⟩ => ?_, covered_append covered_writeOps ?_⟩
    · cases hplaced
    apply covered_of_apart
    intro src dst rel hop
    unfold publishOps at hop
    cases hpublish : C.publish with
    | error e => simp [hpublish] at hop
    | ok u => simp [hpublish] at hop

section Succeeded

variable {stage : Stage α} (hrun : run C fs (migrationOps C fs plan) emptyStage = .ok stage)

include hrun

theorem not_both {site : LegacyGraph × Path} (hsite : site ∈ plan.sites)
    (hrefs : pathExists fs (site.1.sourceRoot ++ ["refs"]) = true) :
    pathExists fs (site.1.sourceRoot ++ ["references"]) = false := by
  obtain ⟨message, hmem⟩ := @mem_of_resources α C fs plan site hsite
  rw [← Bool.not_eq_true]
  intro hboth
  apply not_raised hrun
  apply hmem
  rw [copyLegacyRefs, if_pos hrefs, if_pos hboth]
  exact List.mem_append_right _ (List.mem_singleton_self _)

theorem mem_of_handed {src dst : Path} (h : Handed fs plan src dst) : .copyEntry src dst ∈ migrationOps C fs plan := by
  cases h with
  | child site phase name hsite hphase hlisted hname =>
    apply mem_of_phaseOps hsite hphase
    cases hmarkdown : C.phaseMarkdown plan site.1 phase with
    | error e =>
      have hraised : Op.raised e ∈ phaseOps C fs plan site.1 site.2 phase := by
        simp [phaseOps, hmarkdown]
      exact absurd (mem_of_phaseOps hsite hphase hraised) (not_raised hrun e)
    | ok text =>
      simp only [phaseOps, hmarkdown]
      apply List.mem_cons_of_mem
      apply List.mem_append_left
      refine List.mem_map.mpr ⟨name, List.mem_filter.mpr ⟨hlisted, ?_⟩, rfl⟩
      rw [hname]
      rfl
  | resource site name hsite hname hexists =>
    obtain ⟨message, hmem⟩ := @mem_of_resources α C fs plan site hsite
    apply hmem
    apply List.mem_append_left
    refine List.mem_flatMap.mpr ⟨name, hname, ?_⟩
    rw [copyResource, if_pos hexists]
    exact List.mem_singleton_self _
  | refs site hsite hexists =>
    obtain ⟨message, hmem⟩ := @mem_of_resources α C fs plan site hsite
    apply hmem
    apply List.mem_append_right
    rw [copyLegacyRefs, if_pos hexists, if_neg]
    · exact List.mem_singleton_self _
    · rw [not_both hrun hsite hexists]
      exact Bool.false_ne_true

theorem handed_unique {src dst src' dst' rel rel' : Path} (h : Handed fs plan src dst) (h' : Handed fs plan src' dst')
    (heq : dst ++ rel = dst' ++ rel') : src = src' ∧ rel = rel' := by
  obtain ⟨site, hsite, x, xs, rfl, hx, hsrc⟩ := handed_place h
  obtain ⟨site', hsite', y, ys, rfl, hy, hsrc'⟩ := handed_place h'
  rw [List.append_assoc, List.append_assoc, List.cons_append, List.cons_append] at heq
  obtain ⟨hplace, rfl, hrest⟩ := site_inj (isSite_of_mem hsite) (isSite_of_mem hsite') hx hy heq
  obtain rfl := site_unique hsite hsite' hplace
  rcases hsrc with ⟨hphases, id, name, rfl, hsrc⟩ | ⟨hphases, rfl, -, hsrc⟩
  · rcases hsrc' with ⟨-, id', name', rfl, hsrc'⟩ | ⟨hno, -⟩
    · simp only [List.cons_append, List.nil_append, List.cons.injEq] at hrest
      obtain ⟨rfl, rfl, rfl⟩ := hrest
      exact ⟨hsrc.trans hsrc'.symm, rfl⟩
    · exact absurd hphases hno
  · rcases hsrc' with ⟨hno, -⟩ | ⟨-, rfl, -, hsrc'⟩
    · exact absurd hno hphases
    · refine ⟨?_, hrest⟩
      rcases hsrc with ⟨hexists, hsrc⟩ | ⟨hexists, hname, hsrc⟩
      · rcases hsrc' with ⟨-, hsrc'⟩ | ⟨hrefs, hname, -⟩
        · exact hsrc.trans hsrc'.symm
        · rw [hname, not_both hrun hsite hrefs] at hexists
          cases hexists
      · rcases hsrc' with ⟨hreferences, -⟩ | ⟨-, -, hsrc'⟩
        · rw [hname, not_both hrun hsite hexists] at hreferences
          cases hreferences
        · exact hsrc.trans hsrc'.symm

theorem stage_of_handed {src dst rel : Path} {content : α} (h : Handed fs plan src dst)
    (hfound : followed fs src rel = some (.file content)) (hkept : ¬ Overwritten plan (dst ++ rel)) :
    stage (dst ++ rel) = some (.copied (src ++ rel) content) := by
  refine run_keeps hrun rfl (.inr ⟨_, mem_of_handed hrun h, ?_⟩) ?_
  · rw [placed, if_pos (List.prefix_append _ _), List.drop_left, grafted, hfound]
  intro op hop other hplaced
  cases op with
  | mkdir p =>
    rw [placed] at hplaced
    split_ifs at hplaced with hway
    exact .inr hway
  | copyEntry src' dst' =>
    rw [placed] at hplaced
    split_ifs at hplaced with hbelow hway
    · obtain ⟨rel', hrel'⟩ := hbelow
      obtain ⟨rfl, rfl⟩ := handed_unique hrun h (handed_of_cause (cause_of_mem hop)) hrel'.symm
      rw [← hrel', List.drop_left, grafted, hfound] at hplaced
      exact .inl (Option.some.inj hplaced).symm
    · refine .inr ⟨hway, ?_⟩
      intro heq
      exact hbelow (heq ▸ List.prefix_refl _)
  | writeText p text =>
    rw [placed] at hplaced
    split_ifs at hplaced with heq hway
    · rcases writeText_of_cause (cause_of_mem hop) with hover | ⟨g, name, hg, hname, hp⟩
      · exact absurd (heq ▸ hover) hkept
      · obtain ⟨site, hsite, x, xs, rfl, hx, hsrc⟩ := handed_place h
        have hown : name ≠ "graphs" ∧ name ≠ "phases" ∧ name ∉ resourceDirs := by
          have hall : ∀ name ∈ ownTexts, name ≠ "graphs" ∧ name ≠ "phases" ∧ name ∉ resourceDirs := by
            decide
          exact hall name hname
        rw [hp, List.append_assoc, List.cons_append] at heq
        obtain ⟨-, rfl, -⟩ := site_inj (isSite_of_mem hsite) hg hx hown.1 heq
        rcases hsrc with ⟨hphases, -⟩ | ⟨-, -, hdirs, -⟩
        · exact absurd hphases hown.2.1
        · exact absurd hdirs hown.2.2
    · exact .inr ⟨hway, heq⟩
  | compileSkill => cases hplaced
  | raised e => cases hplaced

theorem handed_of_stage {d origin : Path} {content : α} (h : stage d = some (.copied origin content)) :
    ∃ src dst rel, Handed fs plan src dst ∧ d = dst ++ rel ∧ origin = src ++ rel ∧
      followed fs src rel = some (.file content) ∧ ¬ Overwritten plan d := by
  rcases run_placed hrun h with hempty | ⟨op, hop, hplaced⟩
  · unfold emptyStage at hempty
    split_ifs at hempty
    cases hempty
  · obtain ⟨src, dst, rel, rfl, hd, hfound, horigin⟩ := placed_copied hplaced
    refine ⟨src, dst, rel, handed_of_cause (cause_of_mem hop), hd, horigin, hfound, fun hover => ?_⟩
    refine run_covered hrun (covered_migrationOps hover) (.inr fun o c hstart => ?_) origin content h
    unfold emptyStage at hstart
    split_ifs at hstart
    cases hstart

end Succeeded

end Places

section Published

variable {α : Type} {fs : FileSystem α}

theorem plain_of_isPrefix {p q : Path} (h : fs.Plain q) (hp : p <+: q) : fs.Plain p := by
  obtain ⟨rest, rfl⟩ := hp
  induction rest using List.reverseRecOn with
  | nil => rwa [List.append_nil] at h
  | append_singleton rest x ih =>
    rw [← List.append_assoc] at h
    apply ih
    have hdir := h.dropLast
    rwa [List.dropLast_concat] at hdir

theorem regular_iff_linkFree {p : Path} {content : α} (h : fs.stat p = some (.file content)) :
    fs.nodes.get? p = some (.file content) ↔ fs.LinkFree p := by
  constructor
  · intro hnode
    have hplain : fs.Plain p := by
      rw [FileSystem.Plain, hnode]
      rfl
    refine ⟨fun r hr => ?_, fs.named p hplain.mem_keys⟩
    have hr' := plain_of_isPrefix hplain hr
    unfold FileSystem.Plain at hr'
    cases hget : fs.nodes.get? r with
    | none => rfl
    | some node =>
      rw [hget] at hr'
      exact hr'
  · intro hfree
    obtain ⟨q, hq, hnode⟩ := Option.bind_eq_some_iff.mp h
    rwa [FileSystem.locate_of_linkFree hfree hq] at hnode

/-- Every copied file is a regular file of the source, at the path it is read from. -/
def RegularContent (fs : FileSystem α) (source : Path) (stage : Stage α) : Prop :=
  ∀ d origin content, stage d = some (.copied origin content) →
    source <+: origin ∧ fs.nodes.get? origin = some (.file content)

/-- No file of a copied entry is found through a link, but for one that a text is written over. -/
def CopiesLinkFree (fs : FileSystem α) (plan : ReadPlan) : Prop :=
  ∀ src dst, Handed fs plan src dst → ∀ rel content, followed fs src rel = some (.file content) →
    ¬ Overwritten plan (dst ++ rel) → fs.LinkFree (src ++ rel)

theorem followed_stat {src rel : Path} {node : Node α} (h : followed fs src rel = some node) :
    fs.stat (src ++ rel) = some node := by
  unfold followed at h
  split_ifs at h
  exact h

/-- When a migration succeeds, it publishes nothing that is reached through a link if and only if no copied entry holds
a file that is. -/
theorem migrated_content_regular_iff (C : Converter α) (fs : FileSystem α) (plan : ReadPlan) (stage : Stage α)
    (h : migrate C fs plan = .ok stage) : RegularContent fs plan.source stage ↔ CopiesLinkFree fs plan := by
  have hrun : run C fs (migrationOps C fs plan) emptyStage = .ok stage := by
    unfold migrate at h
    cases hresult : run C fs (migrationOps C fs plan) emptyStage with
    | error e =>
      rw [hresult] at h
      cases h
    | ok final =>
      rw [hresult] at h
      rw [Except.ok.inj h]
  constructor
  · intro hregular src dst hhanded rel content hfound hkept
    obtain ⟨-, hnode⟩ := hregular _ _ _ (stage_of_handed hrun hhanded hfound hkept)
    exact (regular_iff_linkFree (followed_stat hfound)).mp hnode
  · intro hfree d origin content hd
    obtain ⟨src, dst, rel, hhanded, rfl, rfl, hfound, hkept⟩ := handed_of_stage hrun hd
    exact ⟨(handed_inside hhanded).trans (List.prefix_append _ _),
      (regular_iff_linkFree (followed_stat hfound)).mpr (hfree src dst hhanded rel content hfound hkept)⟩

end Published

/-- A legacy skill of one phase; its reference is a file, or a link to a file outside. -/
def legacyTree (linked : Bool) : FileSystem String where
  nodes := ⟨[([], .dir), (["secret.txt"], .file "token"), (["src"], .dir), (["src", "GRAPH.md"], .file "graph"),
    (["src", "phases"], .dir), (["src", "phases", "outline"], .dir),
    (["src", "phases", "outline", "SKILL.md"], .file "outline"), (["src", "references"], .dir),
    (["src", "references", "notes.md"], if linked then .link ⟨true, ["secret.txt"]⟩ else .file "notes")],
    by cases linked <;> decide⟩
  root := by cases linked <;> rfl
  parents := by cases linked <;> decide
  named := by cases linked <;> decide

def newsGraph : LegacyGraph where
  sourceRoot := ["src"]
  graphId := "news"
  graphId_ok := by decide
  documents := [⟨"outline", by decide, .agent, ["src", "phases", "outline"], "SKILL.md"⟩]

def newsPlan : ReadPlan where
  source := ["src"]
  destination := ["out", "news"]
  rootGraph := newsGraph
  registryGraphs := []
  presetId := "migrated"
  runtimeConfigSource := none
  root_source := rfl
  registry_roots := List.forall_mem_nil _
  phase_dirs := by
    intro g hg phase hphase
    obtain rfl := List.mem_singleton.mp hg
    obtain rfl := List.mem_singleton.mp hphase
    rfl
  phase_documents := by
    intro g hg phase hphase other hother _
    obtain rfl := List.mem_singleton.mp hg
    exact (List.mem_singleton.mp hphase).trans (List.mem_singleton.mp hother).symm
  graph_ids := List.nodup_nil

def acceptingConverter : Converter String where
  renderRootSkill _ := .ok "skill"
  graphYaml _ _ := .ok "yaml"
  phaseMarkdown _ _ _ := .ok "agent"
  projectConfigText _ := .ok "toml"
  reportText _ := .ok "report"
  compileSkill stage := if (stage ["SKILL.md"]).isSome then .ok () else .error (.other "SkillLoadError")
  publish := .ok ()
  copyable _ _ := true

def publishedStage (linked : Bool) : Stage String :=
  match migrate acceptingConverter (legacyTree linked) newsPlan with
  | .ok stage => stage
  | .error _ => emptyStage

theorem news_migrates (linked : Bool) :
    migrate acceptingConverter (legacyTree linked) newsPlan = .ok (publishedStage linked) := by
  cases linked <;> rfl

theorem legacyTree_linkFree {p : Path} (h : ∀ x ∈ p, isName x = true) : (legacyTree false).LinkFree p := by
  constructor
  · intro q _
    have hplain : ∀ e ∈ (legacyTree false).nodes.entries, LinkedPaths.isPlain e.2 = true := by decide
    cases hnode : (legacyTree false).nodes.get? q with
    | none => rfl
    | some node => exact hplain (q, node) (Dict.get?_mem.mp hnode)
  · intro x hx
    simpa [isName, and_assoc] using h x hx

theorem newsPlan_sites {site : LegacyGraph × Path} (h : site ∈ newsPlan.sites) : site.1 = newsGraph := by
  obtain rfl : site = (newsGraph, []) := by simpa [ReadPlan.sites, newsPlan] using h
  rfl

theorem newsPlan_names {src dst : Path} (h : Handed (legacyTree false) newsPlan src dst) :
    ∀ x ∈ src, isName x = true := by
  cases h with
  | child site phase name hsite hphase hlisted hname =>
    rw [newsPlan_sites hsite] at hphase
    obtain rfl := List.mem_singleton.mp hphase
    obtain rfl : name = "SKILL.md" := List.mem_singleton.mp hlisted
    cases hname
  | resource site name hsite hname _ =>
    rw [newsPlan_sites hsite]
    have hnames : ∀ n ∈ resourceDirs, ∀ x ∈ ["src", n], isName x = true := by decide
    exact hnames name (resourceNames_ne hname).2.2
  | refs site hsite _ =>
    rw [newsPlan_sites hsite]
    decide

theorem newsPlan_linkFree : CopiesLinkFree (legacyTree false) newsPlan := by
  intro src dst hhanded rel content hfound _
  apply legacyTree_linkFree
  intro x hx
  rcases List.mem_append.mp hx with hx | hx
  · exact newsPlan_names hhanded x hx
  · unfold followed at hfound
    split_ifs at hfound with hrel
    exact List.all_eq_true.mp hrel x hx

theorem legacy_reference_published :
    publishedStage false ["references", "notes.md"] = some (.copied ["src", "references", "notes.md"] "notes") ∧
      RegularContent (legacyTree false) ["src"] (publishedStage false) :=
  ⟨rfl, (migrated_content_regular_iff acceptingConverter (legacyTree false) newsPlan (publishedStage false)
    (news_migrates false)).mpr newsPlan_linkFree⟩

theorem linked_reference_published :
    migrate acceptingConverter (legacyTree true) newsPlan = .ok (publishedStage true) ∧
      publishedStage true ["references", "notes.md"] = some (.copied ["src", "references", "notes.md"] "token") ∧
      ¬ RegularContent (legacyTree true) ["src"] (publishedStage true) := by
  have hcopied : publishedStage true ["references", "notes.md"] =
      some (.copied ["src", "references", "notes.md"] "token") := rfl
  refine ⟨news_migrates true, hcopied, fun h => ?_⟩
  have hnode := (h _ _ _ hcopied).2
  cases hnode

end GraphSkillRuntime.LinkedMigration
