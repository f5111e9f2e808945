import GraphSkillRuntime.GraphTopology
import GraphSkillRuntime.HostNative

/-!
`host_native_agent_phases`: the root graphs whose agent phases the host may complete, and where a run of such
a graph waits for it.
-/

namespace GraphSkillRuntime

open OrderedDict Runs Relation

/-- The parts of a compiled skill that are looked at; `registry` has the phases of every graph by its id. -/
structure HostedSkill where
  rootGraphId : String
  registry : List (String × List PhaseDocument)
  nodes : List PhaseDocument
  iterate : Option IterateSpec
  phases : List PhaseTopologyRef

def isAgent (doc : PhaseDocument) : Bool := doc.mode = .agent

def hostDependencies (phases : List PhaseTopologyRef) : Dict String (List String) :=
  .ofList (phases.map fun phase => (phase.name, phase.dependsOn.filter (· ≠ "input")))

/-- The head of `pending` is the name that is taken next. -/
def hostAncestors (dependencies : Dict String (List String)) (pending result : List String) : List String :=
  match pending with
  | [] => result
  | item :: pending =>
    if item ∈ result then hostAncestors dependencies pending result
    else hostAncestors dependencies ((dependencies.get? item).getD [] ++ pending) (result ++ [item])
termination_by ((unseen dependencies.keys result).length, pending.length)
decreasing_by
  · exact Prod.Lex.right _ (by simp)
  · rename_i hc
    rw [Prod.lex_def]
    by_cases hk : item ∈ dependencies.keys
    · exact .inl (length_unseen_lt hk hc)
    · have hnone : dependencies.get? item = none := Dict.get?_eq_none.mpr hk
      rcases Nat.lt_or_eq_of_le (length_unseen_le dependencies.keys result item) with hlt | heq
      · exact .inl hlt
      · exact .inr ⟨heq, by simp [hnone]⟩

def ancestorMap (dependencies : Dict String (List String)) (phaseId : String) : List String :=
  hostAncestors dependencies ((dependencies.get? phaseId).getD []) []

def incomparable (phases : List PhaseTopologyRef) (agentPhase : String) : List String :=
  let dependencies := hostDependencies phases
  dependencies.keys.filter fun phaseId =>
    phaseId ≠ agentPhase ∧ phaseId ∉ ancestorMap dependencies agentPhase ∧
      agentPhase ∉ ancestorMap dependencies phaseId

def nestedAgents (c : HostedSkill) : List String :=
  (c.registry.filter fun graph => graph.1 ≠ c.rootGraphId).flatMap fun graph =>
    (graph.2.filter isAgent).map fun node => graph.1 ++ "/" ++ node.phaseName

def hostNativeAgentPhases (c : HostedSkill) : Except String (List PhaseDocument) :=
  let nested := nestedAgents c
  let phases := c.nodes.filter isAgent
  let iterated := (phases.filter fun node => node.iterate.isSome).map PhaseDocument.phaseName
  if nested ≠ [] then
    .error ("host-native Agent phases in registry subgraphs are not supported yet: " ++
      ", ".intercalate (sortKeys nested))
  else if phases.isEmpty then .ok phases
  else if c.iterate.isSome then .error "host-native Agent phases cannot run inside graph-level iterate"
  else if iterated ≠ [] then
    .error ("host-native Agent phase iterate is not supported yet: " ++ ", ".intercalate (sortKeys iterated))
  else
    match phases.find? fun node => incomparable c.phases node.phaseName ≠ [] with
    | some node => .error ("host-native Agent phase '" ++ node.phaseName ++ "' is parallel with: " ++
        ", ".intercalate (sortKeys (incomparable c.phases node.phaseName)))
    | none => .ok phases

/-- The phases that have not completed and whose dependencies have. -/
def pendingPhases (phases : List PhaseTopologyRef) (completed : List String) : List String :=
  (phases.filter fun phase =>
    phase.name ∉ completed ∧ ∀ dep ∈ phase.dependsOn, dep = "input" ∨ dep ∈ completed).map PhaseTopologyRef.name

def completePhase (phases : List PhaseTopologyRef) (completed : List String) (name : String) :
    Option (List String) :=
  if name ∈ pendingPhases phases completed then some (completed ++ [name]) else none

section

variable {phases : List PhaseTopologyRef}

theorem hostDependencies_get? (name : String) :
    (hostDependencies phases).get? name = ((dependsOnMap phases).get? name).map (List.filter (· ≠ "input")) := by
  rw [hostDependencies, dependsOnMap, Dict.get?_ofList, Dict.get?_ofList, ← List.map_reverse, ← List.map_reverse,
    ← Dict.find_map fun (_ : String) (deps : List String) => deps.filter (· ≠ "input"), List.map_map]
  rfl

theorem mem_hostDependencies {a b : String} :
    a ∈ ((hostDependencies phases).get? b).getD [] ↔ a ∈ dependencies phases b := by
  rw [hostDependencies_get?, ← mem_filter_dependencies]
  cases (dependsOnMap phases).get? b with
  | none => rfl
  | some deps => rfl

theorem hostAncestors_run (pending result : List String) :
    Worklist.Run (dependencies phases) ⟨pending, result.toFinset⟩
      ⟨0, (hostAncestors (hostDependencies phases) pending result).toFinset⟩ := by
  fun_induction hostAncestors (hostDependencies phases) pending result with
  | case1 result => exact .refl
  | case2 result item pending hc ih => exact .head (.skip_head hc) ih
  | case3 result item pending hc ih =>
    exact .head (.take_head hc (fun x => mem_hostDependencies) (List.Perm.refl _)) ih

theorem mem_ancestorMap {a b : String} :
    a ∈ ancestorMap (hostDependencies phases) b ↔ DependencyPath phases a b := by
  rw [← List.mem_toFinset]
  exact mem_of_run (fun x => mem_hostDependencies) (hostAncestors_run _ []) a

/-! Downward closed sets of completed phases. -/

def DownwardClosed (phases : List PhaseTopologyRef) (completed : List String) : Prop :=
  ∀ name ∈ completed, ∀ a, DependencyPath phases a name → a ∈ completed

theorem mem_pendingPhases {completed : List String} {name : String} :
    name ∈ pendingPhases phases completed ↔ ∃ phase ∈ phases, phase.name = name ∧ name ∉ completed ∧
      ∀ dep ∈ phase.dependsOn, dep = "input" ∨ dep ∈ completed := by
  unfold pendingPhases
  simp only [List.mem_map, List.mem_filter, decide_eq_true_eq]
  constructor
  · rintro ⟨phase, ⟨hmem, hnot, hdeps⟩, rfl⟩
    exact ⟨phase, hmem, rfl, hnot, hdeps⟩
  · rintro ⟨phase, hmem, rfl, hnot, hdeps⟩
    exact ⟨phase, ⟨hmem, hnot, hdeps⟩, rfl⟩

section Unique

variable (hunique : (phases.map PhaseTopologyRef.name).Nodup)

include hunique

theorem ancestors_completed {completed : List String} (hclosed : DownwardClosed phases completed) {a name : String}
    (hname : name ∈ pendingPhases phases completed) (h : DependencyPath phases a name) : a ∈ completed := by
  obtain ⟨phase, hmem, rfl, -, hdeps⟩ := mem_pendingPhases.mp hname
  have hdirect : ∀ b, DependsOn phases b phase.name → b ∈ completed := by
    intro b hb
    obtain ⟨hinput, ref, href, heq, hdep⟩ := (dependsOn_iff hunique).mp hb
    obtain rfl := List.inj_on_of_nodup_map hunique href hmem heq
    exact (hdeps b hdep).resolve_left hinput
  cases h with
  | single h => exact hdirect a h
  | tail hpath h => exact hclosed _ (hdirect _ h) a hpath

theorem downwardClosed_complete {completed after : List String} {name : String}
    (hclosed : DownwardClosed phases completed) (h : completePhase phases completed name = some after) :
    DownwardClosed phases after := by
  unfold completePhase at h
  split_ifs at h with hpending
  obtain rfl := Option.some.inj h
  intro b hb a hpath
  rw [List.mem_append]
  rcases List.mem_append.mp hb with hb | hb
  · exact .inl (hclosed b hb a hpath)
  · rw [List.mem_singleton.mp hb] at hpath
    exact .inl (ancestors_completed hunique hclosed hpending hpath)

theorem downwardClosed_run {completed : List String} {names : List String}
    (h : exec (completePhase phases) [] names = some completed) : DownwardClosed phases completed := by
  have hrun := Run.of_exec (fun _ _ _ => trivial) h
  apply hrun.invariant (I := DownwardClosed phases)
  · exact fun _ _ _ hclosed _ hstep => downwardClosed_complete hunique hclosed hstep
  · exact fun _ hname => absurd hname List.not_mem_nil

theorem pendingPhases_nodup (completed : List String) : (pendingPhases phases completed).Nodup :=
  (List.filter_sublist.map _).nodup hunique

end Unique

theorem hostNativeAgentPhases_comparable {c : HostedSkill} {agents : List PhaseDocument}
    (h : hostNativeAgentPhases c = .ok agents) {doc : PhaseDocument} (hdoc : doc ∈ agents) :
    incomparable c.phases doc.phaseName = [] := by
  unfold hostNativeAgentPhases at h
  dsimp only at h
  split_ifs at h with hnested hempty hiterate hiterated
  · obtain rfl := Except.ok.inj h
    rw [List.isEmpty_iff.mp hempty] at hdoc
    exact absurd hdoc List.not_mem_nil
  · cases hfind : (c.nodes.filter isAgent).find? fun node => incomparable c.phases node.phaseName ≠ [] with
    | some node =>
      rw [hfind] at h
      cases h
    | none =>
      rw [hfind] at h
      obtain rfl := Except.ok.inj h
      simpa using List.find?_eq_none.mp hfind doc hdoc

theorem hostNativeAgentPhases_ok {c : HostedSkill} (hnested : nestedAgents c = []) (hgraph : c.iterate = none)
    (honce : ∀ doc ∈ c.nodes.filter isAgent, doc.iterate = none)
    (hcomparable : ∀ doc ∈ c.nodes.filter isAgent, incomparable c.phases doc.phaseName = []) :
    hostNativeAgentPhases c = .ok (c.nodes.filter isAgent) := by
  have hiterated : (c.nodes.filter isAgent).filter (fun node => node.iterate.isSome) = [] := by
    rw [List.filter_eq_nil_iff]
    intro doc hdoc
    simp [honce doc hdoc]
  have hfind : (c.nodes.filter isAgent).find? (fun node => incomparable c.phases node.phaseName ≠ []) = none := by
    rw [List.find?_eq_none]
    intro doc hdoc
    simp [hcomparable doc hdoc]
  unfold hostNativeAgentPhases
  simp only [hnested, hgraph, hiterated, hfind, List.map_nil, ne_eq, not_true, if_false, Option.isSome_none,
    Bool.false_eq_true, ite_self]

theorem comparable_of_incomparable_nil {agent other : String} (h : incomparable phases agent = [])
    (hother : other ∈ (hostDependencies phases).keys) (hne : other ≠ agent) :
    DependencyPath phases other agent ∨ DependencyPath phases agent other := by
  have hmem := List.filter_eq_nil_iff.mp h other hother
  simp only [decide_eq_true_eq, not_and, not_not] at hmem
  by_cases hanc : other ∈ ancestorMap (hostDependencies phases) agent
  · exact .inl (mem_ancestorMap.mp hanc)
  · exact .inr (mem_ancestorMap.mp (hmem hne hanc))

theorem hostDependencies_keys {name : String} (h : name ∈ phases.map PhaseTopologyRef.name) :
    name ∈ (hostDependencies phases).keys := by
  rw [Dict.mem_keys, hostDependencies, Dict.get?_ofList, Dict.find_isSome, List.map_reverse, List.mem_reverse,
    List.map_map]
  exact h

theorem pending_of_agent (hunique : (phases.map PhaseTopologyRef.name).Nodup) {completed : List String}
    (hclosed : DownwardClosed phases completed) {agent : String} (hagent : incomparable phases agent = [])
    (hpending : agent ∈ pendingPhases phases completed) : pendingPhases phases completed = [agent] := by
  have honly : ∀ other ∈ pendingPhases phases completed, other = agent := by
    intro other hother
    by_contra hne
    obtain ⟨phase, hmem, rfl, hnot, -⟩ := mem_pendingPhases.mp hother
    obtain ⟨_, _, _, hwaits, _⟩ := mem_pendingPhases.mp hpending
    rcases comparable_of_incomparable_nil hagent (hostDependencies_keys (List.mem_map_of_mem hmem)) hne
      with hpath | hpath
    · exact hnot (ancestors_completed hunique hclosed hpending hpath)
    · exact hwaits (ancestors_completed hunique hclosed hother hpath)
  have hnodup := pendingPhases_nodup hunique completed
  match hlist : pendingPhases phases completed with
  | [] =>
    rw [hlist] at hpending
    exact absurd hpending List.not_mem_nil
  | [other] => rw [honly other (hlist ▸ List.mem_singleton_self _)]
  | first :: second :: rest =>
    rw [hlist] at hnodup honly
    have heq : first = second := (honly first (.head _)).trans (honly second (.tail _ (.head _))).symm
    exact absurd (heq ▸ List.mem_cons_self) (List.nodup_cons.mp hnodup).1

theorem applyExternalPhaseCompletion_sole {latest : Checkpoint} {completion : ExternalPhaseCompletion}
    (hnext : latest.next = [completion.phaseId])
    (hmarker : latest.values.flow.agentResultHashes.get? completion.taskId = none)
    (houtput : completion.output.contains "phase_outputs" = false) (runId newId : String) (next : List String) :
    ∃ checkpoint, applyExternalPhaseCompletion (some latest) runId latest.checkpointId latest.checkpointNs completion
      newId next = .ok (.updated checkpoint) := by
  rw [applyExternalPhaseCompletion, hmarker]
  simp [hnext, houtput]

/-- While an agent phase waits nothing else does, so the sole pending phase is the one of the task. -/
theorem host_native_wait_unambiguous {c : HostedSkill} (hunique : (c.phases.map PhaseTopologyRef.name).Nodup)
    {agents : List PhaseDocument} (haccept : hostNativeAgentPhases c = .ok agents) {names completed : List String}
    (hrun : exec (completePhase c.phases) [] names = some completed) {doc : PhaseDocument} (hdoc : doc ∈ agents)
    (hpending : doc.phaseName ∈ pendingPhases c.phases completed) :
    pendingPhases c.phases completed = [doc.phaseName] ∧
      ∀ (latest : Checkpoint) (completion : ExternalPhaseCompletion) (runId newId : String) (next : List String),
        latest.next = pendingPhases c.phases completed → completion.phaseId = doc.phaseName →
        latest.values.flow.agentResultHashes.get? completion.taskId = none →
        completion.output.contains "phase_outputs" = false →
        ∃ checkpoint, applyExternalPhaseCompletion (some latest) runId latest.checkpointId latest.checkpointNs
          completion newId next = .ok (.updated checkpoint) := by
  have hsole := pending_of_agent hunique (downwardClosed_run hunique hrun)
    (hostNativeAgentPhases_comparable haccept hdoc) hpending
  refine ⟨hsole, fun latest completion runId newId next hnext hphase hmarker houtput => ?_⟩
  apply applyExternalPhaseCompletion_sole _ hmarker houtput
  rw [hnext, hsole, hphase]

end

/-! A draft that the host writes before a review. -/

def hostDraft : PhaseDocument where
  phaseName := "draft"
  mode := .agent
  inputs := .single "properties" (.dict [])
  outputs := .single "properties" (.dict [])

def writtenByHost : HostedSkill where
  rootGraphId := "book"
  registry := [("book", [hostDraft])]
  nodes := [hostDraft]
  iterate := none
  phases := [⟨"plan", ["input"], false⟩, ⟨"draft", ["plan"], true⟩]

theorem writtenByHost_accepted : hostNativeAgentPhases writtenByHost = .ok [hostDraft] := by
  have hplan : ancestorMap (hostDependencies writtenByHost.phases) "draft" = ["plan"] := by
    change hostAncestors _ ["plan"] [] = _
    rw [hostAncestors, if_neg List.not_mem_nil]
    change hostAncestors _ [] ["plan"] = _
    rw [hostAncestors]
  have hnone : incomparable writtenByHost.phases "draft" = [] := by
    rw [incomparable, hplan]
    rfl
  exact hostNativeAgentPhases_ok rfl rfl (fun _ hdoc => List.mem_singleton.mp hdoc ▸ rfl)
    (fun _ hdoc => List.mem_singleton.mp hdoc ▸ hnone)

theorem host_native_wait_unambiguous_draft :
    exec (completePhase writtenByHost.phases) [] ["plan"] = some ["plan"] ∧
      pendingPhases writtenByHost.phases ["plan"] = ["draft"] :=
  ⟨by decide, (@host_native_wait_unambiguous writtenByHost (by decide) _ writtenByHost_accepted ["plan"] _ (by decide)
    hostDraft (List.mem_singleton_self _) (by decide)).1⟩

end GraphSkillRuntime
