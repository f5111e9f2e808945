import GraphSkillRuntime.DataflowSoundness
import GraphSkillRuntime.HostNativePauses
import GraphSkillRuntime.Supersteps

/-!
The edges that the assembler gives to the graph builder, and the supersteps in which the phases run: a phase that
depends on one other phase is started by it, one that depends on several waits for all of them.
-/

namespace GraphSkillRuntime

open OrderedDict Supersteps

def graphDeps (dependsOn : List String) : List String := dependsOn.filter (· ≠ "input")

def assembledEdge (phaseId : String) (dependsOn : List String) : Wire String :=
  match graphDeps dependsOn with
  | [] => .entry phaseId
  | [dep] => .trigger dep phaseId
  | deps => .barrier deps phaseId

def assembledEdges (refs : List PhaseTopologyRef) : List (Wire String) :=
  (dependsOnMap refs).entries.map fun row => assembledEdge row.1 row.2

section

variable {refs : List PhaseTopologyRef} {physical : Finset String} {steps : List (List String)} {s : State String}

theorem mem_graphDeps {a b : String} : a ∈ graphDeps (phaseDeps refs b) ↔ DependsOn refs a b := by
  simp only [graphDeps, phaseDeps, DependsOn, List.mem_filter, decide_eq_true_eq]
  exact and_comm

section Unique

variable (hunique : (refs.map PhaseTopologyRef.name).Nodup)

include hunique

theorem phaseDeps_of_mem {ref : PhaseTopologyRef} (href : ref ∈ refs) : phaseDeps refs ref.name = ref.dependsOn := by
  have hkeys : ((refs.map fun ref => (ref.name, ref.dependsOn)).map Prod.fst).Nodup := by
    simpa [List.map_map, Function.comp_def] using hunique
  rw [phaseDeps, dependsOnMap, Dict.get?_ofList_of_mem hkeys (List.mem_map.mpr ⟨ref, href, rfl⟩)]
  rfl

theorem assembledEdges_eq : assembledEdges refs =
    (refs.map PhaseTopologyRef.name).map (dependencyWire fun b => graphDeps (phaseDeps refs b)) := by
  have hkeys : ((refs.map fun ref => (ref.name, ref.dependsOn)).map Prod.fst).Nodup := by
    simpa [List.map_map, Function.comp_def] using hunique
  rw [assembledEdges, dependsOnMap, Dict.entries_ofList hkeys, List.map_map, List.map_map]
  apply List.map_congr_left
  intro ref href
  simp only [Function.comp_apply, dependencyWire, assembledEdge, phaseDeps_of_mem hunique href]
  generalize graphDeps ref.dependsOn = deps
  rcases deps with _ | ⟨a, _ | ⟨b, rest⟩⟩
  · rfl
  · rfl
  · rfl

theorem due_iff_pending (ran : List String) (b : String) :
    Due (refs.map PhaseTopologyRef.name) (fun b => graphDeps (phaseDeps refs b)) ran b ↔
      b ∈ pendingPhases refs ran := by
  rw [mem_pendingPhases]
  constructor
  · rintro ⟨hb, hran, hdeps⟩
    obtain ⟨ref, href, rfl⟩ := List.mem_map.mp hb
    refine ⟨ref, href, rfl, hran, fun dep hdep => ?_⟩
    by_cases hinput : dep = "input"
    · exact .inl hinput
    · apply Or.inr
      apply hdeps
      simp [phaseDeps_of_mem hunique href, graphDeps, hdep, hinput]
  · rintro ⟨ref, href, rfl, hran, hdeps⟩
    refine ⟨List.mem_map_of_mem href, hran, fun dep hdep => ?_⟩
    simp only [phaseDeps_of_mem hunique href, graphDeps, List.mem_filter, decide_eq_true_eq] at hdep
    exact (hdeps dep hdep.1).resolve_left hdep.2

end Unique

theorem exists_first_phase (h : WellFormedTopology refs physical) {left : List String} (hne : left ≠ []) :
    ∃ b ∈ left, ∀ a ∈ left, ¬ DependsOn refs a b := by
  obtain ⟨first, hfirst⟩ := List.exists_mem_of_ne_nil left hne
  obtain ⟨⟨b, hb⟩, -, hmin⟩ :=
    (DependencyOrder.wellFounded_of_acyclic h.acyclic left).has_min Set.univ ⟨⟨first, hfirst⟩, trivial⟩
  exact ⟨b, hb, fun a ha hdep => hmin ⟨a, ha⟩ trivial (.single hdep)⟩

theorem assembled_rest_iff (hunique : (refs.map PhaseTopologyRef.name).Nodup)
    (hformed : WellFormedTopology refs physical)
    (h : Supersteps.Runs (assembledEdges refs) steps s) :
    s.active = [] ↔ steps.flatten.Perm (refs.map PhaseTopologyRef.name) := by
  rw [assembledEdges_eq hunique] at h
  apply h.complete hunique
  · intro b _ a ha
    obtain ⟨hinput, ref, href, -, hdep⟩ := (dependsOn_iff hunique).mp (mem_graphDeps.mp ha)
    exact ((hformed.known ref href a hdep).resolve_left hinput).2
  · intro left hne
    obtain ⟨b, hb, hfirst⟩ := exists_first_phase hformed hne
    exact ⟨b, hb, fun a ha hdep => hfirst a ha (mem_graphDeps.mp hdep)⟩

theorem step_subset (hunique : (refs.map PhaseTopologyRef.name).Nodup)
    (h : Supersteps.Runs (assembledEdges refs) steps s) {step : List String} (hstep : step ∈ steps) {name : String}
    (hname : name ∈ step) : name ∈ refs.map PhaseTopologyRef.name := by
  rw [assembledEdges_eq hunique] at h
  exact h.invariant.known name (List.mem_flatten_of_mem hstep hname)

theorem assembled_run_schedule {g : SkillDocument} {config : Option RuntimeConfig}
    (hvalid : (validateGraphTopology g.refs physical).2 = [])
    (h : Supersteps.Runs (assembledEdges g.refs) steps s) (hrest : s.active = []) (build : String → Phase)
    (hbuild : ∀ name ∈ g.refs.map PhaseTopologyRef.name,
      (build name).spec.phaseId = name ∧ ∃ doc, Assembled g config (build name) doc) :
    ∃ schedule : Schedule g config, schedule.steps = steps.map (List.map build) := by
  have hformed := (validateGraphTopology_diags g.refs_unique physical).mp hvalid
  have hids : ∀ past : List (List String), (∀ step ∈ past, step ∈ steps) →
      phaseIds (past.map (List.map build)) = past.flatten := by
    intro past hpast
    rw [phaseIds, ← List.map_flatten, List.map_map]
    apply (List.map_congr_left _).trans (List.map_id _)
    intro name hname
    obtain ⟨step, hstep, hname⟩ := List.mem_flatten.mp hname
    exact (hbuild name (step_subset g.refs_unique h (hpast step hstep) hname)).1
  refine ⟨⟨steps.map (List.map build), ?_, ?_, ?_⟩, rfl⟩
  · intro step hstep phase hphase
    obtain ⟨names, hnames, rfl⟩ := List.mem_map.mp hstep
    obtain ⟨name, hname, rfl⟩ := List.mem_map.mp hphase
    exact (hbuild name (step_subset g.refs_unique h hnames hname)).2
  · intro past step rest hsplit phase hphase dep hdep hinput
    obtain ⟨earlier, later, rfl, rfl, hlater⟩ := List.map_eq_append_iff.mp hsplit
    obtain ⟨names, others, rfl, rfl, rfl⟩ := List.map_eq_cons_iff.mp hlater
    obtain ⟨name, hname, rfl⟩ := List.mem_map.mp hphase
    have hmem : names ∈ earlier ++ names :: others := by simp
    rw [(hbuild name (step_subset g.refs_unique h hmem hname)).1] at hdep
    rw [hids earlier fun step hstep => List.mem_append_left _ hstep]
    have hrun := h
    rw [assembledEdges_eq g.refs_unique] at hrun
    have hdue := (hrun.mem_step rfl name).mp hname
    exact hdue.2.2 dep (mem_graphDeps.mpr ⟨hinput, hdep⟩)
  · intro name hname
    obtain ⟨ref, href, rfl⟩ := List.mem_map.mp hname
    rw [hids steps fun step hstep => hstep]
    have hall := (assembled_rest_iff g.refs_unique hformed h).mp hrest
    exact hall.symm.subset (List.mem_map_of_mem (List.mem_of_mem_filter href))

/-- Every run of a graph that the topology check accepts can be continued to its end, which it reaches when each phase
has run once. Each superstep consists of the phases whose dependencies have all run. -/
theorem assembled_run_executes_once (refs : List PhaseTopologyRef) (physical : Finset String)
    (hunique : (refs.map PhaseTopologyRef.name).Nodup) (hvalid : (validateGraphTopology refs physical).2 = [])
    {steps : List (List String)} {s : State String} (h : Supersteps.Runs (assembledEdges refs) steps s) :
    (steps.flatten ++ s.active).Nodup ∧ steps.length ≤ refs.length ∧
      (∀ past step rest, steps ++ [s.active] = past ++ step :: rest →
        step.Perm (pendingPhases refs past.flatten)) ∧
      (s.active = [] ↔ steps.flatten.Perm (refs.map PhaseTopologyRef.name)) ∧
      ∃ more t, Supersteps.Runs (assembledEdges refs) (steps ++ more) t ∧ t.active = [] := by
  have hrest := assembled_rest_iff hunique ((validateGraphTopology_diags hunique physical).mp hvalid) h
  rw [assembledEdges_eq hunique] at h ⊢
  have hs := h.invariant
  have hactive : s.active.Perm (pendingPhases refs steps.flatten) := by
    apply (List.perm_ext_iff_of_nodup _ (pendingPhases_nodup hunique _)).mpr
    · exact fun b => (hs.due b).trans (due_iff_pending hunique _ b)
    · exact (List.nodup_append.mp hs.nodup).2.1
  refine ⟨hs.nodup, ?_, ?_, ?_, ?_⟩
  · simpa using h.length_le
  · intro past step rest hsteps
    rcases List.eq_nil_or_concat rest with rfl | ⟨rest, last, rfl⟩
    · obtain ⟨rfl, heq⟩ := List.append_inj' hsteps rfl
      obtain rfl := List.singleton_inj.mp heq
      exact hactive
    · have hsplit : steps ++ [s.active] = (past ++ step :: rest) ++ [last] := by simp [hsteps]
      obtain ⟨rfl, -⟩ := List.append_inj' hsplit rfl
      have hnodup : step.Nodup := by
        have hflat := (List.nodup_append.mp hs.nodup).1
        rw [List.flatten_append, List.flatten_cons] at hflat
        exact (List.nodup_append.mp (List.nodup_append.mp hflat).2.1).1
      apply (List.perm_ext_iff_of_nodup hnodup (pendingPhases_nodup hunique _)).mpr
      exact fun b => (h.mem_step rfl b).trans (due_iff_pending hunique _ b)
  · exact hrest
  · exact h.finishes

end

/-! The last of three phases waits for both of the others, which run one after the other. -/

def storyRefs : List PhaseTopologyRef :=
  [⟨"draft", ["input"], false⟩, ⟨"style", ["draft"], false⟩, ⟨"final", ["draft", "style"], true⟩]

theorem storyRefs_dependsOn {a b : String} : DependsOn storyRefs a b ↔
    a = "draft" ∧ (b = "style" ∨ b = "final") ∨ a = "style" ∧ b = "final" := by
  rw [dependsOn_iff (by decide)]
  constructor
  · rintro ⟨ha, ref, href, rfl, hdep⟩
    simp only [storyRefs, List.mem_cons, List.not_mem_nil, or_false] at href
    rcases href with rfl | rfl | rfl
    · exact absurd (List.mem_singleton.mp hdep) ha
    · exact .inl ⟨List.mem_singleton.mp hdep, .inl rfl⟩
    · rcases List.mem_pair.mp hdep with rfl | rfl
      · exact .inl ⟨rfl, .inr rfl⟩
      · exact .inr ⟨rfl, rfl⟩
  · rintro (⟨rfl, rfl | rfl⟩ | ⟨rfl, rfl⟩)
    · exact ⟨by decide, ⟨"style", ["draft"], false⟩, by simp [storyRefs], rfl, by simp⟩
    · exact ⟨by decide, ⟨"final", ["draft", "style"], true⟩, by simp [storyRefs], rfl, by simp⟩
    · exact ⟨by decide, ⟨"final", ["draft", "style"], true⟩, by simp [storyRefs], rfl, by simp⟩

theorem storyRefs_path {a b : String} (h : DependencyPath storyRefs a b) :
    ["draft", "style", "final"].idxOf a < ["draft", "style", "final"].idxOf b := by
  have hstep {a b : String} (h : DependsOn storyRefs a b) :
      ["draft", "style", "final"].idxOf a < ["draft", "style", "final"].idxOf b := by
    rcases storyRefs_dependsOn.mp h with ⟨rfl, rfl | rfl⟩ | ⟨rfl, rfl⟩
    all_goals decide
  induction h with
  | single h => exact hstep h
  | tail _ h ih => exact ih.trans (hstep h)

theorem storyRefs_valid : (validateGraphTopology storyRefs {"draft", "style", "final"}).2 = [] := by
  rw [validateGraphTopology_diags (by decide)]
  constructor
  · intro name
    simp [storyRefs]
  · simp [storyRefs]
  · decide
  · intro name h
    exact lt_irrefl _ (storyRefs_path h)
  · intro ref href
    refine ⟨⟨"draft", ["input"], false⟩, by simp [storyRefs], by simp, ?_⟩
    simp only [storyRefs, List.mem_cons, List.not_mem_nil, or_false] at href
    rcases href with rfl | rfl | rfl
    · exact .refl
    · exact .single (storyRefs_dependsOn.mpr (.inl ⟨rfl, .inl rfl⟩))
    · exact .single (storyRefs_dependsOn.mpr (.inl ⟨rfl, .inr rfl⟩))
  · intro ref href hout name h
    have hname : ref.name = "final" := by
      simp only [storyRefs, List.mem_cons, List.not_mem_nil, or_false] at href
      rcases href with rfl | rfl | rfl
      · cases hout
      · cases hout
      · rfl
    rcases storyRefs_dependsOn.mp h with ⟨hdraft, -⟩ | ⟨hstyle, -⟩
    · exact absurd (hname.symm.trans hdraft) (by decide)
    · exact absurd (hname.symm.trans hstyle) (by decide)

theorem story_run_executes_once : ∃ s, Supersteps.Runs (assembledEdges storyRefs) [["draft"], ["style"], ["final"]] s ∧
    s.active = [] ∧ [["draft"], ["style"], ["final"]].flatten.Perm (storyRefs.map PhaseTopologyRef.name) := by
  have hstart : Supersteps.Runs (assembledEdges storyRefs) [] ⟨["draft"], fun _ => []⟩ := by
    have hedges : assembledEdges storyRefs =
        [.entry "draft", .trigger "draft" "style", .barrier ["draft", "style"] "final"] := rfl
    refine .start (by decide) fun b => ?_
    simp [hedges]
  have hrun := ((hstart.next (by decide)).next (by decide)).next (by decide)
  have hdone := assembled_run_executes_once storyRefs _ (by decide) storyRefs_valid hrun
  exact ⟨_, hrun, rfl, hdone.2.2.2.1.mp rfl⟩

end GraphSkillRuntime
