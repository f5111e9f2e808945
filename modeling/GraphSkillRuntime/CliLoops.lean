import GraphSkillRuntime.AssembledRuns

/-!
The loop in which a command line executor carries out the agent phases of a run: the graph runs until an agent phase
is due, the executor answers its task, and the answer completes the phase.
-/

namespace GraphSkillRuntime.CliLoop

open Supersteps

inductive Main where
  | running
  | agentRequired (phaseId : String)
  | completed
  | failed
  | protocolLoop

structure Loop where
  steps : List (List String)
  graph : State String
  main : Main
  completedTasks : ℕ
  executed : List String

section

variable (c : HostedSkill) (agents : List PhaseDocument)

def agentNames : List String := agents.map PhaseDocument.phaseName

def Releases (s : State String) (next : List String) : Prop :=
  next.Nodup ∧ ∀ b, b ∈ next ↔ ∃ w ∈ assembledEdges c.phases, opens s w = true ∧ w.target = b

inductive Step (l : Loop) : Loop → Prop
  | superstep {next : List String} (hmain : l.main = .running) (hbusy : l.graph.active ≠ [])
      (hplain : ∀ b ∈ l.graph.active, b ∉ agentNames agents) (hnext : Releases c l.graph next) :
      Step l { l with steps := l.steps ++ [l.graph.active], graph := after l.graph next }
  | pause {phaseId : String} (hmain : l.main = .running) (hdue : phaseId ∈ l.graph.active)
      (hagent : phaseId ∈ agentNames agents) : Step l { l with main := .agentRequired phaseId }
  | complete (hmain : l.main = .running) (hrest : l.graph.active = []) : Step l { l with main := .completed }
  | nodeFails (hmain : l.main = .running) : Step l { l with main := .failed }
  /-- The completion of a phase is taken where the phase is the only one that is due. -/
  | submit {phaseId : String} {next : List String} (hmain : l.main = .agentRequired phaseId)
      (hcount : l.completedTasks < agents.length) (hsole : l.graph.active = [phaseId])
      (hnext : Releases c l.graph next) :
      Step l ⟨l.steps ++ [l.graph.active], after l.graph next, .running, l.completedTasks + 1,
        l.executed ++ [phaseId]⟩
  | attemptFails {phaseId : String} (hmain : l.main = .agentRequired phaseId)
      (hcount : l.completedTasks < agents.length) : Step l { l with main := .failed }
  | exceeded {phaseId : String} (hmain : l.main = .agentRequired phaseId)
      (hcount : agents.length ≤ l.completedTasks) : Step l { l with main := .protocolLoop }

inductive Run : ℕ → Loop → Prop
  | start {first : List String} (hnodup : first.Nodup) (hfirst : ∀ b, b ∈ first ↔ .entry b ∈ assembledEdges c.phases) :
      Run 0 ⟨[], ⟨first, fun _ => []⟩, .running, 0, []⟩
  | step {k : ℕ} {l l' : Loop} (h : Run k l) (hstep : Step c agents l l') : Run (k + 1) l'

structure Tracks (l : Loop) : Prop where
  runs : Supersteps.Runs (assembledEdges c.phases) l.steps l.graph
  executed : l.executed = l.steps.flatten.filter fun b => b ∈ agentNames agents
  count : l.completedTasks = l.executed.length
  required : ∀ phaseId, l.main = .agentRequired phaseId → phaseId ∈ l.graph.active ∧ phaseId ∈ agentNames agents
  rest : l.main = .completed → l.graph.active = []

end

variable {c : HostedSkill} {agents : List PhaseDocument} {l l' : Loop} {physical : Finset String}

section

variable (hunique : (c.phases.map PhaseTopologyRef.name).Nodup)

include hunique

theorem invariant_of_runs {steps : List (List String)} {s : State String}
    (h : Supersteps.Runs (assembledEdges c.phases) steps s) :
    Supersteps.Invariant (c.phases.map PhaseTopologyRef.name) (fun b => graphDeps (phaseDeps c.phases b))
      steps.flatten s := by
  rw [assembledEdges_eq hunique] at h
  exact h.invariant

theorem downwardClosed_of_runs {steps : List (List String)} {s : State String}
    (h : Supersteps.Runs (assembledEdges c.phases) steps s) : DownwardClosed c.phases steps.flatten := by
  have hs := invariant_of_runs hunique h
  intro name hname a hpath
  induction hpath with
  | single hdep => exact hs.downward _ hname _ (mem_graphDeps.mpr hdep)
  | tail _ hdep ih => exact ih (hs.downward _ hname _ (mem_graphDeps.mpr hdep))

theorem active_of_agent (haccept : hostNativeAgentPhases c = .ok agents) {steps : List (List String)}
    {s : State String} (h : Supersteps.Runs (assembledEdges c.phases) steps s) {phaseId : String}
    (hdue : phaseId ∈ s.active) (hagent : phaseId ∈ agentNames agents) : s.active = [phaseId] := by
  have hs := invariant_of_runs hunique h
  have hpending (b : String) : b ∈ s.active ↔ b ∈ pendingPhases c.phases steps.flatten :=
    (hs.due b).trans (due_iff_pending hunique _ b)
  obtain ⟨doc, hdoc, rfl⟩ := List.mem_map.mp hagent
  have hsole := pending_of_agent hunique (downwardClosed_of_runs hunique h)
    (hostNativeAgentPhases_comparable haccept hdoc) ((hpending _).mp hdue)
  apply List.perm_singleton.mp
  apply (List.perm_ext_iff_of_nodup (List.nodup_append.mp hs.nodup).2.1 (List.nodup_singleton _)).mpr
  intro b
  rw [hpending, hsole]

theorem ran_length_le {steps : List (List String)} {s : State String}
    (h : Supersteps.Runs (assembledEdges c.phases) steps s) :
    steps.flatten.length + s.active.length ≤ c.phases.length := by
  have hs := invariant_of_runs hunique h
  have hsub : steps.flatten ++ s.active ⊆ c.phases.map PhaseTopologyRef.name := by
    intro b hb
    rcases List.mem_append.mp hb with hran | hdue
    · exact hs.known b hran
    · exact ((hs.due b).mp hdue).1
  have hle := (List.subperm_of_subset hs.nodup hsub).length_le
  rw [List.length_append, List.length_map] at hle
  exact hle

theorem Tracks.executed_nodup (ht : Tracks c agents l) : l.executed.Nodup := by
  rw [ht.executed]
  exact (List.nodup_append.mp (invariant_of_runs hunique ht.runs).nodup).1.filter _

theorem Tracks.waiting (ht : Tracks c agents l) (haccept : hostNativeAgentPhases c = .ok agents) {phaseId : String}
    (hmain : l.main = .agentRequired phaseId) :
    l.graph.active = [phaseId] ∧ phaseId ∉ l.executed ∧ l.completedTasks < agents.length := by
  obtain ⟨hdue, hagent⟩ := ht.required phaseId hmain
  have hnot : phaseId ∉ l.executed := by
    intro hmem
    rw [ht.executed] at hmem
    exact (invariant_of_runs hunique ht.runs).not_active (List.mem_of_mem_filter hmem) hdue
  refine ⟨active_of_agent hunique haccept ht.runs hdue hagent, hnot, ?_⟩
  have hnodup : (phaseId :: l.executed).Nodup := List.nodup_cons.mpr ⟨hnot, ht.executed_nodup hunique⟩
  have hsub : phaseId :: l.executed ⊆ agentNames agents := by
    intro b hb
    rcases List.mem_cons.mp hb with rfl | hmem
    · exact hagent
    · rw [ht.executed] at hmem
      exact of_decide_eq_true (List.mem_filter.mp hmem).2
  have hle := (List.subperm_of_subset hnodup hsub).length_le
  rw [List.length_cons, agentNames, List.length_map] at hle
  rw [ht.count]
  omega

end

theorem start_tracks {first : List String} (hnodup : first.Nodup)
    (hfirst : ∀ b, b ∈ first ↔ .entry b ∈ assembledEdges c.phases) :
    Tracks c agents ⟨[], ⟨first, fun _ => []⟩, .running, 0, []⟩ :=
  ⟨.start hnodup hfirst, rfl, rfl, nofun, nofun⟩

theorem Step.tracks (h : Step c agents l l') (ht : Tracks c agents l) : Tracks c agents l' := by
  cases h with
  | superstep hmain hbusy hplain hnext =>
    refine ⟨ht.runs.superstep hbusy hnext.1 hnext.2, ?_, ht.count, ?_, ?_⟩
    · have hnone : l.graph.active.filter (fun b => b ∈ agentNames agents) = [] := by
        apply List.filter_eq_nil_iff.mpr
        intro b hb
        simpa using hplain b hb
      rw [List.flatten_append, List.flatten_singleton, List.filter_append, hnone, List.append_nil]
      exact ht.executed
    · intro phaseId hcase
      rw [hmain] at hcase
      cases hcase
    · intro hcase
      rw [hmain] at hcase
      cases hcase
  | pause hmain hdue hagent =>
    refine ⟨ht.runs, ht.executed, ht.count, ?_, nofun⟩
    intro phaseId hcase
    cases hcase
    exact ⟨hdue, hagent⟩
  | complete hmain hrest => exact ⟨ht.runs, ht.executed, ht.count, nofun, fun _ => hrest⟩
  | nodeFails hmain => exact ⟨ht.runs, ht.executed, ht.count, nofun, nofun⟩
  | @submit phaseId next hmain hcount hsole hnext =>
    have hbusy : l.graph.active ≠ [] := by
      rw [hsole]
      exact List.cons_ne_nil _ _
    refine ⟨ht.runs.superstep hbusy hnext.1 hnext.2, ?_, ?_, nofun, nofun⟩
    · have hagent : [phaseId].filter (fun b => b ∈ agentNames agents) = [phaseId] := by
        simp [(ht.required phaseId hmain).2]
      rw [List.flatten_append, List.flatten_singleton, List.filter_append, hsole, hagent, ht.executed]
    · rw [List.length_append, List.length_singleton, ht.count]
  | attemptFails hmain hcount => exact ⟨ht.runs, ht.executed, ht.count, nofun, nofun⟩
  | exceeded hmain hcount => exact ⟨ht.runs, ht.executed, ht.count, nofun, nofun⟩

theorem Run.tracks {k : ℕ} (h : Run c agents k l) : Tracks c agents l := by
  induction h with
  | start hnodup hfirst => exact start_tracks hnodup hfirst
  | step _ hstep ih => exact hstep.tracks ih

theorem Run.not_exceeded (hunique : (c.phases.map PhaseTopologyRef.name).Nodup)
    (haccept : hostNativeAgentPhases c = .ok agents) {k : ℕ} (h : Run c agents k l) : l.main ≠ .protocolLoop := by
  cases h with
  | start hnodup hfirst => nofun
  | step hrun hstep =>
    cases hstep with
    | superstep hmain =>
      rw [hmain]
      nofun
    | exceeded hmain hcount =>
      have hleft := (hrun.tracks.waiting hunique haccept hmain).2.2
      omega
    | _ => nofun

def Main.rank : Main → ℕ
  | .running => 2
  | .agentRequired _ => 1
  | _ => 0

def rank (c : HostedSkill) (l : Loop) : ℕ := 2 * (c.phases.length - l.steps.flatten.length) + l.main.rank

theorem Step.rank_lt (hunique : (c.phases.map PhaseTopologyRef.name).Nodup) (h : Step c agents l l')
    (ht : Tracks c agents l) : rank c l' < rank c l := by
  have hle := ran_length_le hunique ht.runs
  cases h with
  | superstep hmain hbusy hplain hnext =>
    have hpos := List.length_pos_iff.mpr hbusy
    simp only [rank, List.flatten_append, List.flatten_singleton, List.length_append]
    omega
  | submit hmain hcount hsole hnext =>
    rw [hsole, List.length_singleton] at hle
    simp only [rank, hmain, Main.rank, List.flatten_append, List.flatten_singleton, List.length_append, hsole,
      List.length_singleton]
    omega
  | pause hmain hdue hagent =>
    simp only [rank, hmain, Main.rank]
    omega
  | complete hmain hrest =>
    simp only [rank, hmain, Main.rank]
    omega
  | nodeFails hmain =>
    simp only [rank, hmain, Main.rank]
    omega
  | attemptFails hmain hcount =>
    simp only [rank, hmain, Main.rank]
    omega
  | exceeded hmain hcount =>
    simp only [rank, hmain, Main.rank]
    omega

theorem Run.length_le (hunique : (c.phases.map PhaseTopologyRef.name).Nodup) {k : ℕ} (h : Run c agents k l) :
    k ≤ 2 * c.phases.length + 2 := by
  have hleft : k + rank c l ≤ 2 * c.phases.length + 2 := by
    induction h with
    | start hnodup hfirst => simp [rank, Main.rank]
    | step hrun hstep ih =>
      have hlt := hstep.rank_lt hunique hrun.tracks
      omega
  omega

theorem releases_released (s : State String) : Releases c s (released (assembledEdges c.phases) s) := by
  refine ⟨List.nodup_dedup _, ?_⟩
  intro b
  simp [released, and_assoc]

theorem releases_of_released {s : State String} {next : List String}
    (h : released (assembledEdges c.phases) s = next) : Releases c s next := h ▸ releases_released s

theorem exists_step (hunique : (c.phases.map PhaseTopologyRef.name).Nodup)
    (haccept : hostNativeAgentPhases c = .ok agents) (ht : Tracks c agents l)
    (hopen : l.main = .running ∨ ∃ phaseId, l.main = .agentRequired phaseId) :
    ∃ l', Step c agents l l' ∧ l'.main ≠ .failed := by
  rcases hopen with hmain | ⟨phaseId, hmain⟩
  · by_cases hrest : l.graph.active = []
    · exact ⟨_, .complete hmain hrest, nofun⟩
    · by_cases hagent : ∃ b ∈ l.graph.active, b ∈ agentNames agents
      · obtain ⟨b, hdue, hb⟩ := hagent
        exact ⟨_, .pause hmain hdue hb, nofun⟩
      · have hplain : ∀ b ∈ l.graph.active, b ∉ agentNames agents := fun b hdue hb => hagent ⟨b, hdue, hb⟩
        refine ⟨_, .superstep hmain hrest hplain (releases_released _), ?_⟩
        rw [hmain]
        nofun
  · obtain ⟨hsole, -, hcount⟩ := ht.waiting hunique haccept hmain
    exact ⟨_, .submit hmain hcount hsole (releases_released _), nofun⟩

theorem accepted_agents (haccept : hostNativeAgentPhases c = .ok agents) : agents = c.nodes.filter isAgent := by
  unfold hostNativeAgentPhases at haccept
  dsimp only at haccept
  split_ifs at haccept
  · exact (Except.ok.inj haccept).symm
  · split at haccept
    · cases haccept
    · exact (Except.ok.inj haccept).symm

theorem executed_all (hunique : (c.phases.map PhaseTopologyRef.name).Nodup)
    (hnodes : (c.nodes.map PhaseDocument.phaseName).Perm (c.phases.map PhaseTopologyRef.name))
    (haccept : hostNativeAgentPhases c = .ok agents) (ht : Tracks c agents l)
    (hall : l.steps.flatten.Perm (c.phases.map PhaseTopologyRef.name)) : l.executed.Perm (agentNames agents) := by
  have hsub : (agentNames agents).Sublist (c.nodes.map PhaseDocument.phaseName) := by
    rw [agentNames, accepted_agents haccept]
    exact List.filter_sublist.map _
  apply (List.perm_ext_iff_of_nodup (ht.executed_nodup hunique) (hsub.nodup (hnodes.nodup_iff.mpr hunique))).mpr
  intro b
  rw [ht.executed, List.mem_filter, decide_eq_true_eq]
  constructor
  · exact And.right
  · intro hb
    exact ⟨hall.symm.subset (hnodes.subset (hsub.subset hb)), hb⟩

/-- In a run of the loop that is not interrupted, every agent phase is executed at most once, when nothing else is due,
and exactly once in a run that completes. The count of the loop is never exceeded, and only a failure stops a run. -/
theorem loop_executes_agents_once (hunique : (c.phases.map PhaseTopologyRef.name).Nodup)
    (hvalid : (validateGraphTopology c.phases physical).2 = [])
    (hnodes : (c.nodes.map PhaseDocument.phaseName).Perm (c.phases.map PhaseTopologyRef.name))
    (haccept : hostNativeAgentPhases c = .ok agents) {k : ℕ} (h : Run c agents k l) :
    l.main ≠ .protocolLoop ∧ k ≤ 2 * c.phases.length + 2 ∧ l.executed.Nodup ∧
    (∀ phaseId, l.main = .agentRequired phaseId → l.graph.active = [phaseId] ∧ phaseId ∉ l.executed) ∧
    (l.main = .completed → l.steps.flatten.Perm (c.phases.map PhaseTopologyRef.name) ∧
      l.executed.Perm (agentNames agents)) ∧
    (l.main = .completed ∨ l.main = .failed ∨ ∃ l', Step c agents l l' ∧ l'.main ≠ .failed) := by
  have ht := h.tracks
  have hformed := (validateGraphTopology_diags hunique physical).mp hvalid
  refine ⟨h.not_exceeded hunique haccept, h.length_le hunique, ht.executed_nodup hunique, ?_, ?_, ?_⟩
  · intro phaseId hmain
    obtain ⟨hsole, hnew, -⟩ := ht.waiting hunique haccept hmain
    exact ⟨hsole, hnew⟩
  · intro hmain
    have hall := (assembled_rest_iff hunique hformed ht.runs).mp (ht.rest hmain)
    exact ⟨hall, executed_all hunique hnodes haccept ht hall⟩
  · cases hmain : l.main with
    | running => exact Or.inr (Or.inr (exists_step hunique haccept ht (Or.inl hmain)))
    | agentRequired phaseId => exact Or.inr (Or.inr (exists_step hunique haccept ht (Or.inr ⟨phaseId, hmain⟩)))
    | completed => exact Or.inl rfl
    | failed => exact Or.inr (Or.inl rfl)
    | protocolLoop => exact absurd hmain (h.not_exceeded hunique haccept)

/-! A story whose draft is written by code, and whose style and last version are written by agents. -/

def storyPhase (name : String) (mode : PhaseMode) : PhaseDocument := { hostDraft with phaseName := name, mode := mode }

def storyAgents : List PhaseDocument := [storyPhase "style" .agent, storyPhase "final" .agent]

def storyByCli : HostedSkill where
  rootGraphId := "story"
  registry := [("story", storyPhase "draft" .logic :: storyAgents)]
  nodes := storyPhase "draft" .logic :: storyAgents
  iterate := none
  phases := storyRefs

theorem storyRefs_comparable (a : String) (ha : a ∈ ["draft", "style", "final"]) : incomparable storyRefs a = [] := by
  have hdraft (b : String) (hb : b = "style" ∨ b = "final") : DependencyPath storyRefs "draft" b :=
    .single (storyRefs_dependsOn.mpr (.inl ⟨rfl, hb⟩))
  have hstyle : DependencyPath storyRefs "style" "final" := .single (storyRefs_dependsOn.mpr (.inr ⟨rfl, rfl⟩))
  apply List.filter_eq_nil_iff.mpr
  intro b hb
  have hb : b ∈ ["draft", "style", "final"] := hb
  simp only [mem_ancestorMap, decide_eq_true_eq]
  rintro ⟨hne, hnot, hnot'⟩
  simp only [List.mem_cons, List.not_mem_nil, or_false] at ha hb
  rcases ha with rfl | rfl | rfl <;> rcases hb with rfl | rfl | rfl
  · exact hne rfl
  · exact hnot' (hdraft _ (.inl rfl))
  · exact hnot' (hdraft _ (.inr rfl))
  · exact hnot (hdraft _ (.inl rfl))
  · exact hne rfl
  · exact hnot' hstyle
  · exact hnot (hdraft _ (.inr rfl))
  · exact hnot hstyle
  · exact hne rfl

theorem story_accepted : hostNativeAgentPhases storyByCli = .ok storyAgents := by
  have honce : ∀ doc ∈ storyAgents, doc.iterate = none := by
    intro doc hdoc
    rcases List.mem_pair.mp hdoc with rfl | rfl <;> rfl
  have hcomparable : ∀ doc ∈ storyAgents, incomparable storyByCli.phases doc.phaseName = [] := by
    intro doc hdoc
    rcases List.mem_pair.mp hdoc with rfl | rfl
    · exact storyRefs_comparable "style" (by decide)
    · exact storyRefs_comparable "final" (by decide)
  exact hostNativeAgentPhases_ok rfl rfl honce hcomparable

def storyStart : State String := ⟨["draft"], fun _ => []⟩

def storyStyled : State String := after storyStart ["style"]

def storyFinal : State String := after storyStyled ["final"]

theorem story_edges : assembledEdges storyByCli.phases =
    [.entry "draft", .trigger "draft" "style", .barrier ["draft", "style"] "final"] := rfl

theorem story_releases : Releases storyByCli storyStart ["style"] ∧ Releases storyByCli storyStyled ["final"] ∧
    Releases storyByCli storyFinal [] := by
  have hstyle : released (assembledEdges storyByCli.phases) storyStart = ["style"] := by
    rw [story_edges]
    decide
  have hfinal : released (assembledEdges storyByCli.phases) storyStyled = ["final"] := by
    rw [story_edges]
    decide
  have hrest : released (assembledEdges storyByCli.phases) storyFinal = [] := by
    rw [story_edges]
    decide
  exact ⟨releases_of_released hstyle, releases_of_released hfinal, releases_of_released hrest⟩

theorem story_run : Run storyByCli storyAgents 6
    ⟨[["draft"], ["style"], ["final"]], after storyFinal [], .completed, 2, ["style", "final"]⟩ := by
  obtain ⟨hstyle, hfinal, hrest⟩ := story_releases
  have hfirst : ∀ b, b ∈ ["draft"] ↔ Wire.entry b ∈ assembledEdges storyByCli.phases := by
    simp [story_edges]
  have hstart : Run storyByCli storyAgents 0 ⟨[], storyStart, .running, 0, []⟩ :=
    .start (List.nodup_singleton "draft") hfirst
  have hdrafted : Run storyByCli storyAgents 1 ⟨[["draft"]], storyStyled, .running, 0, []⟩ :=
    hstart.step (.superstep rfl (List.cons_ne_nil _ _) (by decide) hstyle)
  have hpaused := hdrafted.step (.pause rfl (List.mem_singleton_self "style") (by decide))
  have hwritten : Run storyByCli storyAgents 3 ⟨[["draft"], ["style"]], storyFinal, .running, 1, ["style"]⟩ :=
    hpaused.step (.submit rfl (by decide) rfl hfinal)
  have hlast := hwritten.step (.pause rfl (List.mem_singleton_self "final") (by decide))
  exact (hlast.step (.submit rfl (by decide) rfl hrest)).step (.complete rfl rfl)

theorem story_executed : ∃ l, Run storyByCli storyAgents 6 l ∧ l.main = .completed ∧
    l.steps = [["draft"], ["style"], ["final"]] ∧ l.executed.Perm ["style", "final"] := by
  have hvalid : (validateGraphTopology storyByCli.phases {"draft", "style", "final"}).2 = [] := storyRefs_valid
  have hexecuted := loop_executes_agents_once (by decide) hvalid (.refl _) story_accepted story_run
  exact ⟨_, story_run, rfl, rfl, (hexecuted.2.2.2.2.1 rfl).2⟩

end GraphSkillRuntime.CliLoop
