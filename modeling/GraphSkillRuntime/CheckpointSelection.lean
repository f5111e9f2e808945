import GraphSkillRuntime.DataflowSoundness

/-! Which checkpoint a resumed run starts from, and which phases a change makes stale. -/

namespace GraphSkillRuntime

open OrderedDict

/-- A compiled graph with the topological order that the compiler stored beside it. -/
structure OrderedGraph extends GraphDocument where
  order : List String
  mem_order : ∀ name, name ∈ order ↔ name ∈ refs.map PhaseTopologyRef.name

/-- The walk of `_ancestor_phases`; the entry point is not a phase. -/
def ancestorWalk (deps : Dict String (List String)) (queue ancestors : List String) : List String :=
  match queue with
  | [] => ancestors
  | dep :: queue =>
    if dep ∈ ancestors then ancestorWalk deps queue ancestors
    else ancestorWalk deps (queue ++ ((deps.get? dep).getD []).filter (· ≠ "input")) (ancestors ++ [dep])
termination_by ((unseen deps.keys ancestors).length, queue.length)
decreasing_by
  · exact Prod.Lex.right _ (by simp)
  · rename_i hnew
    rw [Prod.lex_def]
    by_cases hk : dep ∈ deps.keys
    · exact Or.inl (length_unseen_lt hk hnew)
    · have hnone : deps.get? dep = none := Dict.get?_eq_none.mpr hk
      rcases Nat.lt_or_eq_of_le (length_unseen_le deps.keys ancestors dep) with hlt | heq
      · exact Or.inl hlt
      · exact Or.inr ⟨heq, by simp [hnone]⟩

def ancestorPhases (refs : List PhaseTopologyRef) (phase : String) : List String :=
  ancestorWalk (dependsOnMap refs) ((((dependsOnMap refs).get? phase).getD []).filter (· ≠ "input")) []

/-- The phases that name `phase` in their `depends_on`. -/
def downstream (refs : List PhaseTopologyRef) (phase : String) : List String :=
  ((dependsOnMap refs).entries.filter (fun e => phase ≠ "input" && e.2.contains phase)).map Prod.fst

theorem downstream_nodup (refs : List PhaseTopologyRef) (phase : String) : (downstream refs phase).Nodup :=
  (dependsOnMap refs).nodup.sublist (List.filter_sublist.map Prod.fst)

theorem mem_downstream {refs : List PhaseTopologyRef} {phase child : String} :
    child ∈ downstream refs phase ↔ DependsOn refs phase child := by
  have hget : ∀ deps, (child, deps) ∈ (dependsOnMap refs).entries ↔ (dependsOnMap refs).get? child = some deps :=
    fun deps => Dict.get?_mem.symm
  simp only [downstream, DependsOn, List.mem_map, List.mem_filter, Prod.exists, exists_and_right, exists_eq_right,
    Bool.and_eq_true, List.contains_eq_mem, decide_eq_true_eq]
  constructor
  · rintro ⟨deps, hmem, hne, hphase⟩
    rw [(hget deps).mp hmem]
    exact ⟨by simpa using hne, hphase⟩
  · rintro ⟨hne, hphase⟩
    cases hdeps : (dependsOnMap refs).get? child with
    | none => simp [hdeps] at hphase
    | some deps =>
      rw [hdeps] at hphase
      exact ⟨deps, (hget deps).mpr hdeps, by simpa using hne, hphase⟩

theorem length_unseen_append {names seen new : List String} (hnames : names.Nodup) (hnodup : new.Nodup)
    (hnew : ∀ name ∈ new, name ∈ names ∧ name ∉ seen) :
    (unseen names (seen ++ new)).length + new.length ≤ (unseen names seen).length := by
  have hunseen : (unseen names (seen ++ new) ++ new).Nodup := by
    apply (hnames.filter _).append hnodup
    intro name hleft hright
    simp [hright] at hleft
  have hsub : unseen names (seen ++ new) ++ new ⊆ unseen names seen := by
    intro name hname
    rcases List.mem_append.mp hname with hname | hname
    · simp only [unseen, List.mem_filter, List.mem_append, not_or, decide_eq_true_eq] at hname ⊢
      exact ⟨hname.1, hname.2.1⟩
    · simpa [unseen] using hnew name hname
  simpa using (List.subperm_of_subset hunseen hsub).length_le

/-- The queue loop of `checkpoint_validity_by_phase`. -/
def spreadInvalid (refs : List PhaseTopologyRef) (queue invalid : List String) : List String :=
  match queue with
  | [] => invalid
  | phase :: queue =>
    let new := (downstream refs phase).filter (· ∉ invalid)
    spreadInvalid refs (queue ++ new) (invalid ++ new)
termination_by (unseen (dependsOnMap refs).keys invalid).length + queue.length
decreasing_by
  have hle := length_unseen_append (dependsOnMap refs).nodup ((downstream_nodup refs phase).filter (· ∉ invalid))
    (fun name hname => by
      obtain ⟨hmem, hnot⟩ := List.mem_filter.mp hname
      refine ⟨?_, by simpa using hnot⟩
      obtain ⟨e, he, rfl⟩ := List.mem_map.mp hmem
      exact List.mem_map_of_mem (List.mem_of_mem_filter he))
  simp only [List.length_append, List.length_cons, Dict.keys] at hle ⊢
  omega

def checkpointValidityByPhase (g : OrderedGraph) (dirtyPhaseIds : List String) : List (String × Bool) :=
  let dirty := dirtyPhaseIds.filter (· ≠ "")
  let invalid := spreadInvalid g.refs dirty dirty
  g.order.map (fun phase => (phase, phase ∉ invalid))

/-- A stored checkpoint of the root namespace. `runs` is not stored: the phases that have run in it, each with the
fields it wrote. -/
structure StoredCheckpoint where
  id : String
  state : WorkflowState
  runs : List (String × BusinessData)

def StoredCheckpoint.executed (c : StoredCheckpoint) : List String := c.runs.map Prod.fst

def StoredCheckpoint.has (c : StoredCheckpoint) (key : String) : Bool := c.state.data.contains key

def requiredOutputs (g : OrderedGraph) (phase : String) : List String :=
  (ancestorPhases g.refs phase).flatMap (phaseDeclaredOutputKeys g.docs)

def readyFor (g : OrderedGraph) (phase : String) (c : StoredCheckpoint) : Bool :=
  (requiredOutputs g phase).all c.has && !(phaseDeclaredOutputKeys g.docs phase).any c.has

def checkpointIdBeforePhase (g : OrderedGraph) (checkpoints : List StoredCheckpoint)
    (runId checkpointNs phaseId : String) :
    Except String String :=
  if phaseId ∉ g.order then
    .error ("Unknown phase '" ++ phaseId ++ "'; expected one of: " ++ ", ".intercalate g.order)
  else
    match checkpoints.find? (readyFor g phaseId) with
    | some c => .ok c.id
    | none => .error ("No checkpoint before phase '" ++ phaseId ++ "' found in namespace '" ++ checkpointNs ++
        "' for run_id '" ++ runId ++ "'")

/-- The checkpoints a run can have, newest first: a superstep runs phases all whose dependencies have run, and a
resumed run goes on from any earlier checkpoint, with overridden fields or without. -/
inductive History (V : Draft202012) (refs : List PhaseTopologyRef) : List StoredCheckpoint → Prop where
  | start (id : String) (state : WorkflowState) : History V refs [⟨id, state, []⟩]
  | step {checkpoints : List StoredCheckpoint} {parent : StoredCheckpoint} {phases : List Phase}
      {deltas : List PhaseDelta} (id : String) (h : History V refs checkpoints) (hparent : parent ∈ checkpoints)
      (hid : id ∉ checkpoints.map StoredCheckpoint.id)
      (hready : ∀ phase ∈ phases, phase.spec.phaseId ∉ parent.executed ∧
        ∀ dep, DependsOn refs dep phase.spec.phaseId → dep ∈ parent.executed)
      (hrun : runPhases V phases parent.state = .ok deltas) :
      History V refs (⟨id, foldDeltas parent.state deltas,
        parent.runs ++ (phases.map (fun phase => phase.spec.phaseId)).zip (deltas.map PhaseDelta.data)⟩ :: checkpoints)
  | override {checkpoints : List StoredCheckpoint} {parent : StoredCheckpoint} (id : String)
      (overrides : Dict String Value) (h : History V refs checkpoints) (hparent : parent ∈ checkpoints)
      (hid : id ∉ checkpoints.map StoredCheckpoint.id) :
      History V refs (⟨id, { parent.state with data := parent.state.data.update overrides }, parent.runs⟩ ::
        checkpoints)

section Walks

variable {refs : List PhaseTopologyRef}

theorem ancestorWalk_run (refs : List PhaseTopologyRef) (queue ancestors : List String) :
    Worklist.Run (dependencies refs) ⟨queue, ancestors.toFinset⟩
      ⟨0, (ancestorWalk (dependsOnMap refs) queue ancestors).toFinset⟩ := by
  fun_induction ancestorWalk (dependsOnMap refs) queue ancestors with
  | case1 ancestors => exact .refl
  | case2 ancestors dep queue hseen ih => exact .head (.skip_head hseen) ih
  | case3 ancestors dep queue hnew ih =>
    exact .head (.take_head hnew (fun x => mem_filter_dependencies) List.perm_append_comm) ih

theorem mem_ancestorPhases (a phase : String) : a ∈ ancestorPhases refs phase ↔ DependencyPath refs a phase := by
  rw [← List.mem_toFinset]
  exact mem_of_run (fun x => mem_filter_dependencies) (ancestorWalk_run refs _ []) a

theorem invalid_subset_spread (queue invalid : List String) :
    ∀ name ∈ invalid, name ∈ spreadInvalid refs queue invalid := by
  fun_induction spreadInvalid refs queue invalid with
  | case1 invalid => exact fun _ h => h
  | case2 invalid phase queue new ih => exact fun name hname => ih name (List.mem_append_left _ hname)

theorem spreadInvalid_sound {dirty : List String} (queue invalid : List String) (hqueue : queue ⊆ invalid)
    (hinvalid : ∀ name ∈ invalid, ∃ d ∈ dirty, Relation.ReflTransGen (DependsOn refs) d name) :
    ∀ name ∈ spreadInvalid refs queue invalid, ∃ d ∈ dirty, Relation.ReflTransGen (DependsOn refs) d name := by
  fun_induction spreadInvalid refs queue invalid with
  | case1 invalid => exact hinvalid
  | case2 invalid phase queue new ih =>
    apply ih
    · intro name hname
      rcases List.mem_append.mp hname with hname | hname
      · exact List.mem_append_left _ (hqueue (List.mem_cons_of_mem _ hname))
      · exact List.mem_append_right _ hname
    · intro name hname
      rcases List.mem_append.mp hname with hname | hname
      · exact hinvalid name hname
      · obtain ⟨d, hd, hpath⟩ := hinvalid phase (hqueue List.mem_cons_self)
        exact ⟨d, hd, hpath.tail (mem_downstream.mp (List.mem_of_mem_filter hname))⟩

theorem spreadInvalid_complete (queue invalid : List String) :
    ∀ name ∈ spreadInvalid refs queue invalid, name ∈ queue ∨ name ∉ invalid → ∀ child, DependsOn refs name child →
      child ∈ spreadInvalid refs queue invalid := by
  fun_induction spreadInvalid refs queue invalid with
  | case1 invalid => exact fun name hname hor => absurd hname (by simpa using hor)
  | case2 invalid phase queue new ih =>
    intro name hname hor child hchild
    by_cases hphase : name = phase
    · subst hphase
      apply invalid_subset_spread _ _ child
      by_cases hmem : child ∈ invalid
      · exact List.mem_append_left _ hmem
      · exact List.mem_append_right _ (List.mem_filter.mpr ⟨mem_downstream.mpr hchild, by simpa using hmem⟩)
    · apply ih name hname _ child hchild
      by_cases hnew : name ∈ new
      · exact .inl (List.mem_append_right _ hnew)
      · rcases hor with hqueue | hnot
        · exact .inl (List.mem_append_left _ ((List.mem_cons.mp hqueue).resolve_left hphase))
        · exact .inr (by simp [hnot, hnew])

theorem mem_spreadInvalid (dirty : List String) (name : String) :
    name ∈ spreadInvalid refs dirty dirty ↔ name ∈ dirty ∨ ∃ d ∈ dirty, DependencyPath refs d name := by
  constructor
  · intro hname
    obtain ⟨d, hd, hpath⟩ := spreadInvalid_sound dirty dirty (fun _ h => h) (fun d hd => ⟨d, hd, .refl⟩) name hname
    rcases Relation.reflTransGen_iff_eq_or_transGen.mp hpath with rfl | hpath
    · exact .inl hd
    · exact .inr ⟨d, hd, hpath⟩
  · have hclosed : ∀ name ∈ spreadInvalid refs dirty dirty, ∀ child, DependsOn refs name child →
        child ∈ spreadInvalid refs dirty dirty := fun name hname =>
      spreadInvalid_complete dirty dirty name hname (Decidable.em _)
    rintro (hname | ⟨d, hd, hpath⟩)
    · exact invalid_subset_spread dirty dirty name hname
    · induction hpath with
      | single hdep => exact hclosed d (invalid_subset_spread dirty dirty d hd) _ hdep
      | tail _ hdep ih => exact hclosed _ ih _ hdep

end Walks

/-! ### What the checkpoints of a run have in common -/

section Histories

variable {V : Draft202012} {refs : List PhaseTopologyRef} {checkpoints : List StoredCheckpoint}

theorem History.ids_nodup (h : History V refs checkpoints) : (checkpoints.map StoredCheckpoint.id).Nodup := by
  induction h with
  | start => simp
  | step id _ _ hid _ _ ih => exact List.nodup_cons.mpr ⟨hid, ih⟩
  | override id _ _ _ hid ih => exact List.nodup_cons.mpr ⟨hid, ih⟩

theorem History.executed_closed (h : History V refs checkpoints) :
    ∀ c ∈ checkpoints, ∀ phase ∈ c.executed, ∀ dep, DependsOn refs dep phase → dep ∈ c.executed := by
  induction h with
  | start => simp [StoredCheckpoint.executed]
  | @step checkpoints parent phases deltas id _ hparent _ hready _ ih =>
    intro c hc
    rcases List.mem_cons.mp hc with rfl | hc
    · intro phase hphase dep hdep
      have hgrown : ∀ name ∈ parent.executed, name ∈ (parent.runs ++
          (phases.map (fun phase => phase.spec.phaseId)).zip (deltas.map PhaseDelta.data)).map Prod.fst := by
        intro name hname
        rw [List.map_append]
        exact List.mem_append_left _ hname
      apply hgrown
      simp only [StoredCheckpoint.executed, List.map_append, List.mem_append] at hphase
      rcases hphase with hphase | hphase
      · exact ih parent hparent phase hphase dep hdep
      · obtain ⟨run, hrun, rfl⟩ := List.mem_map.mp hphase
        obtain ⟨ready, hmem, hname⟩ := List.mem_map.mp (List.of_mem_zip hrun).1
        exact (hready ready hmem).2 dep (hname ▸ hdep)
    · exact ih c hc
  | @override checkpoints parent id overrides _ hparent _ ih =>
    intro c hc
    rcases List.mem_cons.mp hc with rfl | hc
    · exact ih parent hparent
    · exact ih c hc

theorem History.executed_path (h : History V refs checkpoints) {c : StoredCheckpoint} (hc : c ∈ checkpoints)
    {a phase : String} (hpath : DependencyPath refs a phase) (hphase : phase ∈ c.executed) : a ∈ c.executed := by
  induction hpath using Relation.TransGen.head_induction_on with
  | single hdep => exact h.executed_closed c hc phase hphase _ hdep
  | head hdep _ ih => exact h.executed_closed c hc _ ih _ hdep

theorem runPhases_length {phases : List Phase} {state : WorkflowState} {deltas : List PhaseDelta}
    (h : runPhases V phases state = .ok deltas) : deltas.length = phases.length := by
  induction phases generalizing deltas with
  | nil =>
    rw [runPhases] at h
    obtain rfl := Except.ok.inj h
    rfl
  | cons phase phases ih =>
    rw [runPhases] at h
    obtain ⟨delta, -, h⟩ := bind_ok h
    obtain ⟨deltas, hds, h⟩ := bind_ok h
    obtain rfl := Except.ok.inj h
    rw [List.length_cons, List.length_cons, ih hds]

theorem History.holds_writes (h : History V refs checkpoints)
    (hinputs : ∀ c ∈ checkpoints, ∀ run ∈ c.runs, run.2.contains "inputs" = false) :
    ∀ c ∈ checkpoints, ∀ run ∈ c.runs, ∀ key, key ≠ "phase_outputs" → run.2.contains key = true → c.has key = true := by
  induction h with
  | start => simp
  | @step checkpoints parent phases deltas id _ hparent _ _ hrun ih =>
    have hold := ih (fun c hc => hinputs c (List.mem_cons_of_mem _ hc))
    intro c hc
    rcases List.mem_cons.mp hc with rfl | hc
    · have hdata : ((phases.map (fun phase => phase.spec.phaseId)).zip (deltas.map PhaseDelta.data)).map Prod.snd =
          deltas.map PhaseDelta.data := by
        apply List.map_snd_zip
        rw [List.length_map, List.length_map, runPhases_length hrun]
      have hnew : ∀ delta ∈ deltas, delta.data.contains "inputs" = false := by
        intro delta hdelta
        have hmem := List.mem_map_of_mem hdelta (f := PhaseDelta.data)
        rw [← hdata] at hmem
        obtain ⟨run, hmem, heq⟩ := List.mem_map.mp hmem
        rw [← heq]
        exact hinputs _ List.mem_cons_self run (List.mem_append_right _ hmem)
      obtain ⟨hkeep, hwritten⟩ := @foldDeltas_fields parent.state deltas hnew
      intro run hmem key hkey hcontains
      rcases List.mem_append.mp hmem with hmem | hmem
      · exact hkeep key (hold parent hparent run hmem key hkey hcontains)
      · obtain ⟨delta, hdelta, heq⟩ := List.mem_map.mp (List.of_mem_zip hmem).2
        exact hwritten delta hdelta key hkey (heq ▸ hcontains)
    · exact hold c hc
  | @override checkpoints parent id overrides _ hparent _ ih =>
    have hold := ih (fun c hc => hinputs c (List.mem_cons_of_mem _ hc))
    intro c hc
    rcases List.mem_cons.mp hc with rfl | hc
    · intro run hmem key hkey hcontains
      exact keeps_update _ _ key (hold parent hparent run hmem key hkey hcontains)
    · exact hold c hc

end Histories

section Selection

variable (g : OrderedGraph) (phase : String)

/-- Taken after the ancestors of the phase and before the phase itself. -/
def Between (c : StoredCheckpoint) : Prop :=
  (∀ a, DependencyPath g.refs a phase → a ∈ c.executed) ∧ phase ∉ c.executed

def HasFields (c : StoredCheckpoint) : Prop :=
  (∀ a, DependencyPath g.refs a phase → ∀ key ∈ phaseDeclaredOutputKeys g.docs a, c.has key = true) ∧
    ∀ key ∈ phaseDeclaredOutputKeys g.docs phase, c.has key = false

def SelectsBefore (checkpoints : List StoredCheckpoint) (runId checkpointNs : String) : Prop :=
  ∃ c ∈ checkpoints, checkpointIdBeforePhase g checkpoints runId checkpointNs phase = .ok c.id ∧
    (∀ a, DependencyPath g.refs a phase → a ∈ c.executed) ∧
    (∀ run ∈ c.runs, DependencyPath g.refs run.1 phase → ∀ key, key ≠ "phase_outputs" →
      run.2.contains key = true → c.has key = true) ∧
    phase ∉ c.executed ∧ ∀ d, DependencyPath g.refs phase d → d ∉ c.executed

/-- A phase is marked invalid just when it is dirty or depends on a dirty phase. -/
def ValidityExact : Prop :=
  ∀ dirtyPhaseIds : List String, ∀ name ∈ g.order, ∃ valid, (name, valid) ∈ checkpointValidityByPhase g dirtyPhaseIds ∧
    (valid = false ↔ ∃ d ∈ dirtyPhaseIds, d ≠ "" ∧ (name = d ∨ DependencyPath g.refs d name))

/-- Some checkpoint between the ancestors and the phase has the right fields, and no newer one that is not between
them looks as if it were. -/
def Selectable (checkpoints : List StoredCheckpoint) : Prop :=
  ∃ newer c older, checkpoints = newer ++ c :: older ∧ Between g phase c ∧ HasFields g phase c ∧
    ∀ c' ∈ newer, HasFields g phase c' → Between g phase c'

variable {g phase}

theorem readyFor_iff (c : StoredCheckpoint) : readyFor g phase c = true ↔ HasFields g phase c := by
  simp only [readyFor, HasFields, requiredOutputs, Bool.and_eq_true, List.all_eq_true, List.mem_flatMap,
    mem_ancestorPhases, Bool.not_eq_true', List.any_eq_false, Bool.not_eq_true]
  constructor
  · rintro ⟨hrequired, hforbidden⟩
    exact ⟨fun a ha key hkey => hrequired key ⟨a, ha, hkey⟩, hforbidden⟩
  · rintro ⟨hrequired, hforbidden⟩
    exact ⟨fun key ⟨a, ha, hkey⟩ => hrequired a ha key hkey, hforbidden⟩

theorem selectable_iff (checkpoints : List StoredCheckpoint) :
    Selectable g phase checkpoints ↔ ∃ c, checkpoints.find? (readyFor g phase) = some c ∧ Between g phase c := by
  constructor
  · rintro ⟨newer, c, older, rfl, hbetween, hfields, hnewer⟩
    rw [List.find?_append]
    cases hfind : newer.find? (readyFor g phase) with
    | none => exact ⟨c, by simp [(readyFor_iff c).mpr hfields], hbetween⟩
    | some c' =>
      have hfields' := (readyFor_iff c').mp (List.find?_some hfind)
      exact ⟨c', rfl, hnewer c' (List.mem_of_find?_eq_some hfind) hfields'⟩
  · rintro ⟨c, hfind, hbetween⟩
    obtain ⟨hready, newer, older, rfl, hnewer⟩ := List.find?_eq_some_iff_append.mp hfind
    refine ⟨newer, c, older, rfl, hbetween, (readyFor_iff c).mp hready, fun c' hc' hfields => ?_⟩
    have hnot := hnewer c' hc'
    rw [(readyFor_iff c').mpr hfields] at hnot
    exact absurd hnot (by decide)

theorem validityExact (g : OrderedGraph) : ValidityExact g := by
  intro dirtyPhaseIds name hname
  refine ⟨_, List.mem_map_of_mem hname, ?_⟩
  rw [decide_eq_false_iff_not, not_not, mem_spreadInvalid]
  simp only [List.mem_filter, decide_eq_true_eq]
  constructor
  · rintro (⟨hmem, hne⟩ | ⟨d, ⟨hmem, hne⟩, hpath⟩)
    · exact ⟨name, hmem, hne, .inl rfl⟩
    · exact ⟨d, hmem, hne, .inr hpath⟩
  · rintro ⟨d, hmem, hne, rfl | hpath⟩
    · exact .inl ⟨hmem, hne⟩
    · exact .inr ⟨d, ⟨hmem, hne⟩, hpath⟩

end Selection

theorem resume_selection_iff {V : Draft202012} (g : OrderedGraph) {checkpoints : List StoredCheckpoint}
    (hhistory : History V g.refs checkpoints)
    (hinputs : ∀ c ∈ checkpoints, ∀ run ∈ c.runs, run.2.contains "inputs" = false) (runId checkpointNs : String)
    {phase : String} (hphase : phase ∈ g.order) :
    SelectsBefore g phase checkpoints runId checkpointNs ∧ ValidityExact g ↔ Selectable g phase checkpoints := by
  have hselect : ∀ c, checkpoints.find? (readyFor g phase) = some c →
      checkpointIdBeforePhase g checkpoints runId checkpointNs phase = .ok c.id := by
    intro c hfind
    simp [checkpointIdBeforePhase, hphase, hfind]
  rw [selectable_iff]
  constructor
  · rintro ⟨⟨c, hc, hid, hancestors, -, hnot, -⟩, -⟩
    cases hfind : checkpoints.find? (readyFor g phase) with
    | none => simp [checkpointIdBeforePhase, hphase, hfind] at hid
    | some c' =>
      rw [hselect c' hfind] at hid
      have hsame : c' = c := List.inj_on_of_nodup_map hhistory.ids_nodup (List.mem_of_find?_eq_some hfind) hc
        (Except.ok.inj hid)
      exact ⟨c', rfl, hsame ▸ ⟨hancestors, hnot⟩⟩
  · rintro ⟨c, hfind, hancestors, hnot⟩
    have hc := List.mem_of_find?_eq_some hfind
    refine ⟨⟨c, hc, hselect c hfind, hancestors, ?_, hnot, ?_⟩, validityExact g⟩
    · exact fun run hrun _ => hhistory.holds_writes hinputs c hc run hrun
    · exact fun d hpath hd => hnot (hhistory.executed_path hc hpath hd)

def polishDoc (field : String) : PhaseDocument where
  phaseName := "polish"
  mode := .logic
  inputs := requiringSchema ["draft"]
  outputs := requiringSchema [field]
  allowSequentialOverwrite := ["draft"]
  inputs_object := rfl
  outputs_object := rfl

def polishedGraph (field : String) : OrderedGraph where
  refs := [⟨"draft", ["input"], false⟩, ⟨"polish", ["draft"], true⟩]
  docs := [draftDoc, polishDoc field]
  refs_unique := by decide
  docs_unique := by simp [draftDoc, polishDoc]
  docs_listed := by simp [draftDoc, polishDoc]
  order := ["draft", "polish"]
  mem_order := by simp

def topicState : WorkflowState := { emptyState with data := Dict.single "topic" (.str "tides") }

def draftedCheckpoint (delta : PhaseDelta) : StoredCheckpoint :=
  ⟨"2", foldDeltas topicState [delta], [("draft", delta.data)]⟩

section Polished

variable {field : String}

theorem polished_ancestor {a : String} (h : DependencyPath (polishedGraph field).refs a "polish") : a = "draft" := by
  have hfirst : ∀ b, ¬ DependsOn (polishedGraph field).refs b "draft" :=
    fun b hdep => hdep.1 (List.mem_singleton.mp hdep.2)
  cases h with
  | single hdep => exact List.mem_singleton.mp hdep.2
  | tail hpath hdep =>
    rw [List.mem_singleton.mp hdep.2] at hpath
    cases hpath with
    | single hdep => exact absurd hdep (hfirst _)
    | tail _ hdep => exact absurd hdep (hfirst _)

theorem polished_depends : DependencyPath (polishedGraph field).refs "draft" "polish" :=
  .single ⟨by decide, List.mem_singleton.mpr rfl⟩

theorem drafted_between (delta : PhaseDelta) : Between (polishedGraph field) "polish" (draftedCheckpoint delta) := by
  constructor
  · intro a ha
    rw [polished_ancestor ha]
    exact List.mem_singleton.mpr rfl
  · intro hmem
    have heq : "polish" = "draft" := List.mem_singleton.mp hmem
    exact absurd heq (by decide)

theorem draft_history (field : String) : ∃ delta : PhaseDelta, delta.data.contains "inputs" = false ∧
    (draftedCheckpoint delta).has "draft" = true ∧ (draftedCheckpoint delta).has "polished" = false ∧
    History acceptingValidator (polishedGraph field).refs [draftedCheckpoint delta, ⟨"1", topicState, []⟩] := by
  refine ⟨_, ?_, ?_, ?_, @History.step _ _ _ _ [draftPhase] _ "2" (.start "1" topicState) List.mem_cons_self
    (by decide) ?_ rfl⟩
  · rfl
  · rfl
  · rfl
  · intro phase hphase
    obtain rfl := List.mem_singleton.mp hphase
    refine ⟨by simp [StoredCheckpoint.executed], ?_⟩
    rintro dep ⟨hne, hdep⟩
    exact absurd (List.mem_singleton.mp hdep) hne

end Polished

theorem resume_selection_polished : ∃ checkpoints,
    History acceptingValidator (polishedGraph "polished").refs checkpoints ∧
    SelectsBefore (polishedGraph "polished") "polish" checkpoints "run-1" "" ∧
    ValidityExact (polishedGraph "polished") := by
  obtain ⟨delta, hinputs, hdraft, hpolished, hhistory⟩ := draft_history "polished"
  refine ⟨_, hhistory, (resume_selection_iff _ hhistory ?_ "run-1" "" (by decide)).mpr ?_⟩
  · intro c hc run hrun
    rcases List.mem_pair.mp hc with rfl | rfl
    · rw [List.mem_singleton.mp hrun]
      exact hinputs
    · cases hrun
  · refine ⟨[], _, _, rfl, drafted_between delta, ⟨?_, ?_⟩, by simp⟩
    · intro a ha key hkey
      rw [polished_ancestor ha] at hkey
      rw [List.mem_singleton.mp hkey]
      exact hdraft
    · intro key hkey
      rw [List.mem_singleton.mp hkey]
      exact hpolished

/-- Before a phase that overwrites a field of an earlier one, no checkpoint is found. -/
theorem overwriting_phase_has_no_checkpoint : ∃ checkpoints c,
    History acceptingValidator (polishedGraph "draft").refs checkpoints ∧ c ∈ checkpoints ∧
    Between (polishedGraph "draft") "polish" c ∧
      ¬ SelectsBefore (polishedGraph "draft") "polish" checkpoints "run-1" "" := by
  obtain ⟨delta, -, -, -, hhistory⟩ := draft_history "draft"
  refine ⟨_, _, hhistory, List.mem_cons_self, drafted_between delta, ?_⟩
  rintro ⟨c, -, hid, -⟩
  have hnone : ∀ checkpoints : List StoredCheckpoint,
      checkpoints.find? (readyFor (polishedGraph "draft") "polish") = none := by
    intro checkpoints
    rw [List.find?_eq_none]
    intro c _ hready
    obtain ⟨hrequired, hforbidden⟩ := (readyFor_iff c).mp hready
    have hhas := hrequired "draft" polished_depends "draft" (List.mem_singleton.mpr rfl)
    rw [hforbidden "draft" (List.mem_singleton.mpr rfl)] at hhas
    cases hhas
  have horder : "polish" ∈ (polishedGraph "draft").order := by decide
  simp [checkpointIdBeforePhase, horder, hnone] at hid

end GraphSkillRuntime
