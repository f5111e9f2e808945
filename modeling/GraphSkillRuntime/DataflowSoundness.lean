import GraphSkillRuntime.PhaseEntries
import GraphSkillRuntime.ParallelWriters

namespace GraphSkillRuntime

open OrderedDict Runs

/-! A graph that passes the dataflow check finds its fields at run time. -/

section Deltas

variable {V : Draft202012} {state : WorkflowState} {delta : PhaseDelta}

theorem merge_fields (current : BusinessData) {delta : Dict String Value} (h : delta.contains "inputs" = false) :
    Keeps current (mergeBusinessChannel current (.delta delta)) ∧
      ∀ k, k ≠ "phase_outputs" → delta.contains k = true →
        (mergeBusinessChannel current (.delta delta)).contains k = true := by
  have hmerged : Keeps (current.update (delta.erase "phase_outputs"))
      (mergeBusinessChannel current (.delta delta)) := by
    unfold mergeBusinessChannel
    simp only [h, Bool.false_eq_true, ↓reduceIte]
    split
    · exact keeps_update _ _
    · exact Keeps.refl _
  refine ⟨(keeps_update _ _).trans hmerged, ?_⟩
  intro k hk hd
  apply hmerged
  have herase : (delta.erase "phase_outputs").contains k = true := by
    simpa [Dict.contains, hk] using hd
  rw [Dict.contains_update, herase, Bool.true_or]

theorem foldDeltas_fields {deltas : List PhaseDelta}
    (h : ∀ delta ∈ deltas, delta.data.contains "inputs" = false) :
    Keeps state.data (foldDeltas state deltas).data ∧
      ∀ delta ∈ deltas, ∀ k, k ≠ "phase_outputs" → delta.data.contains k = true →
        (foldDeltas state deltas).data.contains k = true := by
  induction deltas generalizing state with
  | nil => exact ⟨Keeps.refl _, by simp⟩
  | cons first deltas ih =>
    obtain ⟨hkeep, hwritten⟩ := merge_fields state.data (h first (List.mem_cons_self ..))
    obtain ⟨hrest, hall⟩ := @ih (applyDelta state first.data first.flow)
      (fun delta hd => h delta (List.mem_cons_of_mem _ hd))
    refine ⟨hkeep.trans hrest, ?_⟩
    intro delta hd k hk hc
    rcases List.mem_cons.mp hd with rfl | hd
    · exact hrest k (hwritten k hk hc)
    · exact hall delta hd k hk hc

theorem runPhases_mem {phases : List Phase} {deltas : List PhaseDelta}
    (h : runPhases V phases state = .ok deltas) :
    (∀ phase ∈ phases, ∃ delta ∈ deltas, phase.run V state = .ok delta) ∧
      ∀ delta ∈ deltas, ∃ phase ∈ phases, phase.run V state = .ok delta := by
  induction phases generalizing deltas with
  | nil =>
    rw [runPhases] at h
    obtain rfl := Except.ok.inj h
    simp
  | cons phase phases ih =>
    rw [runPhases] at h
    obtain ⟨delta, hd, h⟩ := bind_ok h
    obtain ⟨deltas, hds, h⟩ := bind_ok h
    obtain rfl := Except.ok.inj h
    obtain ⟨hphases, hdeltas⟩ := ih hds
    constructor
    · intro p hp
      rcases List.mem_cons.mp hp with rfl | hp
      · exact ⟨delta, List.mem_cons_self .., hd⟩
      · obtain ⟨d, hm, hr⟩ := hphases p hp
        exact ⟨d, List.mem_cons_of_mem _ hm, hr⟩
    · intro d hm
      rcases List.mem_cons.mp hm with rfl | hm
      · exact ⟨phase, List.mem_cons_self .., hd⟩
      · obtain ⟨p, hp, hr⟩ := hdeltas d hm
        exact ⟨p, List.mem_cons_of_mem _ hp, hr⟩

def Phase.node (V : Draft202012) : Phase → PhaseNode
  | .leaf spec node => node.node spec.outputSchema
  | .subgraph _ frame steps => subgraphNode (frame.invoke (runSteps V steps))

theorem Phase.run_eq (phase : Phase) (state : WorkflowState) :
    phase.run V state = phase.spec.run V (phase.node V) state := by
  cases phase <;> (rw [Phase.run]; rfl)

theorem PhaseSpec.loop_writes {spec : PhaseSpec} {node : PhaseNode} {iterate : IterateSpec}
    {accumulate : IterateAccumulateSpec} (hi : spec.iterate = some iterate)
    (hm : iterate.mode = .loop accumulate) (h : spec.run V node state = .ok delta) :
    delta.data.contains accumulate.var = true := by
  simp only [run, hi, iteratePhase, hm] at h
  obtain ⟨_, -, h⟩ := bind_ok h
  obtain ⟨_, -, h⟩ := bind_ok h
  obtain ⟨last, -, h⟩ := bind_ok h
  obtain rfl := Except.ok.inj h
  rw [Dict.contains, phaseOutputsDelta_single _ accumulate.var, get?_phaseDataDelta]
  split <;> simp

end Deltas

def PhaseSpec.declaredOutputs (spec : PhaseSpec) : List String :=
  match spec.iterate.map IterateSpec.mode with
  | some (.loop _) => []
  | _ => schemaProperties spec.outputSchema

structure PhaseSpec.WritesDeclared (spec : PhaseSpec) (delta : PhaseDelta) : Prop where
  declared : ∀ key ∈ spec.declaredOutputs, delta.data.contains key = true
  no_inputs : delta.data.contains "inputs" = false

def StepWritesDeclared (V : Draft202012) (state : WorkflowState) (step : List Phase) : Prop :=
  ∀ phase ∈ step, ∀ delta, phase.run V state = .ok delta → phase.spec.WritesDeclared delta

section Steps

variable {V : Draft202012} {state t : WorkflowState}

theorem superstep_fields {step : List Phase} (hg : StepWritesDeclared V state step)
    (h : superstep V state step = some t) :
    Keeps state.data t.data ∧ ∀ phase ∈ step, ∃ delta, phase.run V state = .ok delta ∧
      phase.spec.WritesDeclared delta ∧
      ∀ k, k ≠ "phase_outputs" → delta.data.contains k = true → t.data.contains k = true := by
  obtain ⟨deltas, hd, rfl⟩ := superstep_some h
  obtain ⟨hphases, hdeltas⟩ := runPhases_mem hd
  have hin : ∀ delta ∈ deltas, delta.data.contains "inputs" = false := by
    intro delta hm
    obtain ⟨phase, hp, hr⟩ := hdeltas delta hm
    exact (hg phase hp delta hr).no_inputs
  obtain ⟨hkeep, hwritten⟩ := foldDeltas_fields hin
  refine ⟨hkeep, ?_⟩
  intro phase hp
  obtain ⟨delta, hm, hr⟩ := hphases phase hp
  exact ⟨delta, hr, hg phase hp delta hr, hwritten delta hm⟩

theorem run_keeps {steps : List (List Phase)} (h : Run (superstep V) (StepWritesDeclared V) state steps t) :
    Keeps state.data t.data :=
  h.invariant (I := fun u => Keeps state.data u.data)
    (fun _ _ _ hs hg hstep => hs.trans (superstep_fields hg hstep).1) (Keeps.refl _)

end Steps

def phaseIds (steps : List (List Phase)) : List String := steps.flatten.map (fun phase => phase.spec.phaseId)

structure Assembled (g : SkillDocument) (config : Option RuntimeConfig) (phase : Phase)
    (doc : PhaseDocument) : Prop where
  listed : doc ∈ g.docs
  spec : ∃ code : PhaseCode doc, phase.spec = doc.spec code ∧
    code.inputFiles = runtimeInputFileSpecs config doc.phaseName

/-- An order of supersteps in which each phase comes after the phases it depends on. -/
structure Schedule (g : SkillDocument) (config : Option RuntimeConfig) where
  steps : List (List Phase)
  assembled : ∀ step ∈ steps, ∀ phase ∈ step, ∃ doc, Assembled g config phase doc
  after_deps : ∀ past step rest, steps = past ++ step :: rest → ∀ phase ∈ step,
    ∀ dep ∈ phaseDeps g.refs phase.spec.phaseId, dep ≠ "input" → dep ∈ phaseIds past
  outputs_run : ∀ name ∈ outputPhases g.refs, name ∈ phaseIds steps

structure BareField (name : String) : Prop where
  undotted : Undotted name
  business : name ≠ "phase_outputs"

instance (name : String) : Decidable (BareField name) :=
  decidable_of_iff (Undotted name ∧ name ≠ "phase_outputs") ⟨fun h => ⟨h.1, h.2⟩, fun h => ⟨h.1, h.2⟩⟩

def StateMapper.requireNestedInputs (m : StateMapper) (phaseInput : WorkflowState) : Except MapperError Unit :=
  match (missingRequiredInputs phaseInput.data m.inputSchema).filter (¬ BareField ·) with
  | [] => .ok ()
  | path :: rest => .error (.fatal
      ("phase required input fields missing from blackboard: " ++ ", ".intercalate (path :: rest))
      mappingFailed (some m.phaseId) (some path))

def PhaseWrapper.wrapNested (w : PhaseWrapper) (V : Draft202012) (node : PhaseNode) (executionId : String)
    (state : WorkflowState) : Except MapperError PhaseDelta :=
  asFatal do
    let phaseInput := w.mapper.selectDeclaredInputs state
    w.mapper.requireNestedInputs phaseInput
    let result ← node phaseInput
    w.mapper.wrapPhaseOutput V (w.hooks executionId state) state result

def PhaseSpec.nestedRunner (spec : PhaseSpec) (V : Draft202012) (node : PhaseNode) : IndexedNode :=
  fun index state => do
    let state ← injectDeclaredInputFiles spec.phaseId spec.inputFiles state
    spec.wrapper.wrapNested V node (spec.executionId index) state

theorem StateMapper.requireNestedInputs_eq {m : StateMapper} {phaseInput : WorkflowState}
    (h : ∀ path ∈ missingRequiredInputs phaseInput.data m.inputSchema, ¬ BareField path) :
    m.requireNestedInputs phaseInput = m.requireDeclaredInputs phaseInput := by
  have hfilter : (missingRequiredInputs phaseInput.data m.inputSchema).filter (¬ BareField ·) =
      missingRequiredInputs phaseInput.data m.inputSchema :=
    List.filter_eq_self.mpr (fun path hm => by simpa using h path hm)
  rw [requireNestedInputs, hfilter]
  rfl

/-- The fields that the check counts on once the phases `done` have run are on the blackboard. -/
structure Present (g : SkillDocument) (availableAfter : Dict String (List String)) (done : List String)
    (data : BusinessData) : Prop where
  root : ∀ key ∈ schemaProperties (some g.rootInputs), data.contains key = true
  vars : ∀ key, Undotted key → iterateSpecSuppliesField g.iterate key = true → data.contains key = true
  written : ∀ name ∈ done, ∀ key ∈ (availableAfter.get? name).getD [], BareField key →
    data.contains key = true

section Soundness

variable {V : Draft202012} {g : SkillDocument} {config : Option RuntimeConfig}
  {availableAfter : Dict String (List String)} {done : List String} {data data' : BusinessData}
  {phase : Phase} {doc : PhaseDocument} {available : List String} {state t : WorkflowState}

theorem Assembled.phaseId (h : Assembled g config phase doc) : phase.spec.phaseId = doc.phaseName := by
  obtain ⟨code, hs, -⟩ := h.spec
  rw [hs]
  rfl

theorem Present.keeps (h : Present g availableAfter done data) (hk : Keeps data data') :
    Present g availableAfter done data' where
  root key hm := hk key (h.root key hm)
  vars key hu hs := hk key (h.vars key hu hs)
  written name hn key hm hb := hk key (h.written name hn key hm hb)

theorem Present.upstream (h : Present g availableAfter done data)
    (hs : g.PhaseSupplied (runtimeInputFieldsFromConfig config) availableAfter doc available)
    (hdeps : ∀ dep ∈ phaseDeps g.refs doc.phaseName, dep ≠ "input" → dep ∈ done) {key : String}
    (hk : key ∈ available) (hb : BareField key) : data.contains key = true := by
  obtain ⟨dep, hd, hp⟩ := hs.upstream key hk
  unfold SkillDocument.providedBy at hp
  split_ifs at hp with hinput
  · exact h.root key ((mem_schemaPropertyPaths hb.undotted).mp hp)
  · exact h.written dep (hdeps dep hd hinput) key hp hb

theorem Assembled.writes (h : Assembled g config phase doc) {delta : PhaseDelta}
    (hr : phase.run V state = .ok delta) (hw : phase.spec.WritesDeclared delta) {key : String}
    (hk : key ∈ phaseBlackboardOutputKeys doc) (hu : Undotted key) : delta.data.contains key = true := by
  obtain ⟨code, hs, -⟩ := h.spec
  rw [Phase.run_eq] at hr
  have hdecl := hw.declared
  rw [hs] at hr hdecl
  unfold phaseBlackboardOutputKeys at hk
  simp only [PhaseSpec.declaredOutputs, PhaseDocument.spec] at hdecl
  cases hi : doc.iterate with
  | none =>
    simp only [hi, Option.map_none] at hk hdecl
    exact hdecl key ((mem_schemaPropertyPaths hu).mp hk)
  | some iterate =>
    cases hm : iterate.mode with
    | batch =>
      simp only [hi, Option.map_some, hm] at hk hdecl
      exact hdecl key ((mem_schemaPropertyPaths hu).mp hk)
    | loop accumulate =>
      simp only [hi, Option.map_some, hm, List.mem_singleton] at hk
      rw [hk]
      exact PhaseSpec.loop_writes hi hm hr

theorem Present.step {step : List Phase}
    (hsup : ∀ doc ∈ g.docs, ∃ available,
      g.PhaseSupplied (runtimeInputFieldsFromConfig config) availableAfter doc available)
    (hassembled : ∀ phase ∈ step, ∃ doc, Assembled g config phase doc)
    (hdeps : ∀ phase ∈ step, ∀ dep ∈ phaseDeps g.refs phase.spec.phaseId, dep ≠ "input" → dep ∈ done)
    (hp : Present g availableAfter done state.data) (hg : StepWritesDeclared V state step)
    (h : superstep V state step = some t) :
    Present g availableAfter (done ++ step.map (fun phase => phase.spec.phaseId)) t.data := by
  obtain ⟨hkeep, hwritten⟩ := superstep_fields hg h
  have hkept := hp.keeps hkeep
  refine ⟨hkept.root, hkept.vars, ?_⟩
  intro name hn key hk hb
  rcases List.mem_append.mp hn with hn | hn
  · exact hkept.written name hn key hk hb
  · obtain ⟨phase, hm, rfl⟩ := List.mem_map.mp hn
    obtain ⟨doc, hdoc⟩ := hassembled phase hm
    obtain ⟨available, hs⟩ := hsup doc hdoc.listed
    have hd := hdeps phase hm
    rw [hdoc.phaseId] at hk hd
    rw [hs.after, Option.getD_some, List.mem_append] at hk
    rcases hk with hk | hk
    · exact hkeep key (hp.upstream hs hd hk hb)
    · obtain ⟨delta, hr, hw, hcontains⟩ := hwritten phase hm
      exact hcontains key hb.business (hdoc.writes hr hw hk hb.undotted)

theorem Present.run (sched : Schedule g config)
    (hsup : ∀ doc ∈ g.docs, ∃ available,
      g.PhaseSupplied (runtimeInputFieldsFromConfig config) availableAfter doc available)
    {earlier past rest : List (List Phase)} (hsplit : sched.steps = earlier ++ (past ++ rest))
    (hp : Present g availableAfter (phaseIds earlier) state.data)
    (hrun : Run (superstep V) (StepWritesDeclared V) state past t) :
    Present g availableAfter (phaseIds (earlier ++ past)) t.data := by
  -- along the supersteps still to come, while those behind pile up in `earlier`
  induction past generalizing earlier state with
  | nil =>
    cases hrun
    rwa [List.append_nil]
  | cons step past ih =>
    cases hrun with
    | cons hg hs hr =>
      rw [List.cons_append] at hsplit
      have hstep := hp.step hsup (sched.assembled step (by simp [hsplit]))
        (sched.after_deps earlier step (past ++ rest) hsplit) hg hs
      have hids : phaseIds earlier ++ step.map (fun phase => phase.spec.phaseId) =
          phaseIds (earlier ++ [step]) := by
        simp [phaseIds]
      rw [hids] at hstep
      have hrest : Present g availableAfter (phaseIds (earlier ++ [step] ++ past)) t.data :=
        ih (by simpa using hsplit) hstep hr
      rwa [List.append_assoc, List.singleton_append] at hrest

def NoBareMissing (V : Draft202012) (phase : Phase) (state : WorkflowState) : Prop :=
  ∀ child injected, phase.spec.Entry (phase.spec.runner V (phase.node V)) state child →
    injectDeclaredInputFiles phase.spec.phaseId phase.spec.inputFiles child = .ok injected →
    ∀ path ∈ missingRequiredInputs (phase.spec.wrapper.mapper.selectDeclaredInputs injected).data
      phase.spec.inputSchema, ¬ BareField path

/-- What a phase finds when it starts. That `gate` follows from `inputs` says that the entries are all
the states in which the node is called. -/
structure PhaseReady (V : Draft202012) (phase : Phase) (state : WorkflowState) : Prop where
  inputs : NoBareMissing V phase state
  gate : phase.run V state = phase.spec.call (phase.spec.nestedRunner V (phase.node V)) state
  overResolves : ∀ iterate, phase.spec.iterate = some iterate → Undotted iterate.overField →
    iterate.overField ∉ phase.spec.inputFiles.map InputFile.field →
    (businessGet state.data iterate.overField).isSome

theorem NoBareMissing.run_eq (h : NoBareMissing V phase state) :
    phase.run V state = phase.spec.call (phase.spec.nestedRunner V (phase.node V)) state := by
  rw [Phase.run_eq, PhaseSpec.run_eq_call]
  apply PhaseSpec.call_congr
  intro index child hentry
  unfold PhaseSpec.runner PhaseSpec.nestedRunner
  cases hinject : injectDeclaredInputFiles phase.spec.phaseId phase.spec.inputFiles child with
  | error e => rfl
  | ok injected =>
    have hgate := StateMapper.requireNestedInputs_eq (m := phase.spec.wrapper.mapper)
      (h child injected hentry hinject)
    simp only [bind, Except.bind, PhaseWrapper.wrap, PhaseWrapper.wrapNested, hgate]

theorem businessGet_isSome {key : String} (h : key ≠ "phase_outputs" → data.contains key = true) :
    (businessGet data key).isSome := by
  unfold businessGet
  split_ifs with hpo
  · rfl
  · rfl
  · rfl
  · exact h hpo

theorem Present.noBareMissing (h : Present g availableAfter done state.data)
    (hdoc : Assembled g config phase doc)
    (hs : g.PhaseSupplied (runtimeInputFieldsFromConfig config) availableAfter doc available)
    (hdeps : ∀ dep ∈ phaseDeps g.refs doc.phaseName, dep ≠ "input" → dep ∈ done) :
    NoBareMissing V phase state := by
  intro child injected hentry hinject path hpath hb
  obtain ⟨code, hspec, hfiles⟩ := hdoc.spec
  rw [hspec] at hentry hinject hpath
  obtain ⟨hkeep, hinjected⟩ := injectDeclaredInputFiles_fields hinject
  obtain ⟨hreq, hmissing⟩ := missingRequiredInputs_undotted hb.undotted hpath
  have hdecl := g.inputs_required doc hdoc.listed path hreq
  have hsup := hs.inputs path ((mem_schemaPropertyPaths hb.undotted).mpr hdecl)
  -- each way in which the check finds a provider puts the field on the blackboard at its own moment
  have hpresent : injected.data.contains path = true := by
    simp only [SkillDocument.inputIsSupplied, Bool.or_eq_true] at hsup
    rcases hsup with (hsup | hsup) | hsup | hsup
    · have havail := (fieldIsSupplied_undotted hb.undotted).mp hsup
      exact hkeep path (hentry.keeps path (h.upstream hs hdeps havail hb))
    · have hfile := runtimeInput_file hb.undotted hsup
      rw [← hfiles] at hfile
      obtain ⟨file, hm, rfl⟩ := List.mem_map.mp hfile
      exact hinjected file hm
    · exact hkeep path (hentry.contains_var hb.undotted hsup)
    · exact hkeep path (hentry.keeps path (h.vars path hb.undotted hsup))
  have hselected := contains_selectDeclaredInputs (m := (doc.spec code).wrapper.mapper) rfl hdecl
    hb.business hpresent
  rw [hselected] at hmissing
  cases hmissing

theorem Present.ready (h : Present g availableAfter done state.data) (hdoc : Assembled g config phase doc)
    (hs : g.PhaseSupplied (runtimeInputFieldsFromConfig config) availableAfter doc available)
    (hdeps : ∀ dep ∈ phaseDeps g.refs doc.phaseName, dep ≠ "input" → dep ∈ done) :
    PhaseReady V phase state := by
  have hinputs : NoBareMissing V phase state := h.noBareMissing hdoc hs hdeps
  refine ⟨hinputs, hinputs.run_eq, ?_⟩
  intro iterate hi hu hnot
  obtain ⟨code, hspec, hfiles⟩ := hdoc.spec
  rw [hspec] at hi hnot
  have hover := hs.overSupplied iterate hi
  simp only [SkillDocument.overIsSupplied, Bool.or_eq_true] at hover
  apply businessGet_isSome
  intro hpo
  rcases hover with hover | hover
  · exact h.upstream hs hdeps ((fieldIsSupplied_undotted hu).mp hover) ⟨hu, hpo⟩
  · have hfile := runtimeInput_file hu hover
    rw [← hfiles] at hfile
    exact absurd hfile hnot

end Soundness

section GraphEntries

variable (V : Draft202012) (steps : List (List Phase))

def PassWritesDeclared (entry : WorkflowState) : Prop :=
  ∀ final, runSteps V steps entry = .ok final → Run (superstep V) (StepWritesDeclared V) entry steps final

def RoundWritesDeclared (iterate : IterateSpec) (accumulate : IterateAccumulateSpec) (r : GraphLoop)
    (item : Value) : Prop :=
  ∀ child, liftUpdateError (updateBusiness r.loopState
    ((Dict.single iterate.itemVar item).set accumulate.var r.acc)) = .ok child → PassWritesDeclared V steps child

def graphRound (iterate : IterateSpec) (accumulate : IterateAccumulateSpec) (outputKeys : Option (List String))
    (r : GraphLoop) (item : Value) : Option GraphLoop :=
  (graphLoopRound (runSteps V steps) iterate accumulate outputKeys r item).toOption

/-- The states in which the supersteps of a graph start: once, once an item, or once a round. -/
inductive GraphEntry (frame : GraphFrame) (state : WorkflowState) : WorkflowState → Prop where
  | plain (hi : frame.iterate = none) : GraphEntry frame state state
  | item {iterate : IterateSpec} {items : List Value} {item : Value} {child : WorkflowState}
      (hi : frame.iterate = some iterate) (hm : iterate.mode = .batch)
      (hitems : resolveIterateItems state iterate.overField = .ok items)
      (hitem : item ∈ applyIterateRange items iterate.range)
      (hchild : liftUpdateError (updateBusiness state (Dict.single iterate.itemVar item)) = .ok child) :
      GraphEntry frame state child
  | round {iterate : IterateSpec} {accumulate : IterateAccumulateSpec} {items past rest : List Value}
      {item : Value} {loopState child : WorkflowState} {r : GraphLoop}
      (hi : frame.iterate = some iterate) (hm : iterate.mode = .loop accumulate)
      (hitems : resolveIterateItems state iterate.overField = .ok items)
      (hsplit : applyIterateRange items iterate.range = past ++ item :: rest)
      (hinit : liftUpdateError (updateBusiness state (Dict.single accumulate.var accumulate.init)) = .ok loopState)
      (hpast : Run (graphRound V steps iterate accumulate (schemaOutputKeys frame.outputSchema))
        (RoundWritesDeclared V steps iterate accumulate) ⟨accumulate.init, loopState⟩ past r)
      (hchild : liftUpdateError (updateBusiness r.loopState
        ((Dict.single iterate.itemVar item).set accumulate.var r.acc)) = .ok child) :
      GraphEntry frame state child

variable {V steps}
variable {frame : GraphFrame} {state entry : WorkflowState}

theorem graphRound_keeps {iterate : IterateSpec} {accumulate : IterateAccumulateSpec}
    {outputKeys : Option (List String)} {r r' : GraphLoop} {item : Value}
    (hg : RoundWritesDeclared V steps iterate accumulate r item)
    (h : graphRound V steps iterate accumulate outputKeys r item = some r') :
    Keeps r.loopState.data r'.loopState.data := by
  unfold graphRound at h
  cases hround : graphLoopRound (runSteps V steps) iterate accumulate outputKeys r item with
  | error e => simp [hround, Except.toOption] at h
  | ok next =>
    rw [hround] at h
    obtain rfl := Option.some.inj h
    obtain ⟨child, hchild, hround⟩ := bind_ok hround
    obtain ⟨result, hresult, hround⟩ := bind_ok hround
    have hpass := run_keeps (hg child hchild result hresult)
    split at hround
    · cases hround
    · obtain ⟨acc, -, hround⟩ := bind_ok hround
      obtain ⟨loopState, hloop, hround⟩ := bind_ok hround
      obtain rfl := Except.ok.inj hround
      exact ((updateBusiness_keeps hchild).trans hpass).trans (updateBusiness_keeps hloop)

theorem GraphEntry.present {g : SkillDocument} {availableAfter : Dict String (List String)}
    (hf : frame.iterate = g.iterate) (h : GraphEntry V steps frame state entry)
    (hinput : ∀ key ∈ schemaProperties (some g.rootInputs), state.data.contains key = true) :
    Present g availableAfter [] entry.data := by
  cases h with
  | plain hi =>
    refine ⟨hinput, ?_, by simp⟩
    intro key hu hs
    rw [← hf, hi] at hs
    cases hs
  | item hi hm hitems hitem hchild =>
    refine ⟨fun key hk => updateBusiness_keeps hchild key (hinput key hk), ?_, by simp⟩
    intro key hu hs
    simp only [iterateSpecSuppliesField, ← hf, hi, hm, Bool.or_false,
      fieldMatchesInjectedVar_undotted hu] at hs
    rw [hs]
    exact updateBusiness_contains hchild (contains_single _ _)
  | round hi hm hitems hsplit hinit hpast hchild =>
    have hrounds := hpast.invariant (I := fun r => Keeps state.data r.loopState.data)
      (fun _ _ _ hs hg hstep => hs.trans (graphRound_keeps hg hstep)) (updateBusiness_keeps hinit)
    refine ⟨fun key hk => updateBusiness_keeps hchild key (hrounds key (hinput key hk)), ?_, by simp⟩
    intro key hu hs
    simp only [iterateSpecSuppliesField, ← hf, hi, hm, Bool.or_eq_true,
      fieldMatchesInjectedVar_undotted hu] at hs
    rcases hs with hs | hs
    · rw [hs]
      exact updateBusiness_contains hchild (contains_set_single _ _ _ _).1
    · rw [hs]
      exact updateBusiness_contains hchild (contains_set_single _ _ _ _).2

end GraphEntries

section Outputs

theorem foldl_update_contains {payloads : List (Dict String Value)} {payload : Dict String Value} {k : String}
    (hm : payload ∈ payloads) (hk : payload.contains k = true) (acc : Dict String Value) :
    (payloads.foldl Dict.update acc).contains k = true := by
  have hkeep : ∀ (ps : List (Dict String Value)) (acc : Dict String Value), acc.contains k = true →
      (ps.foldl Dict.update acc).contains k = true := by
    intro ps
    induction ps with
    | nil => exact fun acc h => h
    | cons p ps ih =>
      intro acc h
      rw [List.foldl_cons]
      exact ih _ (keeps_update acc p k h)
  induction payloads generalizing acc with
  | nil => simp at hm
  | cons p ps ih =>
    rw [List.foldl_cons]
    rcases List.mem_cons.mp hm with rfl | hm
    · exact hkeep ps _ (by rw [Dict.contains_update, hk, Bool.true_or])
    · exact ih hm _

theorem mem_terminalPhaseOutputs (phaseIds : List String) (payload : Dict String Value) :
    payload ∈ (terminalPhaseOutputs phaseIds payload).entries.map Prod.snd := by
  cases phaseIds with
  | nil => simp [terminalPhaseOutputs, Dict.single]
  | cons id ids =>
    simp only [terminalPhaseOutputs]
    have hget : (Dict.ofList ((id :: ids).map (fun phaseId => (phaseId, payload)))).get? id = some payload := by
      rw [Dict.get?_ofList]
      have hsome : (Dict.find ((id :: ids).map (fun phaseId => (phaseId, payload))).reverse id).isSome := by
        rw [Dict.find_isSome]
        simp
      obtain ⟨v, hv⟩ := Option.isSome_iff_exists.mp hsome
      have hmem := List.mem_reverse.mp (find_some_mem hv)
      simp only [List.mem_map, Prod.mk.injEq] at hmem
      obtain ⟨_, -, -, rfl⟩ := hmem
      exact hv
    exact List.mem_map_of_mem (f := Prod.snd) (Dict.get?_mem.mp hget)

theorem withPhaseOutputs_fields {state t : WorkflowState} {phaseIds : List String} {payload : Dict String Value}
    (h : withPhaseOutputs state (terminalPhaseOutputs phaseIds payload) = .ok t) :
    Keeps state.data t.data ∧ ∀ k, payload.contains k = true → t.data.contains k = true := by
  refine ⟨updateBusiness_keeps h, ?_⟩
  intro k hk
  apply updateBusiness_contains h
  exact keeps_update _ _ k (foldl_update_contains (mem_terminalPhaseOutputs phaseIds payload) hk ∅)

theorem mapM_head {α β ε : Type} {f : α → Except ε β} {x : α} {xs : List α} {ys : List β}
    (h : (x :: xs).mapM f = .ok ys) : ∃ y rest, f x = .ok y ∧ ys = y :: rest := by
  rw [List.mapM_cons] at h
  obtain ⟨y, hy, h⟩ := bind_ok h
  obtain ⟨rest, -, h⟩ := bind_ok h
  exact ⟨y, rest, hy, (Except.ok.inj h).symm⟩

theorem graphBatch_contains {graph : GraphRunner} {frame : GraphFrame} {iterate : IterateSpec}
    {state t : WorkflowState} {keys : List String} {key : String}
    (hkeys : schemaOutputKeys frame.outputSchema = some keys) (hk : key ∈ keys)
    (hpass : ∀ items item child final, resolveIterateItems state iterate.overField = .ok items →
      item ∈ applyIterateRange items iterate.range →
      liftUpdateError (updateBusiness state (Dict.single iterate.itemVar item)) = .ok child →
      graph child = .ok final → final.data.contains key = true)
    (h : runGraphBatchIterate graph frame iterate state = .ok t) : t.data.contains key = true := by
  unfold runGraphBatchIterate at h
  obtain ⟨items, hitems, h⟩ := bind_ok h
  obtain ⟨payloads, hpayloads, h⟩ := bind_ok h
  obtain ⟨final, hfinal, h⟩ := bind_ok h
  obtain rfl := Except.ok.inj h
  apply (withPhaseOutputs_fields hfinal).2
  rw [hkeys] at hpayloads ⊢
  cases hrange : applyIterateRange items iterate.range with
  | nil =>
    rw [hrange] at hpayloads
    obtain rfl := Except.ok.inj hpayloads
    exact PhaseDocument.mem_emptyBatchPayload hk
  | cons item rest =>
    rw [hrange] at hpayloads
    obtain ⟨payload, others, hitem, rfl⟩ := mapM_head hpayloads
    obtain ⟨child, hchild, hitem⟩ := bind_ok hitem
    obtain ⟨result, hresult, hitem⟩ := bind_ok hitem
    obtain rfl := Except.ok.inj hitem
    have hcontains := hpass items item child result hitems (by simp [hrange]) hchild hresult
    simp only [List.isEmpty_cons, Bool.false_eq_true, ↓reduceIte]
    rw [contains_aggregateBatchPayloads]
    refine ⟨_, List.mem_cons_self .., ?_⟩
    simpa [phaseResultPayload, Dict.contains, hk] using hcontains

theorem graphLoop_contains {graph : GraphRunner} {frame : GraphFrame} {iterate : IterateSpec}
    {accumulate : IterateAccumulateSpec} {state t : WorkflowState} {key : String}
    (hk : key = accumulate.var ∨ state.data.contains key = true)
    (h : runGraphLoopIterate graph frame iterate accumulate state = .ok t) : t.data.contains key = true := by
  unfold runGraphLoopIterate at h
  obtain ⟨items, -, h⟩ := bind_ok h
  obtain ⟨loopState, -, h⟩ := bind_ok h
  obtain ⟨last, -, h⟩ := bind_ok h
  obtain ⟨final, hfinal, h⟩ := bind_ok h
  obtain rfl := Except.ok.inj h
  rcases hk with rfl | hk
  · exact (withPhaseOutputs_fields hfinal).2 _ (contains_single _ _)
  · exact (withPhaseOutputs_fields hfinal).1 key hk

end Outputs

def terminalPhaseIds (refs : List PhaseTopologyRef) : List String :=
  match outputPhases refs with
  | [] => (refs.map PhaseTopologyRef.name).filter
      (fun name => name ∉ (refs.flatMap PhaseTopologyRef.dependsOn).filter (· ≠ "input"))
  | outputs => outputs

namespace SkillDocument

def frame (g : SkillDocument) : GraphFrame where
  iterate := g.iterate
  outputSchema := some g.rootOutputs
  terminalPhaseIds := terminalPhaseIds g.refs

/-- A loop over the graph ends with the state it was entered with and its accumulator. -/
def Delivers (g : SkillDocument) (key : String) : Prop :=
  match g.iterate.map IterateSpec.mode with
  | some (.loop accumulate) => key = accumulate.var ∨ key ∈ schemaProperties (some g.rootInputs)
  | _ => True

end SkillDocument

/-- What the dataflow check promises for the runs of a graph from `state`. -/
structure DataflowSound (V : Draft202012) {g : SkillDocument} {config : Option RuntimeConfig}
    (sched : Schedule g config) (state : WorkflowState) : Prop where
  overResolves : ∀ iterate, g.iterate = some iterate → Undotted iterate.overField →
    (businessGet state.data iterate.overField).isSome
  phases : ∀ entry past step rest u, GraphEntry V sched.steps g.frame state entry →
    sched.steps = past ++ step :: rest → Run (superstep V) (StepWritesDeclared V) entry past u →
    ∀ phase ∈ step, PhaseReady V phase u
  outputs : ∀ t, g.frame.invoke (runSteps V sched.steps) state = .ok t →
    (∀ entry, GraphEntry V sched.steps g.frame state entry → PassWritesDeclared V sched.steps entry) →
    ∀ key ∈ requiredKeys g.rootOutputs, BareField key → g.Delivers key → t.data.contains key = true

section Main

variable {V : Draft202012} {g : SkillDocument} {config : Option RuntimeConfig} {sched : Schedule g config}
  {availableAfter : Dict String (List String)} {state entry u final : WorkflowState}

theorem pass_present
    (hsup : g.DataflowSupplied (runtimeInputFieldsFromConfig config) availableAfter)
    (hinput : ∀ key ∈ schemaProperties (some g.rootInputs), state.data.contains key = true)
    (hentry : GraphEntry V sched.steps g.frame state entry) {past rest : List (List Phase)}
    (hsplit : sched.steps = past ++ rest) (hrun : Run (superstep V) (StepWritesDeclared V) entry past u) :
    Present g availableAfter (phaseIds past) u.data := by
  have hstart : Present g availableAfter (phaseIds []) entry.data := hentry.present rfl hinput
  exact hstart.run sched hsup.phases hsplit hrun

theorem pass_outputs
    (hsup : g.DataflowSupplied (runtimeInputFieldsFromConfig config) availableAfter)
    (hinput : ∀ key ∈ schemaProperties (some g.rootInputs), state.data.contains key = true)
    (hentry : GraphEntry V sched.steps g.frame state entry)
    (hpass : PassWritesDeclared V sched.steps entry) (hfinal : runSteps V sched.steps entry = .ok final)
    {key : String} (hk : key ∈ requiredKeys g.rootOutputs) (hb : BareField key) :
    final.data.contains key = true := by
  have hend := pass_present hsup hinput hentry (List.append_nil _).symm (hpass final hfinal)
  obtain ⟨name, hname, hsupplied⟩ := hsup.outputs key hk hb.undotted
  exact hend.written name (sched.outputs_run name hname) key hsupplied hb

end Main

theorem static_dataflow_sound {V : Draft202012} {g : SkillDocument} {config : Option RuntimeConfig}
    (sched : Schedule g config) {poisonedPhases : List String}
    (hvalid : g.validateStaticDataflow (runtimeInputFieldsFromConfig config) poisonedPhases = [])
    {state : WorkflowState}
    (hinput : ∀ key ∈ schemaProperties (some g.rootInputs), state.data.contains key = true) :
    DataflowSound V sched state := by
  have hsup := SkillDocument.supplied_of_valid hvalid
  constructor
  · intro iterate hi hu
    apply businessGet_isSome
    exact fun _ => hinput _ (hsup.overSupplied iterate hi hu)
  · intro entry past step rest u hentry hsplit hrun phase hm
    have hnow := pass_present hsup hinput hentry hsplit hrun
    obtain ⟨doc, hdoc⟩ := sched.assembled step (by simp [hsplit]) phase hm
    obtain ⟨available, hs⟩ := hsup.phases doc hdoc.listed
    have hdeps := sched.after_deps past step rest hsplit phase hm
    rw [hdoc.phaseId] at hdeps
    exact hnow.ready hdoc hs hdeps
  · intro t hinvoke hpass key hk hb hdelivers
    unfold GraphFrame.invoke at hinvoke
    cases hi : g.iterate with
    | none =>
      have hframe : g.frame.iterate = none := hi
      rw [hframe] at hinvoke
      exact pass_outputs hsup hinput (.plain hi) (hpass state (.plain hi)) hinvoke hk hb
    | some iterate =>
      have hframe : g.frame.iterate = some iterate := hi
      simp only [hframe] at hinvoke
      cases hm : iterate.mode with
      | batch =>
        simp only [hm] at hinvoke
        refine graphBatch_contains (schemaOutputKeys_of_object g.rootOutputs_object)
          (g.rootOutputs_required key hk) ?_ hinvoke
        intro items item child final hitems hitem hchild hfinal
        have hentry : GraphEntry V sched.steps g.frame state child := .item hi hm hitems hitem hchild
        exact pass_outputs hsup hinput hentry (hpass child hentry) hfinal hk hb
      | loop accumulate =>
        simp only [hm] at hinvoke
        simp only [SkillDocument.Delivers, hi, Option.map_some, hm] at hdelivers
        exact graphLoop_contains (hdelivers.imp_right (hinput key)) hinvoke

def requiringSchema (fields : List String) : Schema :=
  (objectSchema fields).set "required" (.list (fields.map .str))

def draftDoc : PhaseDocument where
  phaseName := "draft"
  mode := .logic
  inputs := requiringSchema ["topic"]
  outputs := requiringSchema ["draft"]

def draftAction : LogicAction where
  location := "actions/draft.py:1"
  run _ := .ok (.dict [("draft", .str "In the beginning")])

def draftPhase : Phase := .leaf (draftDoc.spec {}) (.logic [draftAction])

def draftSkill (rootField : String) (iterate : Option IterateSpec) : SkillDocument where
  refs := [⟨"draft", ["input"], true⟩]
  docs := [draftDoc]
  refs_unique := by decide
  docs_unique := by decide
  docs_listed := by decide
  rootInputs := objectSchema [rootField]
  rootOutputs := requiringSchema ["draft"]
  iterate := iterate
  order := ["draft"]
  order_covers := by decide
  inputs_required := by decide

def draftSchedule (rootField : String) (iterate : Option IterateSpec) :
    Schedule (draftSkill rootField iterate) none where
  steps := [[draftPhase]]
  assembled step hs phase hp := by
    obtain rfl := List.mem_singleton.mp hs
    obtain rfl := List.mem_singleton.mp hp
    exact ⟨draftDoc, by simp [draftSkill], {}, rfl, rfl⟩
  after_deps past step rest hsplit phase hp dep hd hne := by
    have hstep : step ∈ [[draftPhase]] := by simp [hsplit]
    obtain rfl := List.mem_singleton.mp hstep
    obtain rfl := List.mem_singleton.mp hp
    exact absurd (List.mem_singleton.mp hd) hne
  outputs_run := by
    intro name hn
    obtain rfl := List.mem_singleton.mp hn
    decide

theorem draftPhase_writes {state : WorkflowState} {delta : PhaseDelta}
    (h : draftPhase.run acceptingValidator state = .ok delta) : draftPhase.spec.WritesDeclared delta := by
  rw [Phase.run_eq] at h
  obtain ⟨injected, -, h⟩ := bind_ok h
  obtain ⟨-, result, hnode, hwrap⟩ := PhaseWrapper.wrap_ok h
  obtain rfl := Except.ok.inj hnode
  obtain ⟨outputs, haccept, hdata⟩ := StateMapper.wrapPhaseOutput_ok hwrap (by simp)
  obtain rfl := Except.ok.inj haccept
  constructor
  · intro key hk
    rw [List.mem_singleton.mp hk, hdata]
    rfl
  · rw [hdata]
    rfl

def topicsBatch : IterateSpec where
  mode := .batch
  overField := "topics"
  itemVar := "topic"

def topicsState : WorkflowState :=
  { emptyState with data := Dict.single "topics" (.list [.str "tides", .str "moon"]) }

theorem static_dataflow_sound_topics :
    (draftSkill "topics" (some topicsBatch)).validateStaticDataflow none [] = [] ∧
    ∃ t, (draftSkill "topics" (some topicsBatch)).frame.invoke
        (runSteps acceptingValidator [[draftPhase]]) topicsState = .ok t ∧
      t.data.contains "draft" = true := by
  have hpass : ∀ entry, PassWritesDeclared acceptingValidator [[draftPhase]] entry := by
    intro entry final hfinal
    apply run_of_runSteps _ hfinal
    intro s step hs phase hp delta hr
    obtain rfl := List.mem_singleton.mp hs
    obtain rfl := List.mem_singleton.mp hp
    exact draftPhase_writes hr
  have hsound : DataflowSound acceptingValidator (draftSchedule "topics" (some topicsBatch)) topicsState :=
    @static_dataflow_sound _ _ _ _ [] rfl _ (by decide)
  exact ⟨rfl, _, rfl, hsound.outputs _ rfl (fun entry _ => hpass entry) "draft" (by decide)
    ⟨by decide, by decide⟩ trivial⟩

theorem optional_input_passes_check :
    (draftSkill "topic" none).validateStaticDataflow none [] = [] ∧
    acceptingValidator.isValid (.ofDict (draftSkill "topic" none).rootInputs) (.ofDict emptyState.data) = true ∧
    requiredKeys (draftSkill "topic" none).rootInputs = [] ∧
    GraphEntry acceptingValidator (draftSchedule "topic" none).steps (draftSkill "topic" none).frame
      emptyState emptyState ∧
    (draftSchedule "topic" none).steps = [[draftPhase]] ∧
    draftPhase.run acceptingValidator emptyState = .error (.fatal
      "phase required input fields missing from blackboard: topic" mappingFailed (some "draft") (some "topic")) :=
  ⟨rfl, rfl, rfl, .plain rfl, rfl, rfl⟩

end GraphSkillRuntime
