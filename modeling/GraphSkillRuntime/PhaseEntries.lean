import GraphSkillRuntime.StaticDataflow
import GraphSkillRuntime.SubagentDepth

namespace GraphSkillRuntime

open OrderedDict Runs

/-! The states in which the nodes of a graph are called, and the fields that these states carry. -/

def Keeps (before after : BusinessData) : Prop := ∀ k, before.contains k = true → after.contains k = true

theorem Keeps.refl (data : BusinessData) : Keeps data data := fun _ h => h

theorem Keeps.trans {a b c : BusinessData} (h : Keeps a b) (h' : Keeps b c) : Keeps a c :=
  fun k hk => h' k (h k hk)

theorem keeps_update (d e : BusinessData) : Keeps d (d.update e) := by
  intro k hk
  simp [Dict.contains_update, hk]

theorem updateBusiness_data {state t : WorkflowState} {fields : Dict String Value}
    (h : liftUpdateError (updateBusiness state fields) = .ok t) : t.data = state.data.update fields := by
  obtain ⟨-, rfl⟩ := updated_of_ok h
  rfl

namespace PhaseSpec

def call (spec : PhaseSpec) (node : IndexedNode) (state : WorkflowState) : Except MapperError PhaseDelta :=
  match spec.iterate with
  | none => node 0 state
  | some iterate => iteratePhase node spec.phaseId iterate spec.outputSchema state

theorem run_eq_call (spec : PhaseSpec) (V : Draft202012) (node : PhaseNode) (state : WorkflowState) :
    spec.run V node state = spec.call (spec.runner V node) state := rfl

inductive Entry (spec : PhaseSpec) (node : IndexedNode) (state : WorkflowState) : WorkflowState → Prop where
  | plain (hi : spec.iterate = none) : Entry spec node state state
  | item {iterate : IterateSpec} {items : List Value} {item : Value} {child : WorkflowState}
      (hi : spec.iterate = some iterate) (hm : iterate.mode = .batch)
      (hitems : resolveIterateItems state iterate.overField = .ok items)
      (hitem : item ∈ applyIterateRange items iterate.range)
      (hchild : liftUpdateError (updateBusiness state (Dict.single iterate.itemVar item)) = .ok child) :
      Entry spec node state child
  | round {iterate : IterateSpec} {accumulate : IterateAccumulateSpec} {items past rest : List Value}
      {item : Value} {loopState child : WorkflowState} {r : LoopRound}
      (hi : spec.iterate = some iterate) (hm : iterate.mode = .loop accumulate)
      (hitems : resolveIterateItems state iterate.overField = .ok items)
      (hsplit : applyIterateRange items iterate.range = past ++ item :: rest)
      (hinit : liftUpdateError (updateBusiness state (Dict.single accumulate.var accumulate.init)) = .ok loopState)
      (hpast : loopRounds node spec.phaseId iterate accumulate (schemaOutputKeys spec.outputSchema) 1 past
        ⟨accumulate.init, loopState, []⟩ = .ok r)
      (hchild : liftUpdateError (updateBusiness r.loopState
        ((Dict.single iterate.itemVar item).set accumulate.var r.acc)) = .ok child) :
      Entry spec node state child

end PhaseSpec

section Calls

variable {node node' : IndexedNode} {phaseId : String} {iterate : IterateSpec}
  {accumulate : IterateAccumulateSpec} {outputKeys : Option (List String)}

theorem batchItems_congr {base : WorkflowState} {itemVar : String} {items : List Value} (index : Nat)
    (h : ∀ item ∈ items, ∀ index child,
      liftUpdateError (updateBusiness base (Dict.single itemVar item)) = .ok child →
        node index child = node' index child) :
    batchItems node base itemVar outputKeys phaseId index items =
      batchItems node' base itemVar outputKeys phaseId index items := by
  induction items generalizing index with
  | nil => rfl
  | cons item items ih =>
    have hrest := ih (index + 1) (fun item hm => h item (List.mem_cons_of_mem _ hm))
    have hfirst : batchItem node base itemVar outputKeys phaseId index item =
        batchItem node' base itemVar outputKeys phaseId index item := by
      unfold batchItem
      cases hc : liftUpdateError (updateBusiness base (Dict.single itemVar item)) with
      | error e => rfl
      | ok child =>
        have hnode := h item (List.mem_cons_self ..) index child hc
        simp only [bind, Except.bind, hnode]
    simp only [batchItems, hfirst, hrest]

theorem loopRounds_append (index : Nat) (xs ys : List Value) (r : LoopRound) :
    loopRounds node phaseId iterate accumulate outputKeys index (xs ++ ys) r =
      (loopRounds node phaseId iterate accumulate outputKeys index xs r).bind
        (loopRounds node phaseId iterate accumulate outputKeys (index + xs.length) ys) := by
  induction xs generalizing index r with
  | nil => rfl
  | cons x xs ih =>
    simp only [List.cons_append, loopRounds, bind]
    cases loopRound node phaseId iterate accumulate outputKeys index x r with
    | error e => rfl
    | ok next =>
      simp only [Except.bind]
      rw [ih, List.length_cons, Nat.add_assoc, Nat.add_comm 1]
      rfl

theorem loopRounds_congr {init r : LoopRound} {past items : List Value}
    (h : ∀ (before : List Value) (item : Value) (after : List Value) (r : LoopRound),
      past ++ items = before ++ item :: after →
      loopRounds node phaseId iterate accumulate outputKeys 1 before init = .ok r → ∀ index child,
      liftUpdateError (updateBusiness r.loopState
        ((Dict.single iterate.itemVar item).set accumulate.var r.acc)) = .ok child →
      node index child = node' index child)
    (hpast : loopRounds node phaseId iterate accumulate outputKeys 1 past init = .ok r) :
    loopRounds node phaseId iterate accumulate outputKeys (1 + past.length) items r =
      loopRounds node' phaseId iterate accumulate outputKeys (1 + past.length) items r := by
  -- the rounds of `past` were the same for both nodes, so both enter the next one in the same state
  induction items generalizing past r with
  | nil => rfl
  | cons item items ih =>
    have hround : loopRound node phaseId iterate accumulate outputKeys (1 + past.length) item r =
        loopRound node' phaseId iterate accumulate outputKeys (1 + past.length) item r := by
      unfold loopRound
      cases hc : liftUpdateError (updateBusiness r.loopState
          ((Dict.single iterate.itemVar item).set accumulate.var r.acc)) with
      | error e => rfl
      | ok child =>
        have hnode := h past item items r rfl hpast (1 + past.length) child hc
        simp only [bind, Except.bind, hnode]
    simp only [loopRounds, ← hround]
    cases hn : loopRound node phaseId iterate accumulate outputKeys (1 + past.length) item r with
    | error e => rfl
    | ok next =>
      have hnext : loopRounds node phaseId iterate accumulate outputKeys 1 (past ++ [item]) init = .ok next := by
        rw [loopRounds_append, hpast]
        simp [Except.bind, loopRounds, bind, hn]
      have hrest : loopRounds node phaseId iterate accumulate outputKeys (1 + (past ++ [item]).length) items next =
          loopRounds node' phaseId iterate accumulate outputKeys (1 + (past ++ [item]).length) items next :=
        ih (fun before item' after r he => h before item' after r (by
          rw [← he, List.append_assoc, List.singleton_append])) hnext
      simpa [Except.bind, bind, Nat.add_assoc] using hrest

theorem PhaseSpec.call_congr {spec : PhaseSpec} {state : WorkflowState}
    (h : ∀ index child, spec.Entry node state child → node index child = node' index child) :
    spec.call node state = spec.call node' state := by
  unfold call
  cases hi : spec.iterate with
  | none => exact h 0 state (.plain hi)
  | some iterate =>
    simp only [iteratePhase]
    cases hm : iterate.mode with
    | batch =>
      simp only [batchPhase]
      cases hitems : resolveIterateItems state iterate.overField with
      | error e => rfl
      | ok items =>
        have hcongr : batchItems node state iterate.itemVar (schemaOutputKeys spec.outputSchema) spec.phaseId 1
            (applyIterateRange items iterate.range) = batchItems node' state iterate.itemVar
              (schemaOutputKeys spec.outputSchema) spec.phaseId 1 (applyIterateRange items iterate.range) :=
          batchItems_congr 1 (fun item hitem index child hc => h index child (.item hi hm hitems hitem hc))
        simp only [bind, Except.bind, hcongr]
    | loop accumulate =>
      simp only [loopPhase]
      cases hitems : resolveIterateItems state iterate.overField with
      | error e => rfl
      | ok items =>
        cases hinit : liftUpdateError (updateBusiness state (Dict.single accumulate.var accumulate.init)) with
        | error e => rfl
        | ok loopState =>
          have hcongr : loopRounds node spec.phaseId iterate accumulate (schemaOutputKeys spec.outputSchema)
              (1 + ([] : List Value).length) (applyIterateRange items iterate.range)
              ⟨accumulate.init, loopState, []⟩ =
            loopRounds node' spec.phaseId iterate accumulate (schemaOutputKeys spec.outputSchema)
              (1 + ([] : List Value).length) (applyIterateRange items iterate.range)
              ⟨accumulate.init, loopState, []⟩ :=
            loopRounds_congr (fun before item after r he hpast index child hc =>
              h index child (.round hi hm hitems he hinit hpast hc)) rfl
          rw [List.length_nil, Nat.add_zero] at hcongr
          simp only [bind, Except.bind, hcongr]

end Calls

section Fields

variable {node : IndexedNode} {state child t : WorkflowState} {spec : PhaseSpec}

theorem updateBusiness_keeps {fields : Dict String Value}
    (h : liftUpdateError (updateBusiness state fields) = .ok t) : Keeps state.data t.data := by
  rw [updateBusiness_data h]
  exact keeps_update _ _

theorem updateBusiness_contains {fields : Dict String Value} {k : String}
    (h : liftUpdateError (updateBusiness state fields) = .ok t) (hk : fields.contains k = true) :
    t.data.contains k = true := by
  rw [updateBusiness_data h, Dict.contains_update, hk, Bool.true_or]

theorem contains_single (k : String) (v : Value) : (Dict.single k v).contains k = true := by
  simp [Dict.contains]

theorem contains_set_single (k j : String) (v w : Value) :
    ((Dict.single k v).set j w).contains k = true ∧ ((Dict.single k v).set j w).contains j = true := by
  by_cases h : j = k <;> simp [Dict.contains, h]

theorem loopRounds_keeps {phaseId : String} {iterate : IterateSpec} {accumulate : IterateAccumulateSpec}
    {outputKeys : Option (List String)} {index : Nat} {items : List Value} {r r' : LoopRound}
    (h : loopRounds node phaseId iterate accumulate outputKeys index items r = .ok r') :
    Keeps r.loopState.data r'.loopState.data := by
  induction items generalizing index r with
  | nil =>
    obtain rfl := Except.ok.inj h
    exact Keeps.refl _
  | cons item items ih =>
    obtain ⟨next, hnext, h⟩ := bind_ok h
    refine Keeps.trans ?_ (ih h)
    obtain ⟨child, -, hnext⟩ := bind_ok hnext
    obtain ⟨delta, -, hnext⟩ := bind_ok hnext
    dsimp only at hnext
    split at hnext
    · cases hnext
    · obtain ⟨acc, -, hnext⟩ := bind_ok hnext
      obtain ⟨loopState, hloop, hnext⟩ := bind_ok hnext
      obtain rfl := Except.ok.inj hnext
      exact updateBusiness_keeps hloop

namespace PhaseSpec

theorem Entry.keeps (h : spec.Entry node state child) : Keeps state.data child.data := by
  cases h with
  | plain hi => exact Keeps.refl _
  | item hi hm hitems hitem hchild => exact updateBusiness_keeps hchild
  | round hi hm hitems hsplit hinit hpast hchild =>
    exact ((updateBusiness_keeps hinit).trans (loopRounds_keeps hpast)).trans (updateBusiness_keeps hchild)

theorem Entry.contains_var (h : spec.Entry node state child) {key : String} (hk : Undotted key)
    (hs : iterateSpecSuppliesField spec.iterate key = true) : child.data.contains key = true := by
  unfold iterateSpecSuppliesField at hs
  cases h with
  | plain hi => simp [hi] at hs
  | item hi hm hitems hitem hchild =>
    simp only [hi, hm, Bool.or_false, fieldMatchesInjectedVar_undotted hk] at hs
    rw [hs]
    exact updateBusiness_contains hchild (contains_single _ _)
  | round hi hm hitems hsplit hinit hpast hchild =>
    simp only [hi, hm, Bool.or_eq_true, fieldMatchesInjectedVar_undotted hk] at hs
    rcases hs with hs | hs
    · rw [hs]
      exact updateBusiness_contains hchild (contains_set_single _ _ _ _).1
    · rw [hs]
      exact updateBusiness_contains hchild (contains_set_single _ _ _ _).2

end PhaseSpec

theorem injectInputFile_fields {phaseId dir : String} {file : InputFile}
    (h : injectInputFile phaseId dir state file = .ok t) :
    Keeps state.data t.data ∧ t.data.contains file.field = true := by
  unfold injectInputFile at h
  split_ifs at h
  split at h
  · cases h
  · exact ⟨updateBusiness_keeps h, updateBusiness_contains h (contains_single _ _)⟩

theorem injectDeclaredInputFiles_fields {phaseId : String} {files : List InputFile}
    (h : injectDeclaredInputFiles phaseId files state = .ok t) :
    Keeps state.data t.data ∧ ∀ file ∈ files, t.data.contains file.field = true := by
  unfold injectDeclaredInputFiles at h
  split_ifs at h with he
  · obtain rfl := Except.ok.inj h
    rw [List.isEmpty_iff.mp he]
    exact ⟨Keeps.refl _, by simp⟩
  · split at h
    · cases h
    · rename_i dir hdir
      clear he hdir
      induction files generalizing state with
      | nil =>
        obtain rfl := Except.ok.inj h
        exact ⟨Keeps.refl _, by simp⟩
      | cons file files ih =>
        rw [List.foldlM_cons] at h
        obtain ⟨next, hnext, h⟩ := bind_ok h
        obtain ⟨hkeep, hfield⟩ := injectInputFile_fields hnext
        obtain ⟨hrest, hfields⟩ := ih h
        exact ⟨hkeep.trans hrest, by simpa using ⟨hrest _ hfield, hfields⟩⟩

theorem contains_selectDeclaredInputs {m : StateMapper} {schema : Schema} {key : String}
    (hs : m.inputSchema = some schema) (hd : key ∈ schemaProperties (some schema))
    (hk : key ≠ "phase_outputs") (h : state.data.contains key = true) :
    (m.selectDeclaredInputs state).data.contains key = true := by
  simp only [StateMapper.selectDeclaredInputs, filterRuntimeInputs, hs]
  split
  · rename_i he
    rw [he] at hd
    simp at hd
  · simpa [Dict.contains, hd, hk] using h

end Fields

end GraphSkillRuntime
