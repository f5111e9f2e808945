import GraphSkillRuntime.DataflowSoundness

/-!
The two loops of `iterate: loop`. The loop of a phase starts every round from the blackboard before the loop, the loop
of a graph goes on from the blackboard its last round left; both fold the pieces of their rounds.
-/

namespace GraphSkillRuntime

open OrderedDict

abbrev LoopBody := BusinessData → Dict String Value

/-- The framework records `phase_outputs` itself, so a body has no say in that field. -/
def PhaseRuns (node : IndexedNode) (body : LoopBody) : Prop :=
  ∀ index state, ∃ delta, node index state = .ok delta ∧
    ∀ k, k ≠ "phase_outputs" → delta.data.get? k = (body state.data).get? k

def GraphRuns (graph : GraphRunner) (body : LoopBody) : Prop :=
  ∀ state, ∃ result, graph state = .ok result ∧
    ∀ k, k ≠ "phase_outputs" → result.data.get? k = (state.data.update (body state.data)).get? k

structure FedRound where
  item : Value
  board : BusinessData
  payload : Dict String Value

section

variable (iterate : IterateSpec) (accumulate : IterateAccumulateSpec) (body : LoopBody)

def loopPieces (rounds : List FedRound) : List Value := rounds.filterMap (fun r => r.payload.get? accumulate.from_)

def foldPieces (acc : Value) (pieces : List Value) : Except MapperError Value :=
  pieces.foldlM (fun acc piece => mergeAccumulator acc piece accumulate.merge) acc

def foldRounds (acc : Value) (rounds : List FedRound) : Except MapperError Value :=
  foldPieces accumulate acc (loopPieces accumulate rounds)

structure Fed (acc : Value) (items : List Value) (rounds : List FedRound) : Prop where
  items : rounds.map FedRound.item <+: items
  payload : ∀ r ∈ rounds, r.payload = body r.board
  item : ∀ r ∈ rounds, r.board.get? iterate.itemVar = some r.item
  acc : ∀ k (hk : k < rounds.length), ∃ v, foldRounds accumulate acc (rounds.take k) = .ok v ∧
    (rounds.get ⟨k, hk⟩).board.get? accumulate.var = some v

def Isolated (before : BusinessData) (rounds : List FedRound) : Prop :=
  ∀ r ∈ rounds, ∀ k, k ≠ iterate.itemVar → k ≠ accumulate.var → r.board.get? k = before.get? k

def Continued : BusinessData → List FedRound → Prop
  | _, [] => True
  | before, r :: rounds =>
    (∀ k, k ≠ iterate.itemVar → k ≠ accumulate.var → k ≠ "phase_outputs" → r.board.get? k = before.get? k) ∧
      Continued (r.board.update r.payload) rounds

def FoldsInto (carried : BusinessData → List FedRound → Prop) (before : BusinessData) (items : List Value)
    (after : Except MapperError BusinessData) : Prop :=
  ∃ rounds, Fed iterate accumulate body accumulate.init items rounds ∧ carried before rounds ∧
    after.map (·.get? accumulate.var) = (foldRounds accumulate accumulate.init rounds).map some ∧
    ∀ board, after = .ok board → rounds.map FedRound.item = items ∧
      ∀ k, k ≠ accumulate.var → k ≠ "phase_outputs" → board.get? k = before.get? k

/-- What a body may read to give the same at both levels: `phase_outputs` grows with the rounds of a graph only. -/
def LoopReads (before : BusinessData) (k : String) : Prop :=
  k = iterate.itemVar ∨ k = accumulate.var ∨ before.contains k = true ∧ k ≠ "phase_outputs"

structure Confined (before : BusinessData) : Prop where
  reads : ∀ d e, (∀ k, LoopReads iterate accumulate before k → d.get? k = e.get? k) → (body d).Same (body e)
  writes : ∀ d k, LoopReads iterate accumulate before k → (body d).get? k = none

structure LoopNames : Prop where
  apart : iterate.itemVar ≠ accumulate.var
  item : settable iterate.itemVar = true
  var : settable accumulate.var = true
  not_phase_outputs : accumulate.var ≠ "phase_outputs"
  not_inputs : accumulate.var ≠ "inputs"
  from_not_phase_outputs : accumulate.from_ ≠ "phase_outputs"

structure Handed (base : BusinessData) (acc item : Value) (board : BusinessData) : Prop where
  item : board.get? iterate.itemVar = some item
  acc : board.get? accumulate.var = some acc
  rest : ∀ k, k ≠ iterate.itemVar → k ≠ accumulate.var → board.get? k = base.get? k

/-- The rounds as a loop makes them; `next` is what a level carries over to its next round. -/
inductive Rounds (next : BusinessData → BusinessData → BusinessData → Prop) :
    BusinessData → Value → List Value → List FedRound → Except MapperError Value → Prop
  | done {base acc} : Rounds next base acc [] [] (.ok acc)
  | refused {base acc item items board piece e} :
    Handed iterate accumulate base acc item board → (body board).get? accumulate.from_ = some piece →
      mergeAccumulator acc piece accumulate.merge = .error e →
      Rounds next base acc (item :: items) [⟨item, board, body board⟩] (.error e)
  | round {base acc item items board piece acc' base' rounds out} :
    Handed iterate accumulate base acc item board → (body board).get? accumulate.from_ = some piece →
      mergeAccumulator acc piece accumulate.merge = .ok acc' → next base board base' →
      Rounds next base' acc' items rounds out →
      Rounds next base acc (item :: items) (⟨item, board, body board⟩ :: rounds) out

def PhaseNext (base _board base' : BusinessData) : Prop :=
  ∀ k, k ≠ accumulate.var → base'.get? k = base.get? k

def GraphNext (_base board base' : BusinessData) : Prop :=
  ∀ k, k ≠ accumulate.var → k ≠ "phase_outputs" → base'.get? k = (board.update (body board)).get? k

end

section Folds

variable {iterate : IterateSpec} {accumulate : IterateAccumulateSpec} {body : LoopBody}
  {next : BusinessData → BusinessData → BusinessData → Prop}

@[simp] theorem foldRounds_nil (acc : Value) : foldRounds accumulate acc [] = .ok acc := rfl

theorem foldRounds_cons {r : FedRound} {piece : Value} (h : r.payload.get? accumulate.from_ = some piece)
    (acc : Value) (rounds : List FedRound) :
    foldRounds accumulate acc (r :: rounds) =
      mergeAccumulator acc piece accumulate.merge >>= fun acc' => foldRounds accumulate acc' rounds := by
  simp only [foldRounds, loopPieces, List.filterMap_cons, h]
  rfl

theorem Rounds.fold_eq {base : BusinessData} {acc : Value} {items : List Value} {rounds : List FedRound}
    {out : Except MapperError Value} (h : Rounds iterate accumulate body next base acc items rounds out) :
    foldRounds accumulate acc rounds = out := by
  induction h with
  | done => rfl
  | refused _ hp hm => rw [foldRounds_cons hp, hm]; rfl
  | round _ hp hm _ _ ih => rw [foldRounds_cons hp, hm]; exact ih

theorem Rounds.items_eq {base : BusinessData} {acc : Value} {items : List Value} {rounds : List FedRound}
    {out : Except MapperError Value} (h : Rounds iterate accumulate body next base acc items rounds out)
    {v : Value} (hv : out = .ok v) : rounds.map FedRound.item = items := by
  induction h with
  | done => rfl
  | refused => exact absurd hv (by simp)
  | round _ _ _ _ _ ih => rw [List.map_cons, ih hv]

theorem Rounds.fed {base : BusinessData} {acc : Value} {items : List Value} {rounds : List FedRound}
    {out : Except MapperError Value} (h : Rounds iterate accumulate body next base acc items rounds out) :
    Fed iterate accumulate body acc items rounds := by
  induction h with
  | done => exact ⟨ List.nil_prefix, by simp, by simp, fun k hk => absurd hk (by simp)⟩
  | refused hb hp hm =>
    refine ⟨⟨_, rfl⟩, by simp, by simpa using hb.item, ?_⟩
    intro k hk
    have hk : k = 0 := by simpa using hk
    subst hk
    exact ⟨_, rfl, hb.acc⟩
  | round hb hp hm _ _ ih =>
    refine ⟨?_, ?_, ?_, ?_⟩
    · rw [List.map_cons, List.cons_prefix_cons]
      exact ⟨rfl, ih.items⟩
    · simpa using ih.payload
    · simpa using And.intro hb.item ih.item
    · intro k hk
      cases k with
      | zero => exact ⟨_, rfl, hb.acc⟩
      | succ k =>
        obtain ⟨v, hv, hg⟩ := ih.acc k (by simpa using hk)
        refine ⟨v, ?_, hg⟩
        rw [List.take_succ_cons, foldRounds_cons hp, hm]
        exact hv

theorem Rounds.isolated {base : BusinessData} {acc : Value} {items : List Value} {rounds : List FedRound}
    {out : Except MapperError Value}
    (h : Rounds iterate accumulate body (PhaseNext accumulate) base acc items rounds out) :
    Isolated iterate accumulate base rounds := by
  induction h with
  | done => simp [Isolated]
  | refused hb => simpa [Isolated] using hb.rest
  | round hb _ _ hn _ ih =>
    simp only [Isolated, List.mem_cons, forall_eq_or_imp]
    refine ⟨hb.rest, ?_⟩
    intro r hr k hi hv
    rw [ih r hr k hi hv, hn k hv]

theorem Continued.congr {base base' : BusinessData} {rounds : List FedRound}
    (h : Continued iterate accumulate base rounds)
    (hb : ∀ k, k ≠ accumulate.var → k ≠ "phase_outputs" → base'.get? k = base.get? k) :
    Continued iterate accumulate base' rounds := by
  cases rounds with
  | nil => trivial
  | cons r rounds =>
    refine ⟨?_, h.2⟩
    intro k hi hv hp
    rw [h.1 k hi hv hp, hb k hv hp]

theorem Rounds.continued {base : BusinessData} {acc : Value} {items : List Value} {rounds : List FedRound}
    {out : Except MapperError Value}
    (h : Rounds iterate accumulate body (GraphNext accumulate body) base acc items rounds out) :
    Continued iterate accumulate base rounds := by
  induction h with
  | done => trivial
  | refused hb => exact ⟨fun k hi hv _ => hb.rest k hi hv, trivial⟩
  | round hb _ _ hn _ ih =>
    refine ⟨fun k hi hv _ => hb.rest k hi hv, ih.congr ?_⟩
    intro k hv hp
    exact (hn k hv hp).symm

def Agree (iterate : IterateSpec) (accumulate : IterateAccumulateSpec) (before d e : BusinessData) : Prop :=
  ∀ k, k ≠ iterate.itemVar → k ≠ accumulate.var → before.contains k = true → k ≠ "phase_outputs" →
    d.get? k = e.get? k

theorem Handed.same {before base base' board board' : BusinessData} {acc item : Value}
    (hc : Confined iterate accumulate body before) (hb : Handed iterate accumulate base acc item board)
    (hb' : Handed iterate accumulate base' acc item board') (h : Agree iterate accumulate before base base') :
    (body board).Same (body board') := by
  apply hc.reads
  intro k hk
  by_cases hi : k = iterate.itemVar
  · rw [hi, hb.item, hb'.item]
  · by_cases hv : k = accumulate.var
    · rw [hv, hb.acc, hb'.acc]
    · rcases hk with hk | hk | ⟨hk, hp⟩
      · exact absurd hk hi
      · exact absurd hk hv
      · rw [hb.rest k hi hv, hb'.rest k hi hv, h k hi hv hk hp]

theorem GraphNext.agree {before base board base' : BusinessData} {acc item : Value}
    (hc : Confined iterate accumulate body before) (hb : Handed iterate accumulate base acc item board)
    (h : GraphNext accumulate body base board base') : Agree iterate accumulate before base' base := by
  intro k hi hv hk hp
  rw [h k hv hp, Dict.get?_update, hc.writes board k (.inr (.inr ⟨hk, hp⟩)), Option.none_or, hb.rest k hi hv]

theorem Rounds.agree {before : BusinessData} (hc : Confined iterate accumulate body before)
    {base : BusinessData} {acc : Value} {items : List Value} {rounds : List FedRound}
    {out : Except MapperError Value}
    (h : Rounds iterate accumulate body (PhaseNext accumulate) base acc items rounds out)
    {base₂ : BusinessData} {rounds₂ : List FedRound} {out₂ : Except MapperError Value}
    (h₂ : Rounds iterate accumulate body (GraphNext accumulate body) base₂ acc items rounds₂ out₂)
    (hb : Agree iterate accumulate before base base₂) : out = out₂ := by
  induction h generalizing base₂ rounds₂ with
  | done => cases h₂; rfl
  | refused hh hp hm =>
    cases h₂ with
    | refused hh₂ hp₂ hm₂ =>
      rw [← hh.same hc hh₂ hb, hp, Option.some.injEq] at hp₂
      rw [hp₂, hm₂] at hm
      exact hm.symm
    | round hh₂ hp₂ hm₂ =>
      rw [← hh.same hc hh₂ hb, hp, Option.some.injEq] at hp₂
      rw [hp₂, hm₂] at hm
      exact absurd hm (by simp)
  | round hh hp hm hn _ ih =>
    cases h₂ with
    | refused hh₂ hp₂ hm₂ =>
      rw [← hh.same hc hh₂ hb, hp, Option.some.injEq] at hp₂
      rw [hp₂, hm₂] at hm
      exact absurd hm (by simp)
    | round hh₂ hp₂ hm₂ hn₂ hr₂ =>
      rw [← hh.same hc hh₂ hb, hp, Option.some.injEq] at hp₂
      rw [hp₂, hm₂, Except.ok.injEq] at hm
      subst hm
      apply ih hr₂
      intro k hi hv hk hpo
      rw [hn k hv, hb k hi hv hk hpo, hn₂.agree hc hh₂ k hi hv hk hpo]

end Folds

def withFields (state : WorkflowState) (fields : Dict String Value) : WorkflowState :=
  { state with data := state.data.update fields }

@[simp] theorem withFields_data (state : WorkflowState) (fields : Dict String Value) :
    (withFields state fields).data = state.data.update fields := rfl

theorem updateBusiness_eq_ok {state : WorkflowState} {fields : Dict String Value}
    (h : ∀ k ∈ fields.keys, settable k = true) : updateBusiness state fields = .ok (withFields state fields) :=
  updateBusiness_ok_iff.mpr ⟨h, rfl⟩

section Levels

variable {iterate : IterateSpec} {accumulate : IterateAccumulateSpec} {body : LoopBody}

theorem updateBusiness_var (hn : LoopNames iterate accumulate) (state : WorkflowState) (acc : Value) :
    updateBusiness state (Dict.single accumulate.var acc) =
      .ok (withFields state (Dict.single accumulate.var acc)) := by
  apply updateBusiness_eq_ok
  intro k hk
  have hk : k = accumulate.var := by simpa [Dict.keys, Dict.single] using hk
  rw [hk, hn.var]

theorem updateBusiness_round (hn : LoopNames iterate accumulate) (state : WorkflowState) (item acc : Value) :
    updateBusiness state ((Dict.single iterate.itemVar item).set accumulate.var acc) =
      .ok (withFields state ((Dict.single iterate.itemVar item).set accumulate.var acc)) := by
  apply updateBusiness_eq_ok
  intro k hk
  rw [Dict.mem_keys, Dict.get?_set, Dict.get?_single] at hk
  by_cases hv : accumulate.var = k
  · rw [← hv, hn.var]
  · by_cases hi : iterate.itemVar = k
    · rw [← hi, hn.item]
    · simp [hv, hi] at hk

theorem handed_round (hn : LoopNames iterate accumulate) (base : BusinessData) (item acc : Value) :
    Handed iterate accumulate base acc item
      (base.update ((Dict.single iterate.itemVar item).set accumulate.var acc)) where
  item := by simp [hn.apart.symm]
  acc := by simp
  rest k hi hv := by simp [Ne.symm hi, Ne.symm hv]

def Declares (schema : Option Schema) (key : String) : Prop :=
  ∃ keys, schemaOutputKeys schema = some keys ∧ key ∈ keys

theorem phase_piece (hn : LoopNames iterate accumulate) {schema : Option Schema}
    (hd : Declares schema accumulate.from_) (child : WorkflowState) {data payload : Dict String Value}
    (h : ∀ k, k ≠ "phase_outputs" → data.get? k = payload.get? k) :
    (phaseResultPayload child (.delta data) (schemaOutputKeys schema)).get? accumulate.from_ =
      payload.get? accumulate.from_ := by
  obtain ⟨keys, hk, hm⟩ := hd
  simp [hk, phaseResultPayload, hm, hn.from_not_phase_outputs, h _ hn.from_not_phase_outputs]

theorem graph_piece (hn : LoopNames iterate accumulate) {schema : Option Schema}
    (hd : Declares schema accumulate.from_) {child : WorkflowState} {data payload : Dict String Value}
    (h : ∀ k, k ≠ "phase_outputs" → data.get? k = (child.data.update payload).get? k)
    {piece : Value} (hp : payload.get? accumulate.from_ = some piece) :
    (phaseResultPayload child (.full data) (schemaOutputKeys schema)).get? accumulate.from_ = some piece := by
  obtain ⟨keys, hk, hm⟩ := hd
  simp [hk, phaseResultPayload, hm, h _ hn.from_not_phase_outputs, hp]

theorem phase_rounds (hn : LoopNames iterate accumulate) {schema : Option Schema}
    (hd : Declares schema accumulate.from_) (hf : ∀ board, (body board).contains accumulate.from_ = true)
    {node : IndexedNode} (hnode : PhaseRuns node body) (phaseId : String) (items : List Value) (index : Nat)
    (r : LoopRound) :
    ∃ rounds, Rounds iterate accumulate body (PhaseNext accumulate) r.loopState.data r.acc items rounds
      ((loopRounds node phaseId iterate accumulate (schemaOutputKeys schema) index items r).map LoopRound.acc) := by
  induction items generalizing index r with
  | nil => exact ⟨[], .done⟩
  | cons item items ih =>
    have hh := handed_round hn r.loopState.data item r.acc
    obtain ⟨delta, hdelta, hpay⟩ := hnode index
      (withFields r.loopState ((Dict.single iterate.itemVar item).set accumulate.var r.acc))
    obtain ⟨piece, hp⟩ := Option.isSome_iff_exists.mp (hf _)
    have hpiece := fun child => (phase_piece hn hd child hpay).trans hp
    rw [loopRounds, loopRound, updateBusiness_round hn]
    simp only [liftUpdateError, bind, Except.bind, hdelta, hpiece]
    cases hm : mergeAccumulator r.acc piece accumulate.merge with
    | error e => exact ⟨_, .refused hh hp hm⟩
    | ok acc =>
      simp only [updateBusiness_var hn, pure, Except.pure]
      obtain ⟨rounds, hr⟩ := ih (index + 1) ⟨acc, withFields r.loopState (Dict.single accumulate.var acc),
        r.executions ++ (delta.flow.phaseExecutionIds.bind (·.get? phaseId)).getD []⟩
      refine ⟨_, .round hh hp hm ?_ hr⟩
      intro k hk
      simp [Ne.symm hk]

theorem graph_rounds (hn : LoopNames iterate accumulate) {schema : Option Schema}
    (hd : Declares schema accumulate.from_) (hf : ∀ board, (body board).contains accumulate.from_ = true)
    {graph : GraphRunner} (hgraph : GraphRuns graph body) (items : List Value) (r : GraphLoop) :
    ∃ rounds, Rounds iterate accumulate body (GraphNext accumulate body) r.loopState.data r.acc items rounds
      ((items.foldlM (graphLoopRound graph iterate accumulate (schemaOutputKeys schema)) r).map GraphLoop.acc) := by
  induction items generalizing r with
  | nil => exact ⟨[], .done⟩
  | cons item items ih =>
    have hh := handed_round hn r.loopState.data item r.acc
    obtain ⟨result, hresult, hpay⟩ := hgraph
      (withFields r.loopState ((Dict.single iterate.itemVar item).set accumulate.var r.acc))
    obtain ⟨piece, hp⟩ := Option.isSome_iff_exists.mp (hf _)
    have hpiece := graph_piece hn hd hpay hp
    rw [List.foldlM_cons, graphLoopRound, updateBusiness_round hn]
    simp only [liftUpdateError, bind, Except.bind, hresult, hpiece]
    cases hm : mergeAccumulator r.acc piece accumulate.merge with
    | error e => exact ⟨_, .refused hh hp hm⟩
    | ok acc =>
      simp only [updateBusiness_var hn, pure, Except.pure]
      obtain ⟨rounds, hr⟩ := ih ⟨acc, withFields result (Dict.single accumulate.var acc)⟩
      refine ⟨_, .round hh hp hm ?_ hr⟩
      intro k hk hpo
      rw [withFields_data, Dict.get?_update, Dict.get?_single, if_neg (Ne.symm hk), Option.none_or]
      exact hpay k hpo

theorem get?_phase_after (hn : LoopNames iterate accumulate) (phaseId : String) (acc : Value)
    (ids : Dict String (List String)) (before : BusinessData) {k : String} (hk : k ≠ "phase_outputs") :
    (mergeBusinessChannel before (.delta
      (phaseOutputsDelta (Dict.single phaseId (Dict.single accumulate.var acc)) ids).data)).get? k =
      if k = accumulate.var then some acc else before.get? k := by
  have hinputs : (Dict.single accumulate.var acc).get? "inputs" = none := by
    simp [hn.not_inputs]
  rw [mergeBusinessChannel_congr before (phaseOutputsDelta_single ids) k,
    get?_merge_phaseDataDelta hinputs hk, Dict.get?_single]
  by_cases hv : k = accumulate.var
  · simp [hv]
  · simp [hv, Ne.symm hv]

theorem get?_foldl_update_const {payload : Dict String Value} {payloads : List (Dict String Value)}
    (h : ∀ p ∈ payloads, p = payload) (d : Dict String Value) (k : String) :
    (payloads.foldl Dict.update d).get? k = if payloads = [] then d.get? k else (payload.get? k).or (d.get? k) := by
  induction payloads generalizing d with
  | nil => simp
  | cons p payloads ih =>
    have hp : p = payload := h p (by simp)
    subst hp
    rw [List.foldl_cons, ih (fun q hq => h q (by simp [hq])), Dict.get?_update]
    cases p.get? k <;> simp

theorem terminalPhaseOutputs_eq {phaseIds : List String} {payload p : Dict String Value}
    (h : p ∈ (terminalPhaseOutputs phaseIds payload).entries.map Prod.snd) : p = payload := by
  obtain ⟨e, he, rfl⟩ := List.mem_map.mp h
  cases phaseIds with
  | nil =>
    have he : e = ("output", payload) := by simpa [terminalPhaseOutputs, Dict.single] using he
    rw [he]
  | cons id ids =>
    have hget := Dict.get?_mem.mpr he
    simp only [terminalPhaseOutputs, Dict.get?_ofList] at hget
    have hmem := List.mem_reverse.mp (Dict.mem_of_find hget)
    simp only [List.mem_map, Prod.mk.injEq] at hmem
    obtain ⟨_, -, -, h⟩ := hmem
    exact h.symm

theorem get?_terminal_updates (phaseIds : List String) (payload : Dict String Value) (k : String) :
    (((terminalPhaseOutputs phaseIds payload).entries.map Prod.snd).foldl Dict.update ∅).get? k =
      payload.get? k := by
  have hne : (terminalPhaseOutputs phaseIds payload).entries.map Prod.snd ≠ [] :=
    List.ne_nil_of_mem (mem_terminalPhaseOutputs phaseIds payload)
  rw [get?_foldl_update_const (fun p hp => terminalPhaseOutputs_eq hp), if_neg hne, Dict.get?_empty, Option.or_none]

theorem withPhaseOutputs_var (hn : LoopNames iterate accumulate) (phaseIds : List String) (acc : Value)
    (state : WorkflowState) :
    ∃ final, withPhaseOutputs state (terminalPhaseOutputs phaseIds (Dict.single accumulate.var acc)) = .ok final ∧
      ∀ k, k ≠ "phase_outputs" →
        final.data.get? k = if k = accumulate.var then some acc else state.data.get? k := by
  rw [withPhaseOutputs, updateBusiness_eq_ok]
  · refine ⟨_, rfl, ?_⟩
    intro k hk
    rw [withFields_data, Dict.get?_update, Dict.get?_set, if_neg (Ne.symm hk), get?_terminal_updates,
      Dict.get?_single]
    by_cases hv : k = accumulate.var
    · simp [hv]
    · simp [hv, Ne.symm hv]
  · intro k hk
    rw [Dict.mem_keys, Dict.get?_set, get?_terminal_updates, Dict.get?_single] at hk
    by_cases hp : "phase_outputs" = k
    · rw [← hp]; decide
    · by_cases hv : accumulate.var = k
      · rw [← hv, hn.var]
      · simp [hp, hv] at hk

def phaseAfter (state : WorkflowState) (result : Except MapperError PhaseDelta) : Except MapperError BusinessData :=
  result.map (fun delta => (applyDelta state delta.data delta.flow).data)

def graphAfter (result : Except MapperError WorkflowState) : Except MapperError BusinessData :=
  result.map WorkflowState.data

structure LoopEnds (accumulate : IterateAccumulateSpec) (before : BusinessData) (out : Except MapperError Value)
    (after : Except MapperError BusinessData) : Prop where
  error : ∀ e, out = .error e → after = .error e
  ok : ∀ acc, out = .ok acc → ∃ board, after = .ok board ∧ board.get? accumulate.var = some acc ∧
    ∀ k, k ≠ accumulate.var → k ≠ "phase_outputs" → board.get? k = before.get? k

theorem LoopEnds.map_get? {before : BusinessData} {out : Except MapperError Value}
    {after : Except MapperError BusinessData} (h : LoopEnds accumulate before out after) :
    after.map (·.get? accumulate.var) = out.map some := by
  cases out with
  | error e => rw [h.error e rfl]; rfl
  | ok acc =>
    obtain ⟨board, hb, hv, -⟩ := h.ok acc rfl
    rw [hb]
    simp [Except.map, hv]

theorem FoldsInto.of_rounds {next : BusinessData → BusinessData → BusinessData → Prop}
    {carried : BusinessData → List FedRound → Prop} {before base : BusinessData} {items : List Value}
    {rounds : List FedRound} {out : Except MapperError Value} {after : Except MapperError BusinessData}
    (h : Rounds iterate accumulate body next base accumulate.init items rounds out) (hc : carried before rounds)
    (hends : LoopEnds accumulate before out after) :
    FoldsInto iterate accumulate body carried before items after := by
  refine ⟨rounds, h.fed, hc, ?_, ?_⟩
  · rw [h.fold_eq, hends.map_get?]
  · intro board hb
    cases hout : out with
    | error e => rw [hends.error e hout] at hb; exact absurd hb (by simp)
    | ok acc =>
      obtain ⟨board', hb', -, hrest⟩ := hends.ok acc hout
      rw [hb', Except.ok.injEq] at hb
      subst hb
      exact ⟨h.items_eq hout, hrest⟩

theorem Rounds.rebase_isolated {base before : BusinessData} {acc : Value} {items : List Value}
    {rounds : List FedRound} {out : Except MapperError Value}
    (h : Rounds iterate accumulate body (PhaseNext accumulate) base acc items rounds out)
    (hb : ∀ k, k ≠ accumulate.var → base.get? k = before.get? k) : Isolated iterate accumulate before rounds := by
  intro r hr k hi hv
  rw [h.isolated r hr k hi hv, hb k hv]

theorem phase_loop (hn : LoopNames iterate accumulate) (hmode : iterate.mode = .loop accumulate)
    {schema : Option Schema} (hd : Declares schema accumulate.from_)
    (hf : ∀ board, (body board).contains accumulate.from_ = true)
    {node : IndexedNode} (hnode : PhaseRuns node body) (phaseId : String) {state : WorkflowState}
    {items : List Value} (hitems : resolveIterateItems state iterate.overField = .ok items) :
    ∃ rounds out, Rounds iterate accumulate body (PhaseNext accumulate)
        (withFields state (Dict.single accumulate.var accumulate.init)).data accumulate.init
        (applyIterateRange items iterate.range) rounds out ∧
      LoopEnds accumulate state.data out
        (phaseAfter state (iteratePhase node phaseId iterate schema state)) := by
  obtain ⟨rounds, hr⟩ := phase_rounds hn hd hf hnode phaseId (applyIterateRange items iterate.range) 1
    ⟨accumulate.init, withFields state (Dict.single accumulate.var accumulate.init), []⟩
  refine ⟨rounds, _, hr, ?_⟩
  simp only [iteratePhase, hmode, loopPhase, hitems, updateBusiness_var hn, liftUpdateError, bind, Except.bind]
  cases hl : loopRounds node phaseId iterate accumulate (schemaOutputKeys schema) 1
      (applyIterateRange items iterate.range)
      ⟨accumulate.init, withFields state (Dict.single accumulate.var accumulate.init), []⟩ with
  | error e =>
    refine ⟨?_, fun acc h => absurd h (by simp [Except.map])⟩
    intro e' he
    simpa [Except.map, phaseAfter] using he
  | ok last =>
    refine ⟨fun e h => absurd h (by simp [Except.map]), ?_⟩
    intro acc hacc
    have hacc : last.acc = acc := by simpa [Except.map] using hacc
    subst hacc
    refine ⟨_, rfl, ?_, ?_⟩
    · exact (get?_phase_after hn _ _ _ _ hn.not_phase_outputs).trans (if_pos rfl)
    · intro k hk hp
      exact (get?_phase_after hn _ _ _ _ hp).trans (if_neg hk)

theorem graph_loop (hn : LoopNames iterate accumulate) (hmode : iterate.mode = .loop accumulate)
    {frame : GraphFrame} (hframe : frame.iterate = some iterate)
    (hd : Declares frame.outputSchema accumulate.from_)
    (hf : ∀ board, (body board).contains accumulate.from_ = true)
    {graph : GraphRunner} (hgraph : GraphRuns graph body) {state : WorkflowState}
    {items : List Value} (hitems : resolveIterateItems state iterate.overField = .ok items) :
    ∃ rounds out, Rounds iterate accumulate body (GraphNext accumulate body)
        (withFields state (Dict.single accumulate.var accumulate.init)).data accumulate.init
        (applyIterateRange items iterate.range) rounds out ∧
      LoopEnds accumulate state.data out (graphAfter (frame.invoke graph state)) := by
  obtain ⟨rounds, hr⟩ := graph_rounds hn hd hf hgraph (applyIterateRange items iterate.range)
    ⟨accumulate.init, withFields state (Dict.single accumulate.var accumulate.init)⟩
  refine ⟨rounds, _, hr, ?_⟩
  simp only [GraphFrame.invoke, hframe, hmode, runGraphLoopIterate, hitems, updateBusiness_var hn, liftUpdateError,
    bind, Except.bind]
  cases hl : (applyIterateRange items iterate.range).foldlM
      (graphLoopRound graph iterate accumulate (schemaOutputKeys frame.outputSchema))
      ⟨accumulate.init, withFields state (Dict.single accumulate.var accumulate.init)⟩ with
  | error e =>
    refine ⟨?_, fun acc h => absurd h (by simp [Except.map])⟩
    intro e' he
    simpa [Except.map, graphAfter] using he
  | ok last =>
    refine ⟨fun e h => absurd h (by simp [Except.map]), ?_⟩
    intro acc hacc
    have hacc : last.acc = acc := by simpa [Except.map] using hacc
    subst hacc
    obtain ⟨final, hfinal, hget⟩ := withPhaseOutputs_var hn frame.terminalPhaseIds last.acc state
    simp only [hfinal, pure, Except.pure]
    refine ⟨_, rfl, ?_, ?_⟩
    · exact (hget accumulate.var hn.not_phase_outputs).trans (if_pos rfl)
    · intro k hk hp
      exact (hget k hp).trans (if_neg hk)

theorem loop_is_left_fold (hn : LoopNames iterate accumulate) (hmode : iterate.mode = .loop accumulate)
    (hf : ∀ board, (body board).contains accumulate.from_ = true) (state : WorkflowState) {items : List Value}
    (hitems : resolveIterateItems state iterate.overField = .ok items)
    {node : IndexedNode} (hnode : PhaseRuns node body) (phaseId : String) {schema : Option Schema}
    (hschema : Declares schema accumulate.from_)
    {graph : GraphRunner} (hgraph : GraphRuns graph body) (frame : GraphFrame) (hframe : frame.iterate = some iterate)
    (houtputs : Declares frame.outputSchema accumulate.from_) :
    FoldsInto iterate accumulate body (Isolated iterate accumulate) state.data
        (applyIterateRange items iterate.range)
        (phaseAfter state (iteratePhase node phaseId iterate schema state)) ∧
      FoldsInto iterate accumulate body (Continued iterate accumulate) state.data
        (applyIterateRange items iterate.range) (graphAfter (frame.invoke graph state)) ∧
      (Confined iterate accumulate body state.data →
        (phaseAfter state (iteratePhase node phaseId iterate schema state)).map (·.get? accumulate.var) =
          (graphAfter (frame.invoke graph state)).map (·.get? accumulate.var)) := by
  obtain ⟨rounds, out, hr, hends⟩ := phase_loop hn hmode hschema hf hnode phaseId hitems
  obtain ⟨rounds₂, out₂, hr₂, hends₂⟩ := graph_loop hn hmode hframe houtputs hf hgraph hitems
  have hbase : ∀ k, k ≠ accumulate.var →
      (withFields state (Dict.single accumulate.var accumulate.init)).data.get? k = state.data.get? k := by
    intro k hk
    simp [Ne.symm hk]
  refine ⟨.of_rounds hr (hr.rebase_isolated hbase) hends, .of_rounds hr₂ ?_ hends₂, ?_⟩
  · exact hr₂.continued.congr (fun k hk _ => (hbase k hk).symm)
  · intro hc
    rw [hends.map_get?, hends₂.map_get?, hr.agree hc hr₂ (fun k _ _ _ _ => rfl)]

end Levels

def collectInto (var : String) : IterateAccumulateSpec := ⟨var, .list [], "piece", .append⟩

def collectLoop (var : String) : IterateSpec := { mode := .loop (collectInto var), overField := "xs", itemVar := "x" }

def collectBody : LoopBody := fun board => Dict.single "piece" ((board.get? "x").getD .null)

def collectNode : IndexedNode := fun _ state => .ok { data := collectBody state.data, flow := {}, messages := [] }

def collectGraph : GraphRunner := fun state => .ok (withFields state (collectBody state.data))

def collectSchema : Option Schema := some (Dict.single "properties" (.dict [("piece", .dict [])]))

def collectFrame (var : String) : GraphFrame := { iterate := some (collectLoop var), outputSchema := collectSchema }

def collectState (items : List Value) : WorkflowState := ⟨Dict.single "xs" (.list items), {}, []⟩

theorem collectNode_runs : PhaseRuns collectNode collectBody := fun _ _ => ⟨_, rfl, fun _ _ => rfl⟩

theorem collectGraph_runs : GraphRuns collectGraph collectBody := fun _ => ⟨_, rfl, fun _ _ => rfl⟩

theorem collectSchema_declares : Declares collectSchema "piece" := ⟨["piece"], rfl, by simp⟩

theorem loop_is_left_fold_collect :
    FoldsInto (collectLoop "total") (collectInto "total") collectBody
        (Isolated (collectLoop "total") (collectInto "total")) (collectState [.num 1, .num 2]).data
        [.num 1, .num 2]
        (phaseAfter (collectState [.num 1, .num 2])
          (iteratePhase collectNode "p" (collectLoop "total") collectSchema (collectState [.num 1, .num 2]))) ∧
      FoldsInto (collectLoop "total") (collectInto "total") collectBody
        (Continued (collectLoop "total") (collectInto "total")) (collectState [.num 1, .num 2]).data
        [.num 1, .num 2] (graphAfter ((collectFrame "total").invoke collectGraph (collectState [.num 1, .num 2]))) ∧
      (phaseAfter (collectState [.num 1, .num 2])
          (iteratePhase collectNode "p" (collectLoop "total") collectSchema
            (collectState [.num 1, .num 2]))).map (·.get? "total") =
        (graphAfter ((collectFrame "total").invoke collectGraph
          (collectState [.num 1, .num 2]))).map (·.get? "total") := by
  have hn : LoopNames (collectLoop "total") (collectInto "total") := by constructor <;> decide
  have hc : Confined (collectLoop "total") (collectInto "total") collectBody (collectState [.num 1, .num 2]).data := by
    constructor
    · intro d e h k
      rw [collectBody, collectBody, h "x" (.inl rfl)]
    · intro d k hk
      have hk : k ≠ "piece" := by
        rintro rfl
        simp [LoopReads, collectLoop, collectInto, collectState, Dict.contains] at hk
      simp [collectBody, Ne.symm hk]
  obtain ⟨hp, hg, heq⟩ := loop_is_left_fold hn rfl (fun _ => rfl) (collectState [.num 1, .num 2]) rfl
    collectNode_runs "p" collectSchema_declares collectGraph_runs (collectFrame "total") rfl
    collectSchema_declares
  exact ⟨hp, hg, heq hc⟩

theorem phase_outputs_accumulator_lost :
    (collectLoop "phase_outputs").itemVar ≠ (collectInto "phase_outputs").var ∧
      ¬ FoldsInto (collectLoop "phase_outputs") (collectInto "phase_outputs") collectBody
        (Isolated (collectLoop "phase_outputs") (collectInto "phase_outputs")) (collectState []).data []
        (phaseAfter (collectState [])
          (iteratePhase collectNode "p" (collectLoop "phase_outputs") collectSchema (collectState []))) ∧
      ¬ FoldsInto (collectLoop "phase_outputs") (collectInto "phase_outputs") collectBody
        (Continued (collectLoop "phase_outputs") (collectInto "phase_outputs")) (collectState []).data []
        (graphAfter ((collectFrame "phase_outputs").invoke collectGraph (collectState []))) := by
  refine ⟨by decide, ?_, ?_⟩
  · rintro ⟨rounds, -, -, hget, hframe⟩
    have hnil : rounds = [] := List.map_eq_nil_iff.mp (hframe _ rfl).1
    rw [hnil] at hget
    exact absurd (Except.ok.inj hget) (by decide)
  · rintro ⟨rounds, -, -, hget, hframe⟩
    have hnil : rounds = [] := List.map_eq_nil_iff.mp (hframe _ rfl).1
    rw [hnil] at hget
    exact absurd (Except.ok.inj hget) (by decide)

end GraphSkillRuntime
