import Mathlib.Order.Nat
import GraphSkillRuntime.EdgeTransitions

/-! Every phase execution of a run is bracketed by its transition and its lifecycle events. -/

namespace GraphSkillRuntime.EdgeSegments

open Runs Action RunState

namespace Event

def nestedIn (e : Event) (executionId : ℕ) : Bool :=
  e.subgraphPath.any fun frame => frame.2 == some executionId

/-- The transition an edge event or an edge operation names; a reduction is not looked at. -/
def transitionId? (e : Event) : Option (Option ℕ) :=
  match e.body with
  | .edgeStart tr | .edgeEnd tr => some (some tr.transitionId)
  | .inputDispatch t _ _ _ | .inputFileInjected t _ _ => some t
  | _ => none

def executionId? (e : Event) : Option ℕ :=
  match e.body with
  | .phaseStart _ x | .phaseEnd _ x _ => some x
  | _ => none

/-- Input dispatches and injected input files, with the phase they lead to. -/
def operation? (e : Event) : Option String :=
  match e.body with
  | .inputDispatch _ _ toPhase _ | .inputFileInjected _ _ toPhase => some toPhase
  | _ => none

theorem executionId?_of_operation {e : Event} {toPhase : String} (h : e.operation? = some toPhase) :
    e.executionId? = none := by
  obtain ⟨body, path⟩ := e
  cases body <;> simp_all [operation?, executionId?]

end Event

namespace EdgeTransition

def identity (tr : EdgeTransition) : EdgeTransition := { tr with operationCount := 0 }

def concerns (tr : EdgeTransition) (e : Event) : Bool :=
  e.transitionId? == some (some tr.transitionId) || e.executionId? == some tr.toPhaseExecutionId ||
    e.nestedIn tr.toPhaseExecutionId

def bounds (tr : EdgeTransition) (e : Event) : Bool :=
  e.transitionId? == some (some tr.transitionId) && e.operation?.isNone ||
    e.executionId? == some tr.toPhaseExecutionId || e.nestedIn tr.toPhaseExecutionId

def operates (tr : EdgeTransition) (e : Event) : Bool :=
  e.transitionId? == some (some tr.transitionId) && e.operation? == some tr.toPhase &&
    !e.nestedIn tr.toPhaseExecutionId

def encloses (tr : EdgeTransition) (e : Event) : Bool :=
  e.nestedIn tr.toPhaseExecutionId && e.transitionId? != some (some tr.transitionId) &&
    e.executionId? != some tr.toPhaseExecutionId

end EdgeTransition

inductive PhasePart (tr : EdgeTransition) (completed : Prop) : List Event → Prop where
  | unopened (hcompleted : ¬ completed) : PhasePart tr completed []
  | opened (began ended : Event) (nested : List Event) (status : Bool)
      (hbegan : began.body = .phaseStart tr.toPhase tr.toPhaseExecutionId)
      (hended : ended.body = .phaseEnd tr.toPhase tr.toPhaseExecutionId status)
      (hstatus : status = true ↔ completed)
      (hnested : ∀ e ∈ nested, tr.encloses e = true) :
      PhasePart tr completed (began :: nested ++ [ended])

inductive Segmented (tr : EdgeTransition) (completed : Prop) : List Event → Prop where
  | mk (start finish : Event) (operations rest : List Event)
      (hstart : start.body = .edgeStart { tr with operationCount := 0, closed := false })
      (hoperations : ∀ e ∈ operations, tr.operates e = true)
      (hfinish : finish.body = .edgeEnd { tr with operationCount := operations.length })
      (hrest : PhasePart tr completed rest) :
      Segmented tr completed (start :: operations ++ finish :: rest)

theorem EdgeTransition.eq_of_identity {tr u : EdgeTransition} (h : u.identity = tr.identity) :
    ∃ n, tr = { u with operationCount := n } := by
  refine ⟨tr.operationCount, ?_⟩
  cases tr
  cases u
  simp_all [EdgeTransition.identity]

theorem Segmented.recount {tr : EdgeTransition} {completed completed' : Prop} {l : List Event}
    (h : Segmented tr completed l) (n : ℕ) (hc : completed' ↔ completed) :
    Segmented { tr with operationCount := n } completed' l := by
  obtain ⟨start, finish, operations, rest, hstart, hoperations, hfinish, hrest⟩ := h
  refine .mk start finish operations rest hstart hoperations hfinish ?_
  cases hrest with
  | unopened hcompleted => exact .unopened (mt hc.mp hcompleted)
  | opened began ended nested status hbegan hended hstatus hnested =>
    exact .opened began ended nested status hbegan hended (hstatus.trans hc.symm) hnested

def Context.ids (c : Context) : List ℕ :=
  c.activeSubgraphPath.filterMap Prod.snd ++ c.activePhaseExecution.toList

structure Quiet (s : RunState) : Prop where
  fresh : ∀ t tr, s.transition t = some tr → t < s.drawn
  keyed : ∀ t tr, s.transition t = some tr → tr.transitionId = t
  returned : ∀ x ∈ s.returned, x < s.drawn
  ids : ∀ x ∈ s.context.ids, x < s.drawn
  active : ∀ t, s.context.activeEdgeTransition = some t → t < s.drawn
  settled : ∀ tr, s.activeTransition = some tr → tr.closed = true

/-- What a call started in `s` did when it left `s'` and `events` were emitted meanwhile. -/
structure Segment (s s' : RunState) (events : List Event) : Prop where
  quiet : Quiet s'
  context : s'.context = s.context
  drawn : s.drawn ≤ s'.drawn
  log : s'.log = s.log ++ events
  kept : ∀ t < s.drawn, (s'.transition t).map EdgeTransition.identity = (s.transition t).map EdgeTransition.identity
  keptReturned : ∀ x < s.drawn, x ∈ s'.returned ↔ x ∈ s.returned
  named : ∀ e ∈ events, ∀ o, e.transitionId? = some o →
    ∃ t tr, o = some t ∧ s.drawn ≤ t ∧ s'.transition t = some tr
  executions : ∀ e ∈ events, ∀ x, e.executionId? = some x → s.drawn ≤ x ∧ x < s'.drawn
  path : ∀ e ∈ events, ∀ x, e.nestedIn x = true → s.drawn ≤ x ∧ x < s'.drawn ∨ x ∈ s.context.ids
  segments : ∀ t tr, s.drawn ≤ t → s'.transition t = some tr →
    (s.drawn ≤ tr.toPhaseExecutionId ∧ tr.toPhaseExecutionId < s'.drawn) ∧
      Segmented tr (tr.toPhaseExecutionId ∈ s'.returned) (events.filter tr.concerns)

namespace Segment

variable {s s₁ s₂ : RunState} {l₁ l₂ : List Event}

theorem refl (hs : Quiet s) : Segment s s [] where
  quiet := hs
  context := rfl
  drawn := Nat.le_refl _
  log := (List.append_nil _).symm
  kept := fun _ _ => rfl
  keptReturned := fun _ _ => Iff.rfl
  named := by simp
  executions := by simp
  path := by simp
  segments := by
    intro t tr ht h
    have hlt := hs.fresh t tr h
    omega

theorem of_eq (h : Segment s s₁ l₁) (hsame : s₂ = s₁) : Segment s s₂ l₁ := by
  rwa [hsame]

theorem concerns_eq_false {tr : EdgeTransition} {e : Event} (ht : e.transitionId? ≠ some (some tr.transitionId))
    (hx : e.executionId? ≠ some tr.toPhaseExecutionId) (hn : e.nestedIn tr.toPhaseExecutionId = false) :
    tr.concerns e = false := by
  simp [EdgeTransition.concerns, ht, hx, hn]

theorem not_concerns (h : Segment s s₁ l₁) {tr : EdgeTransition}
    (ht : tr.transitionId < s.drawn ∨ s₁.drawn ≤ tr.transitionId)
    (hx : tr.toPhaseExecutionId < s.drawn ∨ s₁.drawn ≤ tr.toPhaseExecutionId)
    (hc : tr.toPhaseExecutionId ∉ s.context.ids) : ∀ e ∈ l₁, tr.concerns e = false := by
  intro e he
  apply concerns_eq_false
  · intro hid
    obtain ⟨t, u, ho, hle, hu⟩ := h.named e he _ hid
    have hlt := h.quiet.fresh t u hu
    rw [← Option.some.inj ho] at hle hlt
    omega
  · intro hid
    have hrange := h.executions e he _ hid
    omega
  · apply Bool.eq_false_iff.mpr
    intro hn
    rcases h.path e he _ hn with hrange | hmem
    · omega
    · exact hc hmem

theorem stored (h : Segment s s₁ l₁) (hs : Quiet s) {t : ℕ} {tr : EdgeTransition}
    (htr : s.transition t = some tr) : ∃ u, s₁.transition t = some u ∧ u.identity = tr.identity := by
  have hkept := h.kept t (hs.fresh t tr htr)
  rw [htr, Option.map_some] at hkept
  exact Option.map_eq_some_iff.mp hkept

theorem stored_before (h : Segment s s₁ l₁) {t : ℕ} {tr : EdgeTransition} (ht : t < s.drawn)
    (htr : s₁.transition t = some tr) : ∃ u, s.transition t = some u ∧ u.identity = tr.identity := by
  have hkept := h.kept t ht
  rw [htr, Option.map_some] at hkept
  exact Option.map_eq_some_iff.mp hkept.symm

theorem relog (h : Segment s s₁ l₁) (log : List Event) :
    Segment { s with log := log } { s₁ with log := log ++ l₁ } l₁ where
  quiet := ⟨h.quiet.fresh, h.quiet.keyed, h.quiet.returned, h.quiet.ids, h.quiet.active, h.quiet.settled⟩
  context := h.context
  drawn := h.drawn
  log := rfl
  kept := h.kept
  keptReturned := h.keptReturned
  named := h.named
  executions := h.executions
  path := h.path
  segments := h.segments

theorem weave (schedule : List Bool) (hs : Quiet s) (h₁ : Segment s s₁ l₁) (h₂ : Segment s₁ s₂ l₂) :
    Segment s { s₂ with log := s.log ++ Runs.weave schedule l₁ l₂ } (Runs.weave schedule l₁ l₂) where
  quiet := ⟨h₂.quiet.fresh, h₂.quiet.keyed, h₂.quiet.returned, h₂.quiet.ids, h₂.quiet.active,
    h₂.quiet.settled⟩
  context := h₂.context.trans h₁.context
  drawn := h₁.drawn.trans h₂.drawn
  log := rfl
  kept := fun t ht => (h₂.kept t (ht.trans_le h₁.drawn)).trans (h₁.kept t ht)
  keptReturned := fun x hx => (h₂.keptReturned x (hx.trans_le h₁.drawn)).trans (h₁.keptReturned x hx)
  named := by
    intro e he o ho
    rcases mem_weave.mp he with h | h
    · obtain ⟨t, tr, rfl, hle, htr⟩ := h₁.named e h o ho
      obtain ⟨u, hu, -⟩ := h₂.stored h₁.quiet htr
      exact ⟨t, u, rfl, hle, hu⟩
    · obtain ⟨t, tr, rfl, hle, htr⟩ := h₂.named e h o ho
      exact ⟨t, tr, rfl, h₁.drawn.trans hle, htr⟩
  executions := by
    intro e he x hx
    have hd₁ := h₁.drawn
    have hd₂ := h₂.drawn
    rcases mem_weave.mp he with h | h
    · have hrange := h₁.executions e h x hx
      exact ⟨hrange.1, hrange.2.trans_le hd₂⟩
    · have hrange := h₂.executions e h x hx
      exact ⟨hd₁.trans hrange.1, hrange.2⟩
  path := by
    intro e he x hx
    have hd₁ := h₁.drawn
    have hd₂ := h₂.drawn
    rcases mem_weave.mp he with h | h
    · exact (h₁.path e h x hx).imp_left fun hrange => ⟨hrange.1, hrange.2.trans_le hd₂⟩
    · have hrange := h₂.path e h x hx
      rw [h₁.context] at hrange
      exact hrange.imp_left fun hrange => ⟨hd₁.trans hrange.1, hrange.2⟩
  segments := by
    intro t tr ht htr
    have hd₁ := h₁.drawn
    have hd₂ := h₂.drawn
    have hkey := h₂.quiet.keyed t tr htr
    by_cases hlt : t < s₁.drawn
    · -- an execution of the first call: the second one neither names it nor reports on it
      obtain ⟨u, hu, hid⟩ := h₂.stored_before hlt htr
      obtain ⟨n, rfl⟩ := EdgeTransition.eq_of_identity hid
      obtain ⟨hrange, hseg⟩ := h₁.segments t u ht hu
      refine ⟨⟨hrange.1, hrange.2.trans_le hd₂⟩, ?_⟩
      rw [filter_weave_left]
      · exact hseg.recount n (h₂.keptReturned _ hrange.2)
      · apply h₂.not_concerns
        · exact Or.inl (hkey.trans_lt hlt)
        · exact Or.inl hrange.2
        · rw [h₁.context]
          intro hmem
          have hold := hs.ids _ hmem
          exact absurd hrange.1 (Nat.not_le.mpr hold)
    · obtain ⟨hrange, hseg⟩ := h₂.segments t tr (Nat.le_of_not_lt hlt) htr
      refine ⟨⟨hd₁.trans hrange.1, hrange.2⟩, ?_⟩
      rw [filter_weave_right]
      · exact hseg
      · apply h₁.not_concerns
        · exact Or.inr (hkey ▸ Nat.le_of_not_lt hlt)
        · exact Or.inr hrange.1
        · intro hmem
          have hold := hs.ids _ hmem
          omega

theorem append (hs : Quiet s) (h₁ : Segment s s₁ l₁) (h₂ : Segment s₁ s₂ l₂) :
    Segment s s₂ (l₁ ++ l₂) := by
  have h := weave [] hs h₁ h₂
  rwa [weave_nil, ← List.append_assoc, ← h₁.log, ← h₂.log] at h

theorem recontext {c : Context} (hs : Quiet s) (hids : ∀ x ∈ c.ids, x ∈ s.context.ids)
    (h : Segment { s with context := c } s₁ l₁) : Segment s { s₁ with context := s.context } l₁ where
  quiet :=
    { fresh := h.quiet.fresh
      keyed := h.quiet.keyed
      returned := h.quiet.returned
      ids := fun x hx => (hs.ids x hx).trans_le h.drawn
      active := fun t ht => (hs.active t ht).trans_le h.drawn
      settled := by
        intro tr htr
        obtain ⟨t, ht, htr⟩ := Option.bind_eq_some_iff.mp htr
        obtain ⟨u, hu, hid⟩ := h.stored_before (hs.active t ht) htr
        obtain ⟨n, rfl⟩ := EdgeTransition.eq_of_identity hid
        exact hs.settled u (Option.bind_eq_some_iff.mpr ⟨t, ht, hu⟩) }
  context := rfl
  drawn := h.drawn
  log := h.log
  kept := h.kept
  keptReturned := h.keptReturned
  named := h.named
  executions := h.executions
  path := fun e he x hx => (h.path e he x hx).imp_right (hids x)
  segments := h.segments

end Segment

theorem Event.nestedIn_eq_true {e : Event} {x : ℕ} :
    e.nestedIn x = true ↔ x ∈ e.subgraphPath.filterMap Prod.snd := by
  simp [Event.nestedIn]

theorem Quiet.with_context {s : RunState} (hs : Quiet s) (c : Context)
    (hedge : c.activeEdgeTransition = s.context.activeEdgeTransition)
    (hids : ∀ x ∈ c.ids, x ∈ s.context.ids) : Quiet { s with context := c } where
  fresh := hs.fresh
  keyed := hs.keyed
  returned := hs.returned
  ids := fun x hx => hs.ids x (hids x hx)
  active := fun t ht => hs.active t (hedge ▸ ht)
  settled := by
    intro tr htr
    apply hs.settled tr
    rw [← htr, RunState.activeTransition, RunState.activeTransition, hedge]

theorem Quiet.with_log {s : RunState} (hs : Quiet s) (log : List Event) : Quiet { s with log := log } :=
  ⟨hs.fresh, hs.keyed, hs.returned, hs.ids, hs.active, hs.settled⟩

theorem Segment.emit {s : RunState} (hs : Quiet s) (body : EventBody)
    (ht : (Event.mk body s.context.activeSubgraphPath).transitionId? = none)
    (hx : (Event.mk body s.context.activeSubgraphPath).executionId? = none) :
    Segment s (s.emit body) [⟨body, s.context.activeSubgraphPath⟩] where
  quiet := hs.with_log _
  context := rfl
  drawn := Nat.le_refl _
  log := rfl
  kept := fun _ _ => rfl
  keptReturned := fun _ _ => Iff.rfl
  named := by simp [ht]
  executions := by simp [hx]
  path := by
    intro e he x hn
    rw [List.mem_singleton] at he
    rw [he, Event.nestedIn_eq_true] at hn
    exact Or.inr (List.mem_append_left _ hn)
  segments := by
    intro t tr hle htr
    have hlt := hs.fresh t tr htr
    omega

theorem RunState.store_transition (s : RunState) (u : EdgeTransition) (t : ℕ) :
    (s.store u).transition t = if t = u.transitionId then some u else s.transition t := by
  simp [RunState.store, Function.update_apply]

theorem RunState.activeTransition_store {s : RunState} {t : ℕ} {u : EdgeTransition}
    (h : s.context.activeEdgeTransition = some t) (hu : u.transitionId = t) :
    (s.store u).activeTransition = some u := by
  simp [RunState.activeTransition, RunState.store, h, hu]

theorem Segment.recordEdgeOperation {s : RunState} (hs : Quiet s) : Segment s s.recordEdgeOperation [] := by
  cases hactive : s.activeTransition with
  | none =>
    have hsame : s.recordEdgeOperation = s := by simp [RunState.recordEdgeOperation, hactive]
    rw [hsame]
    exact .refl hs
  | some tr =>
    obtain ⟨a, ha, htr⟩ := Option.bind_eq_some_iff.mp hactive
    have hkey : tr.transitionId = a := hs.keyed a tr htr
    have hstore : s.recordEdgeOperation = s.store { tr with operationCount := tr.operationCount + 1 } := by
      simp [RunState.recordEdgeOperation, hactive]
    have hmap (t : ℕ) : (s.recordEdgeOperation.transition t).map EdgeTransition.identity =
        (s.transition t).map EdgeTransition.identity := by
      rw [hstore, RunState.store_transition]
      split_ifs with h
      · have hta : t = a := h.trans hkey
        rw [hta, htr]
        rfl
      · rfl
    have hback {t : ℕ} {u : EdgeTransition} (hu : s.recordEdgeOperation.transition t = some u) :
        ∃ v n, s.transition t = some v ∧ u = { v with operationCount := n } := by
      have hv := hmap t
      rw [hu, Option.map_some] at hv
      obtain ⟨v, hv, hid⟩ := Option.map_eq_some_iff.mp hv.symm
      obtain ⟨n, hn⟩ := EdgeTransition.eq_of_identity hid
      exact ⟨v, n, hv, hn⟩
    exact
      { quiet :=
          { fresh := fun t u hu => by
              obtain ⟨v, n, hv, -⟩ := hback hu
              rw [hstore]
              exact hs.fresh t v hv
            keyed := fun t u hu => by
              obtain ⟨v, n, hv, rfl⟩ := hback hu
              exact hs.keyed t v hv
            returned := by simpa [hstore, RunState.store] using hs.returned
            ids := by simpa [hstore, RunState.store] using hs.ids
            active := by simpa [hstore, RunState.store] using hs.active
            settled := fun u hu => by
              rw [hstore] at hu
              have hlast := RunState.activeTransition_store
                (u := { tr with operationCount := tr.operationCount + 1 }) ha hkey
              rw [← Option.some.inj (hlast.symm.trans hu)]
              exact hs.settled tr hactive }
        context := by rw [hstore]; rfl
        drawn := by rw [hstore]; exact Nat.le_refl _
        log := by rw [hstore]; exact (List.append_nil _).symm
        kept := fun t _ => hmap t
        keptReturned := fun x _ => by rw [hstore]; rfl
        named := by simp
        executions := by simp
        path := by simp
        segments := fun t u hle hu => by
          obtain ⟨v, n, hv, -⟩ := hback hu
          have hlt := hs.fresh t v hv
          omega }

theorem Segment.emitBlackboardReduce {s : RunState} (hs : Quiet s) (toPhase : String) :
    ∃ l, Segment s (s.emitBlackboardReduce toPhase) l := by
  have hrecord := Segment.recordEdgeOperation hs
  have hemit := Segment.emit hrecord.quiet
    (.blackboardReduce s.transitionIdentity.1 s.transitionIdentity.2 toPhase) rfl rfl
  exact ⟨_, hrecord.append hs hemit⟩

section PhaseExecution

/-! One call of a wrapped phase from the state `s`. -/

variable (s : RunState) (steps : PhaseSteps)

def opening (operationCount : ℕ) : EdgeTransition :=
  { transitionId := s.drawn, fromPhases := steps.upstreamPhases, toPhase := steps.phaseId,
    toPhaseExecutionId := s.drawn + 1, branchIndex := s.context.activeBranchIndex, operationCount }

def closing (operationCount : ℕ) : EdgeTransition := { opening s steps operationCount with closed := true }

def bodyContext : Context :=
  { s.context with activeEdgeTransition := some s.drawn, activePhaseExecution := some (s.drawn + 1) }

def stamped (body : EventBody) : Event := ⟨body, s.context.activeSubgraphPath⟩

def underway (tr : EdgeTransition) (events : List Event) : RunState :=
  { drawn := s.drawn + 2
    transition := Function.update s.transition s.drawn (some tr)
    returned := s.returned
    log := s.log ++ events
    context := bodyContext s }

def operationOf (e : Event) : Prop :=
  e.transitionId? = some (some s.drawn) ∧ e.operation? = some steps.phaseId ∧
    e.subgraphPath = s.context.activeSubgraphPath

def arriving (operations : List Event) : RunState :=
  underway s (opening s steps operations.length)
    (stamped s (.edgeStart (opening s steps 0)) :: operations)

def arrived (operations : List Event) : RunState :=
  underway s (closing s steps operations.length)
    (stamped s (.edgeStart (opening s steps 0)) :: operations ++
      [stamped s (.edgeEnd (closing s steps operations.length))])

def inside (operations : List Event) : RunState :=
  (arrived s steps operations).emit (.phaseStart steps.phaseId (s.drawn + 1))

variable {s steps}

theorem underway_activeTransition (tr : EdgeTransition) (events : List Event) :
    (underway s tr events).activeTransition = some tr := by
  simp [RunState.activeTransition, underway, bodyContext]

theorem arriving_operation (operations : List Event) (body : EventBody) :
    (arriving s steps operations).recordEdgeOperation.emit body =
      arriving s steps (operations ++ [stamped s body]) := by
  simp only [RunState.recordEdgeOperation, arriving, underway_activeTransition]
  simp [RunState.store, RunState.emit, underway, opening, bodyContext, stamped, Function.update_idem]

theorem arriving_identity (operations : List Event) :
    (arriving s steps operations).transitionIdentity = (some s.drawn, steps.upstreamPhases) := by
  simp only [RunState.transitionIdentity, arriving, underway_activeTransition]
  rfl

theorem arriving_close (operations : List Event) :
    (arriving s steps operations).closeEdgeTransition = arrived s steps operations := by
  simp only [RunState.closeEdgeTransition, arriving, underway_activeTransition]
  simp [RunState.store, RunState.emit, underway, opening, bodyContext, stamped, Function.update_idem,
    arrived, closing]

theorem arriving_opened (operations : List Event) :
    (arriving s steps operations).opened steps.phaseId = (s.drawn + 1, inside s steps operations) := by
  simp only [RunState.opened, arriving_close, RunState.activePhaseExecutionId, arrived,
    underway_activeTransition, inside]
  rfl

theorem injectDeclaredInputFiles_arriving (files : List Bool) (operations : List Event)
    (hops : ∀ e ∈ operations, operationOf s steps e) :
    ∃ ok operations', injectDeclaredInputFiles steps.phaseId files (arriving s steps operations) =
        (ok, arriving s steps operations') ∧ ∀ e ∈ operations', operationOf s steps e := by
  induction files generalizing operations with
  | nil => exact ⟨true, operations, rfl, hops⟩
  | cons file files ih =>
    cases file with
    | false => exact ⟨false, operations, rfl, hops⟩
    | true =>
      simp only [injectDeclaredInputFiles, arriving_identity, arriving_operation]
      apply ih
      simp only [List.forall_mem_append, List.forall_mem_singleton]
      exact ⟨hops, rfl, rfl, rfl⟩

theorem emitInputDispatch_arriving (dispatched : Bool) (operations : List Event)
    (hops : ∀ e ∈ operations, operationOf s steps e) :
    ∃ ok operations', emitInputDispatch steps.phaseId dispatched (arriving s steps operations) =
        (ok, arriving s steps operations') ∧ ∀ e ∈ operations', operationOf s steps e := by
  cases dispatched with
  | false => exact ⟨false, operations, rfl, hops⟩
  | true =>
    simp only [emitInputDispatch, arriving_identity, arriving_operation, ↓reduceIte]
    refine ⟨true, _, rfl, ?_⟩
    simp only [List.forall_mem_append, List.forall_mem_singleton]
    exact ⟨hops, rfl, rfl, rfl⟩

theorem arrived_quiet (hs : Quiet s) (operations : List Event) : Quiet (arrived s steps operations) where
  fresh := by
    intro t tr htr
    by_cases ht : t = s.drawn
    · simp only [arrived, underway, ht]
      omega
    · simp only [arrived, underway, Function.update_of_ne ht] at htr ⊢
      exact (hs.fresh t tr htr).trans (by omega)
  keyed := by
    intro t tr htr
    by_cases ht : t = s.drawn
    · simp only [arrived, underway, ht, Function.update_self, Option.some.injEq] at htr ⊢
      rw [← htr]
      rfl
    · simp only [arrived, underway, Function.update_of_ne ht] at htr
      exact hs.keyed t tr htr
  returned := fun x hx => (hs.returned x hx).trans (by simp [arrived, underway])
  ids := by
    intro x hx
    simp only [arrived, underway, bodyContext, Context.ids, List.mem_append, Option.mem_toList,
      Option.some.injEq] at hx ⊢
    rcases hx with hx | rfl
    · have hlt := hs.ids x (List.mem_append_left _ hx)
      omega
    · omega
  active := by
    intro t ht
    simp only [arrived, underway, bodyContext, Option.some.injEq] at ht ⊢
    omega
  settled := by
    intro tr htr
    rw [arrived, underway_activeTransition] at htr
    rw [← Option.some.inj htr]
    rfl

structure OwnEvent (s : RunState) (e : Event) : Prop where
  path : e.subgraphPath = s.context.activeSubgraphPath
  transition : ∀ o, e.transitionId? = some o → o = some s.drawn
  execution : ∀ x, e.executionId? = some x → x = s.drawn + 1

theorem operationOf.ownEvent {e : Event} (h : operationOf s steps e) : OwnEvent s e where
  path := h.2.2
  transition := fun o ho => Option.some.inj (ho.symm.trans h.1)
  execution := by
    intro x hx
    rw [Event.executionId?_of_operation h.2.1] at hx
    cases hx

theorem OwnEvent.not_nestedIn (hs : Quiet s) {e : Event} (he : OwnEvent s e) {n : ℕ} :
    e.nestedIn (s.drawn + n) = false := by
  apply Bool.eq_false_iff.mpr
  intro hn
  rw [Event.nestedIn_eq_true, he.path] at hn
  have hlt := hs.ids _ (List.mem_append_left _ hn)
  omega

theorem OwnEvent.not_concerns (hs : Quiet s) {tr : EdgeTransition} (ht : s.drawn + 2 ≤ tr.transitionId)
    (hx : s.drawn + 2 ≤ tr.toPhaseExecutionId) {e : Event} (he : OwnEvent s e) : tr.concerns e = false := by
  apply Segment.concerns_eq_false
  · intro h
    have hsame := Option.some.inj (he.transition _ h)
    omega
  · intro h
    have hsame := he.execution _ h
    omega
  · obtain ⟨n, hn⟩ := Nat.exists_eq_add_of_le ((Nat.le_add_right _ 2).trans hx)
    rw [hn]
    exact he.not_nestedIn hs

theorem ownEvent_edgeStart : OwnEvent s (stamped s (.edgeStart (opening s steps 0))) :=
  ⟨rfl, by simp [Event.transitionId?, stamped, opening], by simp [Event.executionId?, stamped]⟩

theorem ownEvent_edgeEnd {n : ℕ} : OwnEvent s (stamped s (.edgeEnd (closing s steps n))) :=
  ⟨rfl, by simp [Event.transitionId?, stamped, opening, closing], by simp [Event.executionId?, stamped]⟩

theorem ownEvent_phaseStart : OwnEvent s (stamped s (.phaseStart steps.phaseId (s.drawn + 1))) :=
  ⟨rfl, by simp [Event.transitionId?, stamped], by simp [Event.executionId?, stamped]⟩

theorem ownEvent_phaseEnd {status : Bool} :
    OwnEvent s (stamped s (.phaseEnd steps.phaseId (s.drawn + 1) status)) :=
  ⟨rfl, by simp [Event.transitionId?, stamped], by simp [Event.executionId?, stamped]⟩

variable (s steps) in
inductive CallEvents (operations inner : List Event) : Prop → List Event → Prop where
  | unopened {completed : Prop} (hinner : inner = []) (hcompleted : ¬ completed) :
      CallEvents operations inner completed
        (stamped s (.edgeStart (opening s steps 0)) :: operations ++
          [stamped s (.edgeEnd (closing s steps operations.length))])
  | opened (status : Bool) {completed : Prop} (hstatus : status = true ↔ completed) :
      CallEvents operations inner completed
        (stamped s (.edgeStart (opening s steps 0)) :: operations ++
          stamped s (.edgeEnd (closing s steps operations.length)) ::
            (stamped s (.phaseStart steps.phaseId (s.drawn + 1)) :: inner ++
              [stamped s (.phaseEnd steps.phaseId (s.drawn + 1) status)]))

namespace CallEvents

variable {operations inner events : List Event} {completed : Prop}

theorem mem (h : CallEvents s steps operations inner completed events)
    (hops : ∀ e ∈ operations, operationOf s steps e) {e : Event} (he : e ∈ events) :
    OwnEvent s e ∨ e ∈ inner := by
  cases h with
  | unopened hinner hcompleted =>
    simp only [List.cons_append, List.mem_cons, List.mem_append, List.not_mem_nil, or_false] at he
    rcases he with rfl | he | rfl
    · exact Or.inl ownEvent_edgeStart
    · exact Or.inl (hops e he).ownEvent
    · exact Or.inl ownEvent_edgeEnd
  | opened status hstatus =>
    simp only [List.cons_append, List.mem_cons, List.mem_append, List.not_mem_nil, or_false] at he
    rcases he with rfl | he | rfl | rfl | he | rfl
    · exact Or.inl ownEvent_edgeStart
    · exact Or.inl (hops e he).ownEvent
    · exact Or.inl ownEvent_edgeEnd
    · exact Or.inl ownEvent_phaseStart
    · exact Or.inr he
    · exact Or.inl ownEvent_phaseEnd

theorem filter_inner (h : CallEvents s steps operations inner completed events) (hs : Quiet s)
    (hops : ∀ e ∈ operations, operationOf s steps e) {tr : EdgeTransition}
    (ht : s.drawn + 2 ≤ tr.transitionId) (hx : s.drawn + 2 ≤ tr.toPhaseExecutionId) :
    events.filter tr.concerns = inner.filter tr.concerns := by
  have hown {e : Event} (he : OwnEvent s e) : tr.concerns e = false := he.not_concerns hs ht hx
  have hnil : operations.filter tr.concerns = [] :=
    List.filter_eq_nil_iff.mpr fun e he => by simp [hown (hops e he).ownEvent]
  cases h with
  | unopened hinner hcompleted =>
    simp [hinner, List.filter_append, hnil, hown ownEvent_edgeStart,
      hown ownEvent_edgeEnd]
  | opened status hstatus =>
    simp [List.filter_append, hnil, hown ownEvent_edgeStart, hown ownEvent_edgeEnd,
      hown ownEvent_phaseStart, hown ownEvent_phaseEnd]

theorem segmented (h : CallEvents s steps operations inner completed events) (hs : Quiet s)
    (hops : ∀ e ∈ operations, operationOf s steps e)
    (hnamed : ∀ e ∈ inner, e.transitionId? ≠ some (some s.drawn))
    (hexec : ∀ e ∈ inner, e.executionId? ≠ some (s.drawn + 1)) (n : ℕ) :
    Segmented (closing s steps n) completed
      (events.filter (closing s steps n).concerns) := by
  have hcount : (operations.filter (closing s steps n).concerns) = operations := by
    apply List.filter_eq_self.mpr
    intro e he
    simp [EdgeTransition.concerns, (hops e he).1, closing, opening]
  have hall : ∀ e ∈ operations, (closing s steps n).operates e = true := by
    intro e he
    have hpath : e.nestedIn (s.drawn + 1) = false := (hops e he).ownEvent.not_nestedIn hs
    simp [EdgeTransition.operates, (hops e he).1, (hops e he).2.1, closing, opening, hpath]
  have hstart : (closing s steps n).concerns (stamped s (.edgeStart (opening s steps 0))) = true := by
    simp [EdgeTransition.concerns, stamped, Event.transitionId?, closing, opening]
  have hfinish : (closing s steps n).concerns
      (stamped s (.edgeEnd (closing s steps operations.length))) = true := by
    simp [EdgeTransition.concerns, stamped, Event.transitionId?, closing, opening]
  cases h with
  | unopened hinner hcompleted =>
    simp only [List.cons_append, List.filter_cons, List.filter_append, hstart, hfinish, hcount,
      List.filter_nil, ↓reduceIte]
    exact .mk _ _ operations [] rfl hall rfl (.unopened hcompleted)
  | opened status hstatus =>
    have hbegan : (closing s steps n).concerns
        (stamped s (.phaseStart steps.phaseId (s.drawn + 1))) = true := by
      simp [EdgeTransition.concerns, stamped, Event.executionId?, closing, opening]
    have hended : (closing s steps n).concerns
        (stamped s (.phaseEnd steps.phaseId (s.drawn + 1) status)) = true := by
      simp [EdgeTransition.concerns, stamped, Event.executionId?, closing, opening]
    simp only [List.cons_append, List.filter_cons, List.filter_append, hstart, hfinish, hcount,
      hbegan, hended, List.filter_nil, ↓reduceIte]
    refine .mk _ _ operations _ rfl hall rfl (.opened _ _ (inner.filter _) status rfl rfl hstatus ?_)
    intro e he
    obtain ⟨he, hc⟩ := List.mem_filter.mp he
    have ht := hnamed e he
    have hx := hexec e he
    simp_all [EdgeTransition.concerns, EdgeTransition.encloses, closing, opening]

end CallEvents

section Call

variable {operations inner events log : List Event} {completed : Prop} {s₃ : RunState} {returned : List ℕ}

theorem arrived_transition {t : ℕ} (ht : t ≠ s.drawn) :
    (arrived s steps operations).transition t = s.transition t :=
  Function.update_of_ne ht _ _

theorem call_stored (hs : Quiet s) (h : Segment { arrived s steps operations with log := log } s₃ inner) :
    ∃ n, s₃.transition s.drawn = some (closing s steps n) := by
  have hstored : (arrived s steps operations).transition s.drawn =
      some (closing s steps operations.length) := Function.update_self ..
  obtain ⟨u, hu, hid⟩ := h.stored ((arrived_quiet hs operations).with_log log) hstored
  obtain ⟨n, rfl⟩ := EdgeTransition.eq_of_identity hid.symm
  exact ⟨n, hu⟩

theorem call_quiet (hs : Quiet s) (h : Segment { arrived s steps operations with log := log } s₃ inner)
    (hreturned : ∀ x, x ∈ returned ↔ x ∈ s₃.returned ∨ completed ∧ x = s.drawn + 1) :
    Quiet { s₃ with returned := returned, log := log, context := s.context } := by
  have hdrawn : s.drawn + 2 ≤ s₃.drawn := h.drawn
  have hle : s.drawn ≤ s₃.drawn := by omega
  refine ⟨h.quiet.fresh, h.quiet.keyed, ?_, fun x hx => (hs.ids x hx).trans_le hle,
    fun t ht => (hs.active t ht).trans_le hle, ?_⟩
  · intro x hx
    rcases (hreturned x).mp hx with hx | ⟨-, rfl⟩
    · exact h.quiet.returned x hx
    · exact Nat.lt_of_succ_lt_succ (Nat.lt_succ_of_le hdrawn)
  · intro tr htr
    obtain ⟨t, ht, htr⟩ := Option.bind_eq_some_iff.mp htr
    have hlt := hs.active t ht
    obtain ⟨u, hu, hid⟩ := h.stored_before (hlt.trans_le (Nat.le_add_right _ 2)) htr
    rw [show _ = _ from arrived_transition (Nat.ne_of_lt hlt)] at hu
    obtain ⟨n, rfl⟩ := EdgeTransition.eq_of_identity hid
    exact hs.settled u (Option.bind_eq_some_iff.mpr ⟨t, ht, hu⟩)

theorem call_path (h : Segment { arrived s steps operations with log := log } s₃ inner) {e : Event}
    (he : e ∈ inner) {x : ℕ} (hx : e.nestedIn x = true) :
    s.drawn ≤ x ∧ x < s₃.drawn ∨ x ∈ s.context.ids := by
  have hdrawn : s.drawn + 2 ≤ s₃.drawn := h.drawn
  rcases h.path e he x hx with hrange | hmem
  · have hlow : s.drawn + 2 ≤ x := hrange.1
    exact Or.inl ⟨by omega, hrange.2⟩
  · simp only [arrived, underway, bodyContext, Context.ids, List.mem_append, Option.mem_toList,
      Option.some.injEq] at hmem
    rcases hmem with hmem | rfl
    · exact Or.inr (List.mem_append_left _ hmem)
    · exact Or.inl ⟨by omega, by omega⟩

theorem call_segments (hs : Quiet s) (hops : ∀ e ∈ operations, operationOf s steps e)
    (h : Segment { arrived s steps operations with log := log } s₃ inner)
    (hevents : CallEvents s steps operations inner completed events)
    (hreturned : ∀ x, x ∈ returned ↔ x ∈ s₃.returned ∨ completed ∧ x = s.drawn + 1)
    {t : ℕ} {tr : EdgeTransition} (hle : s.drawn ≤ t) (htr : s₃.transition t = some tr) :
    (s.drawn ≤ tr.toPhaseExecutionId ∧ tr.toPhaseExecutionId < s₃.drawn) ∧
      Segmented tr (tr.toPhaseExecutionId ∈ returned) (events.filter tr.concerns) := by
  have hdrawn : s.drawn + 2 ≤ s₃.drawn := h.drawn
  rcases Nat.lt_or_ge t (s.drawn + 2) with hlt | hge
  · by_cases ht : t = s.drawn
    · -- the call's own execution
      obtain ⟨n, hn⟩ := call_stored hs h
      rw [ht, hn] at htr
      obtain rfl := Option.some.inj htr
      refine ⟨⟨by simp [closing, opening], by simp only [closing, opening]; omega⟩, ?_⟩
      have hmem : (s.drawn + 1 ∈ returned) ↔ completed := by
        rw [hreturned]
        have hold : s.drawn + 1 ∉ s₃.returned := by
          intro hmem
          have hbase : s.drawn + 1 ∈ s.returned := (h.keptReturned _ (Nat.lt_succ_self _)).mp hmem
          have hlow := hs.returned _ hbase
          omega
        simp [hold]
      have hseg := hevents.segmented hs hops
        (fun e he ho => by
          obtain ⟨u, v, ho, hlow, -⟩ := h.named e he _ ho
          have hlow : s.drawn + 2 ≤ u := hlow
          have hsame := Option.some.inj ho
          omega)
        (fun e he hx => by
          have hlow : s.drawn + 2 ≤ s.drawn + 1 := (h.executions e he _ hx).1
          omega) n
      exact hseg.recount n hmem
    · -- the other id went to the execution, and names no transition
      obtain ⟨u, hu, -⟩ := h.stored_before hlt htr
      rw [show _ = _ from arrived_transition ht] at hu
      have hold := hs.fresh t u hu
      omega
  · obtain ⟨hrange, hseg⟩ := h.segments t tr hge htr
    have hlow : s.drawn + 2 ≤ tr.toPhaseExecutionId := hrange.1
    refine ⟨⟨by omega, hrange.2⟩, ?_⟩
    rw [hevents.filter_inner hs hops ((h.quiet.keyed t tr htr).symm ▸ hge) hlow]
    apply hseg.recount tr.operationCount
    rw [hreturned]
    constructor
    · rintro (hmem | ⟨-, hx⟩)
      · exact hmem
      · omega
    · exact Or.inl

theorem Segment.call (hs : Quiet s) (hops : ∀ e ∈ operations, operationOf s steps e)
    (h : Segment { arrived s steps operations with log := log } s₃ inner)
    (hevents : CallEvents s steps operations inner completed events)
    (hreturned : ∀ x, x ∈ returned ↔ x ∈ s₃.returned ∨ completed ∧ x = s.drawn + 1) :
    Segment s { s₃ with returned := returned, log := s.log ++ events, context := s.context } events := by
  have hdrawn : s.drawn + 2 ≤ s₃.drawn := h.drawn
  exact
    { quiet := (call_quiet hs h hreturned).with_log _
      context := rfl
      drawn := (Nat.le_add_right _ 2).trans hdrawn
      log := rfl
      kept := by
        intro t ht
        rw [show _ = _ from h.kept t (ht.trans_le (Nat.le_add_right _ 2)),
          show _ = _ from arrived_transition (Nat.ne_of_lt ht)]
      keptReturned := by
        intro x hx
        rw [show x ∈ returned ↔ _ from hreturned x, h.keptReturned x (hx.trans_le (Nat.le_add_right _ 2))]
        constructor
        · rintro (hmem | ⟨-, rfl⟩)
          · exact hmem
          · omega
        · exact Or.inl
      named := by
        intro e he o ho
        rcases hevents.mem hops he with hown | hin
        · obtain ⟨n, hn⟩ := call_stored hs h
          exact ⟨s.drawn, _, hown.transition o ho, Nat.le_refl _, hn⟩
        · obtain ⟨t, tr, rfl, hle, htr⟩ := h.named e hin o ho
          exact ⟨t, tr, rfl, (Nat.le_add_right _ 2).trans hle, htr⟩
      executions := by
        intro e he x hx
        rcases hevents.mem hops he with hown | hin
        · rw [hown.execution x hx]
          exact ⟨Nat.le_add_right _ 1, hdrawn⟩
        · have hrange := h.executions e hin x hx
          exact ⟨(Nat.le_add_right _ 2).trans hrange.1, hrange.2⟩
      path := by
        intro e he x hx
        rcases hevents.mem hops he with hown | hin
        · rw [Event.nestedIn_eq_true, hown.path] at hx
          exact Or.inr (List.mem_append_left _ hx)
        · exact call_path h hin hx
      segments := fun t tr hle htr => call_segments hs hops h hevents hreturned hle htr }

end Call

/-- How the wrapped node leaves the run before its transition is closed for good: either the phase did
not open, or its end was announced. -/
inductive Left (s : RunState) (steps : PhaseSteps) : RunState → Prop where
  | unopened (operations : List Event) (hops : ∀ e ∈ operations, operationOf s steps e) :
      Left s steps (arriving s steps operations)
  | opened (operations inner : List Event) (hops : ∀ e ∈ operations, operationOf s steps e)
      (s₃ : RunState) (h : Segment (inside s steps operations) s₃ inner) (returned : List ℕ) (status : Bool)
      (hreturned : ∀ x, x ∈ returned ↔ x ∈ s₃.returned ∨ status = true ∧ x = s.drawn + 1) :
      Left s steps (({ s₃ with returned := returned } : RunState).ended steps.phaseId (s.drawn + 1) status)

theorem inside_quiet (hs : Quiet s) (operations : List Event) : Quiet (inside s steps operations) :=
  (arrived_quiet hs operations).with_log _

theorem Segment.andThen {a b : Action} (hs : Quiet s) (ha : ∀ s, Quiet s → ∃ l, Segment s (a s).2 l)
    (hb : ∀ s, Quiet s → ∃ l, Segment s (b s).2 l) : ∃ l, Segment s (Action.andThen a b s).2 l := by
  obtain ⟨l₁, h₁⟩ := ha s hs
  rw [Action.andThen]
  rcases hstep : a s with ⟨ok, s₁⟩
  rw [hstep] at h₁
  cases ok with
  | false => exact ⟨l₁, h₁⟩
  | true =>
    obtain ⟨l₂, h₂⟩ := hb s₁ h₁.quiet
    exact ⟨l₁ ++ l₂, h₁.append hs h₂⟩

theorem Segment.check (ok : Bool) (hs : Quiet s) : ∃ l, Segment s (Action.check ok s).2 l :=
  ⟨[], .refl hs⟩

theorem wrapPhase_selected {node : Action} (hselected : steps.selected = true) {operations : List Event}
    {ok : Bool} {s₃ : RunState}
    (hr : Action.andThen (check steps.required) node (inside s steps operations) = (ok, s₃)) :
    wrapPhase steps node (arriving s steps operations) =
      (ok && steps.outputWrapped,
        ({ s₃ with returned := if ok && steps.outputWrapped then (s.drawn + 1) :: s₃.returned
            else s₃.returned } : RunState).ended steps.phaseId (s.drawn + 1) (ok && steps.outputWrapped)) := by
  simp only [wrapPhase, hselected, ↓reduceIte, arriving_opened]
  rw [Action.andThen, hr]
  cases ok with
  | false => rfl
  | true => cases hwrapped : steps.outputWrapped <;> simp [wrapPhaseOutput]

theorem wrapPhase_left {node : Action} (hnode : ∀ s, Quiet s → ∃ l, Segment s (node s).2 l) (hs : Quiet s)
    {operations : List Event} (hops : ∀ e ∈ operations, operationOf s steps e) :
    Left s steps (wrapPhase steps node (arriving s steps operations)).2 := by
  by_cases hselected : steps.selected = true
  · have hquiet : Quiet (inside s steps operations) := inside_quiet hs operations
    obtain ⟨inner, hinner⟩ :=
      Segment.andThen hquiet (fun s hs => Segment.check steps.required hs) hnode
    rcases hr : Action.andThen (check steps.required) node (inside s steps operations) with ⟨ok, s₃⟩
    rw [show _ = (ok, s₃) from hr] at hinner
    rw [wrapPhase_selected hselected hr]
    refine .opened operations inner hops s₃ hinner _ (ok && steps.outputWrapped) ?_
    intro x
    cases ok && steps.outputWrapped <;> simp [or_comm]
  · rw [wrapPhase, if_neg hselected]
    exact .unopened operations hops

theorem arrive_left {node : Action} (hnode : ∀ s, Quiet s → ∃ l, Segment s (node s).2 l) (hs : Quiet s) :
    Left s steps (Action.andThen (injectDeclaredInputFiles steps.phaseId steps.inputFiles)
      (Action.andThen (emitInputDispatch steps.phaseId steps.dispatched) (wrapPhase steps node))
      (arriving s steps [])).2 := by
  obtain ⟨ok, operations, hfiles, hops⟩ :=
    injectDeclaredInputFiles_arriving (s := s) steps.inputFiles [] (by simp)
  rw [Action.andThen, hfiles]
  cases ok with
  | false => exact .unopened operations hops
  | true =>
    obtain ⟨ok, operations', hdispatch, hops'⟩ := emitInputDispatch_arriving steps.dispatched operations hops
    simp only [Action.andThen, hdispatch]
    cases ok with
    | false => exact .unopened operations' hops'
    | true => exact wrapPhase_left hnode hs hops'

theorem Left.segment {s₄ : RunState} (hs : Quiet s) (h : Left s steps s₄) :
    ∃ l, Segment s { s₄.closeEdgeTransition with context := { s₄.closeEdgeTransition.context with
      activeEdgeTransition := s.context.activeEdgeTransition
      activePhaseExecution := s.context.activePhaseExecution } } l := by
  cases h with
  | unopened operations hops =>
    rw [arriving_close]
    have hevents : CallEvents s steps operations [] False _ := .unopened rfl not_false
    have hreturned (x : ℕ) : x ∈ s.returned ↔
        x ∈ (arrived s steps operations).returned ∨ False ∧ x = s.drawn + 1 := by
      simp [arrived, underway]
    exact ⟨_, Segment.call hs hops (.refl (arrived_quiet hs operations)) hevents hreturned⟩
  | opened operations inner hops s₃ h returned status hreturned =>
    obtain ⟨n, hn⟩ := call_stored hs h
    have hcontext : s₃.context = bodyContext s := h.context
    have hsettled : (({ s₃ with returned := returned } : RunState).ended steps.phaseId (s.drawn + 1)
        status).closeEdgeTransition =
          ({ s₃ with returned := returned } : RunState).ended steps.phaseId (s.drawn + 1) status := by
      simp [RunState.closeEdgeTransition, RunState.activeTransition, RunState.ended, RunState.emit, hcontext,
        bodyContext, hn, closing]
    have hcall := Segment.call hs hops h (.opened status Iff.rfl) hreturned
    refine ⟨_, hcall.of_eq ?_⟩
    rw [hsettled]
    simp [RunState.ended, RunState.emit, hcontext, bodyContext, h.log, inside, arrived, underway, stamped]

theorem wrapPhaseRuntimeNode_segment {node : Action} (hnode : ∀ s, Quiet s → ∃ l, Segment s (node s).2 l)
    (hs : Quiet s) : ∃ l, Segment s (wrapPhaseRuntimeNode steps node s).2 l :=
  (arrive_left hnode hs).segment hs

end PhaseExecution

theorem runWithIterationContext_segment {action : Action} (index : ℕ)
    (haction : ∀ s, Quiet s → ∃ l, Segment s (action s).2 l) {s : RunState} (hs : Quiet s) :
    ∃ l, Segment s (runWithIterationContext index action s).2 l := by
  let c : Context := { s.context with activeBranchIndex := some index }
  have hids : ∀ x ∈ c.ids, x ∈ s.context.ids := fun x hx => hx
  obtain ⟨l, h⟩ := haction _ (hs.with_context c rfl hids)
  refine ⟨l, (h.recontext hs hids).of_eq ?_⟩
  simp [runWithIterationContext, finally_, h.context, c]

theorem subgraphNode_segment {child : Action} (phaseName : String)
    (hchild : ∀ s, Quiet s → ∃ l, Segment s (child s).2 l) {s : RunState} (hs : Quiet s) :
    ∃ l, Segment s (subgraphNode phaseName child s).2 l := by
  let c : Context := { s.context with
    activeSubgraphPath := s.context.activeSubgraphPath ++ [(phaseName, s.context.activePhaseExecution)] }
  have hids : ∀ x ∈ c.ids, x ∈ s.context.ids := by
    intro x hx
    simp only [c, Context.ids, List.filterMap_append, List.mem_append] at hx ⊢
    rcases hx with (hx | hx) | hx
    · exact Or.inl hx
    · refine Or.inr ?_
      simpa using hx
    · exact Or.inr hx
  obtain ⟨l, h⟩ := hchild _ (hs.with_context c rfl hids)
  refine ⟨l, (h.recontext hs hids).of_eq ?_⟩
  simp [subgraphNode, finally_, h.context, c]

theorem inThreads_segment {a b : Action} (schedule : List Bool)
    (ha : ∀ s, Quiet s → ∃ l, Segment s (a s).2 l) (hb : ∀ s, Quiet s → ∃ l, Segment s (b s).2 l)
    {s : RunState} (hs : Quiet s) : ∃ l, Segment s (inThreads schedule a b s).2 l := by
  obtain ⟨l₁, h₁⟩ := ha _ (hs.with_log [])
  rcases hleft : a { s with log := [] } with ⟨ok₁, s₁⟩
  rw [hleft] at h₁
  have hcontext : s.context = s₁.context := h₁.context.symm
  have hlog₁ : s₁.log = l₁ := h₁.log
  obtain ⟨l₂, h₂⟩ := hb _ (h₁.quiet.with_log [])
  rcases hright : b { s₁ with log := [] } with ⟨ok₂, s₂⟩
  rw [hright] at h₂
  have hlog₂ : s₂.log = l₂ := h₂.log
  have hjoined := Segment.weave schedule hs (h₁.relog s.log) (h₂.relog (s.log ++ l₁))
  refine ⟨_, hjoined.of_eq ?_⟩
  have hthreads : inThreads schedule a b s =
      (ok₁ && ok₂, { s₂ with log := s.log ++ weave schedule l₁ l₂, context := s.context }) := by
    simp only [inThreads, hleft]
    rw [hcontext, hright, hlog₁, hlog₂]
  rw [hthreads, hcontext, show s₂.context = s₁.context from h₂.context]

theorem Plan.segment (p : Plan) : ∀ s, Quiet s → ∃ l, Segment s (p.run s).2 l := by
  induction p with
  | skip => exact fun s hs => Segment.check true hs
  | fail => exact fun s hs => Segment.check false hs
  | other => exact fun s hs => ⟨_, Segment.emit hs .other rfl rfl⟩
  | seq p q ihp ihq => exact fun s hs => Segment.andThen hs ihp ihq
  | par schedule p q ihp ihq => exact fun s hs => inThreads_segment schedule ihp ihq hs
  | iteration index p ih => exact fun s hs => runWithIterationContext_segment index ih hs
  | reduce toPhase => exact fun s hs => Segment.emitBlackboardReduce hs toPhase
  | phase steps node ih => exact fun s hs => wrapPhaseRuntimeNode_segment ih hs
  | subgraph phaseName child ih => exact fun s hs => subgraphNode_segment phaseName ih hs

theorem Plan.trace_segment (p : Plan) : Segment {} p.trace p.trace.log := by
  have hinit : Quiet {} := by
    constructor <;> simp [Context.ids, RunState.activeTransition]
  obtain ⟨l, h⟩ := p.segment {} hinit
  have hlog := h.log
  rw [List.nil_append] at hlog
  rw [Plan.trace, hlog]
  exact h

theorem EdgeTransition.concerns_of_bounds {tr : EdgeTransition} {e : Event} (h : tr.bounds e = true) :
    tr.concerns e = true := by
  simp only [EdgeTransition.bounds, EdgeTransition.concerns, Bool.or_eq_true, Bool.and_eq_true] at h ⊢
  exact h.imp_left (Or.imp_left And.left)

theorem EdgeTransition.not_bounds_of_operates {tr : EdgeTransition} {e : Event}
    (h : tr.operates e = true) : tr.bounds e = false := by
  simp only [EdgeTransition.operates, Bool.and_eq_true, Bool.not_eq_true', beq_iff_eq] at h
  obtain ⟨⟨-, hoperation⟩, hpath⟩ := h
  simp [EdgeTransition.bounds, hoperation, Event.executionId?_of_operation hoperation, hpath]

/-- Every phase execution of a run has one `edge_start` and one later `edge_end`. Either it has no
lifecycle event and no child graph ran for it, or `edge_end`, one `phase_start` and one `phase_end` follow
one another, every event of the child graph lies between these two, and the phase ended as completed
exactly when its `wrap_phase_output` returned. -/
theorem phase_execution_bracketed (p : Plan) (t : ℕ) (tr : EdgeTransition)
    (h : p.trace.transition t = some tr) :
    ∃ start finish : Event,
      start.body = .edgeStart { tr with operationCount := 0, closed := false } ∧
      (∃ n, finish.body = .edgeEnd { tr with operationCount := n }) ∧
      (p.trace.log.filter tr.bounds = [start, finish] ∧ tr.toPhaseExecutionId ∉ p.trace.returned ∨
        ∃ (began ended : Event) (nested : List Event) (status : Bool),
          p.trace.log.filter tr.bounds = start :: finish :: began :: nested ++ [ended] ∧
          began.body = .phaseStart tr.toPhase tr.toPhaseExecutionId ∧
          ended.body = .phaseEnd tr.toPhase tr.toPhaseExecutionId status ∧
          (status = true ↔ tr.toPhaseExecutionId ∈ p.trace.returned) ∧
          ∀ e ∈ nested, tr.encloses e = true) := by
  have hseg := (p.trace_segment.segments t tr (Nat.zero_le t) h).2
  have hfilter : p.trace.log.filter tr.bounds = (p.trace.log.filter tr.concerns).filter tr.bounds := by
    rw [List.filter_filter]
    apply List.filter_congr
    intro e he
    cases hb : tr.bounds e with
    | false => rfl
    | true => rw [EdgeTransition.concerns_of_bounds hb]; rfl
  rw [hfilter]
  generalize p.trace.log.filter tr.concerns = l at hseg
  obtain ⟨start, finish, operations, rest, hstart, hoperations, hfinish, hrest⟩ := hseg
  have hops : operations.filter tr.bounds = [] :=
    List.filter_eq_nil_iff.mpr fun e he => by
      simp [EdgeTransition.not_bounds_of_operates (hoperations e he)]
  have hbstart : tr.bounds start = true := by
    simp [EdgeTransition.bounds, Event.transitionId?, Event.operation?, hstart]
  have hbfinish : tr.bounds finish = true := by
    simp [EdgeTransition.bounds, Event.transitionId?, Event.operation?, hfinish]
  refine ⟨start, finish, hstart, ⟨_, hfinish⟩, ?_⟩
  cases hrest with
  | unopened hcompleted =>
    refine Or.inl ⟨?_, hcompleted⟩
    simp [hops, hbstart, hbfinish, List.filter_append]
  | opened began ended nested status hbegan hended hstatus hnested =>
    have hbbegan : tr.bounds began = true := by
      simp [EdgeTransition.bounds, Event.executionId?, hbegan]
    have hbended : tr.bounds ended = true := by
      simp [EdgeTransition.bounds, Event.executionId?, hended]
    have hbnested : nested.filter tr.bounds = nested := by
      apply List.filter_eq_self.mpr
      intro e he
      have hin := hnested e he
      simp only [EdgeTransition.encloses, Bool.and_eq_true] at hin
      simp [EdgeTransition.bounds, hin.1.1]
    refine Or.inr ⟨began, ended, nested, status, ?_, hbegan, hended, hstatus, hnested⟩
    simp [hops, hbstart, hbfinish, hbbegan, hbended, hbnested, List.filter_append]

def PhaseSteps.passing (phaseId : String) (inputFiles : List Bool) : PhaseSteps :=
  { phaseId, upstreamPhases := [], inputFiles, dispatched := true, selected := true, required := true,
    outputWrapped := true }

/-- A SUBGRAPH phase whose child graph runs a loop, then a batch of two items whose outputs are rejected. -/
def subgraphWithLoop : Plan :=
  .subgraphPhase (.passing "outer" []) (.seq
    (.loopIteratePhase (.passing "inner" []) [(.other, true)])
    (.batchIteratePhase { PhaseSteps.passing "inner" [] with outputWrapped := false }
      [(.other, [true, false, true]), (.skip, [])]))

theorem subgraphWithLoop_outer : subgraphWithLoop.trace.transition 0 = some
    { transitionId := 0, fromPhases := [], toPhase := "outer", toPhaseExecutionId := 1,
      branchIndex := none, operationCount := 2, closed := true } := by
  decide +kernel

theorem subgraphWithLoop_bracketed :
    ∃ tr, subgraphWithLoop.trace.transition 0 = some tr ∧
      ∃ start finish : Event,
        start.body = .edgeStart { tr with operationCount := 0, closed := false } ∧
        (∃ n, finish.body = .edgeEnd { tr with operationCount := n }) ∧
        (subgraphWithLoop.trace.log.filter tr.bounds = [start, finish] ∧
            tr.toPhaseExecutionId ∉ subgraphWithLoop.trace.returned ∨
          ∃ (began ended : Event) (nested : List Event) (status : Bool),
            subgraphWithLoop.trace.log.filter tr.bounds = start :: finish :: began :: nested ++ [ended] ∧
            began.body = .phaseStart tr.toPhase tr.toPhaseExecutionId ∧
            ended.body = .phaseEnd tr.toPhase tr.toPhaseExecutionId status ∧
            (status = true ↔ tr.toPhaseExecutionId ∈ subgraphWithLoop.trace.returned) ∧
            ∀ e ∈ nested, tr.encloses e = true) :=
  ⟨_, subgraphWithLoop_outer, phase_execution_bracketed subgraphWithLoop 0 _ subgraphWithLoop_outer⟩

end GraphSkillRuntime.EdgeSegments
