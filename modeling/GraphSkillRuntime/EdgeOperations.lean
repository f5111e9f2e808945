import GraphSkillRuntime.SegmentBracketing

/-! The edge operations of a run and the transitions they name. -/

namespace GraphSkillRuntime.EdgeSegments

open Runs

def Event.operatesOn (transitionId : ℕ) (e : Event) : Bool :=
  e.operation?.isSome && e.transitionId? == some (some transitionId)

theorem Event.transitionId?_of_operation {e : Event} {toPhase : String} (h : e.operation? = some toPhase) :
    ∃ o, e.transitionId? = some o := by
  obtain ⟨body, path⟩ := e
  cases body <;> simp_all [Event.operation?, Event.transitionId?]

theorem PhasePart.transitionId?_ne {tr : EdgeTransition} {completed : Prop} {rest : List Event}
    (h : PhasePart tr completed rest) : ∀ e ∈ rest, e.transitionId? ≠ some (some tr.transitionId) := by
  cases h with
  | unopened hcompleted => simp
  | opened began ended nested status hbegan hended hstatus hnested =>
    intro e he
    simp only [List.cons_append, List.mem_cons, List.mem_append, List.not_mem_nil, or_false] at he
    rcases he with rfl | he | rfl
    · simp [Event.transitionId?, hbegan]
    · have hin := hnested e he
      simp only [EdgeTransition.encloses, Bool.and_eq_true, bne_iff_ne] at hin
      exact hin.1.2
    · simp [Event.transitionId?, hended]

theorem EdgeTransition.operates_eq_true {tr : EdgeTransition} {e : Event} (h : tr.operates e = true) :
    e.transitionId? = some (some tr.transitionId) ∧ e.operation? = some tr.toPhase := by
  simp only [EdgeTransition.operates, Bool.and_eq_true, beq_iff_eq] at h
  exact h.1

theorem EdgeTransition.concerns_of_transitionId {tr : EdgeTransition} {e : Event}
    (h : e.transitionId? = some (some tr.transitionId)) : tr.concerns e = true := by
  simp [EdgeTransition.concerns, h]

theorem Segmented.filter_operatesOn {tr : EdgeTransition} {log operations rest : List Event}
    {start finish : Event} (hlog : log.filter tr.concerns = start :: operations ++ finish :: rest)
    (hstart : start.body = .edgeStart { tr with operationCount := 0, closed := false })
    (hoperations : ∀ e ∈ operations, tr.operates e = true)
    (hfinish : finish.body = .edgeEnd { tr with operationCount := operations.length })
    (hrest : ∀ e ∈ rest, e.transitionId? ≠ some (some tr.transitionId)) :
    log.filter (Event.operatesOn tr.transitionId) = operations := by
  have hfilter : log.filter (Event.operatesOn tr.transitionId) =
      (log.filter tr.concerns).filter (Event.operatesOn tr.transitionId) := by
    rw [List.filter_filter]
    apply List.filter_congr
    intro e he
    cases ho : e.operatesOn tr.transitionId with
    | false => rfl
    | true =>
      simp only [Event.operatesOn, Bool.and_eq_true, beq_iff_eq] at ho
      rw [EdgeTransition.concerns_of_transitionId ho.2]
      rfl
  have hself : operations.filter (Event.operatesOn tr.transitionId) = operations := by
    apply List.filter_eq_self.mpr
    intro e he
    have hop := EdgeTransition.operates_eq_true (hoperations e he)
    simp [Event.operatesOn, hop.1, hop.2]
  have hnil : rest.filter (Event.operatesOn tr.transitionId) = [] :=
    List.filter_eq_nil_iff.mpr fun e he => by simp [Event.operatesOn, hrest e he]
  rw [hfilter, hlog]
  simp [List.filter_append, hself, hnil, Event.operatesOn, Event.operation?, hstart, hfinish]

/-- In every run, an input dispatch and an injected input file name a transition that leads to their own
phase, that started before them and ends after them, and every `edge_end` counts the operations of these
two kinds that name its transition. -/
theorem edge_operations_attributed (p : Plan) :
    (∀ before e after toPhase, p.trace.log = before ++ e :: after → e.operation? = some toPhase →
      ∃ t tr, e.transitionId? = some (some t) ∧ p.trace.transition t = some tr ∧ tr.transitionId = t ∧
        tr.toPhase = toPhase ∧
        (∃ start ∈ before, start.body = .edgeStart { tr with operationCount := 0, closed := false }) ∧
        ∃ finish ∈ after, ∃ n, finish.body = .edgeEnd { tr with operationCount := n }) ∧
      ∀ e ∈ p.trace.log, ∀ u, e.body = .edgeEnd u →
        u.operationCount = (p.trace.log.filter (Event.operatesOn u.transitionId)).length := by
  have hrun := p.trace_segment
  constructor
  · intro before e after toPhase hlog hop
    have hmem : e ∈ p.trace.log := by
      rw [hlog]
      simp
    obtain ⟨o, ho⟩ := Event.transitionId?_of_operation hop
    obtain ⟨t, tr, rfl, hle, htr⟩ := hrun.named e hmem o ho
    have hkey := hrun.quiet.keyed t tr htr
    have hseg := (hrun.segments t tr hle htr).2
    rw [← hkey] at ho
    rw [hlog, List.filter_append, List.filter_cons_of_pos (EdgeTransition.concerns_of_transitionId ho)] at hseg
    generalize hevents : before.filter tr.concerns ++ e :: after.filter tr.concerns = events at hseg
    obtain ⟨start, finish, operations, rest, hstart, hoperations, hfinish, hrest⟩ := hseg
    obtain ⟨hbefore, hin, hafter⟩ := mem_of_middle (q := fun e => e.operation?.isSome = true ∧
        e.transitionId? = some (some tr.transitionId)) hevents ⟨by simp [hop], ho⟩
      (by simp [Event.operation?, hstart]) (by simp [Event.operation?, hfinish])
      fun b hb hq => hrest.transitionId?_ne b hb hq.2
    refine ⟨t, tr, hkey ▸ ho, htr, hkey, ?_, ⟨start, (List.mem_filter.mp hbefore).1, hstart⟩,
      finish, (List.mem_filter.mp hafter).1, _, hfinish⟩
    exact Option.some.inj ((EdgeTransition.operates_eq_true (hoperations e hin)).2.symm.trans hop)
  · intro e he u hu
    have ho : e.transitionId? = some (some u.transitionId) := by simp [Event.transitionId?, hu]
    obtain ⟨t, tr, hid, hle, htr⟩ := hrun.named e he _ ho
    have hkey : tr.transitionId = u.transitionId :=
      (hrun.quiet.keyed t tr htr).trans (Option.some.inj hid).symm
    have hseg := (hrun.segments t tr hle htr).2
    have hmem : e ∈ p.trace.log.filter tr.concerns :=
      List.mem_filter.mpr ⟨he, EdgeTransition.concerns_of_transitionId (hkey ▸ ho)⟩
    generalize hevents : p.trace.log.filter tr.concerns = events at hseg hmem
    obtain ⟨start, finish, operations, rest, hstart, hoperations, hfinish, hrest⟩ := hseg
    rw [← hkey, Segmented.filter_operatesOn hevents hstart hoperations hfinish hrest.transitionId?_ne]
    simp only [List.cons_append, List.mem_cons, List.mem_append] at hmem
    rcases hmem with rfl | hmem | rfl | hmem
    · rw [hstart] at hu
      cases hu
    · have hop := (EdgeTransition.operates_eq_true (hoperations e hmem)).2
      simp [Event.operation?, hu] at hop
    · rw [hfinish] at hu
      cases hu
      rfl
    · exact absurd (hkey ▸ ho) (hrest.transitionId?_ne e hmem)

/-- The input dispatches and the reductions that name this transition. -/
def Event.dispatchesOrReduces (transitionId : ℕ) (e : Event) : Bool :=
  match e.body with
  | .inputDispatch t _ _ _ | .blackboardReduce t _ _ => t == some transitionId
  | _ => false

/-- An injected input file counts as an operation beside the dispatch, and the reduction of a loop at the
root of the graph names no transition: the wrapper that set one returned before. -/
theorem file_counted_and_reduction_unattributed :
    (∃ e ∈ (Plan.phase (.passing "draft" [true]) .skip).trace.log, ∃ u, e.body = .edgeEnd u ∧
      u.operationCount = 2 ∧
      ((Plan.phase (.passing "draft" [true]) .skip).trace.log.filter
        (Event.dispatchesOrReduces u.transitionId)).length = 1) ∧
      ∃ e ∈ (Plan.loopIteratePhase (.passing "collect" []) [(.skip, true)]).trace.log,
        e.body = .blackboardReduce none [] "collect" := by
  constructor
  · refine ⟨⟨.edgeEnd ⟨0, [], "draft", 1, none, 2, true⟩, []⟩, ?_, _, rfl, rfl, ?_⟩ <;> decide +kernel
  · exact ⟨⟨.blackboardReduce none [] "collect", []⟩, by decide +kernel, rfl⟩

end GraphSkillRuntime.EdgeSegments
