import GraphSkillRuntime.Linearizations
import GraphSkillRuntime.ParallelWriters

/-! The deltas of all the phases of a graph, folded in any order that the dependencies allow. -/

namespace GraphSkillRuntime

open OrderedDict Linearizations

structure PhaseCompletion (V : Draft202012) where
  doc : PhaseDocument
  delta : PhaseDelta
  accepted : doc.AcceptedDelta V delta

namespace PhaseCompletion

variable {V : Draft202012}

def Before (refs : List PhaseTopologyRef) (c d : PhaseCompletion V) : Prop :=
  DependencyPath refs c.doc.phaseName d.doc.phaseName

def merge (data : BusinessData) (c : PhaseCompletion V) : BusinessData :=
  mergeBusinessChannel data (.delta c.delta.data)

end PhaseCompletion

theorem SameBlackboard.equivalence : Equivalence SameBlackboard where
  refl _ _ := rfl
  symm h slot := (h slot).symm
  trans h h' slot := (h slot).trans (h' slot)

theorem PhaseCompletion.merge_congr {V : Draft202012} (c : PhaseCompletion V) {d e : BusinessData}
    (h : SameBlackboard d e) : SameBlackboard (c.merge d) (c.merge e) := by
  obtain ⟨payload, hsame, -⟩ := c.accepted.payload
  intro slot
  cases hin : payload.get? "inputs" with
  | none => rw [merge, merge, read_merge hsame hin, read_merge hsame hin, h slot]
  | some v =>
    have hinputs : c.delta.data.contains "inputs" = true := by rw [contains_inputs hsame, hin]; rfl
    simp [merge, mergeBusinessChannel, hinputs]

def SeparateSteps (V : Draft202012) (g : GraphDocument) : Prop :=
  ∀ p ∈ g.docs, ∀ q ∈ g.docs, p.phaseName ≠ q.phaseName → ¬ DependencyPath g.refs p.phaseName q.phaseName →
    ¬ DependencyPath g.refs q.phaseName p.phaseName → p.Delivers V → q.Delivers V → SeparateWriters V p q

section Schedules

variable {V : Draft202012} {g : GraphDocument} {schedule schedule' : List (PhaseCompletion V)}

theorem completions_commute (hg : WritersAccepted g) (hseparate : SeparateSteps V g)
    (hdocs : ∀ c ∈ schedule, c.doc ∈ g.docs) (hnodup : (schedule.map fun c => c.doc.phaseName).Nodup) :
    Commutes (PhaseCompletion.Before g.refs) SameBlackboard PhaseCompletion.merge schedule where
  congr c _ _ _ h := c.merge_congr h
  swap c hc d hd hcd hdc data := by
    by_cases hname : c.doc.phaseName = d.doc.phaseName
    · obtain rfl := List.inj_on_of_nodup_map hnodup hc hd hname
      exact SameBlackboard.equivalence.refl _
    · have hdeclared := GraphDocument.declared_disjoint hg.parallel (hdocs c hc) (hdocs d hd) hname hcd hdc
      have hindependent := SeparateWriters.orderIndependent
        (hseparate c.doc (hdocs c hc) d.doc (hdocs d hd) hname hcd hdc) hdeclared hname
      exact hindependent.commute c.delta d.delta c.accepted d.accepted data

theorem foldDeltas_data (state : WorkflowState) (schedule : List (PhaseCompletion V)) :
    (foldDeltas state (schedule.map PhaseCompletion.delta)).data = schedule.foldl PhaseCompletion.merge state.data := by
  induction schedule generalizing state with
  | nil => rfl
  | cons c schedule ih => exact ih (applyDelta state c.delta.data c.delta.flow)

/-- Whatever order the dependencies allow, the same completions leave the same blackboard: superstep by superstep, one
at a time, or in a superstep with its phases in another order. -/
theorem schedules_leave_same_blackboard (hg : WritersAccepted g) (hseparate : SeparateSteps V g)
    (hdocs : ∀ c ∈ schedule, c.doc ∈ g.docs) (hnodup : (schedule.map fun c => c.doc.phaseName).Nodup)
    (hperm : schedule.Perm schedule') (hfirst : Respects (PhaseCompletion.Before g.refs) schedule)
    (hsecond : Respects (PhaseCompletion.Before g.refs) schedule') (state : WorkflowState) :
    SameBlackboard (foldDeltas state (schedule.map PhaseCompletion.delta)).data
      (foldDeltas state (schedule'.map PhaseCompletion.delta)).data := by
  rw [foldDeltas_data, foldDeltas_data]
  exact (completions_commute hg hseparate hdocs hnodup).foldl_same SameBlackboard.equivalence hperm hfirst hsecond
    (SameBlackboard.equivalence.refl _)

end Schedules

def digestDoc : PhaseDocument where
  phaseName := "digest"
  mode := .agent
  inputs := objectSchema ["notes"]
  outputs := objectSchema ["digest"]

def digestGraph : GraphDocument where
  refs := [⟨"summaries", ["input"], false⟩, ⟨"reviews", ["input"], true⟩, ⟨"digest", ["summaries"], true⟩]
  docs := [summariesDoc, reviewsDoc "remarks", digestDoc]
  refs_unique := by decide
  docs_unique := by simp [summariesDoc, reviewsDoc, digestDoc]
  docs_listed := by simp [summariesDoc, reviewsDoc, digestDoc]

theorem digest_ancestors : phaseAncestorSets digestGraph.refs "digest" = ["summaries"] := by
  have hd : (dependsOnMap digestGraph.refs).get? "digest" = some ["summaries"] := rfl
  have hs : (dependsOnMap digestGraph.refs).get? "summaries" = some ["input"] := rfl
  rw [phaseAncestorSets, hd, Option.getD_some, ancestorsFrom, if_pos (by decide), hs, Option.getD_some]
  simp [ancestorsFrom]

theorem digestGraph_accepted : WritersAccepted digestGraph := by
  have hs : phaseAncestorSets digestGraph.refs "summaries" = [] := phaseAncestorSets_of_input rfl
  have hr : phaseAncestorSets digestGraph.refs "reviews" = [] := phaseAncestorSets_of_input rfl
  constructor
  · have hpairs : orderedPairs (digestGraph.refs.map PhaseTopologyRef.name) =
        [("summaries", "reviews"), ("summaries", "digest"), ("reviews", "digest")] := rfl
    rw [validateParallelWriters, hpairs]
    simp only [List.flatMap_cons, List.flatMap_nil, parallelWriteConflicts, hs, hr, digest_ancestors]
    rfl
  · have hdocs : digestGraph.docs = [summariesDoc, reviewsDoc "remarks", digestDoc] := rfl
    rw [validateSequentialOverwrites, hdocs]
    simp only [List.flatMap_cons, List.flatMap_nil, summariesDoc, reviewsDoc, digestDoc, hs, hr, digest_ancestors]
    rfl

theorem digest_written {V : Draft202012} {k : String} (h : digestDoc.Writes V k) : k = "digest" := by
  have hk : k ∈ ["digest"] := PhaseDocument.declared_of_writes rfl (by decide) h
  simpa using hk

theorem reviews_digest_separate {V : Draft202012} : SeparateWriters V (reviewsDoc "remarks") digestDoc := by
  have hr : (reviewsDoc "remarks").accumulator = some ⟨"remarks", .list [.str "preface"], "review", .append⟩ := rfl
  apply SeparateWriters.of_apart
  · rw [PhaseDocument.writes_accumulator hr]
    decide
  · intro h
    exact absurd (digest_written h) (by decide)
  · intro k hk hk'
    rw [PhaseDocument.writes_accumulator hr, digest_written hk'] at hk
    exact absurd hk (by decide)

theorem digest_waits : DependencyPath digestGraph.refs "summaries" "digest" := by
  rw [← mem_phaseAncestorSets, digest_ancestors]
  simp

theorem digestGraph_separate {V : Draft202012} : SeparateSteps V digestGraph := by
  intro p hp q hq hname hpq hqp _ _
  simp only [digestGraph, List.mem_cons, List.not_mem_nil, or_false] at hp hq
  obtain rfl | rfl | rfl := hp <;> obtain rfl | rfl | rfl := hq
  · exact absurd rfl hname
  · exact loops_separate
  · exact absurd digest_waits hpq
  · exact loops_separate.symm
  · exact absurd rfl hname
  · exact reviews_digest_separate
  · exact absurd digest_waits hqp
  · exact reviews_digest_separate.symm
  · exact absurd rfl hname

theorem digest_accepts : digestDoc.Deliverable acceptingValidator ∅ where
  accepted := rfl
  business := by simp
  logic h := by cases h

theorem book_schedules_leave_same_blackboard : ∃ c d e : PhaseCompletion acceptingValidator,
    c.doc = summariesDoc ∧ d.doc = reviewsDoc "remarks" ∧ e.doc = digestDoc ∧
      SameBlackboard (foldDeltas emptyState ([c, d, e].map PhaseCompletion.delta)).data
        (foldDeltas emptyState ([c, e, d].map PhaseCompletion.delta)).data := by
  obtain ⟨delta, hacc, -⟩ := @PhaseDocument.exists_loop summariesDoc acceptingValidator _ _ rfl rfl (by decide)
    (by decide)
  obtain ⟨delta', hacc', -⟩ := @PhaseDocument.exists_loop (reviewsDoc "remarks") acceptingValidator _ _ rfl rfl
    (by decide) (by decide)
  obtain ⟨delta'', hacc'', -⟩ := PhaseDocument.exists_plain rfl digest_accepts
  let c : PhaseCompletion acceptingValidator := ⟨_, delta, hacc⟩
  let d : PhaseCompletion acceptingValidator := ⟨_, delta', hacc'⟩
  let e : PhaseCompletion acceptingValidator := ⟨_, delta'', hacc''⟩
  have toSummaries {p : PhaseCompletion acceptingValidator} : ¬ p.Before digestGraph.refs c :=
    not_dependencyPath_of_input rfl
  have toReviews {p : PhaseCompletion acceptingValidator} : ¬ p.Before digestGraph.refs d :=
    not_dependencyPath_of_input rfl
  have toDigest : ¬ d.Before digestGraph.refs e := by
    rw [PhaseCompletion.Before, ← mem_phaseAncestorSets]
    change "reviews" ∉ phaseAncestorSets digestGraph.refs "digest"
    rw [digest_ancestors]
    decide
  refine ⟨c, d, e, rfl, rfl, rfl, ?_⟩
  refine schedules_leave_same_blackboard digestGraph_accepted digestGraph_separate ?_ ?_
    (List.Perm.cons c (List.Perm.swap e d [])) ?_ ?_ emptyState
  · simp [digestGraph, c, d, e]
  · simp [c, d, e, summariesDoc, reviewsDoc, digestDoc]
  · simp [Respects, toSummaries, toReviews]
  · simp [Respects, toSummaries, toReviews, toDigest]

end GraphSkillRuntime
