import GraphSkillRuntime.AcceptedDeltas
import GraphSkillRuntime.BlackboardSlots

namespace GraphSkillRuntime

open OrderedDict

/-! Folding the deltas of two independent phases in either order. -/

/-- The deltas of the two phases write different slots, and may be folded in either order. -/
structure OrderIndependent (V : Draft202012) (p q : PhaseDocument) : Prop where
  disjoint : ∀ delta delta', p.AcceptedDelta V delta → q.AcceptedDelta V delta' →
    ∀ slot, ¬ (WritesSlot delta.data slot ∧ WritesSlot delta'.data slot)
  commute : ∀ delta delta', p.AcceptedDelta V delta → q.AcceptedDelta V delta' → ∀ current,
    SameBlackboard
      (mergeBusinessChannel (mergeBusinessChannel current (.delta delta.data)) (.delta delta'.data))
      (mergeBusinessChannel (mergeBusinessChannel current (.delta delta'.data)) (.delta delta.data))

/-- What the writer checks leave open between two independent phases: a field named inputs, an accumulator, and
the fields of a phase that declares none. -/
structure SeparateWriters (V : Draft202012) (p q : PhaseDocument) : Prop where
  no_inputs : ¬ p.Writes V "inputs" ∧ ¬ q.Writes V "inputs"
  left_loop : ∀ accumulate, p.accumulator = some accumulate → accumulate.var ≠ "phase_outputs" →
    ¬ q.Writes V accumulate.var
  right_loop : ∀ accumulate, q.accumulator = some accumulate → accumulate.var ≠ "phase_outputs" →
    ¬ p.Writes V accumulate.var
  left_bare : p.declared = [] → ∀ k, k ≠ "phase_outputs" → p.Writes V k → ¬ q.Writes V k
  right_bare : q.declared = [] → ∀ k, k ≠ "phase_outputs" → q.Writes V k → ¬ p.Writes V k

section Pair

variable {V : Draft202012} {p q : PhaseDocument} {delta delta' : PhaseDelta} {k : String}

theorem PhaseDocument.writes_accumulator {accumulate : IterateAccumulateSpec}
    (h : p.accumulator = some accumulate) : p.Writes V k ↔ k = accumulate.var := by
  unfold PhaseDocument.accumulator at h
  split at h
  · rename_i hm
    obtain rfl := Option.some.inj h
    simp [PhaseDocument.Writes, hm]
  · cases h

theorem PhaseDocument.declared_of_writes (h : p.accumulator = none) (hd : p.declared ≠ []) (hk : p.Writes V k) :
    k ∈ p.declared := by
  unfold PhaseDocument.Writes at hk
  split at hk
  · rename_i hm
    simp [PhaseDocument.accumulator, hm] at h
  · exact hk
  · obtain ⟨payload, hpayload, hmem⟩ := hk
    exact hpayload.accepted.declared hd k (Dict.contains_iff.mp hmem)

theorem SeparateWriters.disjoint (h : SeparateWriters V p q) (hdecl : ∀ key ∈ p.declared, key ∉ q.declared)
    (hne : k ≠ "phase_outputs") (hp : p.Writes V k) : ¬ q.Writes V k := by
  intro hq
  cases hap : p.accumulator with
  | some accumulate =>
    obtain rfl := (PhaseDocument.writes_accumulator hap).mp hp
    exact h.left_loop accumulate hap hne hq
  | none =>
    cases haq : q.accumulator with
    | some accumulate =>
      obtain rfl := (PhaseDocument.writes_accumulator haq).mp hq
      exact h.right_loop accumulate haq hne hp
    | none =>
      by_cases hdp : p.declared = []
      · exact h.left_bare hdp k hne hp hq
      · by_cases hdq : q.declared = []
        · exact h.right_bare hdq k hne hq hp
        · exact hdecl k (PhaseDocument.declared_of_writes hap hdp hp) (PhaseDocument.declared_of_writes haq hdq hq)

theorem SeparateWriters.symm (h : SeparateWriters V p q) : SeparateWriters V q p :=
  ⟨h.no_inputs.symm, h.right_loop, h.left_loop, h.right_bare, h.left_bare⟩

theorem SeparateWriters.of_apart (hp : ¬ p.Writes V "inputs") (hq : ¬ q.Writes V "inputs")
    (h : ∀ k, p.Writes V k → ¬ q.Writes V k) : SeparateWriters V p q where
  no_inputs := ⟨hp, hq⟩
  left_loop _ ha _ := h _ ((PhaseDocument.writes_accumulator ha).mpr rfl)
  right_loop _ ha _ hw := h _ hw ((PhaseDocument.writes_accumulator ha).mpr rfl)
  left_bare _ k _ := h k
  right_bare _ k _ hk hk' := h k hk' hk

theorem inputs_clash (hp : p.AcceptedDelta V delta) (hq : q.AcceptedDelta V delta')
    (h : delta.data.contains "inputs" = true ∨ delta'.data.contains "inputs" = true) :
    ∃ slot, WritesSlot delta.data slot ∧ WritesSlot delta'.data slot := by
  obtain ⟨payload, hd, -⟩ := hp.payload
  obtain ⟨payload', hd', -⟩ := hq.payload
  rcases h with h | h
  · exact ⟨.record q.phaseName, writesSlot_record_of_inputs h _, writesSlot_own_record hd'⟩
  · exact ⟨.record p.phaseName, writesSlot_own_record hd, writesSlot_record_of_inputs h _⟩

theorem field_clash (hp : p.AcceptedDelta V delta) (hq : q.AcceptedDelta V delta') (hk : k ≠ "phase_outputs")
    (h : delta.data.contains k = true) (h' : delta'.data.contains k = true) :
    ∃ slot, WritesSlot delta.data slot ∧ WritesSlot delta'.data slot := by
  by_cases hin : delta.data.contains "inputs" = true ∨ delta'.data.contains "inputs" = true
  · exact inputs_clash hp hq hin
  · rw [not_or] at hin
    have hfield : ∀ {doc : PhaseDocument} {d : PhaseDelta}, doc.AcceptedDelta V d →
        d.data.contains k = true → ¬ d.data.contains "inputs" = true → WritesSlot d.data (.field k hk) := by
      intro doc d hacc hc hni
      obtain ⟨payload, hsame, -⟩ := hacc.payload
      have hnone : payload.get? "inputs" = none := by
        rw [contains_inputs hsame] at hni
        simpa using hni
      rw [writesSlot_iff hsame hnone, Slot.put]
      rwa [Dict.contains, hsame k, get?_phaseDataDelta, if_neg hk.symm] at hc
    exact ⟨_, hfield hp h hin.1, hfield hq h' hin.2⟩

theorem OrderIndependent.separateWriters (h : OrderIndependent V p q) (hp : p.Delivers V) (hq : q.Delivers V) :
    SeparateWriters V p q := by
  obtain ⟨anyP, hanyP⟩ := PhaseDocument.exists_delta hp
  obtain ⟨anyQ, hanyQ⟩ := PhaseDocument.exists_delta hq
  have hno : ∀ {j}, j ≠ "phase_outputs" → p.Writes V j → ¬ q.Writes V j := by
    intro j hne hj hj'
    obtain ⟨d, hd, hc⟩ := PhaseDocument.exists_writing hp hj hne
    obtain ⟨d', hd', hc'⟩ := PhaseDocument.exists_writing hq hj' hne
    obtain ⟨slot, hslot⟩ := field_clash hd hd' hne hc hc'
    exact h.disjoint d d' hd hd' slot hslot
  refine ⟨⟨?_, ?_⟩, ?_, ?_, fun _ j hne hj => hno hne hj, fun _ j hne hj hj' => hno hne hj' hj⟩
  · intro hin
    obtain ⟨d, hd, hc⟩ := PhaseDocument.exists_writing hp hin (by decide)
    obtain ⟨slot, hslot⟩ := inputs_clash hd hanyQ (Or.inl hc)
    exact h.disjoint d anyQ hd hanyQ slot hslot
  · intro hin
    obtain ⟨d, hd, hc⟩ := PhaseDocument.exists_writing hq hin (by decide)
    obtain ⟨slot, hslot⟩ := inputs_clash hanyP hd (Or.inr hc)
    exact h.disjoint anyP d hanyP hd slot hslot
  · intro accumulate ha hne
    exact hno hne ((PhaseDocument.writes_accumulator ha).mpr rfl)
  · intro accumulate ha hne hw
    exact hno hne hw ((PhaseDocument.writes_accumulator ha).mpr rfl)

theorem SeparateWriters.orderIndependent (h : p.Delivers V → q.Delivers V → SeparateWriters V p q)
    (hdecl : ∀ key ∈ p.declared, key ∉ q.declared) (hne : p.phaseName ≠ q.phaseName) :
    OrderIndependent V p q := by
  have hpair : ∀ {d d' : PhaseDelta}, p.AcceptedDelta V d → q.AcceptedDelta V d' →
      ∃ payload payload', d.data.Same (phaseDataDelta p.phaseName payload) ∧
        d'.data.Same (phaseDataDelta q.phaseName payload') ∧ payload.get? "inputs" = none ∧
        payload'.get? "inputs" = none ∧
        ∀ slot, ¬ (WritesSlot d.data slot ∧ WritesSlot d'.data slot) := by
    intro d d' hd hd'
    have hsep := h hd.delivers hd'.delivers
    obtain ⟨payload, hsame, hkeys⟩ := hd.payload
    obtain ⟨payload', hsame', hkeys'⟩ := hd'.payload
    have hin : payload.get? "inputs" = none := by
      rw [Dict.get?_eq_none]
      exact fun hm => hsep.no_inputs.1 (hkeys _ hm)
    have hin' : payload'.get? "inputs" = none := by
      rw [Dict.get?_eq_none]
      exact fun hm => hsep.no_inputs.2 (hkeys' _ hm)
    refine ⟨payload, payload', hsame, hsame', hin, hin', ?_⟩
    rintro slot ⟨hw, hw'⟩
    rw [writesSlot_iff hsame hin] at hw
    rw [writesSlot_iff hsame' hin'] at hw'
    cases slot with
    | field name hname =>
      exact hsep.disjoint hdecl hname (hkeys name (Dict.mem_keys.mpr hw)) (hkeys' name (Dict.mem_keys.mpr hw'))
    | record r =>
      simp only [Slot.put] at hw hw'
      split_ifs at hw with hr
      · split_ifs at hw' with hr'
        · exact hne (hr.trans hr'.symm)
        · simp at hw'
      · simp at hw
  constructor
  · intro d d' hd hd'
    obtain ⟨_, _, _, _, _, _, hdis⟩ := hpair hd hd'
    exact hdis
  · intro d d' hd hd' current
    obtain ⟨_, _, hsame, hsame', hin, hin', hdis⟩ := hpair hd hd'
    exact merges_commute hsame hsame' hin hin' hdis current

end Pair

theorem parallel_phases_order_independent_iff (V : Draft202012) {g : GraphDocument} (hg : WritersAccepted g)
    {p q : PhaseDocument} (hp : p ∈ g.docs) (hq : q ∈ g.docs) (hne : p.phaseName ≠ q.phaseName)
    (hpq : ¬ DependencyPath g.refs p.phaseName q.phaseName)
    (hqp : ¬ DependencyPath g.refs q.phaseName p.phaseName) :
    OrderIndependent V p q ↔ (p.Delivers V → q.Delivers V → SeparateWriters V p q) := by
  constructor
  · exact fun h => h.separateWriters
  · exact fun h => SeparateWriters.orderIndependent h
      (GraphDocument.declared_disjoint hg.parallel hp hq hne hpq hqp) hne

theorem phaseAncestorSets_of_input {refs : List PhaseTopologyRef} {name : String}
    (h : (dependsOnMap refs).get? name = some ["input"]) : phaseAncestorSets refs name = [] := by
  rw [phaseAncestorSets, h, Option.getD_some, ancestorsFrom, if_neg (by simp), ancestorsFrom]

theorem not_dependencyPath_of_input {refs : List PhaseTopologyRef} {a b : String}
    (h : (dependsOnMap refs).get? b = some ["input"]) : ¬ DependencyPath refs a b := by
  intro hpath
  obtain ⟨c, -, hne, hm⟩ := Relation.TransGen.tail'_iff.mp hpath
  rw [h] at hm
  exact hne (by simpa using hm)

def objectSchema (fields : List String) : Schema :=
  Dict.ofList [("type", .str "object"), ("properties", .dict (fields.map (fun f => (f, .dict []))))]

def chapterLoop (var from_ : String) (init : Value) : IterateSpec where
  mode := .loop { var := var, init := init, from_ := from_, merge := .append }
  overField := "chapters"
  itemVar := "chapter"

def summariesDoc : PhaseDocument where
  phaseName := "summaries"
  mode := .agent
  inputs := objectSchema ["chapter", "notes"]
  outputs := objectSchema ["summary"]
  iterate := some (chapterLoop "notes" "summary" (.list []))

def reviewsDoc (var : String) : PhaseDocument where
  phaseName := "reviews"
  mode := .agent
  inputs := objectSchema ["chapter", var]
  outputs := objectSchema ["review"]
  iterate := some (chapterLoop var "review" (.list [.str "preface"]))
  inputs_object := rfl

def bookGraph (var : String) : GraphDocument where
  refs := [⟨"summaries", ["input"], true⟩, ⟨"reviews", ["input"], true⟩]
  docs := [summariesDoc, reviewsDoc var]
  refs_unique := by decide
  docs_unique := by simp [summariesDoc, reviewsDoc]
  docs_listed := by simp [summariesDoc, reviewsDoc]

theorem bookGraph_accepted (var : String) : WritersAccepted (bookGraph var) := by
  have hs : phaseAncestorSets (bookGraph var).refs "summaries" = [] := phaseAncestorSets_of_input rfl
  have hr : phaseAncestorSets (bookGraph var).refs "reviews" = [] := phaseAncestorSets_of_input rfl
  constructor
  · have hconf : parallelWriteConflicts (bookGraph var) "summaries" "reviews" = [] := by
      rw [parallelWriteConflicts, hs, hr]
      rfl
    have hpairs : orderedPairs ((bookGraph var).refs.map PhaseTopologyRef.name) =
        [("summaries", "reviews")] := rfl
    rw [validateParallelWriters, hpairs, List.flatMap_singleton]
    exact hconf
  · have hdocs : (bookGraph var).docs = [summariesDoc, reviewsDoc var] := rfl
    rw [validateSequentialOverwrites, hdocs]
    simp [summariesDoc, reviewsDoc, hs, hr]

theorem bookGraph_independent (var a b : String) (hb : b = "summaries" ∨ b = "reviews") :
    ¬ DependencyPath (bookGraph var).refs a b := by
  apply not_dependencyPath_of_input
  rcases hb with rfl | rfl <;> rfl

theorem loops_separate {V : Draft202012} : SeparateWriters V summariesDoc (reviewsDoc "remarks") := by
  have hs : summariesDoc.accumulator = some ⟨"notes", .list [], "summary", .append⟩ := rfl
  have hr : (reviewsDoc "remarks").accumulator = some ⟨"remarks", .list [.str "preface"], "review", .append⟩ := rfl
  apply SeparateWriters.of_apart
  · rw [PhaseDocument.writes_accumulator hs]
    decide
  · rw [PhaseDocument.writes_accumulator hr]
    decide
  · intro k hk
    rw [PhaseDocument.writes_accumulator hs] at hk
    rw [PhaseDocument.writes_accumulator hr, hk]
    decide

theorem chapter_loops_order_independent :
    OrderIndependent acceptingValidator summariesDoc (reviewsDoc "remarks") :=
  (parallel_phases_order_independent_iff acceptingValidator (bookGraph_accepted "remarks") (p := summariesDoc)
    (q := reviewsDoc "remarks") (by simp [bookGraph]) (by simp [bookGraph]) (by decide)
    (bookGraph_independent _ _ _ (Or.inr rfl)) (bookGraph_independent _ _ _ (Or.inl rfl))).mpr
    fun _ _ => loops_separate

theorem loops_race_for_accumulator :
    WritersAccepted (bookGraph "notes") ∧
    ¬ DependencyPath (bookGraph "notes").refs "summaries" "reviews" ∧
    ¬ DependencyPath (bookGraph "notes").refs "reviews" "summaries" ∧
    ∃ delta delta', summariesDoc.AcceptedDelta acceptingValidator delta ∧
      (reviewsDoc "notes").AcceptedDelta acceptingValidator delta' ∧
      ¬ SameBlackboard
        (mergeBusinessChannel (mergeBusinessChannel ∅ (.delta delta.data)) (.delta delta'.data))
        (mergeBusinessChannel (mergeBusinessChannel ∅ (.delta delta'.data)) (.delta delta.data)) := by
  obtain ⟨delta, hacc, hsame⟩ := @PhaseDocument.exists_loop summariesDoc acceptingValidator _ _ rfl rfl (by decide)
    (by decide)
  obtain ⟨delta', hacc', hsame'⟩ := @PhaseDocument.exists_loop (reviewsDoc "notes") acceptingValidator _ _ rfl rfl
    (by decide) (by decide)
  refine ⟨bookGraph_accepted _, bookGraph_independent _ _ _ (Or.inr rfl),
    bookGraph_independent _ _ _ (Or.inl rfl), delta, delta', hacc, hacc', ?_⟩
  intro h
  have hnotes := h (.field "notes" (by decide))
  rw [read_merge hsame' rfl, read_merge hsame rfl, read_merge hsame rfl, read_merge hsame' rfl] at hnotes
  revert hnotes
  decide

end GraphSkillRuntime
