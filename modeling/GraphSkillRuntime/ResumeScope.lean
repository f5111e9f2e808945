import GraphSkillRuntime.SkillGraph
import Mathlib.Data.List.Induction

/-! The check on the fields that a resumed run may override: none that a phase before the resume node wrote. -/

namespace GraphSkillRuntime

open OrderedDict

def nodeOutputFields (doc : PhaseDocument) : List String := schemaProperties (some doc.outputs)

def compiledPhaseNamesInOrder (docs : List PhaseDocument) : List String := docs.map PhaseDocument.phaseName

def producerByField (docs : List PhaseDocument) : Dict String String :=
  Dict.ofList (docs.flatMap (fun doc => (nodeOutputFields doc).map (fun field => (field, doc.phaseName))))

def isDirty (docs : List PhaseDocument) (resume field : String) : Bool :=
  let order := compiledPhaseNamesInOrder docs
  match (producerByField docs).get? field with
  | none => false
  | some producer => producer ≠ resume && (order.contains producer && order.idxOf producer < order.idxOf resume)

def overrideError (resume : String) (fields : List String) : String :=
  "context_overrides would dirty upstream checkpoint data before '" ++ resume ++ "': " ++
    ", ".intercalate (sortKeys fields)

/-- `_validate_resume_context_override_scope`; the overrides are given by their field names. -/
def validateResumeContextOverrideScope (docs : List PhaseDocument) (resume : Option String) (overrides : List String) :
    Except String Unit :=
  match resume with
  | none => .ok ()
  | some resume =>
    if overrides.isEmpty then .ok ()
    else if !(compiledPhaseNamesInOrder docs).contains resume then .ok ()
    else
      let dirtyFields := overrides.filter (isDirty docs resume)
      if dirtyFields.isEmpty then .ok () else .error (overrideError resume dirtyFields)

def Rejects (docs : List PhaseDocument) (resume : String) (overrides : List String) : Prop :=
  ∃ error, validateResumeContextOverrideScope docs (some resume) overrides = .error error

/-- A phase that the resume node depends on, directly or not, declares the field. -/
def DeclaredUpstream (g : GraphDocument) (resume field : String) : Prop :=
  ∃ doc ∈ g.docs, DependencyPath g.refs doc.phaseName resume ∧ field ∈ nodeOutputFields doc

/-- The check is exact at a resume node: it rejects the overrides that touch an upstream field, and no others. -/
def OverrideScopeExact (g : GraphDocument) (resume : String) : Prop :=
  ∀ overrides : List String, Rejects g.docs resume overrides ↔ ∃ field ∈ overrides, DeclaredUpstream g resume field

/-- The last document that declares the field stands before the resume node's. -/
def LastWriterBefore (docs : List PhaseDocument) (resume field : String) : Prop :=
  ∃ before doc after, docs = before ++ doc :: after ∧ field ∈ nodeOutputFields doc ∧
    (∀ later ∈ after, field ∉ nodeOutputFields later) ∧ resume ∈ compiledPhaseNamesInOrder after

theorem producerByField_append (docs : List PhaseDocument) (doc : PhaseDocument) (field : String) :
    (producerByField (docs ++ [doc])).get? field =
      if field ∈ nodeOutputFields doc then some doc.phaseName else (producerByField docs).get? field := by
  rw [producerByField, Dict.get?_ofList, List.flatMap_append, List.flatMap_singleton, List.reverse_append,
    Dict.find_append]
  have hown : Dict.find ((nodeOutputFields doc).map (fun field => (field, doc.phaseName))).reverse field =
      if field ∈ nodeOutputFields doc then some doc.phaseName else none := by
    rw [← List.map_reverse]
    have hmem : field ∈ nodeOutputFields doc ↔ field ∈ (nodeOutputFields doc).reverse := List.mem_reverse.symm
    simp only [hmem]
    induction (nodeOutputFields doc).reverse with
    | nil => rfl
    | cons other fields ih =>
      by_cases hfield : other = field
      · simp [Dict.find, hfield]
      · simp [Dict.find, hfield, ih, Ne.symm hfield]
  rw [hown, producerByField, Dict.get?_ofList]
  split_ifs <;> rfl

theorem producerByField_eq_some {docs : List PhaseDocument} {field producer : String} :
    (producerByField docs).get? field = some producer ↔
      ∃ before doc after, docs = before ++ doc :: after ∧ field ∈ nodeOutputFields doc ∧
        (∀ later ∈ after, field ∉ nodeOutputFields later) ∧ doc.phaseName = producer := by
  induction docs using List.reverseRecOn with
  | nil => simp [producerByField, Dict.get?_ofList, Dict.find]
  | append_singleton docs last ih =>
    rw [producerByField_append]
    by_cases hlast : field ∈ nodeOutputFields last
    · rw [if_pos hlast]
      constructor
      · rintro ⟨⟩
        exact ⟨docs, last, [], rfl, hlast, by simp, rfl⟩
      · rintro ⟨before, doc, after, hdocs, -, hafter, rfl⟩
        rcases List.eq_nil_or_concat after with rfl | ⟨after, other, rfl⟩
        · obtain ⟨-, hlast'⟩ := List.append_inj' hdocs rfl
          rw [(List.cons.inj hlast').1]
        · rw [List.concat_eq_append, ← List.cons_append, ← List.append_assoc] at hdocs
          obtain ⟨-, hlast'⟩ := List.append_inj' hdocs rfl
          obtain rfl := (List.cons.inj hlast').1
          exact absurd hlast (hafter _ (by simp))
    · rw [if_neg hlast, ih]
      constructor
      · rintro ⟨before, doc, after, rfl, hfield, hafter, hname⟩
        refine ⟨before, doc, after ++ [last], by simp, hfield, fun later hlater => ?_, hname⟩
        rcases List.mem_append.mp hlater with hlater | hlater
        · exact hafter later hlater
        · rwa [List.mem_singleton.mp hlater]
      · rintro ⟨before, doc, after, hdocs, hfield, hafter, hname⟩
        rcases List.eq_nil_or_concat after with rfl | ⟨after, other, rfl⟩
        · obtain ⟨-, hlast'⟩ := List.append_inj' hdocs rfl
          obtain rfl := (List.cons.inj hlast').1
          exact absurd hfield hlast
        · rw [List.concat_eq_append, ← List.cons_append, ← List.append_assoc] at hdocs
          obtain ⟨rfl, -⟩ := List.append_inj' hdocs rfl
          exact ⟨before, doc, after, rfl, hfield, fun later hlater => hafter later (by simp [hlater]), hname⟩

theorem idxOf_lt_iff {before after : List String} {name other : String} (hnodup : (before ++ name :: after).Nodup)
    (hother : other ∈ before ++ name :: after) :
    (before ++ name :: after).idxOf name < (before ++ name :: after).idxOf other ↔ other ∈ after := by
  have hmiddle := (List.nodup_middle.mp hnodup).notMem
  have hname : name ∉ before := fun h => hmiddle (List.mem_append_left _ h)
  rw [List.idxOf_append_of_notMem hname, List.idxOf_cons_self]
  by_cases hbefore : other ∈ before
  · rw [List.idxOf_append_of_mem hbefore]
    have hlt := List.idxOf_lt_length_of_mem hbefore
    have hafter : other ∉ after := by
      have hdisjoint := (List.nodup_append.mp hnodup).2.2
      exact fun h => hdisjoint other hbefore other (List.mem_cons_of_mem _ h) rfl
    simp only [hafter, iff_false]
    omega
  · rw [List.idxOf_append_of_notMem hbefore]
    by_cases heq : other = name
    · subst heq
      have hafter : other ∉ after := fun h => hmiddle (List.mem_append_right _ h)
      simp [hafter]
    · have hafter : other ∈ after := by simpa [hbefore, heq] using hother
      rw [List.idxOf_cons_ne _ (Ne.symm heq)]
      simp only [hafter, iff_true]
      omega

theorem isDirty_iff {g : GraphDocument} {resume : String} (hresume : resume ∈ compiledPhaseNamesInOrder g.docs)
    (field : String) : isDirty g.docs resume field = true ↔ LastWriterBefore g.docs resume field := by
  have hnodup : (compiledPhaseNamesInOrder g.docs).Nodup := g.docs_unique
  -- the last writer's place, read off the two sides of the document list
  have hplace : ∀ {before doc after}, g.docs = before ++ doc :: after →
      ((compiledPhaseNamesInOrder g.docs).idxOf doc.phaseName < (compiledPhaseNamesInOrder g.docs).idxOf resume ↔
        resume ∈ compiledPhaseNamesInOrder after) := by
    intro before doc after hdocs
    rw [compiledPhaseNamesInOrder, hdocs, List.map_append, List.map_cons] at hnodup hresume ⊢
    exact idxOf_lt_iff hnodup hresume
  constructor
  · intro hdirty
    unfold isDirty at hdirty
    dsimp only at hdirty
    cases hproducer : (producerByField g.docs).get? field with
    | none => simp [hproducer] at hdirty
    | some producer =>
      obtain ⟨before, doc, after, hdocs, hfield, hafter, rfl⟩ := producerByField_eq_some.mp hproducer
      simp only [hproducer, Bool.and_eq_true, decide_eq_true_eq] at hdirty
      exact ⟨before, doc, after, hdocs, hfield, hafter, (hplace hdocs).mp hdirty.2.2⟩
  · rintro ⟨before, doc, after, hdocs, hfield, hafter, hbefore⟩
    have hproducer : (producerByField g.docs).get? field = some doc.phaseName :=
      producerByField_eq_some.mpr ⟨before, doc, after, hdocs, hfield, hafter, rfl⟩
    have hlt := (hplace hdocs).mpr hbefore
    have hne : doc.phaseName ≠ resume := by
      rintro rfl
      exact absurd hlt (Nat.lt_irrefl _)
    have hmem : doc.phaseName ∈ compiledPhaseNamesInOrder g.docs := by
      rw [compiledPhaseNamesInOrder, hdocs]
      simp
    simp [isDirty, hproducer, hne, hmem, hlt]

theorem rejects_iff {g : GraphDocument} {resume : String} (hresume : resume ∈ compiledPhaseNamesInOrder g.docs)
    (overrides : List String) :
    Rejects g.docs resume overrides ↔ ∃ field ∈ overrides, LastWriterBefore g.docs resume field := by
  have hdirty : (∃ field ∈ overrides, LastWriterBefore g.docs resume field) ↔
      overrides.filter (isDirty g.docs resume) ≠ [] := by
    rw [ne_eq, List.filter_eq_nil_iff]
    push Not
    exact exists_congr (fun field => and_congr_right (fun _ => (isDirty_iff hresume field).symm))
  rw [hdirty]
  unfold Rejects validateResumeContextOverrideScope
  cases overrides with
  | nil => simp
  | cons first rest =>
    simp only [List.isEmpty_cons, Bool.false_eq_true, if_false, List.contains_eq_mem, hresume, decide_true,
      Bool.not_true]
    cases hfields : (first :: rest).filter (isDirty g.docs resume) with
    | nil => simp
    | cons field fields => simp

theorem override_scope_exact_iff (g : GraphDocument) (resume : String)
    (hresume : resume ∈ compiledPhaseNamesInOrder g.docs) :
    OverrideScopeExact g resume ↔
      ∀ field, LastWriterBefore g.docs resume field ↔ DeclaredUpstream g resume field := by
  constructor
  · intro hexact field
    have hsingle := hexact [field]
    rw [rejects_iff hresume] at hsingle
    simpa using hsingle
  · intro hfields overrides
    rw [rejects_iff hresume]
    exact exists_congr (fun field => and_congr_right (fun _ => hfields field))

/-! ### A draft and its review, in two namings of the phase directories -/

def textOutputs (field : String) : Schema :=
  Dict.ofList [("type", .str "object"), ("properties", .dict [(field, .dict [("type", .str "string")])])]

def overrideDraft (name : String) : PhaseDocument where
  phaseName := name
  mode := .agent
  inputs := textOutputs "topic"
  outputs := textOutputs "draft"

def overrideReview (name : String) : PhaseDocument where
  phaseName := name
  mode := .agent
  inputs := textOutputs "draft"
  outputs := textOutputs "review"

def inOrderGraph : GraphDocument where
  refs := [⟨"a-draft", ["input"], false⟩, ⟨"b-review", ["a-draft"], true⟩]
  docs := [overrideDraft "a-draft", overrideReview "b-review"]
  refs_unique := by decide
  docs_unique := by simp [overrideDraft, overrideReview]
  docs_listed := by simp [overrideDraft, overrideReview]

def reversedGraph : GraphDocument where
  refs := [⟨"draft", ["input"], false⟩, ⟨"checked", ["draft"], true⟩]
  docs := [overrideReview "checked", overrideDraft "draft"]
  refs_unique := by decide
  docs_unique := by simp [overrideDraft, overrideReview]
  docs_listed := by simp [overrideDraft, overrideReview]

theorem draft_path : DependencyPath inOrderGraph.refs "a-draft" "b-review" := .single ⟨by decide, by decide⟩

theorem no_review_path : ¬DependencyPath inOrderGraph.refs "b-review" "b-review" := by
  intro hpath
  obtain ⟨c, hc, -, hdep⟩ := Relation.TransGen.tail'_iff.mp hpath
  have hreview : ((dependsOnMap inOrderGraph.refs).get? "b-review").getD [] = ["a-draft"] := rfl
  have hdraft : ((dependsOnMap inOrderGraph.refs).get? "a-draft").getD [] = ["input"] := rfl
  rw [hreview] at hdep
  obtain rfl := List.mem_singleton.mp hdep
  rcases Relation.ReflTransGen.cases_tail hc with heq | ⟨d, -, hne, hinput⟩
  · exact absurd heq (by decide)
  · rw [hdraft] at hinput
    exact hne (List.mem_singleton.mp hinput)

theorem override_scope_exact_in_order : OverrideScopeExact inOrderGraph "b-review" := by
  apply (override_scope_exact_iff inOrderGraph "b-review" (by decide)).mpr
  intro field
  constructor
  · rintro ⟨before, doc, after, hdocs, hfield, -, hbefore⟩
    have hdocs' : [overrideDraft "a-draft", overrideReview "b-review"] = before ++ doc :: after := hdocs
    match before, hdocs' with
    | [], hdocs' =>
      obtain ⟨rfl, -⟩ := List.cons.inj hdocs'
      exact ⟨_, by simp [inOrderGraph], draft_path, hfield⟩
    | [_], hdocs' =>
      obtain ⟨-, rfl⟩ := List.cons.inj (List.cons.inj hdocs').2
      simp [compiledPhaseNamesInOrder] at hbefore
    | _ :: _ :: _, hdocs' => simp at hdocs'
  · rintro ⟨doc, hdoc, hpath, hfield⟩
    have hdoc' : doc ∈ [overrideDraft "a-draft", overrideReview "b-review"] := hdoc
    rcases List.mem_cons.mp hdoc' with rfl | hdoc'
    · refine ⟨[], _, [overrideReview "b-review"], rfl, hfield, fun later hlater => ?_,
        by simp [compiledPhaseNamesInOrder, overrideReview]⟩
      obtain rfl : field = "draft" := List.mem_singleton.mp hfield
      rw [List.mem_singleton.mp hlater]
      decide
    · rw [List.mem_singleton.mp hdoc'] at hpath
      exact absurd hpath no_review_path

theorem directory_names_hide_upstream : ¬OverrideScopeExact reversedGraph "checked" := by
  intro hexact
  have hupstream : DeclaredUpstream reversedGraph "checked" "draft" :=
    ⟨overrideDraft "draft", by simp [reversedGraph], .single ⟨by decide, by decide⟩, by decide⟩
  obtain ⟨error, herror⟩ := (hexact ["draft"]).mpr ⟨"draft", by simp, hupstream⟩
  have haccepted : validateResumeContextOverrideScope reversedGraph.docs (some "checked") ["draft"] = .ok () := rfl
  rw [haccepted] at herror
  cases herror

end GraphSkillRuntime
