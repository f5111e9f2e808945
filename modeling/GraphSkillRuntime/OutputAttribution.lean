import GraphSkillRuntime.GraphTopology
import GraphSkillRuntime.PyData

/-!
`blackboard_fields_at_output`: the phase that a field on the blackboard is attributed to, and the phase that
writes it last.
-/

namespace GraphSkillRuntime

open OrderedDict Relation
open PyData (orderBy orderBy_perm orderBy_pairwise)

def discoverPhaseFiles (docs : List PhaseDocument) : List PhaseDocument := orderBy PhaseDocument.phaseName docs

structure BlackboardField where
  name : String
  type : String
  producedBy : String
  declaredOutput : Bool
  deriving DecidableEq

/-- `_properties_of` one side of an `io` section. -/
def propertiesOf (schema : Schema) : Dict String Value := (dictAt schema "properties").getD ∅

def typeOf (schema : Value) : String :=
  match schema with
  | .dict kvs =>
    match Dict.find kvs "type" with
    | some (.str declared) => declared
    | _ => "unknown"
  | _ => "unknown"

def blackboardField (declared : Dict String Value) (producedBy name : String) (raw : Value) : BlackboardField where
  name := name
  type := typeOf raw
  producedBy := producedBy
  declaredOutput := declared.contains name

def layOver (declared : Dict String Value) (producedBy : String) (fields : Dict String BlackboardField)
    (schema : Schema) : Dict String BlackboardField :=
  fields.update ((propertiesOf schema).mapValues (blackboardField declared producedBy))

def blackboardFieldsAtOutput (inputs outputs : Schema) (nodes : List PhaseDocument) : Dict String BlackboardField :=
  let declared := propertiesOf outputs
  nodes.foldl (fun fields node => layOver declared node.phaseName fields node.outputs)
    (layOver declared "input" ∅ inputs)

def writes (key : String) (doc : PhaseDocument) : Bool := (propertiesOf doc.outputs).contains key

def lastWriter (order : List PhaseDocument) (key : String) : Option PhaseDocument := order.reverse.find? (writes key)

structure ExecutionOrder (g : GraphDocument) (order : List PhaseDocument) : Prop where
  perm : order.Perm g.docs
  consistent : order.Pairwise fun p q => ¬ DependencyPath g.refs q.phaseName p.phaseName

/-- What should be said of a field: its last writer, or the input of the graph. -/
def fieldAtOutput (inputs outputs : Schema) (order : List PhaseDocument) (key : String) : Option BlackboardField :=
  match lastWriter order key with
  | some doc => ((propertiesOf doc.outputs).get? key).map (blackboardField (propertiesOf outputs) doc.phaseName key)
  | none => ((propertiesOf inputs).get? key).map (blackboardField (propertiesOf outputs) "input" key)

/-- The writer of a field that depends on all others has the last directory among them. -/
def LastDirectoryWritesLast (g : GraphDocument) : Prop :=
  ∀ key, ∀ q ∈ g.docs, writes key q = true →
    (∀ p ∈ g.docs, writes key p = true → p = q ∨ DependencyPath g.refs p.phaseName q.phaseName) →
      ∀ p ∈ g.docs, writes key p = true → p.phaseName ≤ q.phaseName

section

variable {key : String} {nodes order : List PhaseDocument}

theorem lastWriter_cons (doc : PhaseDocument) : lastWriter (doc :: nodes) key =
    (lastWriter nodes key).or (if writes key doc then some doc else none) := by
  rw [lastWriter, List.reverse_cons, List.find?_append, ← lastWriter]
  congr 1
  cases h : writes key doc <;> simp [List.find?, h]

theorem lastWriter_some {doc : PhaseDocument} (h : lastWriter nodes key = some doc) :
    doc ∈ nodes ∧ writes key doc = true :=
  ⟨List.mem_reverse.mp (List.mem_of_find?_eq_some h), List.find?_some h⟩

theorem lastWriter_eq_none : lastWriter nodes key = none ↔ ∀ doc ∈ nodes, writes key doc = false := by
  rw [lastWriter, List.find?_eq_none]
  simp only [List.mem_reverse, Bool.not_eq_true]

theorem lastWriter_before {R : PhaseDocument → PhaseDocument → Prop} (hR : nodes.Pairwise R) {p q : PhaseDocument}
    (hq : lastWriter nodes key = some q) (hp : p ∈ nodes) (hw : writes key p = true) : p = q ∨ R p q := by
  induction nodes with
  | nil => cases hp
  | cons doc nodes ih =>
    rw [List.pairwise_cons] at hR
    rw [lastWriter_cons] at hq
    cases hrest : lastWriter nodes key with
    | none =>
      rw [hrest, Option.none_or] at hq
      rcases List.mem_cons.mp hp with rfl | hp
      · rw [if_pos hw] at hq
        exact .inl (Option.some.inj hq)
      · rw [lastWriter_eq_none.mp hrest p hp] at hw
        cases hw
    | some last =>
      rw [hrest, Option.some_or, Option.some.injEq] at hq
      subst hq
      rcases List.mem_cons.mp hp with rfl | hp
      · exact .inr (hR.1 _ (lastWriter_some hrest).1)
      · exact ih hR.2 hrest hp

theorem layOver_get? (declared : Dict String Value) (producedBy : String) (fields : Dict String BlackboardField)
    (schema : Schema) : (layOver declared producedBy fields schema).get? key =
      (((propertiesOf schema).get? key).map (blackboardField declared producedBy key)).or (fields.get? key) := by
  rw [layOver, Dict.get?_update, Dict.get?_mapValues]

theorem foldl_layOver_get? (declared : Dict String Value) (fields : Dict String BlackboardField) :
    (nodes.foldl (fun fields node => layOver declared node.phaseName fields node.outputs) fields).get? key =
      ((lastWriter nodes key).bind fun doc =>
        ((propertiesOf doc.outputs).get? key).map (blackboardField declared doc.phaseName key)).or
        (fields.get? key) := by
  induction nodes generalizing fields with
  | nil => rfl
  | cons doc nodes ih =>
    rw [List.foldl_cons, ih, layOver_get?, lastWriter_cons]
    cases hrest : lastWriter nodes key with
    | some last =>
      have hwrites := (lastWriter_some hrest).2
      rw [writes, Dict.contains] at hwrites
      obtain ⟨raw, hraw⟩ := Option.isSome_iff_exists.mp hwrites
      rw [Option.some_or, Option.bind_some, hraw]
      rfl
    | none =>
      rw [Option.none_or, Option.bind_none, Option.none_or]
      cases hwrites : writes key doc with
      | true => rfl
      | false =>
        rw [writes, Dict.contains, Option.isSome_eq_false_iff, Option.isNone_iff_eq_none] at hwrites
        rw [hwrites]
        rfl

theorem blackboardFieldsAtOutput_get? (inputs outputs : Schema) :
    (blackboardFieldsAtOutput inputs outputs nodes).get? key = fieldAtOutput inputs outputs nodes key := by
  rw [blackboardFieldsAtOutput, foldl_layOver_get?, layOver_get?, fieldAtOutput, Dict.get?_empty, Option.or_none]
  cases hlast : lastWriter nodes key with
  | none => rfl
  | some doc =>
    have hwrites := (lastWriter_some hlast).2
    rw [writes, Dict.contains] at hwrites
    obtain ⟨raw, hraw⟩ := Option.isSome_iff_exists.mp hwrites
    simp only [Option.bind_some, hraw, Option.map_some, Option.some_or]

theorem lastWriter_of_fieldAtOutput {inputs outputs : Schema} {p q : PhaseDocument}
    (h : fieldAtOutput inputs outputs nodes key = fieldAtOutput inputs outputs order key)
    (hp : lastWriter nodes key = some p) (hq : lastWriter order key = some q) : p.phaseName = q.phaseName := by
  have hwp := (lastWriter_some hp).2
  have hwq := (lastWriter_some hq).2
  rw [writes, Dict.contains] at hwp hwq
  obtain ⟨raw, hraw⟩ := Option.isSome_iff_exists.mp hwp
  obtain ⟨raw', hraw'⟩ := Option.isSome_iff_exists.mp hwq
  unfold fieldAtOutput at h
  simp only [hp, hq, hraw, hraw', Option.map_some, Option.some.injEq] at h
  exact congrArg BlackboardField.producedBy h

end

section

variable {g : GraphDocument} {key : String} {order : List PhaseDocument} {p q : PhaseDocument}

theorem mem_schemaProperties_of_writes (h : writes key p = true) : key ∈ schemaProperties (some p.outputs) := by
  rw [writes, propertiesOf, Dict.contains_iff] at h
  rw [schemaProperties, Option.bind_some]
  cases hprops : dictAt p.outputs "properties" with
  | none => simp [hprops] at h
  | some properties =>
    rw [hprops, Option.getD_some] at h
    exact h

theorem doc_eq_of_phaseName (hp : p ∈ g.docs) (hq : q ∈ g.docs) (h : p.phaseName = q.phaseName) : p = q :=
  List.inj_on_of_nodup_map g.docs_unique hp hq h

theorem writers_comparable (hwriters : WritersAccepted g) (hp : p ∈ g.docs) (hq : q ∈ g.docs)
    (hwp : writes key p = true) (hwq : writes key q = true) :
    p = q ∨ DependencyPath g.refs p.phaseName q.phaseName ∨ DependencyPath g.refs q.phaseName p.phaseName := by
  by_cases hne : p.phaseName = q.phaseName
  · exact .inl (doc_eq_of_phaseName hp hq hne)
  · by_contra hcon
    push Not at hcon
    exact GraphDocument.declared_disjoint hwriters.parallel hp hq hne hcon.2.1 hcon.2.2 key
      (mem_schemaProperties_of_writes hwp) (mem_schemaProperties_of_writes hwq)

theorem ExecutionOrder.last_depends (horder : ExecutionOrder g order) (hwriters : WritersAccepted g)
    (hq : lastWriter order key = some q) (hp : p ∈ g.docs) (hw : writes key p = true) :
    p = q ∨ DependencyPath g.refs p.phaseName q.phaseName := by
  obtain ⟨hmem, hwq⟩ := lastWriter_some hq
  rcases lastWriter_before horder.consistent hq (horder.perm.mem_iff.mpr hp) hw with heq | hbefore
  · exact .inl heq
  · rcases writers_comparable hwriters hp (horder.perm.mem_iff.mp hmem) hw hwq with heq | hpath | hpath
    · exact .inl heq
    · exact .inr hpath
    · exact absurd hpath hbefore

theorem discoverPhaseFiles_le (hq : lastWriter (discoverPhaseFiles g.docs) key = some q) (hp : p ∈ g.docs)
    (hw : writes key p = true) : p.phaseName ≤ q.phaseName := by
  have hmem : p ∈ discoverPhaseFiles g.docs := orderBy_perm.mem_iff.mpr hp
  rcases lastWriter_before orderBy_pairwise hq hmem hw with rfl | hle
  · exact le_rfl
  · exact hle

theorem lastWriter_perm_none {nodes : List PhaseDocument} (hperm : nodes.Perm order) :
    lastWriter nodes key = none ↔ lastWriter order key = none := by
  rw [lastWriter_eq_none, lastWriter_eq_none]
  simp only [hperm.mem_iff]

theorem exists_executionOrder {physical : Finset String}
    (htopology : (validateGraphTopology g.refs physical).2 = []) : ∃ order, ExecutionOrder g order := by
  obtain ⟨-, hbefore⟩ := (graph_topology_exact g.refs physical g.refs_unique).2 htopology
  have hpath : ∀ a b, DependencyPath g.refs a b →
      (validateGraphTopology g.refs physical).1.order.idxOf a <
        (validateGraphTopology g.refs physical).1.order.idxOf b := by
    intro a b h
    induction h with
    | single h => exact hbefore _ _ h
    | tail _ h ih => exact ih.trans (hbefore _ _ h)
  refine ⟨orderBy (fun doc => (validateGraphTopology g.refs physical).1.order.idxOf doc.phaseName) g.docs,
    orderBy_perm, orderBy_pairwise.imp fun hle h => ?_⟩
  exact absurd (hpath _ _ h) (not_lt.mpr hle)

theorem output_attribution_iff {physical : Finset String} (htopology : (validateGraphTopology g.refs physical).2 = [])
    (hwriters : WritersAccepted g) (inputs outputs : Schema) :
    (∀ order, ExecutionOrder g order → ∀ key,
      (blackboardFieldsAtOutput inputs outputs (discoverPhaseFiles g.docs)).get? key =
        fieldAtOutput inputs outputs order key) ↔ LastDirectoryWritesLast g := by
  have hperm : (discoverPhaseFiles g.docs).Perm g.docs := orderBy_perm
  constructor
  · intro hattr key q hq hwq hlast p hp hwp
    obtain ⟨order, horder⟩ := exists_executionOrder htopology
    have hsome : lastWriter order key ≠ none := by
      intro hnone
      rw [lastWriter_eq_none.mp hnone q (horder.perm.mem_iff.mpr hq)] at hwq
      cases hwq
    obtain ⟨r, hr⟩ := Option.ne_none_iff_exists'.mp hsome
    -- the writer that depends on all others is the last of every order
    have hrq : r = q := by
      obtain ⟨hmem, hwr⟩ := lastWriter_some hr
      rcases hlast r (horder.perm.mem_iff.mp hmem) hwr with heq | hpath
      · exact heq
      · rcases lastWriter_before horder.consistent hr (horder.perm.mem_iff.mpr hq) hwq with heq | hbefore
        · exact heq.symm
        · exact absurd hpath hbefore
    subst hrq
    have hfield := hattr order horder key
    rw [blackboardFieldsAtOutput_get?] at hfield
    have hnodes : lastWriter (discoverPhaseFiles g.docs) key ≠ none := by
      rw [ne_eq, lastWriter_perm_none (hperm.trans horder.perm.symm)]
      exact hsome
    obtain ⟨s, hs⟩ := Option.ne_none_iff_exists'.mp hnodes
    rw [← lastWriter_of_fieldAtOutput hfield hs hr]
    exact discoverPhaseFiles_le hs hp hwp
  · intro hlast order horder key
    rw [blackboardFieldsAtOutput_get?]
    have hnone := @lastWriter_perm_none key order (discoverPhaseFiles g.docs) (hperm.trans horder.perm.symm)
    cases hr : lastWriter order key with
    | none =>
      unfold fieldAtOutput
      rw [hr, hnone.mpr hr]
    | some r =>
      obtain ⟨s, hs⟩ := Option.ne_none_iff_exists'.mp fun h => by
        rw [hnone.mp h] at hr
        cases hr
      obtain ⟨hmemr, hwr⟩ := lastWriter_some hr
      obtain ⟨hmems, hws⟩ := lastWriter_some hs
      have hr' := horder.perm.mem_iff.mp hmemr
      have hs' := hperm.mem_iff.mp hmems
      have hle := hlast key r hr' hwr (fun p hp hw => horder.last_depends hwriters hr hp hw) s hs' hws
      obtain rfl := doc_eq_of_phaseName hs' hr' (le_antisymm hle (discoverPhaseFiles_le hs hr' hwr))
      unfold fieldAtOutput
      rw [hr, hs]

end

/-! A text that one phase drafts and another one reviews. -/

def textSchema (type : String) : Schema := .single "properties" (.dict [("text", .dict [("type", .str type)])])

def textDoc (phaseName type : String) : PhaseDocument where
  phaseName := phaseName
  mode := .logic
  inputs := textSchema "string"
  outputs := textSchema type
  allowSequentialOverwrite := ["text"]
  inputs_object := rfl
  outputs_object := rfl

def reviewedText (draft review : String) (h : draft ≠ review) : GraphDocument where
  refs := [⟨draft, ["input"], false⟩, ⟨review, [draft], true⟩]
  docs := [textDoc draft "string", textDoc review "object"]
  refs_unique := by simpa using h
  docs_unique := by simpa [textDoc] using h
  docs_listed := by simp [textDoc]

section

variable {draft review : String} (h : draft ≠ review) (hinput : draft ≠ "input")

include hinput

theorem reviewedText_dependsOn {a b : String} :
    DependsOn (reviewedText draft review h).refs a b ↔ a = draft ∧ b = review := by
  rw [dependsOn_iff (reviewedText draft review h).refs_unique]
  constructor
  · rintro ⟨ha, ref, href, rfl, hdep⟩
    rcases List.mem_cons.mp href with rfl | href
    · exact absurd (List.mem_singleton.mp hdep) ha
    · obtain rfl := List.mem_singleton.mp href
      exact ⟨List.mem_singleton.mp hdep, rfl⟩
  · rintro ⟨rfl, rfl⟩
    exact ⟨hinput, ⟨b, [a], true⟩, by simp [reviewedText], rfl, List.mem_singleton_self _⟩

theorem reviewedText_path {a b : String} (hpath : DependencyPath (reviewedText draft review h).refs a b) :
    a = draft ∧ b = review := by
  induction hpath with
  | single hd => exact (reviewedText_dependsOn h hinput).mp hd
  | tail _ hd ih =>
    have hlast := (reviewedText_dependsOn h hinput).mp hd
    exact absurd (hlast.1.symm.trans ih.2) h

theorem reviewedText_topology :
    (validateGraphTopology (reviewedText draft review h).refs {draft, review}).2 = [] := by
  rw [validateGraphTopology_diags (reviewedText draft review h).refs_unique]
  constructor
  · intro name
    simp [reviewedText]
  · simp [reviewedText]
  · simp [reviewedText, h]
  · intro name hpath
    obtain ⟨hdraft, hreview⟩ := reviewedText_path h hinput hpath
    exact h (hdraft.symm.trans hreview)
  · intro ref href
    refine ⟨⟨draft, ["input"], false⟩, by simp [reviewedText], by simp, ?_⟩
    rcases List.mem_cons.mp href with rfl | href
    · exact .refl
    · obtain rfl := List.mem_singleton.mp href
      exact .single ((reviewedText_dependsOn h hinput).mpr ⟨rfl, rfl⟩)
  · intro ref href hout name hdep
    obtain ⟨hdraft, -⟩ := (reviewedText_dependsOn h hinput).mp hdep
    rcases List.mem_cons.mp href with rfl | href
    · cases hout
    · obtain rfl := List.mem_singleton.mp href
      exact h hdraft.symm

theorem reviewedText_accepted : WritersAccepted (reviewedText draft review h) := by
  have hdraft : (dependsOnMap (reviewedText draft review h).refs).get? draft = some ["input"] := by
    apply Dict.get?_ofList_of_mem
    · simpa [reviewedText] using h
    · simp [reviewedText]
  have hreview : (dependsOnMap (reviewedText draft review h).refs).get? review = some [draft] := by
    apply Dict.get?_ofList_of_mem
    · simpa [reviewedText] using h
    · simp [reviewedText]
  have hancestors : phaseAncestorSets (reviewedText draft review h).refs review = [draft] := by
    rw [phaseAncestorSets, hreview, Option.getD_some, ancestorsFrom, if_pos ⟨hinput, List.not_mem_nil⟩, hdraft,
      Option.getD_some]
    simp [ancestorsFrom]
  have hnone : phaseAncestorSets (reviewedText draft review h).refs draft = [] := by
    rw [phaseAncestorSets, hdraft, Option.getD_some]
    simp [ancestorsFrom]
  constructor
  · have hconf : parallelWriteConflicts (reviewedText draft review h) draft review = [] := by
      rw [parallelWriteConflicts, hancestors]
      simp
    change [parallelWriteConflicts (reviewedText draft review h) draft review].flatten = []
    rw [hconf]
    rfl
  · have hdocs : (reviewedText draft review h).docs = [textDoc draft "string", textDoc review "object"] := rfl
    rw [validateSequentialOverwrites, hdocs]
    have hkeys : ∀ key ∈ phaseDeclaredOutputKeys [textDoc draft "string", textDoc review "object"] review,
        key = "text" := by
      intro key hkey
      have hlast : (Dict.ofList [(draft, schemaProperties (some (textSchema "string"))),
          (review, schemaProperties (some (textSchema "object")))]).get? review = some ["text"] := by
        apply Dict.get?_ofList_of_mem
        · simpa using h
        · exact List.mem_cons_of_mem _ (List.mem_singleton.mpr rfl)
      change key ∈ ((Dict.ofList [(draft, schemaProperties (some (textSchema "string"))),
          (review, schemaProperties (some (textSchema "object")))]).get? review).getD [] at hkey
      rw [hlast] at hkey
      exact List.mem_singleton.mp hkey
    simp only [List.flatMap_cons, List.flatMap_nil, textDoc, hnone, hancestors]
    simp only [List.append_nil, List.nil_append, List.map_eq_nil_iff, List.filter_eq_nil_iff]
    intro key hkey hboth
    exact (of_decide_eq_true hboth).2 (List.mem_singleton.mpr (hkeys key hkey))

theorem reviewedText_order : ExecutionOrder (reviewedText draft review h) (reviewedText draft review h).docs where
  perm := .refl _
  consistent := by
    rw [reviewedText, List.pairwise_pair]
    intro hpath
    exact h (reviewedText_path h hinput hpath).1.symm

end

theorem output_attribution_draft_review :
    (blackboardFieldsAtOutput (textSchema "string") (textSchema "object")
      (discoverPhaseFiles (reviewedText "draft" "review" (by decide)).docs)).get? "text" =
        fieldAtOutput (textSchema "string") (textSchema "object") (reviewedText "draft" "review" (by decide)).docs
          "text" := by
  have hdirs : LastDirectoryWritesLast (reviewedText "draft" "review" (by decide)) := by
    intro key q hq _ hlast p hp hw
    rcases List.mem_cons.mp hq with rfl | hq
    · rcases hlast p hp hw with rfl | hpath
      · exact le_refl _
      · exact absurd (reviewedText_path (by decide) (by decide) hpath).2 (by decide)
    · obtain rfl := List.mem_singleton.mp hq
      rcases List.mem_cons.mp hp with rfl | hp
      · decide
      · obtain rfl := List.mem_singleton.mp hp
        exact le_refl _
  exact (output_attribution_iff (reviewedText_topology _ (by decide)) (reviewedText_accepted _ (by decide)) _ _).mpr
    hdirs _ (reviewedText_order _ (by decide)) "text"

theorem review_not_attributed :
    (validateGraphTopology (reviewedText "b-draft" "a-review" (by decide)).refs {"b-draft", "a-review"}).2 = [] ∧
      WritersAccepted (reviewedText "b-draft" "a-review" (by decide)) ∧
      ∃ order, ExecutionOrder (reviewedText "b-draft" "a-review" (by decide)) order ∧
        (blackboardFieldsAtOutput (textSchema "string") (textSchema "object")
            (discoverPhaseFiles (reviewedText "b-draft" "a-review" (by decide)).docs)).get? "text" ≠
          fieldAtOutput (textSchema "string") (textSchema "object") order "text" := by
  refine ⟨reviewedText_topology _ (by decide), reviewedText_accepted _ (by decide), _,
    reviewedText_order _ (by decide), ?_⟩
  decide

end GraphSkillRuntime
