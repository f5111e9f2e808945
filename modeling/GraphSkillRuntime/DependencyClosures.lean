import GraphSkillRuntime.CheckpointSelection
import GraphSkillRuntime.HostNativePauses

/-!
The transitive dependencies of a phase as the compiler, the selection of checkpoints and the host compute them.
The compiler takes `input` from the queue and drops it, the other two never put it there.
-/

namespace GraphSkillRuntime.DependencyClosures

open OrderedDict Worklist

structure Lists (order items : List String) : Prop where
  nodup : order.Nodup
  mem : ∀ x, x ∈ order ↔ x ∈ items

theorem lists_dedup (items : List String) : Lists items.dedup items := ⟨items.nodup_dedup, fun _ => List.mem_dedup⟩

/-- One turn of the loop of the host, on `pending` and `result`: the last name is taken, and the set of its dependencies
is listed in any order. There is no turn where `dependencies[item]` raises. -/
inductive HostTurn (dependencies : Dict String (List String)) :
    List String × List String → List String × List String → Prop where
  | seen {item : String} {pending result : List String} (h : item ∈ result) :
      HostTurn dependencies (pending ++ [item], result) (pending, result)
  | new {item : String} {pending result items order : List String} (h : item ∉ result)
      (hitems : dependencies.get? item = some items) (horder : Lists order items) :
      HostTurn dependencies (pending ++ [item], result) (pending ++ order, result ++ [item])

def searchOf (s : List String × List String) : Search String := ⟨s.1, s.2.toFinset⟩

section

variable {refs : List PhaseTopologyRef}

theorem mem_of_hostDependencies {item x : String} {items : List String}
    (hitems : (hostDependencies refs).get? item = some items) : x ∈ items ↔ x ∈ dependencies refs item := by
  rw [← mem_hostDependencies, hitems, Option.getD_some]

theorem HostTurn.turn {s s' : List String × List String} (h : HostTurn (hostDependencies refs) s s') :
    Turn (dependencies refs) (searchOf s) (searchOf s') := by
  have hlast : ∀ (item : String) (pending : List String),
      ((pending ++ [item] : List String) : Multiset String) = (item :: pending : List String) :=
    fun item pending => Multiset.coe_eq_coe.mpr List.perm_append_comm
  cases h with
  | @seen item pending result h =>
    rw [searchOf, hlast]
    exact .skip_head h
  | @new item pending result items order h hitems horder =>
    rw [searchOf, hlast]
    exact .take_head h (fun x => (horder.mem x).trans (mem_of_hostDependencies hitems)) List.perm_append_comm

theorem HostTurn.run {s s' : List String × List String}
    (h : Relation.ReflTransGen (HostTurn (hostDependencies refs)) s s') :
    Run (dependencies refs) (searchOf s) (searchOf s') := by
  induction h with
  | refl => exact .refl
  | tail _ hturn ih => exact ih.tail hturn.turn

def Declared (refs : List PhaseTopologyRef) : Prop :=
  ∀ ref ∈ refs, ∀ dep ∈ ref.dependsOn, dep = "input" ∨ dep ∈ refs.map PhaseTopologyRef.name

theorem mem_dependsOnMap {name : String} {deps : List String} (h : (dependsOnMap refs).get? name = some deps) :
    ∃ ref ∈ refs, ref.name = name ∧ ref.dependsOn = deps := by
  rw [dependsOnMap, Dict.get?_ofList] at h
  have hmem := List.mem_reverse.mp (Dict.mem_of_find h)
  obtain ⟨ref, href, heq⟩ := List.mem_map.mp hmem
  exact ⟨ref, href, congrArg Prod.fst heq, congrArg Prod.snd heq⟩

theorem Declared.names (hdeclared : Declared refs) {name : String} :
    ∀ dep ∈ dependencies refs name, dep ∈ (refs.map PhaseTopologyRef.name).toFinset := by
  rintro dep ⟨hne, hmem⟩
  cases hdeps : (dependsOnMap refs).get? name with
  | none => simp [hdeps] at hmem
  | some deps =>
    rw [hdeps, Option.getD_some] at hmem
    obtain ⟨ref, href, -, rfl⟩ := mem_dependsOnMap hdeps
    exact List.mem_toFinset.mpr ((hdeclared ref href dep hmem).resolve_left hne)

theorem hostDependencies_isSome {name : String} (h : name ∈ refs.map PhaseTopologyRef.name) :
    ∃ items, (hostDependencies refs).get? name = some items := by
  apply Option.isSome_iff_exists.mp
  rw [hostDependencies, Dict.get?_ofList, Dict.find_isSome, List.map_reverse, List.mem_reverse, List.map_map]
  exact h

theorem HostTurn.progress {s : List String × List String}
    (hs : Within (refs.map PhaseTopologyRef.name).toFinset (searchOf s)) :
    (∃ s', HostTurn (hostDependencies refs) s s') ∨ s.1 = [] := by
  obtain ⟨pending, result⟩ := s
  rcases List.eq_nil_or_concat pending with rfl | ⟨rest, item, rfl⟩
  · exact .inr rfl
  · left
    rw [List.concat_eq_append]
    by_cases hseen : item ∈ result
    · exact ⟨_, .seen hseen⟩
    · have hname : item ∈ refs.map PhaseTopologyRef.name := by
        rw [← List.mem_toFinset]
        apply hs
        simp [searchOf]
      obtain ⟨items, hitems⟩ := hostDependencies_isSome hname
      exact ⟨_, .new hseen hitems (lists_dedup items)⟩

theorem ancestor_closures_agree (refs : List PhaseTopologyRef) (hdeclared : Declared refs) (name : String) :
    (∀ a, a ∈ phaseAncestorSets refs name ↔ DependencyPath refs a name) ∧
      (∀ a, a ∈ ancestorPhases refs name ↔ DependencyPath refs a name) ∧
      ∀ items, (hostDependencies refs).get? name = some items → ∀ order, Lists order items →
        Acc (fun later earlier => HostTurn (hostDependencies refs) earlier later) (order, []) ∧
          ∀ s, Relation.ReflTransGen (HostTurn (hostDependencies refs)) (order, []) s →
            (∃ s', HostTurn (hostDependencies refs) s s') ∨
              s.1 = [] ∧ ∀ a, a ∈ s.2 ↔ DependencyPath refs a name := by
  refine ⟨fun a => mem_phaseAncestorSets, fun a => mem_ancestorPhases a name, ?_⟩
  intro items hitems order horder
  have hstart : ∀ x, x ∈ order ↔ x ∈ dependencies refs name :=
    fun x => (horder.mem x).trans (mem_of_hostDependencies hitems)
  have hwithin : Within (refs.map PhaseTopologyRef.name).toFinset (searchOf (order, [])) :=
    fun x hx => hdeclared.names x ((hstart x).mp hx)
  have hnext : ∀ a ∈ (refs.map PhaseTopologyRef.name).toFinset, ∀ b ∈ dependencies refs a,
      b ∈ (refs.map PhaseTopologyRef.name).toFinset := fun _ _ => hdeclared.names
  constructor
  · exact Subrelation.accessible HostTurn.turn (InvImage.accessible searchOf (hwithin.ends hnext))
  · intro s hrun
    have hsearch := HostTurn.run hrun
    rcases HostTurn.progress (hwithin.run hnext hsearch) with hnext | hdone
    · exact .inl hnext
    · refine .inr ⟨hdone, ?_⟩
      intro a
      rw [← List.mem_toFinset]
      have hfinal : searchOf s = ⟨0, s.2.toFinset⟩ := by rw [searchOf, hdone, Multiset.coe_nil]
      rw [hfinal] at hsearch
      exact mem_of_run hstart hsearch a

end

def cyclicRefs : List PhaseTopologyRef :=
  [⟨"draft", ["input", "review", "review"], false⟩, ⟨"review", ["draft"], false⟩,
    ⟨"publish", ["review", "input"], true⟩]

theorem ancestor_closures_agree_cyclic :
    Declared cyclicRefs ∧ phaseAncestorSets cyclicRefs "publish" = ["review", "draft"] ∧
      "draft" ∈ ancestorPhases cyclicRefs "publish" ∧ "input" ∉ ancestorPhases cyclicRefs "publish" ∧
      Acc (fun later earlier => HostTurn (hostDependencies cyclicRefs) earlier later) (["review"], []) ∧
      ∀ s, Relation.ReflTransGen (HostTurn (hostDependencies cyclicRefs)) (["review"], []) s →
        (∃ s', HostTurn (hostDependencies cyclicRefs) s s') ∨
          s.1 = [] ∧ ∀ a, a ∈ s.2 ↔ a = "review" ∨ a = "draft" := by
  have hdeclared : Declared cyclicRefs := by simp [Declared, cyclicRefs]
  have hsets : phaseAncestorSets cyclicRefs "publish" = ["review", "draft"] := by
    have hmap : (dependsOnMap cyclicRefs).entries =
        [("draft", ["input", "review", "review"]), ("review", ["draft"]), ("publish", ["review", "input"])] := by decide
    simp [phaseAncestorSets, ancestorsFrom, Dict.get?, hmap, Dict.find]
  obtain ⟨hloader, hcheckpoint, hhost⟩ := ancestor_closures_agree cyclicRefs hdeclared "publish"
  have hpath (a : String) : DependencyPath cyclicRefs a "publish" ↔ a = "review" ∨ a = "draft" := by
    rw [← hloader, hsets]
    simp
  obtain ⟨hends, hresult⟩ := hhost ["review"] rfl ["review"] (lists_dedup ["review"])
  refine ⟨hdeclared, hsets, ?_, ?_, hends, ?_⟩
  · rw [hcheckpoint, hpath]
    decide
  · rw [hcheckpoint, hpath]
    decide
  · intro s hrun
    simpa only [hpath] using hresult s hrun

end GraphSkillRuntime.DependencyClosures
