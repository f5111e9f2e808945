import Mathlib.Data.List.Dedup
import Mathlib.Data.List.Nodup
import Mathlib.Data.List.Perm.Subperm
import Mathlib.Tactic.Common

/-!
Runs of a graph in supersteps: all nodes that are due run in one superstep, and what they release is due in the next
one. A trigger releases its target after each run of its source. A barrier waits until all of its sources have run,
and is closed again when it opens.
-/

namespace GraphSkillRuntime.Supersteps

variable {α : Type} [DecidableEq α]

inductive Wire (α : Type) where
  | entry (target : α)
  | trigger (source target : α)
  | barrier (sources : List α) (target : α)

def Wire.target : Wire α → α
  | entry target | trigger _ target | barrier _ target => target

structure State (α : Type) where
  active : List α
  arrived : Wire α → List α

def arrivals (s : State α) : Wire α → List α
  | .barrier sources target => sources.filter fun a => a ∈ s.arrived (.barrier sources target) ∨ a ∈ s.active
  | _ => []

def opens (s : State α) : Wire α → Bool
  | .entry _ => false
  | .trigger source _ => source ∈ s.active
  | .barrier sources target => sources.all fun a => a ∈ s.arrived (.barrier sources target) ∨ a ∈ s.active

def after (s : State α) (next : List α) : State α where
  active := next
  arrived w := if opens s w then [] else arrivals s w

/-- The supersteps of a run so far, and what is due. The nodes of one superstep run in any order. -/
inductive Runs (wires : List (Wire α)) : List (List α) → State α → Prop
  | start {first : List α} (hnodup : first.Nodup) (hfirst : ∀ b, b ∈ first ↔ .entry b ∈ wires) :
      Runs wires [] ⟨first, fun _ => []⟩
  | superstep {steps : List (List α)} {s : State α} {next : List α} (h : Runs wires steps s) (hbusy : s.active ≠ [])
      (hnodup : next.Nodup) (hnext : ∀ b, b ∈ next ↔ ∃ w ∈ wires, opens s w = true ∧ w.target = b) :
      Runs wires (steps ++ [s.active]) (after s next)

def released (wires : List (Wire α)) (s : State α) : List α :=
  ((wires.filter fun w => opens s w).map Wire.target).dedup

theorem Runs.next {wires : List (Wire α)} {steps : List (List α)} {s : State α} (h : Runs wires steps s)
    (hbusy : s.active ≠ []) : Runs wires (steps ++ [s.active]) (after s (released wires s)) := by
  apply h.superstep hbusy (List.nodup_dedup _)
  intro b
  simp [and_assoc]

/-! A graph that is given by the dependencies of its nodes. -/

section Dependencies

variable {nodes : List α} {deps : α → List α} {ran : List α} {s : State α} {steps : List (List α)}

def dependencyWire (deps : α → List α) (b : α) : Wire α :=
  match deps b with
  | [] => .entry b
  | [a] => .trigger a b
  | sources => .barrier sources b

omit [DecidableEq α] in
theorem dependencyWire_cases (deps : α → List α) (b : α) :
    (deps b = [] ∧ dependencyWire deps b = .entry b) ∨
      (∃ a, deps b = [a] ∧ dependencyWire deps b = .trigger a b) ∨
        (deps b ≠ [] ∧ dependencyWire deps b = .barrier (deps b) b) := by
  unfold dependencyWire
  split
  · next h => exact .inl ⟨h, rfl⟩
  · next a h => exact .inr (.inl ⟨a, h, rfl⟩)
  · next h _ => exact .inr (.inr ⟨h, rfl⟩)

omit [DecidableEq α] in
@[simp] theorem target_dependencyWire (deps : α → List α) (b : α) : (dependencyWire deps b).target = b := by
  obtain ⟨-, h⟩ | ⟨a, -, h⟩ | ⟨-, h⟩ := dependencyWire_cases deps b
  all_goals rw [h]; rfl

def Due (nodes : List α) (deps : α → List α) (ran : List α) (b : α) : Prop :=
  b ∈ nodes ∧ b ∉ ran ∧ ∀ a ∈ deps b, a ∈ ran

structure Invariant (nodes : List α) (deps : α → List α) (ran : List α) (s : State α) : Prop where
  nodup : (ran ++ s.active).Nodup
  due : ∀ b, b ∈ s.active ↔ Due nodes deps ran b
  downward : ∀ b ∈ ran, ∀ a ∈ deps b, a ∈ ran
  known : ∀ b ∈ ran, b ∈ nodes
  plain : ∀ a b, s.arrived (.trigger a b) = []
  waiting : ∀ b ∈ nodes, b ∉ ran ++ s.active → ∀ a ∈ deps b, a ∈ s.arrived (dependencyWire deps b) ↔ a ∈ ran
  closed : ∀ b ∈ ran ++ s.active, s.arrived (dependencyWire deps b) = []

omit [DecidableEq α] in
theorem Invariant.deps_ran (hs : Invariant nodes deps ran s) {b : α} (hb : b ∈ ran ++ s.active) :
    ∀ a ∈ deps b, a ∈ ran := by
  rcases List.mem_append.mp hb with hb | hb
  · exact hs.downward b hb
  · exact ((hs.due b).mp hb).2.2

omit [DecidableEq α] in
theorem Invariant.not_active (hs : Invariant nodes deps ran s) {a : α} (ha : a ∈ ran) : a ∉ s.active := by
  intro hactive
  exact (List.nodup_append.mp hs.nodup).2.2 a ha a hactive rfl

theorem Invariant.mem_of_deps (hs : Invariant nodes deps ran s) {b : α} (hb : b ∈ nodes)
    (hdeps : ∀ a ∈ deps b, a ∈ ran) : b ∈ ran ++ s.active := by
  by_cases hran : b ∈ ran
  · exact List.mem_append_left _ hran
  · exact List.mem_append_right _ ((hs.due b).mpr ⟨hb, hran, hdeps⟩)

theorem Invariant.opens_iff (hs : Invariant nodes deps ran s) {b : α} (hb : b ∈ nodes) :
    opens s (dependencyWire deps b) = true ↔ Due nodes deps (ran ++ s.active) b := by
  obtain ⟨hdeps, hwire⟩ | ⟨a, hdeps, hwire⟩ | ⟨hne, hwire⟩ := dependencyWire_cases deps b
  · rw [hwire]
    apply iff_of_false
    · simp [opens]
    · intro h
      apply h.2.1
      apply hs.mem_of_deps hb
      simp [hdeps]
  · have hopens : opens s (dependencyWire deps b) = true ↔ a ∈ s.active := by simp [hwire, opens]
    rw [hopens]
    constructor
    · intro ha
      refine ⟨hb, fun hmem => ?_, ?_⟩
      · have hran : a ∈ ran := hs.deps_ran hmem a (by simp [hdeps])
        exact hs.not_active hran ha
      · simp [hdeps, ha]
    · intro h
      have ha : a ∈ ran ++ s.active := h.2.2 a (by simp [hdeps])
      apply (List.mem_append.mp ha).resolve_left
      intro hran
      apply h.2.1
      apply hs.mem_of_deps hb
      simp [hdeps, hran]
  · have hopens : opens s (dependencyWire deps b) = true ↔
        ∀ a ∈ deps b, a ∈ s.arrived (dependencyWire deps b) ∨ a ∈ s.active := by
      simp [hwire, opens]
    rw [hopens]
    by_cases hmem : b ∈ ran ++ s.active
    · apply iff_of_false
      · intro h
        obtain ⟨a, ha⟩ := List.exists_mem_of_ne_nil _ hne
        rcases h a ha with harrived | hactive
        · rw [hs.closed b hmem] at harrived
          exact List.not_mem_nil harrived
        · exact hs.not_active (hs.deps_ran hmem a ha) hactive
      · intro h
        exact h.2.1 hmem
    · have hwaiting := hs.waiting b hb hmem
      constructor
      · intro h
        refine ⟨hb, hmem, fun a ha => List.mem_append.mpr ?_⟩
        rw [← hwaiting a ha]
        exact h a ha
      · intro h a ha
        rw [hwaiting a ha]
        exact List.mem_append.mp (h.2.2 a ha)

theorem Invariant.mem_arrivals (hs : Invariant nodes deps ran s) {b : α} (hb : b ∈ nodes)
    (hmem : b ∉ ran ++ s.active) (hclosed : opens s (dependencyWire deps b) = false) {a : α} (ha : a ∈ deps b) :
    a ∈ arrivals s (dependencyWire deps b) ↔ a ∈ ran ++ s.active := by
  have hwaiting := hs.waiting b hb hmem a ha
  obtain ⟨hdeps, -⟩ | ⟨source, hdeps, hwire⟩ | ⟨-, hwire⟩ := dependencyWire_cases deps b
  · simp [hdeps] at ha
  · obtain rfl : a = source := by simpa [hdeps] using ha
    rw [hwire, hs.plain] at hwaiting
    have hran : a ∉ ran := fun hran => List.not_mem_nil (hwaiting.mpr hran)
    have hactive : a ∉ s.active := by simpa [hwire, opens] using hclosed
    simp [hwire, arrivals, hran, hactive]
  · rw [hwire] at hwaiting ⊢
    simp [arrivals, ha, hwaiting]

theorem Invariant.arrivals_eq_nil (hs : Invariant nodes deps ran s) {b : α} (hb : b ∈ ran ++ s.active) :
    arrivals s (dependencyWire deps b) = [] := by
  obtain ⟨-, hwire⟩ | ⟨a, -, hwire⟩ | ⟨-, hwire⟩ := dependencyWire_cases deps b
  · rw [hwire]
    rfl
  · rw [hwire]
    rfl
  · have harrived := hs.closed b hb
    rw [hwire] at harrived ⊢
    simp only [arrivals, harrived, List.not_mem_nil, false_or, List.filter_eq_nil_iff, decide_eq_true_eq]
    intro a ha
    exact hs.not_active (hs.deps_ran hb a ha)

omit [DecidableEq α] in
theorem Invariant.start {first : List α} (hnodup : first.Nodup)
    (hfirst : ∀ b, b ∈ first ↔ Wire.entry b ∈ nodes.map (dependencyWire deps)) :
    Invariant nodes deps [] ⟨first, fun _ => []⟩ where
  nodup := hnodup
  due b := by
    rw [hfirst, List.mem_map]
    constructor
    · rintro ⟨c, hc, hwire⟩
      obtain ⟨hdeps, hentry⟩ | ⟨a, -, htrigger⟩ | ⟨-, hbarrier⟩ := dependencyWire_cases deps c
      · obtain rfl : c = b := by simpa [hentry] using hwire
        exact ⟨hc, List.not_mem_nil, by simp [hdeps]⟩
      · simp [htrigger] at hwire
      · simp [hbarrier] at hwire
    · intro h
      have hdeps : deps b = [] := List.eq_nil_iff_forall_not_mem.mpr fun a ha => List.not_mem_nil (h.2.2 a ha)
      exact ⟨b, h.1, by simp [dependencyWire, hdeps]⟩
  downward := by simp
  known := by simp
  plain _ _ := rfl
  waiting := by simp
  closed _ _ := rfl

theorem Invariant.superstep (hs : Invariant nodes deps ran s) {next : List α} (hnodup : next.Nodup)
    (hnext : ∀ b, b ∈ next ↔ ∃ w ∈ nodes.map (dependencyWire deps), opens s w = true ∧ w.target = b) :
    Invariant nodes deps (ran ++ s.active) (after s next) := by
  have hdue : ∀ b, b ∈ next ↔ Due nodes deps (ran ++ s.active) b := by
    intro b
    rw [hnext]
    constructor
    · rintro ⟨w, hw, hopens, rfl⟩
      obtain ⟨c, hc, rfl⟩ := List.mem_map.mp hw
      rw [target_dependencyWire]
      exact (hs.opens_iff hc).mp hopens
    · intro h
      exact ⟨_, List.mem_map_of_mem h.1, (hs.opens_iff h.1).mpr h, target_dependencyWire deps b⟩
  constructor
  · apply List.nodup_append.mpr
    refine ⟨hs.nodup, hnodup, ?_⟩
    rintro a ha b hb rfl
    exact ((hdue a).mp hb).2.1 ha
  · exact hdue
  · intro b hb a ha
    exact List.mem_append_left _ (hs.deps_ran hb a ha)
  · intro b hb
    rcases List.mem_append.mp hb with hb | hb
    · exact hs.known b hb
    · exact ((hs.due b).mp hb).1
  · intro a b
    simp [after, arrivals]
  · intro b hb hmem a ha
    have hleft : b ∉ ran ++ s.active := fun h => hmem (List.mem_append_left _ h)
    have hclosed : opens s (dependencyWire deps b) = false := by
      rw [← Bool.not_eq_true, hs.opens_iff hb, ← hdue]
      exact fun h => hmem (List.mem_append_right _ h)
    simp only [after, hclosed, Bool.false_eq_true, if_false]
    exact hs.mem_arrivals hb hleft hclosed ha
  · intro b hb
    simp only [after]
    split_ifs with hopens
    · rfl
    · rcases List.mem_append.mp hb with hb | hb
      · exact hs.arrivals_eq_nil hb
      · have hb := (hdue b).mp hb
        exact absurd ((hs.opens_iff hb.1).mpr hb) hopens

theorem Runs.invariant (h : Runs (nodes.map (dependencyWire deps)) steps s) :
    Invariant nodes deps steps.flatten s := by
  induction h with
  | start hnodup hfirst => exact .start hnodup hfirst
  | superstep _ _ hnodup hnext ih =>
    rw [List.flatten_append, List.flatten_singleton]
    exact ih.superstep hnodup hnext

theorem Runs.mem_step (h : Runs (nodes.map (dependencyWire deps)) steps s) {past rest : List (List α)} {step : List α}
    (hsteps : steps = past ++ step :: rest) (b : α) : b ∈ step ↔ Due nodes deps past.flatten b := by
  induction h generalizing rest with
  | start => simp at hsteps
  | @superstep before t next hrun _ _ _ ih =>
    rcases List.eq_nil_or_concat rest with rfl | ⟨rest, last, rfl⟩
    · obtain ⟨rfl, heq⟩ := List.append_inj' hsteps rfl
      obtain rfl := List.singleton_inj.mp heq
      exact hrun.invariant.due b
    · have hsplit : before ++ [t.active] = (past ++ step :: rest) ++ [last] := by simp [hsteps]
      exact ih (List.append_inj' hsplit rfl).1

theorem Runs.length_le_flatten {wires : List (Wire α)} (h : Runs wires steps s) :
    steps.length ≤ steps.flatten.length := by
  induction h with
  | start => simp
  | superstep _ hbusy _ _ ih =>
    have hpos := List.length_pos_of_ne_nil hbusy
    simp only [List.length_append, List.length_singleton, List.flatten_append, List.flatten_singleton]
    omega

theorem Runs.length_le (h : Runs (nodes.map (dependencyWire deps)) steps s) : steps.length ≤ nodes.length := by
  have hs := h.invariant
  have hsub := (List.nodup_append.mp hs.nodup).1.subperm fun b hb => hs.known b hb
  exact Nat.le_trans h.length_le_flatten hsub.length_le

theorem Runs.finishes (h : Runs (nodes.map (dependencyWire deps)) steps s) :
    ∃ more t, Runs (nodes.map (dependencyWire deps)) (steps ++ more) t ∧ t.active = [] := by
  induction hleft : nodes.length - steps.length generalizing steps s with
  | zero =>
    refine ⟨[], s, by simpa using h, ?_⟩
    by_contra hbusy
    have hle := (h.next hbusy).length_le
    rw [List.length_append, List.length_singleton] at hle
    omega
  | succ left ih =>
    by_cases hrest : s.active = []
    · exact ⟨[], s, by simpa using h, hrest⟩
    · have hlength : nodes.length - (steps ++ [s.active]).length = left := by
        rw [List.length_append, List.length_singleton]
        omega
      obtain ⟨more, t, ht, hdone⟩ := ih (h.next hrest) hlength
      rw [List.append_assoc] at ht
      exact ⟨[s.active] ++ more, t, ht, hdone⟩

theorem Runs.complete (h : Runs (nodes.map (dependencyWire deps)) steps s) (hnodes : nodes.Nodup)
    (hclosed : ∀ b ∈ nodes, ∀ a ∈ deps b, a ∈ nodes)
    (hsource : ∀ left : List α, left ≠ [] → ∃ b ∈ left, ∀ a ∈ left, a ∉ deps b) :
    s.active = [] ↔ steps.flatten.Perm nodes := by
  have hs := h.invariant
  have hran := (List.nodup_append.mp hs.nodup).1
  constructor
  · intro hrest
    apply (List.perm_ext_iff_of_nodup hran hnodes).mpr
    intro b
    refine ⟨hs.known b, fun hb => ?_⟩
    by_contra hleft
    have hne : nodes.filter (· ∉ steps.flatten) ≠ [] := by
      apply List.ne_nil_of_mem (a := b)
      simpa [hb] using hleft
    obtain ⟨c, hc, hfirst⟩ := hsource _ hne
    simp only [List.mem_filter, decide_eq_true_eq] at hc hfirst
    have hdue : Due nodes deps steps.flatten c := by
      refine ⟨hc.1, hc.2, fun a ha => ?_⟩
      by_contra hnot
      exact hfirst a ⟨hclosed c hc.1 a ha, hnot⟩ ha
    rw [← hs.due, hrest] at hdue
    exact List.not_mem_nil hdue
  · intro hperm
    apply List.eq_nil_iff_forall_not_mem.mpr
    intro b hb
    have hdue := (hs.due b).mp hb
    exact hdue.2.1 (hperm.symm.subset hdue.1)

end Dependencies

end GraphSkillRuntime.Supersteps
