import GraphSkillRuntime.OrderedDict
import GraphSkillRuntime.Runs
import Mathlib.Logic.Relation

/-!
Depth-first search with three colours. A node is gray while its own visit is open and black once
it is over; an edge into a gray node closes a cycle and is handed to `record`.
-/

namespace GraphSkillRuntime.ColorSearch

open OrderedDict Relation Runs

inductive Color where
  | gray
  | black
  deriving DecidableEq

structure Search (α ρ : Type) where
  state : Dict α Color
  found : ρ

variable {α ρ : Type} [DecidableEq α]

def targets (adjacency : Dict α (List α)) (node : α) : List α := (adjacency.get? node).getD []

def Edge (adjacency : Dict α (List α)) (a b : α) : Prop := b ∈ targets adjacency a

def uncolored (adjacency : Dict α (List α)) (state : Dict α Color) : List α :=
  adjacency.keys.filter (fun node => (state.get? node).isNone)

def weight : List (α × List α) → ℕ
  | [] => 0
  | frame :: frames => 2 * frame.2.length + 1 + weight frames

def stackOf (frames : List (α × List α)) : List α := (frames.map Prod.fst).reverse

theorem uncolored_set_subset (adjacency : Dict α (List α)) (state : Dict α Color) (node : α) (c : Color) :
    uncolored adjacency (state.set node c) ⊆ uncolored adjacency state := by
  intro k hk
  simp only [uncolored, List.mem_filter, Dict.get?_set] at hk ⊢
  refine ⟨hk.1, ?_⟩
  by_cases h : node = k
  · simp [h] at hk
  · simpa [h] using hk.2

theorem uncolored_nodup (adjacency : Dict α (List α)) (state : Dict α Color) :
    (uncolored adjacency state).Nodup := adjacency.nodup.filter _

theorem length_uncolored_le (adjacency : Dict α (List α)) (state : Dict α Color) (node : α) (c : Color) :
    (uncolored adjacency (state.set node c)).length ≤ (uncolored adjacency state).length :=
  ((uncolored_nodup adjacency _).subperm (uncolored_set_subset adjacency state node c)).length_le

theorem length_uncolored_lt {adjacency : Dict α (List α)} {state : Dict α Color} {node : α} (c : Color)
    (hk : node ∈ adjacency.keys) (hn : state.get? node = none) :
    (uncolored adjacency (state.set node c)).length < (uncolored adjacency state).length := by
  have hmem : node ∈ uncolored adjacency state := by simp [uncolored, hk, hn]
  have hnot : node ∉ uncolored adjacency (state.set node c) := by simp [uncolored]
  have hsub : (node :: uncolored adjacency (state.set node c)).Subperm (uncolored adjacency state) := by
    apply List.Nodup.subperm
    · exact List.nodup_cons.mpr ⟨hnot, uncolored_nodup adjacency _⟩
    · intro k hk'
      rcases List.mem_cons.mp hk' with rfl | hk'
      · exact hmem
      · exact uncolored_set_subset adjacency state node c hk'
  exact hsub.length_le

def visit (adjacency : Dict α (List α)) (record : List α → α → α → ρ → ρ) :
    List (α × List α) → Search α ρ → Search α ρ
  | [], s => s
  | (node, []) :: frames, s => visit adjacency record frames { s with state := s.state.set node .black }
  | (node, nxt :: todo) :: frames, s =>
    match _ : s.state.get? nxt with
    | some .gray => visit adjacency record ((node, todo) :: frames)
        { s with found := record (stackOf ((node, todo) :: frames)) node nxt s.found }
    | some .black => visit adjacency record ((node, todo) :: frames) s
    | none => visit adjacency record ((nxt, targets adjacency nxt) :: (node, todo) :: frames)
        { s with state := s.state.set nxt .gray }
termination_by frames s => ((uncolored adjacency s.state).length, weight frames)
decreasing_by
  · rw [Prod.lex_def]
    rcases Nat.lt_or_eq_of_le (length_uncolored_le adjacency s.state node .black) with h | h
    · exact Or.inl h
    · exact Or.inr ⟨h, by simp [weight]⟩
  · exact Prod.Lex.right _ (by simp [weight])
  · exact Prod.Lex.right _ (by simp [weight])
  · rw [Prod.lex_def]
    -- a node without an entry has no targets, so its frame closes at once
    by_cases hk : nxt ∈ adjacency.keys
    · exact Or.inl (length_uncolored_lt _ hk ‹_›)
    · have ht : targets adjacency nxt = [] := by simp [targets, Dict.get?_eq_none.mpr hk]
      rcases Nat.lt_or_eq_of_le (length_uncolored_le adjacency s.state nxt .gray) with h | h
      · exact Or.inl h
      · refine Or.inr ⟨h, ?_⟩
        simp only [weight, ht, List.length_nil, List.length_cons]
        omega

def start (adjacency : Dict α (List α)) (record : List α → α → α → ρ → ρ) (s : Search α ρ) (node : α) :
    Search α ρ :=
  if (s.state.get? node).isNone then
    visit adjacency record [(node, targets adjacency node)] { s with state := s.state.set node .gray }
  else s

def search (adjacency : Dict α (List α)) (record : List α → α → α → ρ → ρ) (found : ρ) : Search α ρ :=
  adjacency.keys.foldl (start adjacency record) ⟨∅, found⟩

section

variable {adjacency : Dict α (List α)} {record : List α → α → α → ρ → ρ}

structure Searching (adjacency : Dict α (List α)) (frames : List (α × List α)) (state : Dict α Color) :
    Prop where
  gray : ∀ a, state.get? a = some .gray ↔ a ∈ frames.map Prod.fst
  unique : (frames.map Prod.fst).Nodup
  todo : ∀ frame ∈ frames, ∀ b ∈ frame.2, Edge adjacency frame.1 b
  chain : frames.IsChain (fun inner outer => Edge adjacency outer.1 inner.1)

namespace Searching

variable {frames : List (α × List α)} {state : Dict α Color} {node nxt : α} {todo : List α}

theorem close (h : Searching adjacency ((node, []) :: frames) state) :
    Searching adjacency frames (state.set node .black) where
  gray a := by
    have hnode : node ∉ frames.map Prod.fst := (List.nodup_cons.mp h.unique).1
    rw [Dict.get?_set]
    split_ifs with ha
    · subst ha
      simpa using hnode
    · rw [h.gray a]
      simp [Ne.symm ha]
  unique := (List.nodup_cons.mp h.unique).2
  todo frame hf := h.todo frame (List.mem_cons_of_mem _ hf)
  chain := h.chain.of_cons

theorem skip (h : Searching adjacency ((node, nxt :: todo) :: frames) state) :
    Searching adjacency ((node, todo) :: frames) state where
  gray := h.gray
  unique := h.unique
  todo frame hf b hb := by
    rcases List.mem_cons.mp hf with rfl | hf
    · exact h.todo (node, nxt :: todo) (List.mem_cons_self ..) b (List.mem_cons_of_mem _ hb)
    · exact h.todo frame (List.mem_cons_of_mem _ hf) b hb
  chain := by
    cases frames with
    | nil => exact .singleton _
    | cons outer frames =>
      have hc := List.isChain_cons_cons.mp h.chain
      exact List.isChain_cons_cons.mpr ⟨hc.1, hc.2⟩

theorem edge (h : Searching adjacency ((node, nxt :: todo) :: frames) state) : Edge adjacency node nxt :=
  h.todo (node, nxt :: todo) (List.mem_cons_self ..) nxt (List.mem_cons_self ..)

theorem enter (h : Searching adjacency ((node, nxt :: todo) :: frames) state)
    (hnone : state.get? nxt = none) :
    Searching adjacency ((nxt, targets adjacency nxt) :: (node, todo) :: frames) (state.set nxt .gray) where
  gray a := by
    rw [Dict.get?_set, List.map_cons, List.mem_cons]
    split_ifs with ha
    · simp [ha]
    · rw [h.gray a]
      simp [Ne.symm ha]
  unique := by
    rw [List.map_cons, List.nodup_cons]
    refine ⟨fun hm => ?_, h.unique⟩
    have hgray := (h.gray nxt).mpr hm
    rw [hnone] at hgray
    simp at hgray
  todo frame hf b hb := by
    rcases List.mem_cons.mp hf with rfl | hf
    · exact hb
    · exact h.skip.todo frame hf b hb
  chain := List.isChain_cons_cons.mpr ⟨h.edge, h.skip.chain⟩

theorem path {frame : α × List α} (h : Searching adjacency (frame :: frames) state) {a : α}
    (ha : state.get? a = some .gray) : ReflTransGen (Edge adjacency) a frame.1 := by
  have hm : a ∈ (frame :: frames).map Prod.fst := (h.gray a).mp ha
  have hc := h.chain
  clear h ha
  induction frames generalizing frame with
  | nil =>
    obtain rfl : a = frame.1 := by simpa using hm
    exact .refl
  | cons outer frames ih =>
    rw [List.isChain_cons_cons] at hc
    rw [List.map_cons, List.mem_cons] at hm
    rcases hm with rfl | hm
    · exact .refl
    · exact (ih hm hc.2).tail hc.1

end Searching

theorem searching_empty : Searching adjacency [] (∅ : Dict α Color) where
  gray := by simp
  unique := List.nodup_nil
  todo := by simp
  chain := .nil

theorem Searching.first {state : Dict α Color} {node : α} (h : Searching adjacency [] state) :
    Searching adjacency [(node, targets adjacency node)] (state.set node .gray) where
  gray a := by
    rw [Dict.get?_set]
    split_ifs with ha
    · simp [ha]
    · rw [h.gray a]
      simp [Ne.symm ha]
  unique := by simp
  todo frame hf b hb := by
    obtain rfl := List.mem_singleton.mp hf
    exact hb
  chain := .singleton _

theorem visit_found_of_acyclic (hacyclic : ∀ a, ¬ TransGen (Edge adjacency) a a)
    {frames : List (α × List α)} {s : Search α ρ} (h : Searching adjacency frames s.state) :
    (visit adjacency record frames s).found = s.found := by
  fun_induction visit adjacency record frames s with
  | case1 s => rfl
  | case2 node frames s ih => exact ih h.close
  | case3 node nxt todo frames s hgray ih =>
    exact absurd (TransGen.tail' (h.path hgray) h.edge) (hacyclic nxt)
  | case4 node nxt todo frames s hblack ih => exact ih h.skip
  | case5 node nxt todo frames s hnone ih => exact ih (h.enter hnone)

theorem visit_searching {frames : List (α × List α)} {s : Search α ρ}
    (h : Searching adjacency frames s.state) : Searching adjacency [] (visit adjacency record frames s).state := by
  fun_induction visit adjacency record frames s with
  | case1 s => exact h
  | case2 node frames s ih => exact ih h.close
  | case3 node nxt todo frames s hgray ih => exact ih h.skip
  | case4 node nxt todo frames s hblack ih => exact ih h.skip
  | case5 node nxt todo frames s hnone ih => exact ih (h.enter hnone)

theorem Searching.start {s : Search α ρ} {node : α} (h : Searching adjacency [] s.state) :
    Searching adjacency [] (start adjacency record s node).state := by
  unfold ColorSearch.start
  split_ifs
  · exact visit_searching h.first
  · exact h

section

variable {P : ρ → Prop}
  (hrec : ∀ stack node nxt r, Edge adjacency node nxt → P r → P (record stack node nxt r))

include hrec

theorem visit_found_invariant {frames : List (α × List α)} {s : Search α ρ}
    (h : Searching adjacency frames s.state) (hs : P s.found) :
    P (visit adjacency record frames s).found := by
  fun_induction visit adjacency record frames s with
  | case1 s => exact hs
  | case2 node frames s ih => exact ih h.close hs
  | case3 node nxt todo frames s hgray ih => exact ih h.skip (hrec _ _ _ _ h.edge hs)
  | case4 node nxt todo frames s hblack ih => exact ih h.skip hs
  | case5 node nxt todo frames s hnone ih => exact ih (h.enter hnone) hs

theorem search_found_invariant {found : ρ} (hfound : P found) : P (search adjacency record found).found := by
  have hfold : Searching adjacency [] (search adjacency record found).state ∧
      P (search adjacency record found).found := by
    apply foldl_invariant (I := fun s : Search α ρ => Searching adjacency [] s.state ∧ P s.found)
    · rintro s node - ⟨h, hs⟩
      refine ⟨h.start, ?_⟩
      unfold start
      split_ifs
      · exact visit_found_invariant hrec h.first hs
      · exact hs
    · exact ⟨searching_empty, hfound⟩
  exact hfold.2

end

theorem search_found_of_acyclic (hacyclic : ∀ a, ¬ TransGen (Edge adjacency) a a) (found : ρ) :
    (search adjacency record found).found = found := by
  have hfold : Searching adjacency [] (search adjacency record found).state ∧
      (search adjacency record found).found = found := by
    apply foldl_invariant (I := fun s : Search α ρ => Searching adjacency [] s.state ∧ s.found = found)
    · rintro s node - ⟨h, hs⟩
      refine ⟨h.start, ?_⟩
      unfold start
      split_ifs
      · rw [visit_found_of_acyclic hacyclic h.first]
        exact hs
      · exact hs
    · exact ⟨searching_empty, rfl⟩
  exact hfold.2

structure Closed (adjacency : Dict α (List α)) (state : Dict α Color) : Prop where
  black : ∀ a b, state.get? a = some .black → Edge adjacency a b → state.get? b = some .black
  acyclic : ∀ a, state.get? a = some .black → ¬ TransGen (Edge adjacency) a a

theorem Closed.reach {state : Dict α Color} (h : Closed adjacency state) {a b : α}
    (ha : state.get? a = some .black) (hab : ReflTransGen (Edge adjacency) a b) :
    state.get? b = some .black := by
  induction hab with
  | refl => exact ha
  | tail _ hbc ih => exact h.black _ _ ih hbc

/-- What the open visits have left to do; `inner` is the node whose visit an edge has just opened. -/
def Settled (adjacency : Dict α (List α)) (state : Dict α Color) (inner : Option α) : List (α × List α) → Prop
  | [] => True
  | (node, todo) :: frames =>
    (∀ b, Edge adjacency node b → b ∈ todo ∨ state.get? b = some .black ∨ inner = some b) ∧
      Settled adjacency state (some node) frames

theorem Settled.mono {state state' : Dict α Color} {inner inner' : Option α} {frames : List (α × List α)}
    (h : Settled adjacency state inner frames)
    (hb : ∀ a, state.get? a = some .black → state'.get? a = some .black)
    (hi : ∀ b, inner = some b → state'.get? b = some .black ∨ inner' = some b) :
    Settled adjacency state' inner' frames := by
  induction frames generalizing inner inner' with
  | nil => trivial
  | cons frame frames ih =>
    refine ⟨fun b hedge => ?_, ih h.2 (fun b hn => Or.inr hn)⟩
    rcases h.1 b hedge with ht | hblack | hinner
    · exact Or.inl ht
    · exact Or.inr (Or.inl (hb b hblack))
    · exact Or.inr (hi b hinner)

theorem black_set {state : Dict α Color} {node : α} {c : Color} (hc : c = .black ∨ state.get? node = none) :
    ∀ a, state.get? a = some .black → (state.set node c).get? a = some .black := by
  intro a ha
  rw [Dict.get?_set]
  split_ifs with h
  · subst h
    rcases hc with rfl | hnone
    · rfl
    · rw [hnone] at ha
      simp at ha
  · exact ha

theorem Closed.set_gray {state : Dict α Color} {node : α} (h : Closed adjacency state)
    (hnone : state.get? node = none) : Closed adjacency (state.set node .gray) := by
  have hback : ∀ a, (state.set node .gray).get? a = some .black → state.get? a = some .black := by
    intro a ha
    rw [Dict.get?_set] at ha
    split_ifs at ha with hn
    · simp at ha
    · exact ha
  exact ⟨fun a b ha hab => black_set (Or.inr hnone) b (h.black a b (hback a ha) hab),
    fun a ha => h.acyclic a (hback a ha)⟩

theorem Closed.set_black {state : Dict α Color} {node : α} (h : Closed adjacency state)
    (hgray : state.get? node = some .gray)
    (hedges : ∀ b, Edge adjacency node b → state.get? b = some .black) :
    Closed adjacency (state.set node .black) := by
  have hback : ∀ a, (state.set node .black).get? a = some .black → a = node ∨ state.get? a = some .black := by
    intro a ha
    rw [Dict.get?_set] at ha
    split_ifs at ha with hn
    · exact Or.inl hn.symm
    · exact Or.inr ha
  constructor
  · intro a b ha hab
    apply black_set (Or.inl rfl)
    rcases hback a ha with rfl | ha
    · exact hedges b hab
    · exact h.black a b ha hab
  · intro a ha hcycle
    rcases hback a ha with rfl | ha
    · -- the cycle leaves the node for a black one, and black nodes only reach black ones
      obtain ⟨b, hab, hba⟩ := TransGen.head'_iff.mp hcycle
      have hblack := h.reach (hedges b hab) hba
      rw [hgray] at hblack
      simp at hblack
    · exact h.acyclic a ha hcycle

section

variable {P : ρ → Prop} (hrec : ∀ stack node nxt r, ¬ P (record stack node nxt r))

include hrec

theorem visit_dirty {frames : List (α × List α)} {s : Search α ρ} (h : ¬ P s.found) :
    ¬ P (visit adjacency record frames s).found := by
  fun_induction visit adjacency record frames s with
  | case1 s => exact h
  | case2 node frames s ih => exact ih h
  | case3 node nxt todo frames s hgray ih => exact ih (hrec _ _ _ _)
  | case4 node nxt todo frames s hblack ih => exact ih h
  | case5 node nxt todo frames s hnone ih => exact ih h

theorem visit_closed {frames : List (α × List α)} {s : Search α ρ} (h : Searching adjacency frames s.state)
    (hc : Closed adjacency s.state) (hs : Settled adjacency s.state none frames)
    (hclean : P (visit adjacency record frames s).found) :
    Closed adjacency (visit adjacency record frames s).state ∧
      ∀ a, s.state.get? a = some .black ∨ a ∈ frames.map Prod.fst →
        (visit adjacency record frames s).state.get? a = some .black := by
  fun_induction visit adjacency record frames s with
  | case1 s => exact ⟨hc, fun a ha => ha.resolve_right (by simp)⟩
  | case2 node frames s ih =>
    have hgray : s.state.get? node = some .gray := (h.gray node).mpr (by simp)
    have hedges : ∀ b, Edge adjacency node b → s.state.get? b = some .black := by
      intro b hb
      simpa using hs.1 b hb
    have hnode : (s.state.set node .black).get? node = some .black := by simp
    have hs' : Settled adjacency (s.state.set node .black) none frames :=
      hs.2.mono (black_set (Or.inl rfl)) (fun b hb => Or.inl (Option.some.inj hb ▸ hnode))
    obtain ⟨hclosed, hall⟩ := ih h.close (hc.set_black hgray hedges) hs' hclean
    refine ⟨hclosed, fun a ha => hall a ?_⟩
    rcases ha with ha | ha
    · exact Or.inl (black_set (Or.inl rfl) a ha)
    · rcases List.mem_cons.mp ha with rfl | ha
      · exact Or.inl hnode
      · exact Or.inr ha
  | case3 node nxt todo frames s hgray ih => exact absurd hclean (visit_dirty hrec (hrec _ _ _ _))
  | case4 node nxt todo frames s hblack ih =>
    refine ih h.skip hc ⟨fun b hb => ?_, hs.2⟩ hclean
    rcases hs.1 b hb with ht | hrest
    · rcases List.mem_cons.mp ht with rfl | ht
      · exact Or.inr (Or.inl hblack)
      · exact Or.inl ht
    · exact Or.inr hrest
  | case5 node nxt todo frames s hnone ih =>
    have hs' : Settled adjacency (s.state.set nxt .gray) none
        ((nxt, targets adjacency nxt) :: (node, todo) :: frames) := by
      refine ⟨fun b hb => Or.inl hb, fun b hb => ?_, hs.2.mono (black_set (Or.inr hnone)) (fun b hn => Or.inr hn)⟩
      rcases hs.1 b hb with ht | hblack | hinner
      · rcases List.mem_cons.mp ht with rfl | ht
        · exact Or.inr (Or.inr rfl)
        · exact Or.inl ht
      · exact Or.inr (Or.inl (black_set (Or.inr hnone) b hblack))
      · simp at hinner
    obtain ⟨hclosed, hall⟩ := ih (h.enter hnone) (hc.set_gray hnone) hs' hclean
    refine ⟨hclosed, fun a ha => hall a ?_⟩
    rcases ha with ha | ha
    · exact Or.inl (black_set (Or.inr hnone) a ha)
    · exact Or.inr (List.mem_cons_of_mem _ ha)

theorem foldl_start_dirty {nodes : List α} {s : Search α ρ} (h : ¬ P s.found) :
    ¬ P (nodes.foldl (start adjacency record) s).found := by
  induction nodes generalizing s with
  | nil => exact h
  | cons node nodes ih =>
    apply ih
    unfold start
    split_ifs
    · exact visit_dirty hrec h
    · exact h

theorem start_closed {s : Search α ρ} {node : α} (h : Searching adjacency [] s.state)
    (hc : Closed adjacency s.state) (hclean : P (start adjacency record s node).found) :
    Closed adjacency (start adjacency record s node).state ∧
      ∀ a, s.state.get? a = some .black ∨ a = node →
        (start adjacency record s node).state.get? a = some .black := by
  unfold start at hclean ⊢
  split_ifs at hclean ⊢ with hnone
  · rw [Option.isNone_iff_eq_none] at hnone
    have hs : Settled adjacency (s.state.set node .gray) none [(node, targets adjacency node)] :=
      ⟨fun b hb => Or.inl hb, trivial⟩
    obtain ⟨hclosed, hall⟩ := visit_closed hrec h.first (hc.set_gray hnone) hs hclean
    refine ⟨hclosed, fun a ha => hall a ?_⟩
    rcases ha with ha | rfl
    · exact Or.inl (black_set (Or.inr hnone) a ha)
    · exact Or.inr (by simp)
  · refine ⟨hc, fun a ha => ?_⟩
    rcases ha with ha | rfl
    · exact ha
    · -- nothing is gray between two visits, so a node that has a color is black
      cases hcolor : s.state.get? a with
      | none => simp [hcolor] at hnone
      | some c =>
        cases c with
        | gray => simpa using (h.gray a).mp hcolor
        | black => rfl

theorem foldl_start_closed {nodes : List α} {s : Search α ρ} (h : Searching adjacency [] s.state)
    (hc : Closed adjacency s.state) (hclean : P (nodes.foldl (start adjacency record) s).found) :
    Closed adjacency (nodes.foldl (start adjacency record) s).state ∧
      ∀ a, s.state.get? a = some .black ∨ a ∈ nodes →
        (nodes.foldl (start adjacency record) s).state.get? a = some .black := by
  induction nodes generalizing s with
  | nil => exact ⟨hc, fun a ha => ha.resolve_right (by simp)⟩
  | cons node nodes ih =>
    have hfirst : P (start adjacency record s node).found := by
      by_contra hdirty
      exact foldl_start_dirty hrec hdirty hclean
    obtain ⟨hc', hall⟩ := start_closed hrec h hc hfirst
    obtain ⟨hclosed, hrest⟩ := ih h.start hc' hclean
    refine ⟨hclosed, fun a ha => hrest a ?_⟩
    rcases ha with ha | ha
    · exact Or.inl (hall a (Or.inl ha))
    · rcases List.mem_cons.mp ha with rfl | ha
      · exact Or.inl (hall a (Or.inr rfl))
      · exact Or.inr ha

theorem acyclic_of_search {found : ρ} (hclean : P (search adjacency record found).found) :
    ∀ a, ¬ TransGen (Edge adjacency) a a := by
  have hempty : Closed adjacency (∅ : Dict α Color) := ⟨fun a b ha => by simp at ha, fun a ha => by simp at ha⟩
  obtain ⟨hclosed, hall⟩ := foldl_start_closed hrec searching_empty hempty hclean
  intro a hcycle
  obtain ⟨b, hab, -⟩ := TransGen.head'_iff.mp hcycle
  have hkey : a ∈ adjacency.keys := by
    by_contra hk
    simp [Edge, targets, Dict.get?_eq_none.mpr hk] at hab
  exact hclosed.acyclic a (hall a (Or.inr hkey)) hcycle

end

end

end GraphSkillRuntime.ColorSearch
