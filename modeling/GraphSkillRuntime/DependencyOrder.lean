import GraphSkillRuntime.ColorSearch
import Mathlib.Algebra.BigOperators.Group.Finset.Basic
import Mathlib.Algebra.Order.BigOperators.Group.Finset
import Mathlib.Order.WellFounded
import Mathlib.Data.Set.Finite.List

/-!
Topological ordering by counting incoming edges: a node is taken once every edge into it comes from a
node already taken.
-/

namespace GraphSkillRuntime.DependencyOrder

open OrderedDict ColorSearch Relation

variable {α : Type} [DecidableEq α]

abbrev Indegree (α : Type) := Dict α ℤ

def degree (indegree : Indegree α) (node : α) : ℤ := (indegree.get? node).getD 0

def countEdges (adjacency : Dict α (List α)) (nodes : List α) : Indegree α :=
  (adjacency.entries.flatMap Prod.snd).foldl
    (fun indegree node => indegree.set node (degree indegree node + 1))
    (Dict.ofList (nodes.map (fun node => (node, 0))))

def release (pending : Indegree α × List α) (nxt : α) : Indegree α × List α :=
  let indegree := pending.1.set nxt (degree pending.1 nxt - 1)
  (indegree, if degree indegree nxt = 0 then pending.2 ++ [nxt] else pending.2)

def positives (indegree : Indegree α) : List α := indegree.keys.filter (fun node => 0 < degree indegree node)

@[simp] theorem degree_set (indegree : Indegree α) (node other : α) (n : ℤ) :
    degree (indegree.set node n) other = if node = other then n else degree indegree other := by
  rw [degree, Dict.get?_set]
  split_ifs <;> rfl

theorem mem_positives {indegree : Indegree α} {node : α} :
    node ∈ positives indegree ↔ 0 < degree indegree node := by
  rw [positives, List.mem_filter, decide_eq_true_eq, and_iff_right_iff_imp]
  intro h
  by_contra hk
  simp [degree, Dict.get?_eq_none.mpr hk] at h

theorem positives_nodup (indegree : Indegree α) : (positives indegree).Nodup := indegree.nodup.filter _

theorem positives_release_subset (pending : Indegree α × List α) (nxt : α) :
    positives (release pending nxt).1 ⊆ positives pending.1 := by
  intro node hn
  rw [mem_positives] at hn ⊢
  simp only [release, degree_set] at hn
  split_ifs at hn with h
  · subst h
    omega
  · exact hn

theorem release_length (pending : Indegree α × List α) (nxt : α) :
    (positives (release pending nxt).1).length + (release pending nxt).2.length ≤
      (positives pending.1).length + pending.2.length := by
  have hsub := positives_release_subset pending nxt
  by_cases hzero : degree (release pending nxt).1 nxt = 0
  · -- the node leaves the positive ones as it enters the queue
    have hqueue : (release pending nxt).2 = pending.2 ++ [nxt] := if_pos hzero
    have hlen : (release pending nxt).2.length = pending.2.length + 1 := by simp [hqueue]
    have hone : degree pending.1 nxt = 1 := by
      simp only [release, degree_set, ↓reduceIte] at hzero
      omega
    have hnot : nxt ∉ positives (release pending nxt).1 := by
      rw [mem_positives, hzero]
      exact lt_irrefl 0
    have hperm : (nxt :: positives (release pending nxt).1).Subperm (positives pending.1) := by
      apply List.Nodup.subperm (List.nodup_cons.mpr ⟨hnot, positives_nodup _⟩)
      intro node hn
      rcases List.mem_cons.mp hn with rfl | hn
      · rw [mem_positives, hone]
        exact one_pos
      · exact hsub hn
    have hle := hperm.length_le
    rw [List.length_cons] at hle
    omega
  · have hlen : (release pending nxt).2 = pending.2 := if_neg hzero
    rw [hlen]
    exact Nat.add_le_add_right ((positives_nodup _).subperm hsub).length_le _

theorem foldl_release_length (nodes : List α) (pending : Indegree α × List α) :
    (positives (nodes.foldl release pending).1).length + (nodes.foldl release pending).2.length ≤
      (positives pending.1).length + pending.2.length := by
  induction nodes generalizing pending with
  | nil => exact le_rfl
  | cons node nodes ih => exact (ih (release pending node)).trans (release_length pending node)

def orderFrom (adjacency : Dict α (List α)) (indegree : Indegree α) (queue order : List α) : List α :=
  match queue with
  | [] => order
  | node :: queue =>
    let released := (targets adjacency node).foldl release (indegree, queue)
    orderFrom adjacency released.1 released.2 (order ++ [node])
termination_by (positives indegree).length + queue.length
decreasing_by
  have h := foldl_release_length (targets adjacency node) (indegree, queue)
  simp only [List.length_cons] at h ⊢
  omega

def topologicalOrder (adjacency : Dict α (List α)) (nodes : List α) : List α :=
  let indegree := countEdges adjacency nodes
  orderFrom adjacency indegree (nodes.filter (fun node => degree indegree node = 0)) []

theorem degree_foldl_release (nodes : List α) (pending : Indegree α × List α) (node : α) :
    degree (nodes.foldl release pending).1 node = degree pending.1 node - nodes.count node := by
  induction nodes generalizing pending with
  | nil => simp
  | cons nxt nodes ih =>
    rw [List.foldl_cons, ih, List.count_cons]
    simp only [release, degree_set]
    by_cases h : nxt = node
    · subst h
      simp only [↓reduceIte, beq_self_eq_true]
      push_cast
      omega
    · simp [h]

theorem mem_foldl_release (nodes : List α) (pending : Indegree α × List α) (node : α) :
    node ∈ (nodes.foldl release pending).2 ↔
      node ∈ pending.2 ∨ (0 < degree pending.1 node ∧ degree pending.1 node ≤ nodes.count node) := by
  induction nodes generalizing pending with
  | nil =>
    rw [List.foldl_nil, List.count_nil]
    constructor
    · exact Or.inl
    · rintro (h | ⟨h, h'⟩)
      · exact h
      · omega
  | cons nxt nodes ih =>
    rw [List.foldl_cons, ih, List.count_cons]
    by_cases h : nxt = node
    · subst h
      have hmem : nxt ∈ (release pending nxt).2 ↔ nxt ∈ pending.2 ∨ degree pending.1 nxt - 1 = 0 := by
        simp only [release, degree_set, ↓reduceIte]
        split_ifs with hz <;> simp [hz]
      rw [hmem]
      simp only [release, degree_set, ↓reduceIte, beq_self_eq_true]
      push_cast
      constructor
      · rintro ((hm | hm) | hm)
        · exact Or.inl hm
        · exact Or.inr (by omega)
        · exact Or.inr (by omega)
      · rintro (hm | hm)
        · exact Or.inl (Or.inl hm)
        · by_cases hz : degree pending.1 nxt - 1 = 0
          · exact Or.inl (Or.inr hz)
          · exact Or.inr (by omega)
    · have hmem : node ∈ (release pending nxt).2 ↔ node ∈ pending.2 := by
        simp only [release]
        split_ifs <;> simp [Ne.symm h]
      rw [hmem]
      simp [release, h]

theorem nodup_foldl_release {nodes : List α} {pending : Indegree α × List α} (hn : pending.2.Nodup)
    (hq : ∀ node ∈ pending.2, degree pending.1 node ≤ 0) : (nodes.foldl release pending).2.Nodup := by
  induction nodes generalizing pending with
  | nil => exact hn
  | cons nxt nodes ih =>
    have hlow : ∀ node ∈ pending.2, degree (release pending nxt).1 node ≤ 0 := by
      intro node hm
      have h := hq node hm
      simp only [release, degree_set]
      split_ifs with he
      · subst he
        omega
      · exact h
    by_cases hzero : degree (release pending nxt).1 nxt = 0
    · have hqueue : (release pending nxt).2 = pending.2 ++ [nxt] := if_pos hzero
      have hnew : nxt ∉ pending.2 := by
        intro hm
        have h := hq nxt hm
        simp only [release, degree_set, ↓reduceIte] at hzero
        omega
      apply ih
      · rw [hqueue, List.nodup_append']
        exact ⟨hn, List.nodup_singleton _, by simpa using hnew⟩
      · intro node hm
        rw [hqueue, List.mem_append, List.mem_singleton] at hm
        rcases hm with hm | rfl
        · exact hlow node hm
        · exact hzero.le
    · have hqueue : (release pending nxt).2 = pending.2 := if_neg hzero
      apply ih
      · rw [hqueue]
        exact hn
      · rw [hqueue]
        exact hlow

section

variable {adjacency : Dict α (List α)} {nodes : List α}

def incoming (adjacency : Dict α (List α)) (taken : List α) (node : α) : ℕ :=
  ∑ source ∈ adjacency.keys.toFinset with source ∉ taken, (targets adjacency source).count node

theorem degree_foldl_bump (edges : List α) (indegree : Indegree α) (node : α) :
    degree (edges.foldl (fun indegree node => indegree.set node (degree indegree node + 1)) indegree) node =
      degree indegree node + edges.count node := by
  induction edges generalizing indegree with
  | nil => simp
  | cons edge edges ih =>
    rw [List.foldl_cons, ih, List.count_cons, degree_set]
    by_cases h : edge = node
    · subst h
      simp only [↓reduceIte, beq_self_eq_true]
      push_cast
      omega
    · simp [h]

theorem degree_countEdges (adjacency : Dict α (List α)) (nodes : List α) (node : α) :
    degree (countEdges adjacency nodes) node = incoming adjacency [] node := by
  have hzero : degree (Dict.ofList (nodes.map (fun node => (node, (0 : ℤ))))) node = 0 := by
    rw [degree, Dict.get?_ofList, ← List.map_reverse]
    induction nodes.reverse with
    | nil => rfl
    | cons k ks ih =>
      rw [List.map_cons, Dict.find]
      split_ifs
      · rfl
      · exact ih
  have hcount : (adjacency.entries.flatMap Prod.snd).count node = incoming adjacency [] node := by
    have htargets : ∀ e ∈ adjacency.entries, e.2.count node = (targets adjacency e.1).count node := by
      intro e he
      rw [targets, Dict.get?_mem.mpr he, Option.getD_some]
    rw [incoming, Finset.filter_true_of_mem (by simp), Dict.keys, List.sum_toFinset _ adjacency.nodup,
      List.count_flatMap, List.map_map]
    exact congrArg List.sum (List.map_congr_left htargets)
  rw [countEdges, degree_foldl_bump, hzero, hcount, zero_add]

theorem incoming_take {taken : List α} {source : α} (hk : source ∈ adjacency.keys) (hs : source ∉ taken)
    (node : α) : incoming adjacency taken node =
      (targets adjacency source).count node + incoming adjacency (taken ++ [source]) node := by
  have hmem : source ∈ adjacency.keys.toFinset.filter (· ∉ taken) := by simp [hk, hs]
  have herase : adjacency.keys.toFinset.filter (· ∉ taken ++ [source]) =
      (adjacency.keys.toFinset.filter (· ∉ taken)).erase source := by
    ext a
    simp only [Finset.mem_filter, Finset.mem_erase, List.mem_append, List.mem_singleton, not_or]
    tauto
  rw [incoming, incoming, herase]
  exact (Finset.add_sum_erase _ (fun source => (targets adjacency source).count node) hmem).symm

theorem incoming_eq_zero {taken : List α} {node : α} :
    incoming adjacency taken node = 0 ↔ ∀ source, Edge adjacency source node → source ∈ taken := by
  rw [incoming, Finset.sum_eq_zero_iff]
  constructor
  · intro h source hedge
    by_contra hs
    have hk : source ∈ adjacency.keys := by
      by_contra hk
      simp [Edge, targets, Dict.get?_eq_none.mpr hk] at hedge
    have hzero := h source (by simp [hk, hs])
    exact List.count_eq_zero.mp hzero hedge
  · intro h source hs
    rw [Finset.mem_filter] at hs
    exact List.count_eq_zero.mpr (fun hedge => hs.2 (h source hedge))

structure Taking (adjacency : Dict α (List α)) (nodes : List α) (indegree : Indegree α)
    (queue order : List α) : Prop where
  degrees : ∀ node, degree indegree node = incoming adjacency order node
  unique : (order ++ queue).Nodup
  ready : ∀ node, node ∈ order ++ queue ↔ node ∈ nodes ∧ incoming adjacency order node = 0
  before : ∀ l₁ node l₂, order = l₁ ++ node :: l₂ → ∀ source, Edge adjacency source node → source ∈ l₁

theorem before_append {order : List α} {last : α}
    (h : ∀ l₁ node l₂, order = l₁ ++ node :: l₂ → ∀ source, Edge adjacency source node → source ∈ l₁)
    (hlast : ∀ source, Edge adjacency source last → source ∈ order) :
    ∀ l₁ node l₂, order ++ [last] = l₁ ++ node :: l₂ → ∀ source, Edge adjacency source node → source ∈ l₁ := by
  intro l₁ node l₂ heq source hedge
  rcases List.eq_nil_or_concat l₂ with rfl | ⟨l₂, final, rfl⟩
  · obtain ⟨rfl, hnode⟩ := List.append_inj' heq rfl
    obtain rfl : last = node := by simpa using hnode
    exact hlast source hedge
  · rw [List.concat_eq_append, ← List.cons_append, ← List.append_assoc] at heq
    obtain ⟨horder, -⟩ := List.append_inj' heq rfl
    exact h l₁ node l₂ horder source hedge

section

variable (hkeys : ∀ node, node ∈ adjacency.keys ↔ node ∈ nodes)
  (htargets : ∀ a b, Edge adjacency a b → b ∈ nodes)

include hkeys htargets

theorem Taking.step {indegree : Indegree α} {node : α} {queue order : List α}
    (h : Taking adjacency nodes indegree (node :: queue) order) :
    Taking adjacency nodes ((targets adjacency node).foldl release (indegree, queue)).1
      ((targets adjacency node).foldl release (indegree, queue)).2 (order ++ [node]) := by
  have hnode : node ∈ nodes ∧ incoming adjacency order node = 0 := (h.ready node).mp (by simp)
  have hunique := List.nodup_append'.mp h.unique
  have hnew : node ∉ order := fun hm => hunique.2.2 hm (List.mem_cons_self ..)
  have htake := incoming_take ((hkeys node).mpr hnode.1) hnew
  have hmem : ∀ b, b ∈ order ++ [node] ++ ((targets adjacency node).foldl release (indegree, queue)).2 ↔
      b ∈ order ++ node :: queue ∨
        (0 < incoming adjacency order b ∧ incoming adjacency order b ≤ (targets adjacency node).count b) := by
    intro b
    have hd := h.degrees b
    have hcast : (0 < degree indegree b ∧ degree indegree b ≤ (targets adjacency node).count b) ↔
        (0 < incoming adjacency order b ∧ incoming adjacency order b ≤ (targets adjacency node).count b) := by
      omega
    rw [List.mem_append, mem_foldl_release, hcast]
    simp only [List.mem_append, List.mem_cons, List.not_mem_nil, or_false, or_assoc]
  have hready : ∀ b ∈ order ++ node :: queue, incoming adjacency order b = 0 := fun b hb => ((h.ready b).mp hb).2
  constructor
  · intro b
    have hd := h.degrees b
    have ht := htake b
    rw [degree_foldl_release, hd]
    omega
  · rw [List.nodup_append']
    refine ⟨?_, ?_, ?_⟩
    · rw [List.nodup_append']
      exact ⟨hunique.1, List.nodup_singleton _, by simpa using hnew⟩
    · apply nodup_foldl_release (List.nodup_cons.mp hunique.2.1).2
      intro b hb
      have hd := h.degrees b
      have hz := hready b (by simp [hb])
      simp only
      omega
    · intro b hb hq
      rw [mem_foldl_release] at hq
      have hb' : b ∈ order ++ node :: queue := by
        rw [List.mem_append, List.mem_singleton] at hb
        rcases hb with hb | rfl
        · exact List.mem_append_left _ hb
        · simp
      rcases hq with hq | hq
      · rw [List.mem_append, List.mem_singleton] at hb
        rcases hb with hb | rfl
        · exact hunique.2.2 hb (List.mem_cons_of_mem _ hq)
        · exact (List.nodup_cons.mp hunique.2.1).1 hq
      · have hd := h.degrees b
        have hz := hready b hb'
        simp only at hq
        omega
  · intro b
    rw [hmem b, h.ready b]
    have ht := htake b
    constructor
    · rintro (⟨hb, hz⟩ | ⟨hpos, hle⟩)
      · exact ⟨hb, by omega⟩
      · refine ⟨htargets node b ?_, by omega⟩
        exact List.count_pos_iff.mp (by omega)
    · rintro ⟨hb, hz⟩
      by_cases hpos : incoming adjacency order b = 0
      · exact Or.inl ⟨hb, hpos⟩
      · exact Or.inr (by omega)
  · exact before_append h.before (incoming_eq_zero.mp hnode.2)

theorem Taking.orderFrom {indegree : Indegree α} {queue order : List α}
    (h : Taking adjacency nodes indegree queue order) :
    ∃ final, Taking adjacency nodes final [] (orderFrom adjacency indegree queue order) := by
  fun_induction DependencyOrder.orderFrom adjacency indegree queue order with
  | case1 indegree order => exact ⟨indegree, h⟩
  | case2 indegree order node queue released ih => exact ih (h.step hkeys htargets)

end

omit [DecidableEq α] in
theorem wellFounded_of_acyclic {r : α → α → Prop} (hacyclic : ∀ a, ¬ TransGen r a a) (nodes : List α) :
    WellFounded (fun a b : {a // a ∈ nodes} => TransGen r a.1 b.1) := by
  have : IsTrans {a // a ∈ nodes} (fun a b => TransGen r a.1 b.1) := ⟨fun _ _ _ => TransGen.trans⟩
  have : Std.Irrefl (fun a b : {a // a ∈ nodes} => TransGen r a.1 b.1) := ⟨fun a => hacyclic a.1⟩
  have : Finite {a // a ∈ nodes} := nodes.finite_toSet
  exact Finite.wellFounded_of_trans_of_irrefl _

theorem exists_source (hacyclic : ∀ a, ¬ TransGen (Edge adjacency) a a) {left : List α} (hne : left ≠ []) :
    ∃ node ∈ left, ∀ source ∈ left, ¬ Edge adjacency source node := by
  obtain ⟨first, hfirst⟩ := List.exists_mem_of_ne_nil left hne
  obtain ⟨⟨node, hnode⟩, -, hmin⟩ :=
    (wellFounded_of_acyclic hacyclic left).has_min Set.univ ⟨⟨first, hfirst⟩, trivial⟩
  exact ⟨node, hnode, fun source hs hedge => hmin ⟨source, hs⟩ trivial (.single hedge)⟩

theorem topologicalOrder_spec (hunique : nodes.Nodup) (hkeys : ∀ node, node ∈ adjacency.keys ↔ node ∈ nodes)
    (htargets : ∀ a b, Edge adjacency a b → b ∈ nodes) (hacyclic : ∀ a, ¬ TransGen (Edge adjacency) a a) :
    (topologicalOrder adjacency nodes).Perm nodes ∧
      ∀ a b, Edge adjacency a b →
        (topologicalOrder adjacency nodes).idxOf a < (topologicalOrder adjacency nodes).idxOf b := by
  have hstart : Taking adjacency nodes (countEdges adjacency nodes)
      (nodes.filter (fun node => degree (countEdges adjacency nodes) node = 0)) [] := by
    constructor
    · exact degree_countEdges adjacency nodes
    · exact hunique.filter _
    · intro node
      have hd := degree_countEdges adjacency nodes node
      simp only [List.nil_append, List.mem_filter, decide_eq_true_eq, hd, Int.natCast_eq_zero]
    · intro l₁ node l₂ heq
      simp at heq
  obtain ⟨final, htaken⟩ := hstart.orderFrom hkeys htargets
  change Taking adjacency nodes final [] (topologicalOrder adjacency nodes) at htaken
  generalize topologicalOrder adjacency nodes = order at htaken
  have hnodup : order.Nodup := by simpa using htaken.unique
  have hmem : ∀ node, node ∈ order ↔ node ∈ nodes ∧ incoming adjacency order node = 0 := by
    simpa using htaken.ready
  have hall : nodes.filter (· ∉ order) = [] := by
    by_contra hne
    obtain ⟨node, hnode, hsource⟩ := exists_source hacyclic hne
    simp only [List.mem_filter, decide_eq_true_eq] at hnode hsource
    refine hnode.2 ((hmem node).mpr ⟨hnode.1, incoming_eq_zero.mpr ?_⟩)
    intro source hedge
    by_contra hs
    have hk : source ∈ adjacency.keys := by
      by_contra hk
      simp [Edge, targets, Dict.get?_eq_none.mpr hk] at hedge
    exact hsource source ⟨(hkeys source).mp hk, hs⟩ hedge
  have hcover : ∀ node, node ∈ order ↔ node ∈ nodes := by
    intro node
    refine ⟨fun h => ((hmem node).mp h).1, fun h => ?_⟩
    by_contra hn
    have hleft : node ∈ nodes.filter (· ∉ order) := by simp [h, hn]
    rw [hall] at hleft
    simp at hleft
  refine ⟨(List.perm_ext_iff_of_nodup hnodup hunique).mpr hcover, ?_⟩
  intro a b hedge
  obtain ⟨l₁, l₂, rfl⟩ := List.append_of_mem ((hcover b).mpr (htargets a b hedge))
  have ha : a ∈ l₁ := htaken.before l₁ b l₂ rfl a hedge
  have hb : b ∉ l₁ := fun hm => (List.nodup_append'.mp hnodup).2.2 hm (List.mem_cons_self ..)
  rw [List.idxOf_append_of_mem ha, List.idxOf_append_of_notMem hb, List.idxOf_cons_self]
  exact List.idxOf_lt_length_of_mem ha

end

end GraphSkillRuntime.DependencyOrder
