import Mathlib.Data.List.Perm.Basic
import Mathlib.Tactic.Common

/-!
Orders that respect a dependency. Two orders of the same elements fold to the same state when the elements that do
not depend on each other may change places.
-/

namespace GraphSkillRuntime.Linearizations

variable {α σ : Type} {before : α → α → Prop} {same : σ → σ → Prop} {f : σ → α → σ} {l l' : List α} {s t : σ}

def Respects (before : α → α → Prop) (l : List α) : Prop := l.Pairwise fun a b => ¬ before b a

structure Commutes (before : α → α → Prop) (same : σ → σ → Prop) (f : σ → α → σ) (l : List α) : Prop where
  congr : ∀ a ∈ l, ∀ s t, same s t → same (f s a) (f t a)
  swap : ∀ a ∈ l, ∀ b ∈ l, ¬ before a b → ¬ before b a → ∀ s, same (f (f s a) b) (f (f s b) a)

theorem Commutes.of_subset (h : Commutes before same f l) (hsub : l' ⊆ l) : Commutes before same f l' where
  congr a ha := h.congr a (hsub ha)
  swap a ha b hb := h.swap a (hsub ha) b (hsub hb)

theorem Commutes.foldl_congr (h : Commutes before same f l) (hst : same s t) :
    same (l.foldl f s) (l.foldl f t) := by
  induction l generalizing s t with
  | nil => exact hst
  | cons a l ih =>
    exact ih (h.of_subset (List.subset_cons_self a l)) (h.congr a List.mem_cons_self s t hst)

theorem Commutes.foldl_front (he : Equivalence same) {a : α} {u v : List α}
    (h : Commutes before same f (u ++ a :: v)) (hfree : ∀ b ∈ u, ¬ before a b ∧ ¬ before b a) :
    same ((u ++ a :: v).foldl f s) ((a :: (u ++ v)).foldl f s) := by
  induction u generalizing s with
  | nil => exact he.refl _
  | cons b u ih =>
    have hrest := h.of_subset (List.subset_cons_self b (u ++ a :: v))
    have hmem : a ∈ b :: (u ++ a :: v) := by simp
    obtain ⟨hab, hba⟩ := hfree b List.mem_cons_self
    refine he.trans (ih hrest fun c hc => hfree c (List.mem_cons_of_mem b hc)) ?_
    have hsub : u ++ v ⊆ b :: (u ++ a :: v) := by
      intro c hc
      rcases List.mem_append.mp hc with hc | hc <;> simp [hc]
    exact (h.of_subset hsub).foldl_congr (h.swap b List.mem_cons_self a hmem hba hab s)

theorem Commutes.foldl_same (he : Equivalence same) (h : Commutes before same f l) (hperm : l.Perm l')
    (hl : Respects before l) (hl' : Respects before l') (hst : same s t) : same (l.foldl f s) (l'.foldl f t) := by
  induction l generalizing l' s t with
  | nil =>
    obtain rfl := hperm.nil_eq
    exact hst
  | cons a l ih =>
    obtain ⟨u, v, rfl⟩ := List.append_of_mem (hperm.subset List.mem_cons_self)
    have hrest : l.Perm (u ++ v) := (List.perm_cons a).mp (hperm.trans List.perm_middle)
    obtain ⟨hfirst, hl⟩ := List.pairwise_cons.mp hl
    have hfree : ∀ b ∈ u, ¬ before a b ∧ ¬ before b a := by
      intro b hb
      refine ⟨(List.pairwise_append.mp hl').2.2 b hb a List.mem_cons_self, hfirst b ?_⟩
      exact hrest.symm.subset (List.mem_append_left v hb)
    have hcommutes : Commutes before same f (u ++ a :: v) := h.of_subset hperm.symm.subset
    refine he.trans ?_ (he.symm (hcommutes.foldl_front he hfree))
    have hkept : Respects before (u ++ v) := hl'.sublist (by simp)
    rw [List.foldl_cons, List.foldl_cons]
    exact ih (h.of_subset (List.subset_cons_self a l)) hrest hl hkept (h.congr a List.mem_cons_self s t hst)

end GraphSkillRuntime.Linearizations
