import Mathlib.Data.List.Chain
import Mathlib.Data.List.Nodup
import Mathlib.Tactic.Common

/-! Lists whose items carry whole numbers that go up by one. -/

namespace GraphSkillRuntime.NumberedLogs

variable {α : Type} {number : α → ℤ} {l u v : List α} {a b : α}

def Numbered (number : α → ℤ) (l : List α) : Prop := l.IsChain fun a b => number b = number a + 1

theorem numbered_append : Numbered number (u ++ v) ↔
    Numbered number u ∧ Numbered number v ∧ ∀ a ∈ u.getLast?, ∀ b ∈ v.head?, number b = number a + 1 :=
  List.isChain_append

theorem Numbered.concat (h : Numbered number l) (hlast : ∀ a ∈ l.getLast?, number b = number a + 1) :
    Numbered number (l ++ [b]) := by
  apply numbered_append.mpr
  refine ⟨h, List.isChain_singleton b, ?_⟩
  intro a ha c hc
  obtain rfl : b = c := by simpa using hc
  exact hlast a ha

theorem Numbered.pairwise (h : Numbered number l) : l.Pairwise fun a b => number a < number b := by
  have hstep : l.IsChain fun a b => number a < number b := by
    apply h.imp
    intro a b hab
    omega
  have : Trans (fun a b : α => number a < number b) (fun a b => number a < number b)
      (fun a b => number a < number b) := ⟨fun hab hbc => Int.lt_trans hab hbc⟩
  exact hstep.pairwise

theorem Numbered.nodup (h : Numbered number l) : (l.map number).Nodup := by
  apply List.pairwise_map.mpr
  apply h.pairwise.imp
  intro a b hab
  omega

theorem Numbered.head_le (h : Numbered number l) (hhead : l.head? = some a) (hb : b ∈ l) : number a ≤ number b := by
  cases l with
  | nil => cases hhead
  | cons c l =>
    obtain rfl : c = a := by simpa using hhead
    rcases List.mem_cons.mp hb with rfl | hb
    · omega
    · have hlt := (List.pairwise_cons.mp h.pairwise).1 b hb
      omega

theorem Numbered.le_last (h : Numbered number l) (hlast : l.getLast? = some b) (ha : a ∈ l) : number a ≤ number b := by
  obtain ⟨front, rfl⟩ := List.getLast?_eq_some_iff.mp hlast
  rcases List.mem_append.mp ha with ha | ha
  · have hlt := (List.pairwise_append.mp h.pairwise).2.2 a ha b (List.mem_singleton_self b)
    omega
  · obtain rfl := List.mem_singleton.mp ha
    omega

theorem Numbered.exists_mem (h : Numbered number l) {n : ℤ} (hhead : l.head? = some a) (hlast : l.getLast? = some b)
    (hle : number a ≤ n) (hle' : n ≤ number b) : ∃ c ∈ l, number c = n := by
  induction l generalizing a with
  | nil => cases hhead
  | cons c l ih =>
    obtain rfl : c = a := by simpa using hhead
    by_cases hn : number c = n
    · exact ⟨c, List.mem_cons_self, hn⟩
    · cases l with
      | nil =>
        obtain rfl : c = b := by simpa using hlast
        omega
      | cons d l =>
        obtain ⟨hnext, htail⟩ := List.isChain_cons_cons.mp h
        obtain ⟨e, he, hen⟩ := ih htail rfl (by simpa using hlast) (by omega)
        exact ⟨e, List.mem_cons_of_mem _ he, hen⟩

theorem Numbered.filter_after (h : Numbered number (u ++ v)) (hlast : u.getLast? = some a) :
    (u ++ v).filter (fun b => number a < number b) = v := by
  obtain ⟨hu, -, -⟩ := numbered_append.mp h
  have hbefore : u.filter (fun b => number a < number b) = [] := by
    apply List.filter_eq_nil_iff.mpr
    intro b hb
    have hle := hu.le_last hlast hb
    simp only [decide_eq_true_eq]
    omega
  have hafter : v.filter (fun b => number a < number b) = v := by
    apply List.filter_eq_self.mpr
    intro b hb
    have hlt := (List.pairwise_append.mp h.pairwise).2.2 a (List.mem_of_getLast? hlast) b hb
    simpa using hlt
  rw [List.filter_append, hbefore, hafter, List.nil_append]

end GraphSkillRuntime.NumberedLogs
