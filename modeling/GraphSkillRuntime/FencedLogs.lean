import Mathlib.Logic.Relation
import Mathlib.Tactic.Common

/-!
Logs that one holder at a time writes to. Each grant of the log has a fence, its number; a writer that shows an older
fence, or one that has been given back, is turned away.
-/

namespace GraphSkillRuntime.FencedLogs

structure FencedLog (κ σ : Type) where
  grants : List κ
  held : Bool
  entries : List (ℕ × σ)

variable {κ σ : Type}

namespace FencedLog

def empty : FencedLog κ σ := ⟨[], false, []⟩

inductive Move (l : FencedLog κ σ) : FencedLog κ σ → Prop
  | grant (holder : κ) : Move l { l with grants := l.grants ++ [holder], held := true }
  | write (content : σ) (hheld : l.held = true) :
      Move l { l with entries := l.entries ++ [(l.grants.length, content)] }
  | release : Move l { l with held := false }

def Moves : FencedLog κ σ → FencedLog κ σ → Prop := Relation.ReflTransGen Move

def Admits (l : FencedLog κ σ) (fence : ℕ) : Prop := l.held = true ∧ fence = l.grants.length

structure Sound (l : FencedLog κ σ) : Prop where
  granted : l.held = true → l.grants ≠ []
  fenced : ∀ e ∈ l.entries, 1 ≤ e.1 ∧ e.1 ≤ l.grants.length
  ordered : l.entries.Pairwise fun e f => e.1 ≤ f.1

theorem sound_empty : (empty : FencedLog κ σ).Sound := ⟨nofun, nofun, List.Pairwise.nil⟩

variable {l m : FencedLog κ σ}

theorem Move.sound (h : Move l m) (hl : l.Sound) : m.Sound := by
  cases h with
  | grant holder =>
    refine ⟨?_, ?_, hl.ordered⟩
    · intro _
      exact List.append_ne_nil_of_right_ne_nil _ (List.cons_ne_nil holder [])
    · intro e he
      have hfence := hl.fenced e he
      rw [List.length_append]
      omega
  | write content hheld =>
    have hpos := List.length_pos_iff.mpr (hl.granted hheld)
    refine ⟨hl.granted, ?_, ?_⟩
    · intro e he
      rcases List.mem_append.mp he with hold | hnew
      · exact hl.fenced e hold
      · obtain rfl := List.mem_singleton.mp hnew
        exact ⟨hpos, Nat.le_refl _⟩
    · apply List.pairwise_append.mpr
      refine ⟨hl.ordered, List.pairwise_singleton _ _, ?_⟩
      intro e he f hf
      obtain rfl := List.mem_singleton.mp hf
      exact (hl.fenced e he).2
  | release => exact ⟨nofun, hl.fenced, hl.ordered⟩

theorem Move.grants_grow (h : Move l m) : l.grants <+: m.grants := by
  cases h with
  | grant holder => exact List.prefix_append _ _
  | _ => exact List.prefix_rfl

theorem Move.entries_grow (h : Move l m) : l.entries <+: m.entries := by
  cases h with
  | write content hheld => exact List.prefix_append _ _
  | _ => exact List.prefix_rfl

theorem Move.not_admits (h : Move l m) {fence : ℕ} (hfence : fence ≤ l.grants.length) (hl : ¬ l.Admits fence) :
    ¬ m.Admits fence := by
  intro hm
  cases h with
  | grant holder =>
    have heq := hm.2
    rw [List.length_append, List.length_singleton] at heq
    omega
  | write content hheld => exact hl hm
  | release => cases hm.1

theorem Moves.grants_grow (h : Moves l m) : l.grants <+: m.grants := by
  induction h with
  | refl => exact List.prefix_rfl
  | tail _ hmove ih => exact ih.trans hmove.grants_grow

theorem Moves.entries_grow (h : Moves l m) : l.entries <+: m.entries := by
  induction h with
  | refl => exact List.prefix_rfl
  | tail _ hmove ih => exact ih.trans hmove.entries_grow

theorem Moves.not_admits (h : Moves l m) {fence : ℕ} (hfence : fence ≤ l.grants.length) (hl : ¬ l.Admits fence) :
    ¬ m.Admits fence := by
  induction h with
  | refl => exact hl
  | tail hmoves hmove ih =>
    have hlength := (Moves.grants_grow hmoves).length_le
    exact hmove.not_admits (Nat.le_trans hfence hlength) ih

end FencedLog

end GraphSkillRuntime.FencedLogs
