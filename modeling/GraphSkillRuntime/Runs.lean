import Mathlib.Data.List.Forall2
import Mathlib.Tactic.Common

/-!
Runs of a partial step function, with a guard that every step of the run has to meet, and folds of a
total one, a register that the last writer decides among them. Two logs written side by side weave, and a
list of computations succeeds when each of them does.
-/

namespace GraphSkillRuntime.Runs

variable {σ α : Type} {step : σ → α → Option σ} {guard : σ → α → Prop}

inductive Run (step : σ → α → Option σ) (guard : σ → α → Prop) : σ → List α → σ → Prop where
  | nil (s : σ) : Run step guard s [] s
  | cons {s t u : σ} {a : α} {as : List α} (hg : guard s a) (hs : step s a = some t)
      (hr : Run step guard t as u) : Run step guard s (a :: as) u

def exec (step : σ → α → Option σ) : σ → List α → Option σ
  | s, [] => some s
  | s, a :: as => (step s a).bind (exec step · as)

theorem Run.invariant {I : σ → Prop} (hI : ∀ s a t, I s → guard s a → step s a = some t → I t)
    {s t : σ} {as : List α} (h : Run step guard s as t) (hs : I s) : I t := by
  induction h with
  | nil s => exact hs
  | cons hg hstep _ ih => exact ih (hI _ _ _ hs hg hstep)

theorem Run.of_exec {s t : σ} {as : List α} (hg : ∀ s, ∀ a ∈ as, guard s a)
    (h : exec step s as = some t) : Run step guard s as t := by
  induction as generalizing s with
  | nil =>
    obtain rfl := Option.some.inj h
    exact .nil s
  | cons a as ih =>
    obtain ⟨u, hu, hr⟩ := Option.bind_eq_some_iff.mp h
    exact .cons (hg s a (List.mem_cons_self ..)) hu
      (ih (fun s b hb => hg s b (List.mem_cons_of_mem a hb)) hr)

theorem Run.exec_eq {s t : σ} {as : List α} (h : Run step guard s as t) : exec step s as = some t := by
  induction h with
  | nil s => rfl
  | cons _ hstep _ ih =>
    rw [exec, hstep]
    exact ih

section Folds

variable {f : σ → α → σ} {I P : σ → Prop} {Q : α → Prop} {as : List α} {s : σ}

theorem foldl_invariant (hI : ∀ s, ∀ a ∈ as, I s → I (f s a)) (hs : I s) : I (as.foldl f s) := by
  induction as generalizing s with
  | nil => exact hs
  | cons a as ih =>
    apply ih
    · exact fun s b hb => hI s b (List.mem_cons_of_mem a hb)
    · exact hI s a (List.mem_cons_self ..) hs

theorem foldl_and_iff (h : ∀ s, ∀ a ∈ as, P (f s a) ↔ P s ∧ Q a) :
    P (as.foldl f s) ↔ P s ∧ ∀ a ∈ as, Q a := by
  induction as generalizing s with
  | nil => simp
  | cons a as ih =>
    rw [List.foldl_cons, ih (fun s b hb => h s b (List.mem_cons_of_mem a hb)), h s a (List.mem_cons_self ..),
      List.forall_mem_cons, and_assoc]

theorem foldl_or_iff_of (hI : ∀ s, ∀ a ∈ as, I s → I (f s a))
    (h : ∀ s, ∀ a ∈ as, I s → (P (f s a) ↔ P s ∨ Q a)) (hs : I s) :
    P (as.foldl f s) ↔ P s ∨ ∃ a ∈ as, Q a := by
  induction as generalizing s with
  | nil => simp
  | cons a as ih =>
    rw [List.foldl_cons, ih (fun s b hb => hI s b (List.mem_cons_of_mem a hb))
      (fun s b hb => h s b (List.mem_cons_of_mem a hb)) (hI s a (List.mem_cons_self ..) hs),
      h s a (List.mem_cons_self ..) hs, or_assoc]
    simp

theorem foldl_or_iff (h : ∀ s, ∀ a ∈ as, P (f s a) ↔ P s ∨ Q a) :
    P (as.foldl f s) ↔ P s ∨ ∃ a ∈ as, Q a :=
  foldl_or_iff_of (I := fun _ => True) (fun _ _ _ _ => trivial) (fun s a ha _ => h s a ha) trivial

end Folds

section LastWriter

variable {β : Type} {write : α → Option β} {P : β → Prop} {as : List α} {init : β}

theorem foldl_lastWriter (write : α → Option β) (as : List α) (init : β) :
    (∃ a ∈ as, write a = some (as.foldl (fun b a => (write a).getD b) init)) ∨
      (∀ a ∈ as, write a = none) ∧ as.foldl (fun b a => (write a).getD b) init = init := by
  induction as generalizing init with
  | nil => simp
  | cons a as ih =>
    rw [List.foldl_cons]
    rcases ih ((write a).getD init) with ⟨b, hb, hw⟩ | ⟨hnone, hkeep⟩
    · exact Or.inl ⟨b, List.mem_cons_of_mem a hb, hw⟩
    · rw [hkeep]
      cases ha : write a with
      | some w => exact Or.inl ⟨a, List.mem_cons_self .., ha⟩
      | none => exact Or.inr ⟨List.forall_mem_cons.mpr ⟨ha, hnone⟩, rfl⟩

theorem forall_perm_foldl_lastWriter_iff (hinit : (∀ a ∈ as, write a = none) → P init) :
    (∀ order : List α, order.Perm as → P (order.foldl (fun b a => (write a).getD b) init)) ↔
      ∀ a ∈ as, ∀ w, write a = some w → P w := by
  constructor
  · intro h a ha w hw
    obtain ⟨l, r, rfl⟩ := List.append_of_mem ha
    have hperm : (l ++ r ++ [a]).Perm (l ++ a :: r) := by
      rw [List.append_assoc]
      exact List.Perm.append_left l List.perm_append_comm
    have hlast := h _ hperm
    rwa [List.foldl_append, List.foldl_cons, List.foldl_nil, hw] at hlast
  · intro h order hperm
    rcases foldl_lastWriter write order init with ⟨a, ha, hw⟩ | ⟨hnone, hkeep⟩
    · exact h a (hperm.mem_iff.mp ha) _ hw
    · rw [hkeep]
      exact hinit fun a ha => hnone a (hperm.mem_iff.mpr ha)

theorem foldl_slot {σ : Type} {f : σ → α → σ} {slot : σ → β} (h : ∀ s a, slot (f s a) = (write a).getD (slot s))
    (as : List α) (s : σ) : slot (as.foldl f s) = (as.filterMap write).getLast?.getD (slot s) := by
  induction as generalizing s with
  | nil => rfl
  | cons a as ih =>
    rw [List.foldl_cons, ih, h]
    cases ha : write a with
    | none => simp [ha]
    | some b => cases hlast : (as.filterMap write).getLast? <;> simp [ha, hlast, List.getLast?_cons]

end LastWriter

theorem forall_splits_cons {P : List α → α → Prop} {a : α} {as : List α} :
    (∀ before b after, a :: as = before ++ b :: after → P before b) ↔
      P [] a ∧ ∀ before b after, as = before ++ b :: after → P (a :: before) b := by
  constructor
  · intro h
    exact ⟨h [] a as rfl, fun before b after hsplit => h (a :: before) b after (congrArg (a :: ·) hsplit)⟩
  · rintro ⟨hfirst, hrest⟩ before b after hsplit
    cases before with
    | nil =>
      obtain ⟨rfl, -⟩ := List.cons.inj hsplit
      exact hfirst
    | cons c before =>
      obtain ⟨rfl, htail⟩ := List.cons.inj hsplit
      exact hrest before b after htail

section Weaving

variable {p : α → Bool} {schedule : List Bool} {u v : List α}

def weave : List Bool → List α → List α → List α
  | true :: schedule, a :: u, v => a :: weave schedule u v
  | false :: schedule, u, b :: v => b :: weave schedule u v
  | _, u, v => u ++ v

theorem weave_nil (u v : List α) : weave [] u v = u ++ v := by
  simp [weave]

theorem mem_weave {a : α} : a ∈ weave schedule u v ↔ a ∈ u ∨ a ∈ v := by
  fun_induction weave schedule u v with
  | case1 schedule a u v ih => simp only [List.mem_cons, ih, or_assoc]
  | case2 schedule u b v ih =>
    simp only [List.mem_cons, ih]
    exact or_left_comm
  | case3 => exact List.mem_append

theorem filter_weave_left (hv : ∀ a ∈ v, p a = false) :
    (weave schedule u v).filter p = u.filter p := by
  fun_induction weave schedule u v with
  | case1 schedule a u v ih => rw [List.filter_cons, List.filter_cons, ih hv]
  | case2 schedule u b v ih =>
    have hb : p b = false := hv b (List.mem_cons_self ..)
    rw [List.filter_cons, hb, ih fun a ha => hv a (List.mem_cons_of_mem b ha)]
    rfl
  | case3 => simpa using hv

theorem filter_weave_right (hu : ∀ a ∈ u, p a = false) :
    (weave schedule u v).filter p = v.filter p := by
  fun_induction weave schedule u v with
  | case1 schedule a u v ih =>
    have ha : p a = false := hu a (List.mem_cons_self ..)
    rw [List.filter_cons, ha, ih fun b hb => hu b (List.mem_cons_of_mem a hb)]
    rfl
  | case2 schedule u b v ih => rw [List.filter_cons, List.filter_cons, ih hu]
  | case3 => simpa using hu

theorem mem_of_middle {q : α → Prop} {before after middle rest : List α} {a first last : α}
    (h : before ++ a :: after = first :: middle ++ last :: rest) (ha : q a) (hfirst : ¬ q first)
    (hlast : ¬ q last) (hrest : ∀ b ∈ rest, ¬ q b) :
    first ∈ before ∧ a ∈ middle ∧ last ∈ after := by
  cases before with
  | nil =>
    simp only [List.nil_append, List.cons_append, List.cons.injEq] at h
    exact absurd (h.1 ▸ ha) hfirst
  | cons b before =>
    simp only [List.cons_append, List.cons.injEq] at h
    obtain ⟨rfl, h⟩ := h
    refine ⟨List.mem_cons_self .., ?_⟩
    rcases List.append_eq_append_iff.mp h with ⟨u, hmiddle, hu⟩ | ⟨u, -, hu⟩
    · cases u with
      | nil =>
        simp only [List.nil_append, List.cons.injEq] at hu
        exact absurd (hu.1 ▸ ha) hlast
      | cons c u =>
        simp only [List.cons_append, List.cons.injEq] at hu
        rw [hmiddle, hu.1, hu.2]
        simp
    · have hmem : a ∈ last :: rest := by
        rw [hu]
        simp
      rcases List.mem_cons.mp hmem with rfl | hmem
      · exact absurd ha hlast
      · exact absurd ha (hrest a hmem)

end Weaving

end GraphSkillRuntime.Runs

namespace GraphSkillRuntime

theorem bind_ok {ε α β : Type} {x : Except ε α} {f : α → Except ε β} {b : β}
    (h : (x >>= f) = .ok b) : ∃ a, x = .ok a ∧ f a = .ok b := by
  cases x with
  | error e => simp [bind, Except.bind] at h
  | ok a => exact ⟨a, rfl, h⟩

theorem map_eq_ok {ε α β : Type} {f : α → β} {e : Except ε α} {b : β} (h : e.map f = .ok b) :
    ∃ a, e = .ok a ∧ f a = b := by
  cases e with
  | error x => cases h
  | ok a => exact ⟨a, rfl, Except.ok.inj h⟩

theorem foldlM_invariant {α β ε : Type} (P : β → Prop) {f : β → α → Except ε β}
    (hf : ∀ b a c, P b → f b a = .ok c → P c) {xs : List α} {b c : β} (hb : P b)
    (h : xs.foldlM f b = .ok c) : P c := by
  induction xs generalizing b with
  | nil =>
    obtain rfl := Except.ok.inj h
    exact hb
  | cons x xs ih =>
    rw [List.foldlM_cons] at h
    obtain ⟨d, hd, h⟩ := bind_ok h
    exact ih (hf b x d hb hd) h

theorem mapM_ok_iff {α β ε : Type} {f : α → Except ε β} {xs : List α} {ys : List β} :
    xs.mapM f = .ok ys ↔ List.Forall₂ (fun x y => f x = .ok y) xs ys := by
  induction xs generalizing ys with
  | nil =>
    rw [List.mapM_nil, List.forall₂_nil_left_iff]
    exact ⟨fun h => (Except.ok.inj h).symm, fun h => h ▸ rfl⟩
  | cons x xs ih =>
    rw [List.mapM_cons]
    cases hx : f x with
    | error e =>
      constructor
      · intro h
        cases h
      · rintro (_ | ⟨h, _⟩)
        rw [hx] at h
        cases h
    | ok y =>
      cases hxs : xs.mapM f with
      | error e =>
        constructor
        · intro h
          cases h
        · rintro (_ | ⟨_, h⟩)
          rw [ih.2 h] at hxs
          cases hxs
      | ok zs =>
        constructor
        · intro h
          rw [← Except.ok.inj h]
          exact .cons hx (ih.1 hxs)
        · rintro (_ | ⟨h, hrest⟩)
          rw [hx] at h
          rw [ih.2 hrest] at hxs
          rw [Except.ok.inj h, ← Except.ok.inj hxs]
          rfl

section Forall₂

variable {α β γ : Type} {R : α → β → Prop} {as : List α} {bs : List β}

theorem exists_mem_of_forall₂ (h : List.Forall₂ R as bs) {b : β} (hb : b ∈ bs) : ∃ a ∈ as, R a b := by
  induction h with
  | nil => cases hb
  | @cons a b' as bs hab _ ih =>
    rcases List.mem_cons.mp hb with rfl | hb
    · exact ⟨a, List.mem_cons_self .., hab⟩
    · obtain ⟨a', ha', hab'⟩ := ih hb
      exact ⟨a', List.mem_cons_of_mem _ ha', hab'⟩

theorem exists_zip_of_forall₂ (h : List.Forall₂ R as bs) {a : α} (ha : a ∈ as) :
    ∃ b, (a, b) ∈ as.zip bs ∧ R a b := by
  induction h with
  | nil => cases ha
  | cons hr _ ih =>
    rcases List.mem_cons.mp ha with rfl | ha
    · exact ⟨_, List.mem_cons_self .., hr⟩
    · obtain ⟨b, hb, hr⟩ := ih ha
      exact ⟨b, List.mem_cons_of_mem _ hb, hr⟩

theorem forall_mem_iff_of_forall₂ {P : α → Prop} {Q : β → Prop} (h : List.Forall₂ R as bs)
    (hPQ : ∀ a ∈ as, ∀ b, R a b → (P a ↔ Q b)) : (∀ a ∈ as, P a) ↔ ∀ b ∈ bs, Q b := by
  induction h with
  | nil => simp
  | @cons a b as bs hab _ ih =>
    rw [List.forall_mem_cons, List.forall_mem_cons, hPQ a (List.mem_cons_self ..) b hab,
      ih (fun a ha => hPQ a (List.mem_cons_of_mem _ ha))]

theorem exists_forall₂_iff : (∃ bs, List.Forall₂ R as bs) ↔ ∀ a ∈ as, ∃ b, R a b := by
  constructor
  · rintro ⟨bs, h⟩ a ha
    obtain ⟨b, -, hab⟩ := exists_mem_of_forall₂ h.flip ha
    exact ⟨b, hab⟩
  · intro h
    induction as with
    | nil => exact ⟨[], .nil⟩
    | cons a as ih =>
      rw [List.forall_mem_cons] at h
      obtain ⟨b, hab⟩ := h.1
      obtain ⟨bs, hbs⟩ := ih h.2
      exact ⟨b :: bs, .cons hab hbs⟩

theorem forall₂_imp_mem {S : α → β → Prop} (h : List.Forall₂ R as bs) (himp : ∀ a ∈ as, ∀ b ∈ bs, R a b → S a b) :
    List.Forall₂ S as bs := by
  induction h with
  | nil => exact .nil
  | cons hab _ ih =>
    exact .cons (himp _ List.mem_cons_self _ List.mem_cons_self hab)
      (ih fun a ha b hb => himp a (List.mem_cons_of_mem _ ha) b (List.mem_cons_of_mem _ hb))

theorem pairwise_of_forall₂ {P : α → α → Prop} {Q : β → β → Prop} (h : List.Forall₂ R as bs)
    (hPQ : ∀ a a' b b', R a b → R a' b' → P a a' → Q b b') (has : as.Pairwise P) : bs.Pairwise Q := by
  induction h with
  | nil => exact .nil
  | cons hab hrest ih =>
    rw [List.pairwise_cons] at has ⊢
    refine ⟨fun b' hb' => ?_, ih has.2⟩
    obtain ⟨a', ha', hab'⟩ := exists_mem_of_forall₂ hrest hb'
    exact hPQ _ _ _ _ hab hab' (has.1 a' ha')

theorem map_eq_of_forall₂ {f : α → γ} {g : β → γ} (h : List.Forall₂ R as bs)
    (hfg : ∀ a b, R a b → g b = f a) : bs.map g = as.map f := by
  induction h with
  | nil => rfl
  | cons hab _ ih => rw [List.map_cons, List.map_cons, hfg _ _ hab, ih]

end Forall₂

end GraphSkillRuntime
