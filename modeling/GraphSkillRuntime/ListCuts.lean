import Mathlib.Data.List.Basic

/-! Cutting a list before each of its marked elements. -/

namespace GraphSkillRuntime.ListCuts

variable {α β : Type}

def cutAt (mark : α → Bool) : List α → List α × List (List α)
  | [] => ([], [])
  | x :: xs =>
    let rest := cutAt mark xs
    if mark x then ([], (x :: rest.1) :: rest.2) else (x :: rest.1, rest.2)

theorem cutAt_marked {mark : α → Bool} {x : α} (h : mark x = true) (xs : List α) :
    cutAt mark (x :: xs) = ([], (x :: (cutAt mark xs).1) :: (cutAt mark xs).2) := by
  simp [cutAt, h]

theorem cutAt_unmarked {mark : α → Bool} {x : α} (h : mark x = false) (xs : List α) :
    cutAt mark (x :: xs) = (x :: (cutAt mark xs).1, (cutAt mark xs).2) := by
  simp [cutAt, h]

theorem cutAt_flatten (mark : α → Bool) (xs : List α) :
    (cutAt mark xs).1 ++ (cutAt mark xs).2.flatten = xs := by
  induction xs with
  | nil => rfl
  | cons x xs ih =>
    cases h : mark x with
    | true => simp [cutAt_marked h, ih]
    | false => simp [cutAt_unmarked h, ih]

theorem cutAt_congr {mark mark' : α → Bool} {xs : List α} (h : ∀ x ∈ xs, mark x = mark' x) :
    cutAt mark xs = cutAt mark' xs := by
  induction xs with
  | nil => rfl
  | cons x xs ih =>
    rw [cutAt, cutAt, ih (fun y hy => h y (List.mem_cons_of_mem x hy)), h x List.mem_cons_self]

theorem cutAt_head {mark : α → Bool} {xs : List α} :
    ∀ piece ∈ (cutAt mark xs).2, ∃ x rest, piece = x :: rest ∧ mark x = true ∧ x ∈ xs := by
  induction xs with
  | nil => simp [cutAt]
  | cons x xs ih =>
    have hrest : ∀ piece ∈ (cutAt mark xs).2, ∃ y rest, piece = y :: rest ∧ mark y = true ∧ y ∈ x :: xs := by
      intro piece hpiece
      obtain ⟨y, rest, hpiece, hy, hmem⟩ := ih piece hpiece
      exact ⟨y, rest, hpiece, hy, List.mem_cons_of_mem x hmem⟩
    intro piece hpiece
    cases h : mark x with
    | true =>
      rw [cutAt_marked h] at hpiece
      rcases List.mem_cons.mp hpiece with rfl | hpiece
      · exact ⟨x, _, rfl, h, List.mem_cons_self⟩
      · exact hrest piece hpiece
    | false =>
      rw [cutAt_unmarked h] at hpiece
      exact hrest piece hpiece

theorem exists_piece {mark : α → Bool} {x : α} {xs : List α} (hmem : x ∈ xs) (hx : mark x = true) :
    ∃ rest, x :: rest ∈ (cutAt mark xs).2 := by
  induction xs with
  | nil => cases hmem
  | cons y xs ih =>
    cases h : mark y with
    | true =>
      rw [cutAt_marked h]
      rcases List.mem_cons.mp hmem with rfl | hmem
      · exact ⟨_, List.mem_cons_self⟩
      · obtain ⟨rest, hrest⟩ := ih hmem
        exact ⟨rest, List.mem_cons_of_mem _ hrest⟩
    | false =>
      rw [cutAt_unmarked h]
      rcases List.mem_cons.mp hmem with rfl | hmem
      · rw [hx] at h
        cases h
      · exact ih hmem

theorem cutAt_map (mark : β → Bool) (f : α → β) (xs : List α) :
    cutAt mark (xs.map f) = ((cutAt (mark ∘ f) xs).1.map f, (cutAt (mark ∘ f) xs).2.map (List.map f)) := by
  induction xs with
  | nil => rfl
  | cons x xs ih =>
    rw [List.map_cons]
    cases h : mark (f x) with
    | true => rw [cutAt_marked h, @cutAt_marked _ (mark ∘ f) x h, ih]; rfl
    | false => rw [cutAt_unmarked h, @cutAt_unmarked _ (mark ∘ f) x h, ih]; rfl

theorem cutAt_append (mark : α → Bool) (xs ys : List α) : ∃ early,
    (cutAt mark (xs ++ ys)).2 = early ++ (cutAt mark ys).2 ∧
    ((cutAt mark ys).1 = [] → (cutAt mark (xs ++ ys)).1 = (cutAt mark xs).1 ∧ early = (cutAt mark xs).2) ∧
    ∀ piece ∈ early, ∃ x rest, piece = x :: rest ∧ mark x = true ∧ x ∈ xs := by
  induction xs with
  | nil => exact ⟨[], by simp [cutAt]⟩
  | cons x xs ih =>
    obtain ⟨early, hpieces, hsame, hearly⟩ := ih
    have hold : ∀ piece ∈ early, ∃ y rest, piece = y :: rest ∧ mark y = true ∧ y ∈ x :: xs := by
      intro piece hpiece
      obtain ⟨y, rest, hpiece, hy, hmem⟩ := hearly piece hpiece
      exact ⟨y, rest, hpiece, hy, List.mem_cons_of_mem x hmem⟩
    rw [List.cons_append]
    cases h : mark x with
    | true =>
      rw [cutAt_marked h, cutAt_marked h]
      refine ⟨(x :: (cutAt mark (xs ++ ys)).1) :: early, by simp [hpieces], ?_, ?_⟩
      · intro hfirst
        obtain ⟨hone, hrest⟩ := hsame hfirst
        simp [hone, hrest]
      · rw [List.forall_mem_cons]
        exact ⟨⟨x, _, rfl, h, List.mem_cons_self⟩, hold⟩
    | false =>
      rw [cutAt_unmarked h, cutAt_unmarked h]
      refine ⟨early, hpieces, ?_, hold⟩
      intro hfirst
      obtain ⟨hone, hrest⟩ := hsame hfirst
      simp [hone, hrest]

theorem cutAt_first_unmarked {mark : α → Bool} {xs : List α} : ∀ x ∈ (cutAt mark xs).1, mark x = false := by
  induction xs with
  | nil => simp [cutAt]
  | cons x xs ih =>
    cases h : mark x with
    | true => simp [cutAt_marked h]
    | false =>
      rw [cutAt_unmarked h, List.forall_mem_cons]
      exact ⟨h, ih⟩

theorem cutAt_pieces_flatten (mark : α → Bool) (xs : List α) :
    cutAt mark (cutAt mark xs).2.flatten = ([], (cutAt mark xs).2) := by
  induction xs with
  | nil => rfl
  | cons x xs ih =>
    cases h : mark x with
    | true =>
      rw [cutAt_marked h, List.flatten_cons, List.cons_append, cutAt_flatten, cutAt_marked h]
    | false => rw [cutAt_unmarked h, ih]

theorem marks_eq {mark mark' : α → Bool} {text : α → List β} {xs : List α} (hne : ∀ x ∈ xs, text x ≠ [])
    (hfirst : (cutAt mark xs).1.flatMap text = (cutAt mark' xs).1.flatMap text)
    (hpieces : (cutAt mark xs).2.map (List.flatMap text) = (cutAt mark' xs).2.map (List.flatMap text)) :
    ∀ x ∈ xs, mark x = mark' x := by
  induction xs with
  | nil => simp
  | cons x xs ih =>
    rw [List.forall_mem_cons] at hne ⊢
    cases h : mark x with
    | true =>
      cases h' : mark' x with
      | true =>
        rw [cutAt_marked h, cutAt_marked h'] at hpieces
        obtain ⟨hpiece, hrest⟩ := List.cons.inj hpieces
        simp only [List.flatMap_cons, List.append_cancel_left_eq] at hpiece
        exact ⟨rfl, ih hne.2 hpiece hrest⟩
      | false =>
        rw [cutAt_marked h, cutAt_unmarked h', List.flatMap_nil, List.flatMap_cons] at hfirst
        exact absurd (List.append_eq_nil_iff.mp hfirst.symm).1 hne.1
    | false =>
      cases h' : mark' x with
      | true =>
        rw [cutAt_unmarked h, cutAt_marked h', List.flatMap_nil, List.flatMap_cons] at hfirst
        exact absurd (List.append_eq_nil_iff.mp hfirst).1 hne.1
      | false =>
        rw [cutAt_unmarked h, cutAt_unmarked h'] at hfirst hpieces
        simp only [List.flatMap_cons, List.append_cancel_left_eq] at hfirst
        exact ⟨rfl, ih hne.2 hfirst hpieces⟩

theorem length_flatten_le {l l' : List (List β)} (h : l.Sublist l') : l.flatten.length ≤ l'.flatten.length := by
  induction h with
  | slnil => simp
  | cons x _ ih => simp only [List.flatten_cons, List.length_append]; omega
  | cons_cons x _ ih => simp only [List.flatten_cons, List.length_append]; omega

theorem eq_of_sublist {l l' : List (List β)} (h : l.Sublist l') (hne : ∀ x ∈ l', x ≠ [])
    (hlen : l'.flatten.length ≤ l.flatten.length) : l = l' := by
  induction h with
  | slnil => rfl
  | @cons l l' x hsub ih =>
    have hle := length_flatten_le hsub
    have hx := List.length_pos_iff.mpr (hne x List.mem_cons_self)
    simp only [List.flatten_cons, List.length_append] at hlen
    omega
  | @cons_cons l l' x hsub ih =>
    simp only [List.flatten_cons, List.length_append] at hlen
    rw [ih (fun y hy => hne y (List.mem_cons_of_mem x hy)) (by omega)]

end GraphSkillRuntime.ListCuts
