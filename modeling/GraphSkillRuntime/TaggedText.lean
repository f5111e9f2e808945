import Mathlib.Data.List.Infix
import Mathlib.Tactic.Common

/-!
Texts with tagged elements: what a search for the elements of one kind finds, from left to right and without overlap,
and when these are all the elements that the text opens.
-/

namespace GraphSkillRuntime.TaggedText

structure Markup (α τ β : Type) where
  opens : τ → List α → Bool
  element : τ → List α → Option (β × List α)
  opens_nil : ∀ t, opens t [] = false
  opens_of_element : ∀ t s b rest, element t s = some (b, rest) → opens t s = true
  rest_suffix : ∀ t s b rest, element t s = some (b, rest) → rest <:+ s.tail

variable {α τ β : Type} (M : Markup α τ β)

/-- The matches of one kind behind the next `skip` characters: where each begins, and its content. -/
def search (t : τ) : ℕ → List α → List (List α × β)
  | _, [] => []
  | skip + 1, _ :: s => search t skip s
  | 0, c :: s =>
    match M.element t (c :: s) with
    | some (b, rest) => (c :: s, b) :: search t (s.length - rest.length) s
    | none => search t 0 s

def finditer (t : τ) (text : List α) : List (List α × β) := search M t 0 text

def marks (t : τ) (text : List α) : List (List α) := text.tails.filter (M.opens t)

def Unclosed (text : List α) : Prop := ∃ s t, s <:+ text ∧ M.opens t s = true ∧ M.element t s = none

def Nested (text : List α) : Prop :=
  ∃ s t b rest, s <:+ text ∧ M.element t s = some (b, rest) ∧
    ∃ u t', u <:+ s.tail ∧ M.opens t' u = true ∧ ¬ u <:+ rest

def Separate (text : List α) : Prop :=
  ∀ s t, s <:+ text → M.opens t s = true →
    ∃ b rest, M.element t s = some (b, rest) ∧ ∀ u t', u <:+ s.tail → M.opens t' u = true → u <:+ rest

variable {M}

theorem search_skip (t : τ) (skip : ℕ) (s : List α) : search M t skip s = finditer M t (s.drop skip) := by
  induction skip generalizing s with
  | zero => rfl
  | succ skip ih =>
    cases s with
    | nil => rfl
    | cons c s => exact ih s

theorem finditer_cons_of_element {t : τ} {c : α} {s rest : List α} {b : β}
    (h : M.element t (c :: s) = some (b, rest)) : finditer M t (c :: s) = (c :: s, b) :: finditer M t rest := by
  obtain ⟨before, hbefore⟩ := M.rest_suffix t _ b rest h
  rw [List.tail_cons] at hbefore
  subst hbefore
  rw [finditer, search, h]
  simp only [search_skip, List.length_append, Nat.add_sub_cancel, List.drop_left]

theorem finditer_cons_of_none {t : τ} {c : α} {s : List α} (h : M.element t (c :: s) = none) :
    finditer M t (c :: s) = finditer M t s := by
  rw [finditer, search, h]
  rfl

theorem search_induction {t : τ} {P : List α → Prop} (hnil : P [])
    (helement : ∀ c s b rest, M.element t (c :: s) = some (b, rest) → P rest → P (c :: s))
    (hnone : ∀ c s, M.element t (c :: s) = none → P s → P (c :: s)) (text : List α) : P text := by
  induction hn : text.length using Nat.strong_induction_on generalizing text with
  | _ n ih =>
    subst hn
    cases text with
    | nil => exact hnil
    | cons c s =>
      cases h : M.element t (c :: s) with
      | none => exact hnone c s h (ih s.length (by simp) s rfl)
      | some e =>
        have hlen := (M.rest_suffix t _ e.1 e.2 h).length_le
        rw [List.tail_cons] at hlen
        exact helement c s e.1 e.2 h (ih e.2.length (by simp only [List.length_cons]; omega) e.2 rfl)

theorem separate_iff {text : List α} : Separate M text ↔ ¬ Unclosed M text ∧ ¬ Nested M text := by
  constructor
  · intro h
    constructor
    · rintro ⟨s, t, hs, hopen, hnone⟩
      obtain ⟨b, rest, helement, -⟩ := h s t hs hopen
      simp [hnone] at helement
    · rintro ⟨s, t, b, rest, hs, helement, u, t', hu, hopen, hout⟩
      obtain ⟨b', rest', helement', hin⟩ := h s t hs (M.opens_of_element t s b rest helement)
      rw [helement, Option.some.injEq, Prod.mk.injEq] at helement'
      exact hout (helement'.2 ▸ hin u t' hu hopen)
  · rintro ⟨hclosed, hflat⟩ s t hs hopen
    cases helement : M.element t s with
    | none => exact absurd ⟨s, t, hs, hopen, helement⟩ hclosed
    | some e =>
      refine ⟨e.1, e.2, rfl, fun u t' hu hopen' => ?_⟩
      by_contra hout
      exact hflat ⟨s, t, e.1, e.2, hs, helement, u, t', hu, hopen', hout⟩

theorem separate_of_tails {text : List α} (tags : List τ) (htags : ∀ t, t ∈ tags)
    (h : ∀ s ∈ text.tails, ∀ t ∈ tags, M.opens t s = true → ∃ e ∈ M.element t s,
      ∀ u ∈ s.tail.tails, ∀ t' ∈ tags, M.opens t' u = true → u <:+ e.2) : Separate M text := by
  intro s t hs hopen
  obtain ⟨e, he, hin⟩ := h s ((List.mem_tails _ _).mpr hs) t (htags t) hopen
  exact ⟨e.1, e.2, he, fun u t' hu => hin u ((List.mem_tails _ _).mpr hu) t' (htags t')⟩

theorem Separate.of_suffix {s text : List α} (h : Separate M text) (hs : s <:+ text) : Separate M s :=
  fun u t hu => h u t (hu.trans hs)

theorem marks_nil (t : τ) : marks M t [] = [] := by simp [marks, M.opens_nil]

theorem marks_cons (t : τ) (c : α) (s : List α) :
    marks M t (c :: s) = if M.opens t (c :: s) then (c :: s) :: marks M t s else marks M t s := by
  simp only [marks, List.tails, List.filter_cons]

theorem marks_skip {t : τ} {s rest : List α} (hrest : rest <:+ s)
    (h : ∀ u, u <:+ s → M.opens t u = true → u <:+ rest) : marks M t s = marks M t rest := by
  induction s with
  | nil => rw [List.suffix_nil.mp hrest]
  | cons c s ih =>
    rcases List.suffix_cons_iff.mp hrest with rfl | hrest'
    · rfl
    · have hclosed : M.opens t (c :: s) = false := by
        rw [Bool.eq_false_iff]
        intro hopen
        have hlen := (h (c :: s) List.suffix_rfl hopen).length_le
        have hlen' := hrest'.length_le
        simp only [List.length_cons] at hlen
        omega
      rw [marks_cons, hclosed, if_neg Bool.false_ne_true]
      exact ih hrest' fun u hu => h u (hu.trans (List.suffix_cons c s))

theorem finditer_eq_marks (t : τ) (text : List α) (h : Separate M text) :
    (finditer M t text).map Prod.fst = marks M t text := by
  induction text using search_induction (M := M) (t := t) with
  | hnil =>
    rw [marks_nil]
    rfl
  | helement c s b rest helement ih =>
    have hopen := M.opens_of_element t _ b rest helement
    have hsuffix := M.rest_suffix t _ b rest helement
    obtain ⟨b', rest', helement', hin⟩ := h _ t List.suffix_rfl hopen
    rw [helement, Option.some.injEq, Prod.mk.injEq] at helement'
    obtain ⟨-, rfl⟩ := helement'
    have hskip : marks M t s = marks M t rest := marks_skip hsuffix fun u hu hopen' => hin u t hu hopen'
    rw [finditer_cons_of_element helement, List.map_cons,
      ih (h.of_suffix (hsuffix.trans (List.suffix_cons c s))), marks_cons, if_pos hopen, hskip]
  | hnone c s hnone ih =>
    have hclosed : M.opens t (c :: s) = false := by
      rw [Bool.eq_false_iff]
      intro hopen
      obtain ⟨b, rest, helement, -⟩ := h _ t List.suffix_rfl hopen
      simp [hnone] at helement
    rw [finditer_cons_of_none hnone, marks_cons, hclosed, if_neg Bool.false_ne_true]
    exact ih (h.of_suffix (List.suffix_cons c s))

theorem element_of_mem_finditer {t : τ} {text s : List α} {b : β} (h : (s, b) ∈ finditer M t text) :
    ∃ rest, M.element t s = some (b, rest) := by
  induction text using search_induction (M := M) (t := t) with
  | hnil => simp [finditer, search] at h
  | helement c s' b' rest helement ih =>
    rw [finditer_cons_of_element helement] at h
    rcases List.mem_cons.mp h with he | hmem
    · obtain ⟨rfl, rfl⟩ := Prod.mk.inj he
      exact ⟨rest, helement⟩
    · exact ih hmem
  | hnone c s' hnone ih =>
    rw [finditer_cons_of_none hnone] at h
    exact ih h

theorem finditer_contents (t : τ) (text : List α) (h : Separate M text) :
    (finditer M t text).map (fun m => some m.2) = (marks M t text).map fun s => (M.element t s).map Prod.fst := by
  rw [← finditer_eq_marks t text h, List.map_map]
  apply List.map_congr_left
  rintro ⟨s, b⟩ hm
  obtain ⟨rest, helement⟩ := element_of_mem_finditer hm
  simp [helement]

end GraphSkillRuntime.TaggedText
