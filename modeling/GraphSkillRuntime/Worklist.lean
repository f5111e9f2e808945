import Mathlib.Data.Finset.Card
import Mathlib.Data.Multiset.AddSub
import Mathlib.Logic.Relation

/-! Searches with a worklist. Whichever item is taken next, what is found in the end is what can be reached. -/

namespace GraphSkillRuntime.Worklist

variable {α : Type}

structure Search (α : Type) where
  pending : Multiset α
  found : Finset α

variable [DecidableEq α]

inductive Turn (next : α → Set α) : Search α → Search α → Prop where
  | skip {item : α} {pending : Multiset α} {found : Finset α} (h : item ∈ found) :
      Turn next ⟨item ::ₘ pending, found⟩ ⟨pending, found⟩
  | take {item : α} {pending more : Multiset α} {found : Finset α} (h : item ∉ found)
      (hmore : ∀ x, x ∈ more ↔ x ∈ next item) : Turn next ⟨item ::ₘ pending, found⟩ ⟨more + pending, insert item found⟩

/-! The turns of a search that keeps lists. -/

theorem Turn.skip_head {next : α → Set α} {item : α} {queue found : List α} (h : item ∈ found) :
    Turn next ⟨(item :: queue : List α), found.toFinset⟩ ⟨queue, found.toFinset⟩ := by
  rw [← Multiset.cons_coe]
  exact .skip (List.mem_toFinset.mpr h)

theorem Turn.take_head {next : α → Set α} {item : α} {queue queued more found : List α} (h : item ∉ found)
    (hmore : ∀ x, x ∈ more ↔ x ∈ next item) (hqueued : queued.Perm (more ++ queue)) :
    Turn next ⟨(item :: queue : List α), found.toFinset⟩ ⟨queued, (found ++ [item]).toFinset⟩ := by
  have hpending : (queued : Multiset α) = more + queue := Multiset.coe_eq_coe.mpr hqueued
  have hfound : (found ++ [item]).toFinset = insert item found.toFinset := by
    rw [List.toFinset_append, List.toFinset_cons, List.toFinset_nil, Finset.union_comm]
    rfl
  rw [← Multiset.cons_coe, hpending, hfound]
  exact .take (fun hm => h (List.mem_toFinset.mp hm)) hmore

def Run (next : α → Set α) : Search α → Search α → Prop := Relation.ReflTransGen (Turn next)

/-- `x` is one of the starts or follows one of them. -/
def Reached (next : α → Set α) (starts : Set α) (x : α) : Prop :=
  ∃ s ∈ starts, Relation.ReflTransGen (fun a b => b ∈ next a) s x

variable {next : α → Set α} {starts : Set α} {s s' : Search α}

omit [DecidableEq α] in
theorem Reached.tail {x y : α} (h : Reached next starts x) (hy : y ∈ next x) : Reached next starts y := by
  obtain ⟨start, hstart, hpath⟩ := h
  exact ⟨start, hstart, hpath.tail hy⟩

structure Covers (next : α → Set α) (starts : Set α) (s : Search α) : Prop where
  pending : ∀ x ∈ s.pending, Reached next starts x
  found : ∀ x ∈ s.found, Reached next starts x
  starts : ∀ x ∈ starts, x ∈ s.pending ∨ x ∈ s.found
  closed : ∀ x ∈ s.found, ∀ y ∈ next x, y ∈ s.pending ∨ y ∈ s.found

omit [DecidableEq α] in
theorem covers_start (pending : Multiset α) : Covers next {x | x ∈ pending} ⟨pending, ∅⟩ where
  pending := fun x hx => ⟨x, hx, .refl⟩
  found := by simp
  starts := fun _ hx => .inl hx
  closed := by simp

theorem Covers.turn (hs : Covers next starts s) (h : Turn next s s') : Covers next starts s' := by
  cases h with
  | @skip item pending found hitem =>
    have hmove : ∀ x, x ∈ item ::ₘ pending ∨ x ∈ found → x ∈ pending ∨ x ∈ found := by
      rintro x (hx | hx)
      · rcases Multiset.mem_cons.mp hx with rfl | hx
        · exact .inr hitem
        · exact .inl hx
      · exact .inr hx
    constructor
    · exact fun x hx => hs.pending x (Multiset.mem_cons_of_mem hx)
    · exact hs.found
    · exact fun x hx => hmove x (hs.starts x hx)
    · exact fun x hx y hy => hmove y (hs.closed x hx y hy)
  | @take item pending more found hitem hmore =>
    have hreached := hs.pending item (Multiset.mem_cons_self ..)
    have hmove : ∀ x, x ∈ item ::ₘ pending ∨ x ∈ found → x ∈ more + pending ∨ x ∈ insert item found := by
      rintro x (hx | hx)
      · rcases Multiset.mem_cons.mp hx with rfl | hx
        · exact .inr (Finset.mem_insert_self ..)
        · exact .inl (Multiset.mem_add.mpr (.inr hx))
      · exact .inr (Finset.mem_insert_of_mem hx)
    constructor
    · intro x hx
      rcases Multiset.mem_add.mp hx with hx | hx
      · exact hreached.tail ((hmore x).mp hx)
      · exact hs.pending x (Multiset.mem_cons_of_mem hx)
    · intro x hx
      rcases Finset.mem_insert.mp hx with rfl | hx
      · exact hreached
      · exact hs.found x hx
    · exact fun x hx => hmove x (hs.starts x hx)
    · intro x hx y hy
      rcases Finset.mem_insert.mp hx with rfl | hx
      · exact .inl (Multiset.mem_add.mpr (.inl ((hmore y).mpr hy)))
      · exact hmove y (hs.closed x hx y hy)

theorem Covers.run (hs : Covers next starts s) (h : Run next s s') : Covers next starts s' := by
  induction h with
  | refl => exact hs
  | tail _ hturn ih => exact ih.turn hturn

omit [DecidableEq α] in
theorem Covers.mem_found (hs : Covers next starts s) (hdone : s.pending = 0) {x : α} :
    x ∈ s.found ↔ Reached next starts x := by
  have hnone : ∀ y, y ∉ s.pending := by simp [hdone]
  constructor
  · exact hs.found x
  · rintro ⟨start, hstart, hpath⟩
    induction hpath with
    | refl => exact (hs.starts start hstart).resolve_left (hnone _)
    | tail _ hstep ih => exact (hs.closed _ ih _ hstep).resolve_left (hnone _)

theorem Run.mem_found {pending : Multiset α} {found : Finset α} (h : Run next ⟨pending, ∅⟩ ⟨0, found⟩) {x : α} :
    x ∈ found ↔ Reached next {y | y ∈ pending} x :=
  ((covers_start pending).run h).mem_found rfl

/-! A search ends where the items are finitely many, though one turn may add any number of them again. -/

def Within (names : Finset α) (s : Search α) : Prop := ∀ x ∈ s.pending, x ∈ names

theorem Within.turn {names : Finset α} (hnext : ∀ a ∈ names, ∀ b ∈ next a, b ∈ names)
    (hs : Within names s) (h : Turn next s s') : Within names s' := by
  cases h with
  | skip _ => exact fun x hx => hs x (Multiset.mem_cons_of_mem hx)
  | @take item _ _ _ _ hmore =>
    intro x hx
    rcases Multiset.mem_add.mp hx with hx | hx
    · exact hnext item (hs item (Multiset.mem_cons_self ..)) x ((hmore x).mp hx)
    · exact hs x (Multiset.mem_cons_of_mem hx)

theorem Within.run {names : Finset α} (hnext : ∀ a ∈ names, ∀ b ∈ next a, b ∈ names) (hs : Within names s)
    (h : Run next s s') : Within names s' := by
  induction h with
  | refl => exact hs
  | tail _ hturn ih => exact ih.turn hnext hturn

theorem Within.turn_lt {names : Finset α} (hs : Within names s) (h : Turn next s s') :
    Prod.Lex (· < ·) (· < ·) ((names \ s'.found).card, s'.pending.card)
      ((names \ s.found).card, s.pending.card) := by
  cases h with
  | skip _ => exact Prod.Lex.right _ (by simp)
  | @take item _ _ found hitem _ =>
    apply Prod.Lex.left
    have hmem : item ∈ names \ found :=
      Finset.mem_sdiff.mpr ⟨hs item (Multiset.mem_cons_self ..), hitem⟩
    rw [Finset.sdiff_insert]
    exact Finset.card_erase_lt_of_mem hmem

theorem Within.ends {names : Finset α} (hnext : ∀ a ∈ names, ∀ b ∈ next a, b ∈ names)
    (hs : Within names s) : Acc (fun later earlier => Turn next earlier later) s := by
  have hwf : WellFounded (Prod.Lex (· < ·) (· < ·) : ℕ × ℕ → ℕ × ℕ → Prop) :=
    (Prod.lex Nat.lt_wfRel Nat.lt_wfRel).wf
  generalize hsize : ((names \ s.found).card, s.pending.card) = size
  induction size using hwf.induction generalizing s with
  | _ size ih =>
    subst hsize
    constructor
    intro s' hturn
    exact ih _ (hs.turn_lt hturn) (hs.turn hnext hturn) rfl

end GraphSkillRuntime.Worklist
