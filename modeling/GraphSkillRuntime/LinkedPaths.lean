import GraphSkillRuntime.OrderedDict
import Mathlib.Data.List.Induction

/-!
File systems with symbolic links: where the system finds a path, and the path that Python resolves without asking that
it exists.
-/

namespace GraphSkillRuntime.LinkedPaths

open OrderedDict

abbrev Path := List String

structure Target where
  absolute : Bool
  parts : List String

inductive Node (α : Type) where
  | dir
  | file (content : α)
  | link (target : Target)
  | special

def isPlain {α : Type} : Node α → Bool
  | .link _ => false
  | _ => true

def isDir {α : Type} : Node α → Bool
  | .dir => true
  | _ => false

structure FileSystem (α : Type) where
  nodes : Dict Path (Node α)
  root : (nodes.get? []).any isDir = true
  parents : ∀ p ∈ nodes.keys, p ≠ [] → (nodes.get? p.dropLast).any isDir = true
  named : ∀ p ∈ nodes.keys, ∀ x ∈ p, x ≠ "" ∧ x ≠ "." ∧ x ≠ ".."

def entriesOf {α : Type} [DecidableEq α] (paths : List (List α)) (p : List α) : List α :=
  paths.filterMap fun q => if q.dropLast = p then q.getLast? else none

theorem entry_eq {α : Type} [DecidableEq α] {p q : List α} {x : α}
    (h : (if q.dropLast = p then q.getLast? else none) = some x) : q = p ++ [x] := by
  split_ifs at h with hp
  obtain ⟨r, rfl⟩ := List.getLast?_eq_some_iff.mp h
  rw [← hp, List.dropLast_concat]

theorem mem_entriesOf {α : Type} [DecidableEq α] {paths : List (List α)} {p : List α} {x : α} :
    x ∈ entriesOf paths p ↔ p ++ [x] ∈ paths := by
  unfold entriesOf
  rw [List.mem_filterMap]
  constructor
  · rintro ⟨q, hq, hx⟩
    exact entry_eq hx ▸ hq
  · intro h
    exact ⟨p ++ [x], h, by simp⟩

theorem entriesOf_nodup {α : Type} [DecidableEq α] {paths : List (List α)} (h : paths.Nodup) (p : List α) :
    (entriesOf paths p).Nodup := by
  apply h.filterMap
  intro q r x hq hr
  rw [entry_eq (Option.mem_def.mp hq), entry_eq (Option.mem_def.mp hr)]

theorem entriesOf_pair {α : Type} [DecidableEq α] {paths : List (List α)} {p : List α} {x y : α}
    (h : [p ++ [x], p ++ [y]].Sublist paths) : [x, y].Sublist (entriesOf paths p) := by
  have hentries := h.filterMap fun q => if q.dropLast = p then q.getLast? else none
  simpa [entriesOf] using hentries

theorem not_sublist_swap {α : Type} {a b : α} {zs : List α} (hn : zs.Nodup) (h : [a, b].Sublist zs) :
    ¬ [b, a].Sublist zs := by
  intro h'
  induction zs with
  | nil => simp at h
  | cons z zs ih =>
    obtain ⟨hz, hzs⟩ := List.nodup_cons.mp hn
    cases h with
    | cons _ h =>
      cases h' with
      | cons _ h' => exact ih hzs h h'
      | cons_cons _ _ => exact hz (h.subset (by simp))
    | cons_cons _ _ =>
      cases h' with
      | cons _ h' => exact hz (h'.subset (by simp))
      | cons_cons _ h' => exact hz (h'.subset (by simp))

theorem pair_sublist_of_mem {α : Type} {a b : α} {xs : List α} (ha : a ∈ xs) (hb : b ∈ xs) (hne : a ≠ b) :
    [a, b].Sublist xs ∨ [b, a].Sublist xs := by
  obtain ⟨l, r, rfl⟩ := List.append_of_mem ha
  rcases List.mem_append.mp hb with hl | hr
  · right
    exact (List.singleton_sublist.mpr hl).append (List.singleton_sublist.mpr (by simp))
  · left
    have hbr : b ∈ r := by simpa [hne.symm] using hr
    exact ((List.singleton_sublist.mpr hbr).cons_cons a).trans (List.sublist_append_right _ _)

namespace FileSystem

variable {α : Type} (fs : FileSystem α)

/-- One part of a path. The system asks at every part for a directory, and Python's `realpath` passes over what is
missing. -/
def step (strict : Bool) (follow : Path → List String → Option Path) (p : Path) (part : String) : Option Path :=
  if strict && !(fs.nodes.get? p).any isDir then
    none
  else if part = "" ∨ part = "." then
    some p
  else if part = ".." then
    some p.dropLast
  else
    match fs.nodes.get? (p ++ [part]) with
    | some (.link target) => follow (if target.absolute then [] else p) target.parts
    | some _ => some (p ++ [part])
    | none => if strict then none else some (p ++ [part])

/-- The parts after `p`, with at most so many links inside each other. -/
def walk (strict : Bool) : ℕ → Path → List String → Option Path
  | 0, p, parts => parts.foldlM (fs.step strict fun _ _ => none) p
  | n + 1, p, parts => parts.foldlM (fs.step strict (walk strict n)) p

def depth : ℕ := fs.nodes.entries.length

def locate (p : Path) : Option Path := fs.walk true fs.depth [] p

/-- `os.path.realpath`, where it meets no loop of links. -/
def realpath (p : Path) : Option Path := fs.walk false fs.depth [] p

def stat (p : Path) : Option (Node α) := (fs.locate p).bind fs.nodes.get?

def Plain (p : Path) : Prop := (fs.nodes.get? p).any isPlain = true

variable {fs}

@[simp] theorem walk_nil (strict : Bool) (n : ℕ) (p : Path) : fs.walk strict n p [] = some p := by
  cases n <;> rfl

theorem walk_append (strict : Bool) (n : ℕ) (p : Path) (xs ys : List String) :
    fs.walk strict n p (xs ++ ys) = (fs.walk strict n p xs).bind fun q => fs.walk strict n q ys := by
  cases n <;> simp [walk, List.foldlM_append]

theorem step_strict {follow follow' : Path → List String → Option Path}
    (hf : ∀ p parts q, follow p parts = some q → follow' p parts = some q) {p q : Path} {part : String}
    (h : fs.step true follow p part = some q) : fs.step false follow' p part = some q := by
  unfold step at h ⊢
  split_ifs at h with hd hhere hup hmissing
  · simp [hhere, Option.some.inj h]
  · simp [hup, Option.some.inj h]
  · simp only [Bool.false_and, Bool.false_eq_true, if_false, if_neg hhere, if_neg hup]
    split at h
    · exact hf _ _ _ h
    · exact h
    · simp at h
  · exact absurd rfl hmissing

theorem walk_strict {n : ℕ} {p q : Path} {parts : List String} (h : fs.walk true n p parts = some q) :
    fs.walk false n p parts = some q := by
  induction n generalizing p q parts with
  | zero =>
    induction parts generalizing p with
    | nil => simpa using h
    | cons part parts ih =>
      simp only [walk, List.foldlM_cons, Option.bind_eq_bind, Option.bind_eq_some_iff] at h ih ⊢
      obtain ⟨r, hr, hq⟩ := h
      exact ⟨r, step_strict (by simp) hr, ih hq⟩
  | succ n ihn =>
    induction parts generalizing p with
    | nil => simpa using h
    | cons part parts ih =>
      simp only [walk, List.foldlM_cons, Option.bind_eq_bind, Option.bind_eq_some_iff] at h ih ⊢
      obtain ⟨r, hr, hq⟩ := h
      exact ⟨r, step_strict (fun _ _ _ => ihn) hr, ih hq⟩

theorem realpath_of_locate {p q : Path} (h : fs.locate p = some q) : fs.realpath p = some q := walk_strict h

theorem plain_root : fs.Plain [] := by
  have h := fs.root
  unfold Plain
  cases hn : fs.nodes.get? [] with
  | none => simp [hn] at h
  | some node => cases node <;> simp_all [isDir, isPlain]

theorem plain_of_dir {p : Path} (h : (fs.nodes.get? p).any isDir = true) : fs.Plain p := by
  unfold Plain
  cases hn : fs.nodes.get? p with
  | none => simp [hn] at h
  | some node => cases node <;> simp_all [isDir, isPlain]

theorem Plain.mem_keys {p : Path} (h : fs.Plain p) : p ∈ fs.nodes.keys := by
  unfold Plain at h
  rw [Dict.mem_keys]
  cases hn : fs.nodes.get? p with
  | none => simp [hn] at h
  | some node => rfl

theorem Plain.dropLast {p : Path} (h : fs.Plain p) : fs.Plain p.dropLast := by
  by_cases hp : p = []
  · simpa [hp] using plain_root
  · exact plain_of_dir (fs.parents p h.mem_keys hp)

theorem step_plain {follow : Path → List String → Option Path}
    (hf : ∀ p parts q, fs.Plain p → follow p parts = some q → fs.Plain q) {p q : Path} {part : String}
    (hp : fs.Plain p) (h : fs.step true follow p part = some q) : fs.Plain q := by
  unfold step at h
  split_ifs at h with hd hhere hup hmissing
  · exact Option.some.inj h ▸ hp
  · exact Option.some.inj h ▸ hp.dropLast
  · split at h
    · apply hf _ _ _ _ h
      split
      · exact plain_root
      · exact hp
    · rename_i node hnode hn
      obtain rfl := Option.some.inj h
      unfold Plain
      cases node <;> simp_all [isPlain]
    · simp at h
  · exact absurd rfl hmissing

theorem walk_invariant {strict : Bool} {P : Path → Prop}
    (hstep : ∀ follow : Path → List String → Option Path, (∀ p parts q, P p → follow p parts = some q → P q) →
      ∀ p part q, P p → fs.step strict follow p part = some q → P q)
    {n : ℕ} {p q : Path} {parts : List String} (hp : P p) (h : fs.walk strict n p parts = some q) : P q := by
  induction n generalizing p q parts with
  | zero =>
    induction parts generalizing p with
    | nil =>
      simp only [walk_nil, Option.some.injEq] at h
      exact h ▸ hp
    | cons part parts ih =>
      simp only [walk, List.foldlM_cons, Option.bind_eq_bind, Option.bind_eq_some_iff] at h ih
      obtain ⟨r, hr, hq⟩ := h
      exact ih (hstep _ (by simp) p part r hp hr) hq
  | succ n ihn =>
    induction parts generalizing p with
    | nil =>
      simp only [walk_nil, Option.some.injEq] at h
      exact h ▸ hp
    | cons part parts ih =>
      simp only [walk, List.foldlM_cons, Option.bind_eq_bind, Option.bind_eq_some_iff] at h ih
      obtain ⟨r, hr, hq⟩ := h
      exact ih (hstep _ (fun _ _ _ => ihn) p part r hp hr) hq

theorem walk_plain {n : ℕ} {p q : Path} {parts : List String} (hp : fs.Plain p)
    (h : fs.walk true n p parts = some q) : fs.Plain q :=
  walk_invariant (fun _ hf _ _ _ => step_plain hf) hp h

theorem locate_plain {p q : Path} (h : fs.locate p = some q) : fs.Plain q := walk_plain plain_root h

theorem walk_child {n : ℕ} {p : Path} {x : String} (h : fs.Plain (p ++ [x])) :
    fs.walk true n p [x] = some (p ++ [x]) := by
  have hdir := fs.parents _ h.mem_keys (by simp)
  obtain ⟨hempty, hdot, hup⟩ := fs.named _ h.mem_keys x (by simp)
  rw [List.dropLast_concat] at hdir
  unfold Plain at h
  cases hn : fs.nodes.get? (p ++ [x]) with
  | none => simp [hn] at h
  | some node => cases n <;> cases node <;> simp_all [walk, step, isPlain]

theorem locate_of_plain {p : Path} (h : fs.Plain p) : fs.locate p = some p := by
  unfold locate
  induction p using List.reverseRecOn with
  | nil => simp
  | append_singleton p x ih =>
    rw [walk_append, ih (by simpa using h.dropLast), Option.bind_some]
    exact walk_child h

theorem locate_append {p q : Path} (h : fs.locate p = some q) (xs : List String) :
    fs.locate (p ++ xs) = fs.locate (q ++ xs) := by
  have hq := locate_of_plain (locate_plain h)
  unfold locate at h hq ⊢
  rw [walk_append, walk_append, h, hq]

theorem step_entry {follow : Path → List String → Option Path} {p q : Path} {part : String}
    (h : fs.step true follow p part = some q) (hmissing : p ++ [part] ∉ fs.nodes.keys) :
    (fs.nodes.get? q).any isDir = true := by
  unfold step at h
  rw [Dict.mem_keys, Bool.not_eq_true, Option.isSome_eq_false_iff, Option.isNone_iff_eq_none] at hmissing
  simp only [hmissing] at h
  split_ifs at h with hd hhere hup
  · obtain rfl := Option.some.inj h
    simpa using hd
  · obtain rfl := Option.some.inj h
    by_cases hp : p = []
    · simpa [hp] using fs.root
    · have hkey : p ∈ fs.nodes.keys := by
        rw [Dict.mem_keys]
        cases hn : fs.nodes.get? p with
        | none => simp [hn] at hd
        | some node => rfl
      exact fs.parents p hkey hp

theorem entry_of_locate {p q : Path} {name : String} (hp : fs.Plain p) (h : fs.locate (p ++ [name]) = some q)
    (hq : (fs.nodes.get? q).any isDir = false) : p ++ [name] ∈ fs.nodes.keys := by
  by_contra hmissing
  have hwalk : fs.walk true fs.depth p [name] = some q := by
    have hl := locate_of_plain hp
    unfold locate at h hl
    rwa [walk_append, hl, Option.bind_some] at h
  have hdir : (fs.nodes.get? q).any isDir = true := by
    cases hn : fs.depth with
    | zero =>
      simp only [hn, walk, List.foldlM_cons, List.foldlM_nil, Option.bind_eq_bind, Option.bind_eq_some_iff] at hwalk
      obtain ⟨r, hr, he⟩ := hwalk
      exact Option.some.inj he ▸ step_entry hr hmissing
    | succ n =>
      simp only [hn, walk, List.foldlM_cons, List.foldlM_nil, Option.bind_eq_bind, Option.bind_eq_some_iff] at hwalk
      obtain ⟨r, hr, he⟩ := hwalk
      exact Option.some.inj he ▸ step_entry hr hmissing
  rw [hdir] at hq
  simp at hq

variable (fs) in
def LinkFree (p : Path) : Prop :=
  (∀ r, r <+: p → (fs.nodes.get? r).all isPlain = true) ∧ ∀ x ∈ p, x ≠ "" ∧ x ≠ "." ∧ x ≠ ".."

theorem linkFree_root : fs.LinkFree [] := by
  refine ⟨?_, by simp⟩
  intro r hr
  have h : fs.Plain [] := plain_root
  unfold Plain at h
  rw [List.prefix_nil.mp hr]
  cases hn : fs.nodes.get? [] <;> simp_all

theorem LinkFree.of_prefix {p q : Path} (h : fs.LinkFree q) (hp : p <+: q) : fs.LinkFree p :=
  ⟨fun r hr => h.1 r (hr.trans hp), fun x hx => h.2 x (hp.subset hx)⟩

theorem step_linkFree {follow : Path → List String → Option Path}
    (hf : ∀ p parts q, fs.LinkFree p → follow p parts = some q → fs.LinkFree q) {p q : Path} {part : String}
    (hp : fs.LinkFree p) (h : fs.step false follow p part = some q) : fs.LinkFree q := by
  unfold step at h
  simp only [Bool.false_and, Bool.false_eq_true, if_false] at h
  split_ifs at h with hhere hup
  · exact Option.some.inj h ▸ hp
  · exact Option.some.inj h ▸ hp.of_prefix (List.dropLast_prefix p)
  · have hnew : (fs.nodes.get? (p ++ [part])).all isPlain = true → fs.LinkFree (p ++ [part]) := by
      intro hplain
      constructor
      · intro r hr
        rcases List.prefix_concat_iff.mp hr with rfl | hr
        · exact hplain
        · exact hp.1 r hr
      · intro x hx
        rcases List.mem_append.mp hx with hx | hx
        · exact hp.2 x hx
        · obtain rfl := List.mem_singleton.mp hx
          exact ⟨fun he => hhere (.inl he), fun he => hhere (.inr he), hup⟩
    split at h
    · apply hf _ _ _ _ h
      split
      · exact linkFree_root
      · exact hp
    · rename_i node hnode hn
      obtain rfl := Option.some.inj h
      apply hnew
      cases node <;> simp_all [isPlain]
    · rename_i hn
      obtain rfl := Option.some.inj h
      exact hnew (by simp [hn])

theorem realpath_linkFree {p q : Path} (h : fs.realpath p = some q) : fs.LinkFree q :=
  walk_invariant (fun _ hf _ _ _ => step_linkFree hf) linkFree_root h

theorem walk_linkFree {n : ℕ} {p : Path} {x : String} (h : fs.LinkFree (p ++ [x])) :
    fs.walk false n p [x] = some (p ++ [x]) := by
  obtain ⟨hempty, hdot, hup⟩ := h.2 x (by simp)
  have hplain := h.1 (p ++ [x]) (List.prefix_refl _)
  cases hn : fs.nodes.get? (p ++ [x]) with
  | none => cases n <;> simp_all [walk, step]
  | some node => cases n <;> cases node <;> simp_all [walk, step, isPlain]

theorem realpath_of_linkFree {p : Path} (h : fs.LinkFree p) : fs.realpath p = some p := by
  unfold realpath
  induction p using List.reverseRecOn with
  | nil => simp
  | append_singleton p x ih =>
    rw [walk_append, ih (h.of_prefix (List.prefix_append _ _)), Option.bind_some]
    exact walk_linkFree h

theorem locate_of_linkFree {p q : Path} (hp : fs.LinkFree p) (h : fs.locate p = some q) : q = p :=
  (Option.some.inj ((realpath_of_linkFree hp).symm.trans (realpath_of_locate h))).symm

end FileSystem

end GraphSkillRuntime.LinkedPaths
