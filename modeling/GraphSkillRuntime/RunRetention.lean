import GraphSkillRuntime.LinkedPaths
import Mathlib.Data.List.Sort
import Mathlib.Data.String.Basic

/-!
The run directories of a workspace: where the storage manager of a run puts its directory, and which directories it
removes when it asks for it. A manager makes directories and files and no links.
-/

namespace GraphSkillRuntime.RunRetention

open OrderedDict
open LinkedPaths (Path entriesOf mem_entriesOf entriesOf_nodup)

def partsOf (s : String) : List String :=
  ((s.toList.splitOn '/').map String.ofList).filter fun part => part ≠ "" && part ≠ "."

/-- `Path.__truediv__`: an absolute text takes the place of the path. -/
def join (parts : List String) (s : String) : List String :=
  if ['/'].isPrefixOf s.toList then partsOf s else parts ++ partsOf s

def isGolden (name : String) : Bool := ".golden".toList.isSuffixOf name.toList

def advance (here : Path) (part : String) : Path := if part = ".." then here.dropLast else here ++ [part]

def waysFrom : Path → List String → List Path
  | _, [] => []
  | here, part :: rest => advance here part :: waysFrom (advance here part) rest

def ways (parts : List String) : List Path := waysFrom [] parts

def place (parts : List String) : Path := parts.foldl advance []

inductive Node where
  | dir
  | file (content : String)
  deriving DecidableEq

structure Disk where
  nodes : Dict Path Node
  root : nodes.get? [] = some .dir
  parents : ∀ p ∈ nodes.keys, p ≠ [] → nodes.get? p.dropLast = some .dir

namespace Disk

variable (d : Disk)

def isDir (p : Path) : Bool := d.nodes.get? p = some .dir

def isFile (p : Path) : Bool := (d.nodes.get? p).any (· ≠ .dir)

def has (p : Path) : Bool := (d.nodes.get? p).isSome

def make (p : Path) (hnew : d.nodes.get? p = none) (hparent : d.nodes.get? p.dropLast = some .dir) : Disk where
  nodes := d.nodes.set p .dir
  root := by
    have hne : p ≠ [] := by
      rintro rfl
      rw [d.root] at hnew
      cases hnew
    rw [Dict.get?_set, if_neg hne, d.root]
  parents := by
    intro q hq hne
    have hnot : p ≠ q.dropLast → (d.nodes.set p .dir).get? q.dropLast = d.nodes.get? q.dropLast := fun h => by
      rw [Dict.get?_set, if_neg h]
    by_cases hdrop : p = q.dropLast
    · rw [Dict.get?_set, if_pos hdrop]
    · rw [hnot hdrop]
      by_cases hpq : p = q
      · rw [← hpq]
        exact hparent
      · rw [Dict.mem_keys, Dict.get?_set, if_neg hpq, ← Dict.mem_keys] at hq
        exact d.parents q hq hne

/-- `os.mkdir`, and the answer of `exist_ok`; where `creatable` is false the system refuses a new directory. -/
def ensureDir (creatable : Path → Bool) (p : Path) : Option Disk :=
  match hnode : d.nodes.get? p with
  | some .dir => some d
  | some (.file _) => none
  | none =>
    if h : d.nodes.get? p.dropLast = some .dir ∧ creatable p = true then some (d.make p hnode h.1) else none

def stays (stale : Path) (remains : Path → Bool) (p : Path) : Bool :=
  !stale.isPrefixOf p || d.nodes.keys.any fun q => remains q && p.isPrefixOf q

/-- `shutil.rmtree` of the entry, which leaves behind what the system does not let it remove. -/
def rmtree (level : Path) (name : String) (remains : Path → Bool) : Disk where
  nodes := d.nodes.restrict (d.stays (level ++ [name]) remains)
  root := by
    have hnot : (level ++ [name]).isPrefixOf [] = false := by
      cases level <;> rfl
    rw [Dict.get?_restrict, if_pos, d.root]
    rw [stays, hnot]
    rfl
  parents := by
    intro p hp hne
    rw [Dict.mem_keys, Dict.get?_restrict] at hp
    split_ifs at hp with hstays
    · rw [← Dict.mem_keys] at hp
      rw [Dict.get?_restrict, if_pos, d.parents p hp hne]
      have hup : p.dropLast <+: p := List.dropLast_prefix p
      simp only [stays, Bool.or_eq_true, Bool.not_eq_true', List.any_eq_true, Bool.and_eq_true,
        List.isPrefixOf_iff_prefix] at hstays ⊢
      cases hstays with
      | inl hout =>
        left
        rw [Bool.eq_false_iff] at hout ⊢
        intro hin
        exact hout (List.isPrefixOf_iff_prefix.mpr ((List.isPrefixOf_iff_prefix.mp hin).trans hup))
      | inr hleft =>
        obtain ⟨q, hq, hremains, hpq⟩ := hleft
        exact .inr ⟨q, hq, hremains, hup.trans hpq⟩
    · cases hp

def pathExists (parts : List String) : Bool := (ways parts).dropLast.all d.isDir && d.has (place parts)

end Disk

/-- `Path.mkdir` with `parents` and `exist_ok`: every directory on the way. -/
def makeAll (creatable : Path → Bool) : List Path → Disk → Bool × Disk
  | [], d => (true, d)
  | p :: ps, d =>
    match d.ensureDir creatable p with
    | none => (false, d)
    | some d => makeAll creatable ps d

def mkdir (creatable : Path → Bool) (parts : List String) (d : Disk) : Bool × Disk :=
  makeAll creatable (ways parts) d

structure Manager where
  workspaceRoot : Path
  skillId : String
  runId : String
  historyRetention : ℕ := 10
  pipelinePrefix : Option String := none
  root_resolved : ∀ part ∈ workspaceRoot, part ≠ ".."
  skill_named : skillId ≠ ""
  run_named : runId ≠ ""

namespace Manager

def group (m : Manager) : Option String := m.pipelinePrefix.filter (· ≠ "")

def runsDir (m : Manager) : List String :=
  let root := m.workspaceRoot ++ ["runs"]
  join (match m.group with | some name => join root name | none => root) m.skillId

def runDir (m : Manager) : List String := join m.runsDir m.runId

/-- `none` is the refusal to take another prefix. -/
def bind (m : Manager) : Option String → Option Manager
  | none => some m
  | some name => if m.pipelinePrefix.any (· ≠ name) then none else some { m with pipelinePrefix := some name }

def scope (m : Manager) : Option String × String := (m.group, m.skillId)

end Manager

def newestFirst (names : List String) : List String := names.insertionSort (· ≥ ·)

def regularRuns (level : Path) (d : Disk) : List String :=
  (entriesOf d.nodes.keys level).filter fun name => d.isDir (level ++ [name]) && !isGolden name

def prune (level : Path) (remains : Path → Bool) (names : List String) (d : Disk) : Disk :=
  names.foldl (fun d name => d.rmtree level name remains) d

/-- `none` is what the listing of a file raises. -/
def cleanupHistory (remains : Path → Bool) (m : Manager) (d : Disk) : Option Disk :=
  if m.historyRetention = 0 || !d.pathExists m.runsDir then some d
  else if !d.isDir (place m.runsDir) then none
  else
    let regular := newestFirst (regularRuns (place m.runsDir) d)
    some (prune (place m.runsDir) remains (regular.drop m.historyRetention) d)

structure Outcome where
  returned : Option Path
  manager : Manager
  disk : Disk

def getOutputDir (creatable remains : Path → Bool) (m : Manager) (pipelinePrefix : Option String) (d : Disk) :
    Outcome :=
  match m.bind pipelinePrefix with
  | none => ⟨none, m, d⟩
  | some m =>
    match mkdir creatable m.runDir d with
    | (false, d) => ⟨none, m, d⟩
    | (true, d) =>
      match cleanupHistory remains m d with
      | none => ⟨none, m, d⟩
      | some d => ⟨some (place m.runDir), m, d⟩

def begun (creatable : Path → Bool) (m : Manager) (pipelinePrefix : Option String) (d : Disk) : Disk :=
  match m.bind pipelinePrefix with
  | none => d
  | some m => (mkdir creatable m.runDir d).2

section Ways

variable {d : Disk} {creatable : Path → Bool}

theorem isDir_iff {p : Path} : d.isDir p = true ↔ d.nodes.get? p = some .dir := decide_eq_true_iff

theorem isDir_dropLast {p : Path} (h : d.isDir p = true) : d.isDir p.dropLast = true := by
  by_cases hne : p = []
  · rw [hne] at h ⊢
    exact h
  · have hkey : p ∈ d.nodes.keys := by
      rw [Dict.mem_keys, isDir_iff.mp h]
      rfl
    exact isDir_iff.mpr (d.parents p hkey hne)

theorem place_eq (here : Path) (parts : List String) :
    parts.foldl advance here = ((waysFrom here parts).getLast?).getD here := by
  induction parts generalizing here with
  | nil => rfl
  | cons part rest ih =>
    rw [List.foldl_cons, ih, waysFrom, List.getLast?_cons]
    rfl

theorem place_of_all {P : Path → Prop} {parts : List String} (hroot : P []) (h : ∀ p ∈ ways parts, P p) :
    P (place parts) := by
  rw [place, place_eq]
  cases hlast : (waysFrom [] parts).getLast? with
  | none => exact hroot
  | some p => exact h p (List.mem_of_getLast? hlast)

theorem all_ways_iff {P : Path → Prop} {parts : List String} (hroot : P []) :
    (∀ p ∈ ways parts, P p) ↔ (∀ p ∈ (ways parts).dropLast, P p) ∧ P (place parts) := by
  constructor
  · intro h
    exact ⟨fun p hp => h p ((List.dropLast_sublist _).subset hp), place_of_all hroot h⟩
  · rintro ⟨hways, hplace⟩ p hp
    rw [place, place_eq] at hplace
    rw [ways] at hways hp
    cases hlast : (waysFrom [] parts).getLast? with
    | none =>
      rw [List.getLast?_eq_none_iff.mp hlast] at hp
      cases hp
    | some q =>
      rw [hlast] at hplace
      obtain ⟨front, hfront⟩ := List.getLast?_eq_some_iff.mp hlast
      rw [hfront, List.dropLast_concat] at hways
      rw [hfront, List.mem_append, List.mem_singleton] at hp
      cases hp with
      | inl hp => exact hways p hp
      | inr hp => exact hp ▸ hplace

theorem ensureDir_spec {p : Path} {d' : Disk} (h : d.ensureDir creatable p = some d') :
    (d.isDir p = true ∨ d.nodes.get? p = none ∧ creatable p = true) ∧
      ∀ q, d'.nodes.get? q = if p = q then some .dir else d.nodes.get? q := by
  unfold Disk.ensureDir at h
  split at h
  · next hnode =>
    obtain rfl := Option.some.inj h
    refine ⟨.inl (isDir_iff.mpr hnode), fun q => ?_⟩
    split_ifs with hq
    · rw [← hq, hnode]
    · rfl
  · cases h
  · next hnode =>
    split_ifs at h with hparent
    obtain rfl := Option.some.inj h
    exact ⟨.inr ⟨hnode, hparent.2⟩, fun q => Dict.get?_set ..⟩

theorem ensureDir_advance {here : Path} {part : String} (hhere : d.isDir here = true)
    (h : d.isDir (advance here part) = true ∨
      d.nodes.get? (advance here part) = none ∧ creatable (advance here part) = true) :
    ∃ d', d.ensureDir creatable (advance here part) = some d' := by
  unfold Disk.ensureDir
  split
  · exact ⟨d, rfl⟩
  · next hnode =>
    rw [isDir_iff, hnode] at h
    rcases h with h | h
    · cases h
    · cases h.1
  · next hnode =>
    have hcreatable : creatable (advance here part) = true := by
      rcases h with h | h
      · rw [isDir_iff, hnode] at h
        cases h
      · exact h.2
    have hparent : d.nodes.get? (advance here part).dropLast = some .dir := by
      unfold advance at hnode ⊢
      split_ifs at hnode ⊢
      · rw [isDir_iff.mp (isDir_dropLast hhere)] at hnode
        cases hnode
      · rw [List.dropLast_concat]
        exact isDir_iff.mp hhere
    rw [dif_pos ⟨hparent, hcreatable⟩]
    exact ⟨_, rfl⟩

def Makeable (creatable : Path → Bool) (d : Disk) (ps : List Path) : Prop :=
  ∀ p ∈ ps, d.isDir p = true ∨ d.nodes.get? p = none ∧ creatable p = true

theorem makeAll_spec {here : Path} (parts : List String) (hhere : d.isDir here = true) :
    ((makeAll creatable (waysFrom here parts) d).1 = true ↔ Makeable creatable d (waysFrom here parts)) ∧
      (Makeable creatable d (waysFrom here parts) → ∀ q,
        (q ∈ waysFrom here parts → (makeAll creatable (waysFrom here parts) d).2.isDir q = true) ∧
        (q ∉ waysFrom here parts →
          (makeAll creatable (waysFrom here parts) d).2.nodes.get? q = d.nodes.get? q)) := by
  induction parts generalizing here d with
  | nil =>
    refine ⟨⟨fun _ => List.forall_mem_nil _, fun _ => rfl⟩, fun _ q => ⟨fun hq => ?_, fun _ => rfl⟩⟩
    exact absurd hq List.not_mem_nil
  | cons part rest ih =>
    rw [waysFrom, makeAll, Makeable, List.forall_mem_cons]
    cases hmade : d.ensureDir creatable (advance here part) with
    | none =>
      have hnot : ¬ (d.isDir (advance here part) = true ∨
          d.nodes.get? (advance here part) = none ∧ creatable (advance here part) = true) := by
        intro h
        obtain ⟨d', hd'⟩ := ensureDir_advance hhere h
        rw [hmade] at hd'
        cases hd'
      refine ⟨⟨fun h => ?_, fun h => absurd h.1 hnot⟩, fun h => absurd h.1 hnot⟩
      cases h
    | some d' =>
      obtain ⟨hok, hget⟩ := ensureDir_spec hmade
      have hdir : d'.isDir (advance here part) = true := by
        rw [isDir_iff, hget, if_pos rfl]
      obtain ⟨hiff, hspec⟩ := ih hdir
      have hsame : Makeable creatable d' (waysFrom (advance here part) rest) ↔
          Makeable creatable d (waysFrom (advance here part) rest) := by
        refine forall₂_congr fun q _ => ?_
        rw [isDir_iff, isDir_iff, hget]
        split_ifs with hq
        · rw [← hq, ← isDir_iff]
          exact ⟨fun _ => hok, fun _ => .inl rfl⟩
        · rfl
      refine ⟨hiff.trans (hsame.trans ⟨fun h => ⟨hok, h⟩, fun h => h.2⟩), fun h q => ?_⟩
      obtain ⟨hin, hout⟩ := hspec (hsame.mpr h.2) q
      by_cases hrest : q ∈ waysFrom (advance here part) rest
      · exact ⟨fun _ => hin hrest, fun hq => absurd (List.mem_cons_of_mem _ hrest) hq⟩
      · rw [isDir_iff, hout hrest, hget, List.mem_cons, or_iff_left hrest]
        exact ⟨fun hq => if_pos hq.symm, fun hq => if_neg fun heq => hq heq.symm⟩

end Ways

section Newer

variable {α : Type} [LinearOrder α]

theorem mem_drop_iff {l : List α} (h : l.Pairwise (· > ·)) {k : ℕ} {x : α} :
    x ∈ l.drop k ↔ x ∈ l ∧ ∃ newer : List α, newer.Nodup ∧ newer.length = k ∧ ∀ y ∈ newer, y ∈ l ∧ x < y := by
  constructor
  · intro hx
    have hlength : k ≤ l.length := by
      have := List.length_pos_of_mem hx
      rw [List.length_drop] at this
      omega
    refine ⟨List.mem_of_mem_drop hx, l.take k, ?_, ?_, ?_⟩
    · exact (h.imp fun hgt => ne_of_gt hgt).sublist (List.take_sublist k l)
    · rw [List.length_take, Nat.min_eq_left hlength]
    · intro y hy
      rw [← List.take_append_drop k l, List.pairwise_append] at h
      exact ⟨List.mem_of_mem_take hy, h.2.2 y hy x hx⟩
  · rintro ⟨hx, newer, hnodup, hlength, hnewer⟩
    obtain ⟨front, back, rfl⟩ := List.append_of_mem hx
    have hsub : newer ⊆ front := by
      intro y hy
      obtain ⟨hmem, hlt⟩ := hnewer y hy
      rw [List.mem_append, List.mem_cons] at hmem
      rcases hmem with hmem | rfl | hmem
      · exact hmem
      · exact absurd hlt (lt_irrefl _)
      · exact absurd hlt (lt_asymm ((List.pairwise_cons.mp (List.pairwise_append.mp h).2.1).1 y hmem))
    have hk : k ≤ front.length := hlength ▸ (hnodup.subperm hsub).length_le
    rw [List.drop_append_of_le_length hk]
    exact List.mem_append_right _ List.mem_cons_self

end Newer

section Retention

variable {creatable remains : Path → Bool} {m : Manager} {d : Disk} {level : Path}

theorem newestFirst_descending {names : List String} (h : names.Nodup) : (newestFirst names).Pairwise (· > ·) := by
  have hsorted : (newestFirst names).Pairwise (· ≥ ·) := List.pairwise_insertionSort _ _
  have hnodup : (newestFirst names).Nodup := (List.perm_insertionSort _ _).nodup_iff.mpr h
  exact hsorted.imp₂ (fun _ _ hge hne => lt_of_le_of_ne hge (Ne.symm hne)) hnodup

theorem mem_regularRuns {name : String} :
    name ∈ regularRuns level d ↔ d.isDir (level ++ [name]) = true ∧ isGolden name = false := by
  rw [regularRuns, List.mem_filter, mem_entriesOf, Bool.and_eq_true, Bool.not_eq_true']
  constructor
  · exact fun h => h.2
  · intro h
    refine ⟨?_, h⟩
    rw [Dict.mem_keys, isDir_iff.mp h.1]
    rfl

theorem mem_stale {k : ℕ} {name : String} :
    name ∈ (newestFirst (regularRuns level d)).drop k ↔ name ∈ regularRuns level d ∧
      ∃ newer : List String, newer.Nodup ∧ newer.length = k ∧ ∀ x ∈ newer, x ∈ regularRuns level d ∧ name < x := by
  have hnodup : (regularRuns level d).Nodup := (entriesOf_nodup d.nodes.nodup level).filter _
  have hmem (x : String) : x ∈ newestFirst (regularRuns level d) ↔ x ∈ regularRuns level d :=
    (List.perm_insertionSort _ _).mem_iff
  rw [mem_drop_iff (newestFirst_descending hnodup), hmem]
  simp only [hmem]

theorem get?_rmtree {name : String} {p : Path} : (d.rmtree level name remains).nodes.get? p =
    if d.stays (level ++ [name]) remains p then d.nodes.get? p else none := Dict.get?_restrict ..

theorem rmtree_frame {name : String} {p : Path} (h : ¬ level ++ [name] <+: p) :
    (d.rmtree level name remains).nodes.get? p = d.nodes.get? p := by
  have hout : (level ++ [name]).isPrefixOf p = false := by
    rw [Bool.eq_false_iff]
    exact fun hin => h (List.isPrefixOf_iff_prefix.mp hin)
  rw [get?_rmtree, if_pos]
  rw [Disk.stays, hout]
  rfl

theorem prune_frame {names : List String} {p : Path} (h : ∀ name ∈ names, ¬ level ++ [name] <+: p) :
    (prune level remains names d).nodes.get? p = d.nodes.get? p := by
  induction names generalizing d with
  | nil => rfl
  | cons name names ih =>
    obtain ⟨hname, hnames⟩ := List.forall_mem_cons.mp h
    exact (ih hnames).trans (rmtree_frame hname)

theorem prune_none {names : List String} {p : Path} (h : d.nodes.get? p = none) :
    (prune level remains names d).nodes.get? p = none := by
  induction names generalizing d with
  | nil => exact h
  | cons name names ih =>
    apply ih
    exact get?_rmtree.trans (by rw [h, ite_self])

theorem prune_gone {names : List String} {p : Path} {name : String} (hname : name ∈ names)
    (h : level ++ [name] <+: p) : (prune level (fun _ => false) names d).nodes.get? p = none := by
  induction names generalizing d with
  | nil => cases hname
  | cons first names ih =>
    rcases List.mem_cons.mp hname with rfl | hname
    · have hgone : d.stays (level ++ [name]) (fun _ => false) p = false := by
        rw [Disk.stays, List.isPrefixOf_iff_prefix.mpr h]
        simp
      have hnone : (d.rmtree level name fun _ => false).nodes.get? p = none := by
        rw [get?_rmtree, hgone, if_neg Bool.false_ne_true]
      change (prune level _ names (d.rmtree level name _)).nodes.get? p = none
      exact prune_none hnone
    · exact ih hname

def Standing (m : Manager) (d : Disk) (p : Path) : Prop := d.isDir p = true ∨ p ∈ ways m.runDir

def Regular (m : Manager) (d : Disk) (name : String) : Prop :=
  Standing m d (place m.runsDir ++ [name]) ∧ isGolden name = false

structure Stale (creatable : Path → Bool) (m : Manager) (d : Disk) (name : String) : Prop where
  counted : m.historyRetention ≠ 0
  made : Makeable creatable d (ways m.runDir)
  level : ∀ p ∈ ways m.runsDir, Standing m d p
  regular : Regular m d name
  newer : ∃ newer : List String, newer.Nodup ∧ newer.length = m.historyRetention ∧
    ∀ x ∈ newer, Regular m d x ∧ name < x

theorem isDir_root (d : Disk) : d.isDir [] = true := isDir_iff.mpr d.root

theorem mkdir_iff : (mkdir creatable m.runDir d).1 = true ↔ Makeable creatable d (ways m.runDir) :=
  (makeAll_spec m.runDir (isDir_root d)).1

theorem mkdir_isDir (h : Makeable creatable d (ways m.runDir)) (p : Path) :
    (mkdir creatable m.runDir d).2.isDir p = true ↔ Standing m d p := by
  obtain ⟨hin, hout⟩ := (makeAll_spec m.runDir (isDir_root d)).2 h p
  by_cases hp : p ∈ ways m.runDir
  · exact ⟨fun _ => .inr hp, fun _ => hin hp⟩
  · rw [isDir_iff, Standing, or_iff_left hp, isDir_iff]
    exact Eq.congr (hout hp) rfl

theorem mkdir_isFile (h : Makeable creatable d (ways m.runDir)) (p : Path) :
    (mkdir creatable m.runDir d).2.isFile p = d.isFile p := by
  obtain ⟨hin, hout⟩ := (makeAll_spec m.runDir (isDir_root d)).2 h p
  by_cases hp : p ∈ ways m.runDir
  · have hmade : (mkdir creatable m.runDir d).2.nodes.get? p = some .dir := isDir_iff.mp (hin hp)
    have hno : d.isFile p = false := by
      rw [Disk.isFile]
      rcases h p hp with hdir | hnone
      · rw [isDir_iff.mp hdir]
        rfl
      · rw [hnone.1]
        rfl
    rw [hno, Disk.isFile, hmade]
    rfl
  · exact congrArg (fun node => node.any (· ≠ .dir)) (hout hp)

theorem pathExists_iff (h : Makeable creatable d (ways m.runDir)) :
    ((mkdir creatable m.runDir d).2.pathExists m.runsDir = true ∧
      (mkdir creatable m.runDir d).2.isDir (place m.runsDir) = true) ↔ ∀ p ∈ ways m.runsDir, Standing m d p := by
  rw [all_ways_iff (.inl (isDir_root d)), Disk.pathExists, Bool.and_eq_true, List.all_eq_true, ← mkdir_isDir h]
  simp only [mkdir_isDir h]
  constructor
  · exact fun hexists => ⟨hexists.1.1, hexists.2⟩
  · rintro ⟨hways, hplace⟩
    refine ⟨⟨hways, ?_⟩, hplace⟩
    rw [Disk.has, isDir_iff.mp ((mkdir_isDir h _).mpr hplace)]
    rfl

theorem cleanupHistory_spec (h : Makeable creatable d (ways m.runDir)) :
    ∃ names, (∀ name, name ∈ names ↔ Stale creatable m d name) ∧ ∀ remains,
      (cleanupHistory remains m (mkdir creatable m.runDir d).2).getD (mkdir creatable m.runDir d).2 =
          prune (place m.runsDir) remains names (mkdir creatable m.runDir d).2 ∧
        (names ≠ [] → (cleanupHistory remains m (mkdir creatable m.runDir d).2).isSome) := by
  by_cases hcounted : m.historyRetention = 0
  · refine ⟨[], fun name => ⟨fun hname => absurd hname List.not_mem_nil, fun hs => absurd hcounted hs.counted⟩, ?_⟩
    intro remains
    rw [cleanupHistory, if_pos (by simp [hcounted])]
    exact ⟨rfl, fun _ => rfl⟩
  by_cases hlevel : ∀ p ∈ ways m.runsDir, Standing m d p
  · obtain ⟨hexists, hdir⟩ := (pathExists_iff h).mpr hlevel
    refine ⟨(newestFirst (regularRuns (place m.runsDir) (mkdir creatable m.runDir d).2)).drop m.historyRetention,
      fun name => ?_, fun remains => ?_⟩
    · have hregular (x : String) : x ∈ regularRuns (place m.runsDir) (mkdir creatable m.runDir d).2 ↔
          Regular m d x := by
        rw [mem_regularRuns, mkdir_isDir h]
        rfl
      rw [mem_stale]
      simp only [hregular]
      exact ⟨fun hname => ⟨hcounted, h, hlevel, hname.1, hname.2⟩, fun hs => ⟨hs.regular, hs.newer⟩⟩
    · rw [cleanupHistory, if_neg (by simp [hcounted, hexists]), if_neg (by simp [hdir])]
      exact ⟨rfl, fun _ => rfl⟩
  · refine ⟨[], fun name => ⟨fun hname => absurd hname List.not_mem_nil, fun hs => absurd hs.level hlevel⟩, ?_⟩
    intro remains
    refine ⟨?_, fun hne => absurd rfl hne⟩
    rw [← pathExists_iff h, not_and, Bool.not_eq_true] at hlevel
    rw [cleanupHistory]
    split_ifs with hskip hdir
    · rfl
    · rfl
    · simp only [Bool.or_eq_true, Bool.not_eq_true', not_or, Bool.not_eq_false] at hskip hdir
      rw [hlevel hskip.2] at hdir
      cases hdir

theorem getOutputDir_spec {m' : Manager} {pipelinePrefix : Option String} (hbind : m.bind pipelinePrefix = some m') :
    ∃ names, (∀ name, name ∈ names ↔ Stale creatable m' d name) ∧ ∀ remains,
      (getOutputDir creatable remains m pipelinePrefix d).manager = m' ∧
      (getOutputDir creatable remains m pipelinePrefix d).disk =
        prune (place m'.runsDir) remains names (begun creatable m pipelinePrefix d) ∧
      (names ≠ [] → (getOutputDir creatable remains m pipelinePrefix d).returned = some (place m'.runDir)) ∧
      ∀ p ∈ (getOutputDir creatable remains m pipelinePrefix d).returned,
        p = place m'.runDir ∧ (begun creatable m pipelinePrefix d).isDir p = true := by
  have hbegun : begun creatable m pipelinePrefix d = (mkdir creatable m'.runDir d).2 := by
    rw [begun, hbind]
  rw [hbegun]
  obtain ⟨done, made, hmade⟩ : ∃ done made, mkdir creatable m'.runDir d = (done, made) := ⟨_, _, rfl⟩
  have hdone : done = true ↔ Makeable creatable d (ways m'.runDir) := by
    rw [← mkdir_iff, hmade]
  cases done with
  | false =>
    have houtcome (remains : Path → Bool) : getOutputDir creatable remains m pipelinePrefix d = ⟨none, m', made⟩ := by
      simp only [getOutputDir, hbind, hmade]
    refine ⟨[], fun name => ⟨fun hname => absurd hname List.not_mem_nil, fun hs => ?_⟩, fun remains => ?_⟩
    · cases hdone.mpr hs.made
    · rw [houtcome, hmade]
      exact ⟨rfl, rfl, fun hne => absurd rfl hne, fun p hp => by cases hp⟩
  | true =>
    have h := hdone.mp rfl
    obtain ⟨names, hnames, hclean⟩ := cleanupHistory_spec h
    have hplace : made.isDir (place m'.runDir) = true := by
      have hdir := mkdir_isDir h (place m'.runDir)
      rw [hmade] at hdir
      exact hdir.mpr (place_of_all (.inl (isDir_root d)) fun p hp => .inr hp)
    rw [hmade] at hclean ⊢
    refine ⟨names, hnames, fun remains => ?_⟩
    obtain ⟨hdisk, hsome⟩ := hclean remains
    cases hcleaned : cleanupHistory remains m' made with
    | none =>
      have houtcome : getOutputDir creatable remains m pipelinePrefix d = ⟨none, m', made⟩ := by
        simp only [getOutputDir, hbind, hmade, hcleaned]
      rw [hcleaned] at hdisk hsome
      rw [houtcome]
      refine ⟨rfl, hdisk, fun hne => ?_, fun p hp => ?_⟩
      · cases hsome hne
      · cases hp
    | some cleaned =>
      have houtcome : getOutputDir creatable remains m pipelinePrefix d = ⟨some (place m'.runDir), m', cleaned⟩ := by
        simp only [getOutputDir, hbind, hmade, hcleaned]
      rw [hcleaned] at hdisk
      rw [houtcome]
      refine ⟨rfl, hdisk, fun _ => rfl, fun p hp => ?_⟩
      obtain rfl := Option.some.inj hp
      exact ⟨rfl, hplace⟩

end Retention

section Frame

def GoldenDir (p : Path) : Prop := p.getLast?.any isGolden = true

/-- `before` is the disk when the cleaning begins; the others are managers that have written runs. -/
structure Confined (others : List Manager) (before : Disk) (o : Outcome) : Prop where
  returned : ∀ p ∈ o.returned, o.disk.isDir p = true
  golden : ∀ q p, GoldenDir q → before.isDir q = true → q <+: p → before.has p = true → o.disk.has p = true
  others : ∀ w ∈ others, w.workspaceRoot = o.manager.workspaceRoot → w.scope ≠ o.manager.scope →
    ∀ p, place w.runDir <+: p → before.isFile p = true → o.disk.isFile p = true

structure Harmless (others : List Manager) (m : Manager) (d : Disk) (name : String) : Prop where
  returned : ¬ place m.runsDir ++ [name] <+: place m.runDir
  golden : ∀ q, GoldenDir q → Standing m d q →
    ¬ q <+: place m.runsDir ++ [name] ∧ ¬ place m.runsDir ++ [name] <+: q
  others : ∀ w ∈ others, w.workspaceRoot = m.workspaceRoot → w.scope ≠ m.scope →
    ∀ p, place w.runDir <+: p → d.isFile p = true → ¬ place m.runsDir ++ [name] <+: p

variable {others : List Manager} {creatable : Path → Bool} {m : Manager} {pipelinePrefix : Option String} {d : Disk}

theorem has_of_isDir {p : Path} (h : d.isDir p = true) : d.has p = true := by
  rw [Disk.has, isDir_iff.mp h]
  rfl

theorem confined_of_harmless {m' : Manager} (hbind : m.bind pipelinePrefix = some m')
    (h : ∀ name, Stale creatable m' d name → Harmless others m' d name) (remains : Path → Bool) :
    Confined others (begun creatable m pipelinePrefix d) (getOutputDir creatable remains m pipelinePrefix d) := by
  obtain ⟨names, hnames, hspec⟩ := @getOutputDir_spec creatable m d m' pipelinePrefix hbind
  obtain ⟨hmanager, hdisk, -, hreturned⟩ := hspec remains
  have hbegun : begun creatable m pipelinePrefix d = (mkdir creatable m'.runDir d).2 := by
    rw [begun, hbind]
  have hsame {p : Path} (hp : ∀ name ∈ names, ¬ place m'.runsDir ++ [name] <+: p) :
      (getOutputDir creatable remains m pipelinePrefix d).disk.nodes.get? p =
        (begun creatable m pipelinePrefix d).nodes.get? p := by
    rw [hdisk]
    exact prune_frame hp
  constructor
  · intro p hp
    obtain ⟨rfl, hdir⟩ := hreturned p hp
    rw [isDir_iff, hsame, ← isDir_iff, hdir]
    exact fun name hname => (h name ((hnames name).mp hname)).returned
  · intro q p hgolden hq hqp hp
    rw [Disk.has, hsame]
    · exact hp
    intro name hname hin
    have hstale := (hnames name).mp hname
    rw [hbegun, mkdir_isDir hstale.made] at hq
    obtain ⟨habove, hbelow⟩ := (h name hstale).golden q hgolden hq
    rcases List.prefix_or_prefix_of_prefix hqp hin with hcase | hcase
    · exact habove hcase
    · exact hbelow hcase
  · intro w hw hroot hscope p hwp hp
    rw [hmanager] at hroot hscope
    rw [Disk.isFile, hsame]
    · exact hp
    intro name hname hin
    have hstale := (hnames name).mp hname
    rw [hbegun, mkdir_isFile hstale.made] at hp
    exact (h name hstale).others w hw hroot hscope p hwp hp hin

theorem harmless_of_confined {m' : Manager} (hbind : m.bind pipelinePrefix = some m')
    (h : Confined others (begun creatable m pipelinePrefix d)
      (getOutputDir creatable (fun _ => false) m pipelinePrefix d)) {name : String}
    (hstale : Stale creatable m' d name) : Harmless others m' d name := by
  obtain ⟨names, hnames, hspec⟩ := @getOutputDir_spec creatable m d m' pipelinePrefix hbind
  obtain ⟨hmanager, hdisk, hreturned, -⟩ := hspec fun _ => false
  have hname := (hnames name).mpr hstale
  have hbegun : begun creatable m pipelinePrefix d = (mkdir creatable m'.runDir d).2 := by
    rw [begun, hbind]
  have hgone {p : Path} (hp : place m'.runsDir ++ [name] <+: p) :
      (getOutputDir creatable (fun _ => false) m pipelinePrefix d).disk.nodes.get? p = none := by
    rw [hdisk]
    exact prune_gone hname hp
  have hno {p : Path} (hp : place m'.runsDir ++ [name] <+: p) :
      ¬ (getOutputDir creatable (fun _ => false) m pipelinePrefix d).disk.has p = true := by
    rw [Disk.has, hgone hp]
    exact Bool.false_ne_true
  have hstanding {p : Path} (hp : Standing m' d p) : (begun creatable m pipelinePrefix d).isDir p = true := by
    rw [hbegun]
    exact (mkdir_isDir hstale.made p).mpr hp
  constructor
  · intro hin
    exact hno hin (has_of_isDir (h.returned _ (hreturned (List.ne_nil_of_mem hname))))
  · intro q hgolden hq
    constructor
    · intro habove
      exact hno (List.prefix_refl _) (h.golden q _ hgolden (hstanding hq) habove
        (has_of_isDir (hstanding hstale.regular.1)))
    · intro hbelow
      exact hno hbelow (h.golden q q hgolden (hstanding hq) (List.prefix_refl q) (has_of_isDir (hstanding hq)))
  · intro w hw hroot hscope p hwp hp hin
    have hfile : (begun creatable m pipelinePrefix d).isFile p = true := by
      rw [hbegun, mkdir_isFile hstale.made]
      exact hp
    have hafter := h.others w hw (hmanager ▸ hroot) (hmanager ▸ hscope) p hwp hfile
    rw [Disk.isFile, hgone hin] at hafter
    cases hafter

/-- A call is confined, whatever the system lets it remove, if and only if no entry that is too old holds anything of
its own run, of a golden run or of another skill or prefix. -/
theorem get_output_dir_confined_iff (others : List Manager) (creatable : Path → Bool) (m : Manager)
    (pipelinePrefix : Option String) (d : Disk) :
    (∀ remains, Confined others (begun creatable m pipelinePrefix d)
      (getOutputDir creatable remains m pipelinePrefix d)) ↔
      ∀ m', m.bind pipelinePrefix = some m' → ∀ name, Stale creatable m' d name → Harmless others m' d name := by
  constructor
  · intro h m' hbind name hstale
    exact harmless_of_confined hbind (h fun _ => false) hstale
  · intro h remains
    cases hbind : m.bind pipelinePrefix with
    | some m' => exact confined_of_harmless hbind (h m' hbind) remains
    | none =>
      have houtcome : getOutputDir creatable remains m pipelinePrefix d = ⟨none, m, d⟩ := by
        rw [getOutputDir, hbind]
      have hbegun : begun creatable m pipelinePrefix d = d := by
        rw [begun, hbind]
      rw [houtcome, hbegun]
      refine ⟨fun p hp => ?_, fun _ _ _ _ _ hp => hp, fun _ _ _ _ _ _ hp => hp⟩
      cases hp

structure PlainName (s : String) : Prop where
  part : '/' ∉ s.toList
  ne_empty : s ≠ ""
  ne_dot : s ≠ "."
  ne_up : s ≠ ".."

theorem join_plain {parts : List String} {s : String} (h : PlainName s) : join parts s = parts ++ [s] := by
  have hrelative : ¬ ['/'].isPrefixOf s.toList = true := by
    intro habsolute
    exact h.part ((List.isPrefixOf_iff_prefix.mp habsolute).subset (List.mem_singleton_self _))
  rw [join, if_neg hrelative, partsOf, List.splitOn_eq_singleton h.part, List.map_singleton, String.ofList_toList]
  simp [h.ne_empty, h.ne_dot]

theorem place_eq_self {parts : List String} (h : ∀ part ∈ parts, part ≠ "..") : place parts = parts := by
  have hfold (here : Path) : parts.foldl advance here = here ++ parts := by
    induction parts generalizing here with
    | nil => exact (List.append_nil here).symm
    | cons part rest ih =>
      obtain ⟨hpart, hrest⟩ := List.forall_mem_cons.mp h
      rw [List.foldl_cons, ih hrest, advance, if_neg hpart, List.append_assoc]
      rfl
  exact hfold []

theorem returned_harmless_iff (h : PlainName m.runId) {name : String} :
    ¬ place m.runsDir ++ [name] <+: place m.runDir ↔ name ≠ m.runId := by
  have hplace : place m.runDir = place m.runsDir ++ [m.runId] := by
    rw [Manager.runDir, join_plain h, place, List.foldl_append]
    exact if_neg h.ne_up
  rw [hplace, List.prefix_append_right_inj, List.cons_prefix_cons]
  simp

structure Plain (m : Manager) : Prop where
  skill : PlainName m.skillId
  run : PlainName m.runId
  group : ∀ name ∈ m.group, PlainName name

theorem Plain.place_runsDir (h : Plain m) :
    place m.runsDir = m.workspaceRoot ++ "runs" :: (m.group.toList ++ [m.skillId]) := by
  have hruns : m.runsDir = m.workspaceRoot ++ "runs" :: (m.group.toList ++ [m.skillId]) := by
    unfold Manager.runsDir
    cases hgroup : m.group with
    | none => simp [join_plain h.skill]
    | some name => simp [join_plain h.skill, join_plain (h.group name hgroup)]
  rw [hruns, place_eq_self]
  intro part hpart
  simp only [List.mem_append, List.mem_cons, Option.mem_toList, List.not_mem_nil, or_false] at hpart
  rcases hpart with hroot | rfl | hgroup | rfl
  · exact m.root_resolved part hroot
  · decide
  · exact (h.group part hgroup).ne_up
  · exact h.skill.ne_up

theorem Plain.place_runDir (h : Plain m) : place m.runDir = place m.runsDir ++ [m.runId] := by
  rw [Manager.runDir, join_plain h.run, place, List.foldl_append]
  exact if_neg h.run.ne_up

theorem others_harmless {w : Manager} (hm : Plain m) (hw : Plain w) (hroot : w.workspaceRoot = m.workspaceRoot)
    (hscope : w.scope ≠ m.scope) (habove : m.group = none → w.group ≠ some m.skillId)
    (hbelow : w.group = none → m.group ≠ some w.skillId ∨ w.runId ≠ m.skillId) {name : String} {p : Path}
    (hp : place w.runDir <+: p) : ¬ place m.runsDir ++ [name] <+: p := by
  intro hin
  have hends : m.group.toList ++ [m.skillId, name] <+: w.group.toList ++ [w.skillId, w.runId] ∨
      w.group.toList ++ [w.skillId, w.runId] <+: m.group.toList ++ [m.skillId, name] := by
    have hcomparable := List.prefix_or_prefix_of_prefix hin hp
    rw [hw.place_runDir, hw.place_runsDir, hm.place_runsDir, hroot] at hcomparable
    simpa [List.prefix_append_right_inj, List.cons_prefix_cons] using hcomparable
  rw [Manager.scope, Manager.scope] at hscope
  cases hgroup : m.group with
  | none =>
    cases hother : w.group with
    | none =>
      rw [hgroup, hother] at hends hscope
      simp only [Option.toList_none, List.nil_append, List.cons_prefix_cons] at hends
      rcases hends with hends | hends
      · exact hscope (by rw [hends.1])
      · exact hscope (by rw [hends.1])
    | some a =>
      rw [hgroup, hother] at hends
      simp only [Option.toList_none, Option.toList_some, List.nil_append, List.singleton_append,
        List.cons_prefix_cons] at hends
      rcases hends with hends | hends
      · exact habove hgroup (by rw [hother, hends.1])
      · exact habove hgroup (by rw [hother, hends.1])
  | some a =>
    cases hother : w.group with
    | none =>
      rw [hgroup, hother] at hends
      simp only [Option.toList_none, Option.toList_some, List.nil_append, List.singleton_append,
        List.cons_prefix_cons] at hends
      rcases hends with hends | hends
      · exact (hbelow hother).elim (fun hne => hne (by rw [hgroup, hends.1])) fun hne => hne hends.2.1.symm
      · exact (hbelow hother).elim (fun hne => hne (by rw [hgroup, hends.1])) fun hne => hne hends.2.1
    | some b =>
      rw [hgroup, hother] at hends hscope
      simp only [Option.toList_some, List.singleton_append, List.cons_prefix_cons] at hends
      rcases hends with hends | hends
      · exact hscope (by rw [hends.1, hends.2.1])
      · exact hscope (by rw [hends.1, hends.2.1])

end Frame

/-! The name of one skill as the prefix of another. -/

def storyManager (runId : String) (h : runId ≠ "") : Manager :=
  { workspaceRoot := ["ws"], skillId := "story", runId, historyRetention := 1
    root_resolved := by decide, skill_named := by decide, run_named := h }

def artManager : Manager :=
  { workspaceRoot := ["ws"], skillId := "art", runId := "run-1", pipelinePrefix := some "story"
    root_resolved := by decide, skill_named := by decide, run_named := by decide }

def artDisk : Disk where
  nodes := ⟨[([], .dir), (["ws"], .dir), (["ws", "runs"], .dir), (["ws", "runs", "story"], .dir),
    (["ws", "runs", "story", "art"], .dir), (["ws", "runs", "story", "art", "run-0.golden"], .dir),
    (["ws", "runs", "story", "art", "run-1"], .dir),
    (["ws", "runs", "story", "art", "run-1", "cover.txt"], .file "cover")], by decide⟩
  root := rfl
  parents := by decide

def storyOutcome (runId : String) (h : runId ≠ "") : Outcome :=
  getOutputDir (fun _ => true) (fun _ => false) (storyManager runId h) none artDisk

/-- The file of the other skill and the golden run are removed, and under a run id that comes before the name of the
other skill the directory that is returned. -/
theorem story_call_removes_art :
    ¬ (∀ remains, Confined [artManager] (begun (fun _ => true) (storyManager "run-2" (by decide)) none artDisk)
      (getOutputDir (fun _ => true) remains (storyManager "run-2" (by decide)) none artDisk)) ∧
    (storyOutcome "run-2" (by decide)).disk.has ["ws", "runs", "story", "art", "run-0.golden"] = false ∧
    (storyOutcome "20260401" (by decide)).returned = some ["ws", "runs", "story", "20260401"] ∧
    (storyOutcome "20260401" (by decide)).disk.isDir ["ws", "runs", "story", "20260401"] = false := by
  refine ⟨fun h => ?_, by decide, by decide, by decide⟩
  have hfile := (h fun _ => false).others artManager (List.mem_singleton_self _) (by decide) (by decide)
    ["ws", "runs", "story", "art", "run-1", "cover.txt"] (by decide) (by decide)
  exact absurd hfile (by decide)

end GraphSkillRuntime.RunRetention
