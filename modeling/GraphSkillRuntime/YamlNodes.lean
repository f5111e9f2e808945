import GraphSkillRuntime.Runs
import GraphSkillRuntime.YamlModels

/-!
The nodes of a YAML document and the data that a reader constructs of them. Two readers of one document
differ in what they make of a plain scalar, and in the keys and mappings that they take.
-/

namespace GraphSkillRuntime.YamlNodes

open PyData YamlModels

inductive Style where
  | plain
  | single
  | double
  deriving DecidableEq

structure Scalar where
  style : Style
  text : String
  line : ℕ

inductive Node where
  | scalar (s : Scalar)
  | sequence (items : List Node)
  | mapping (members : List (Node × Node))

def beginsWithLetter (s : String) : Bool := s.toList.head?.any Char.isAlpha

def Names (n : String) (node : Node) : Prop := ∃ s, node = .scalar s ∧ s.text = n

def Unique (n : String) (members : List (Node × Node)) : Prop :=
  members.Pairwise fun m m' => Names n m.1 → ¬Names n m'.1

section

variable {F : Type}

theorem str?_eq_some_iff {k : Key} {n : String} : k.str? = some n ↔ k = .str n := by
  cases k <;> simp [Key.str?]

theorem lookup_of_distinct {kvs : List (Key × Data F)} {n : String} {v : Data F}
    (hkvs : kvs.Pairwise fun e e' => e.1 = .str n → e'.1 ≠ .str n) (h : (.str n, v) ∈ kvs) :
    lookup kvs n = some v := by
  induction kvs with
  | nil => cases h
  | cons e kvs ih =>
    obtain ⟨k, w⟩ := e
    rw [List.pairwise_cons] at hkvs
    rw [lookup]
    rcases List.mem_cons.1 h with heq | h
    · obtain ⟨rfl, rfl⟩ := Prod.mk.inj heq
      exact if_pos rfl
    · have hk : k.str? ≠ some n := fun hk => hkvs.1 _ h (str?_eq_some_iff.1 hk) rfl
      rw [if_neg hk, ih hkvs.2 h]

/-- A later member with the same key would take the place of the earlier one. -/
def latest (kvs : List (Key × Data F)) (n : String) : Option (Data F) := lookup kvs.reverse n

end

/-- What is `none` is an error of the reader. `tuple` is the key that a sequence makes. -/
structure Reader (F : Type) where
  plain : String → Option (Data F)
  plainKey : String → Option Key
  tuple : List (Data F) → Option String
  admits : List (Key × Data F) → Bool
  plain_str : ∀ {t s}, plain t = some (.str s) → s = t
  plainKey_str : ∀ {t s}, plainKey t = some (.str s) → s = t

namespace Reader

variable {F : Type} (R : Reader F)

def scalar (s : Scalar) : Option (Data F) := if s.style = .plain then R.plain s.text else some (.str s.text)

def scalarKey (s : Scalar) : Option Key := if s.style = .plain then R.plainKey s.text else some (.str s.text)

mutual

def construct : Node → Option (Data F)
  | .scalar s => R.scalar s
  | .sequence items => (constructItems items).map .list
  | .mapping members => (constructMembers members).bind fun kvs => if R.admits kvs then some (.dict kvs) else none

def constructKey : Node → Option Key
  | .scalar s => R.scalarKey s
  | .sequence items => (constructItems items).bind fun xs => (R.tuple xs).map .other
  | .mapping _ => none

def constructItems : List Node → Option (List (Data F))
  | [] => some []
  | item :: items => (construct item).bind fun x => (constructItems items).map (x :: ·)

def constructMembers : List (Node × Node) → Option (List (Key × Data F))
  | [] => some []
  | (key, value) :: members =>
    (constructKey key).bind fun k => (construct value).bind fun v => (constructMembers members).map ((k, v) :: ·)

end

/-! Nodes that every reader of their scalars constructs, whatever it makes of them. -/

mutual

def Readable : Node → Prop
  | .scalar s => (R.scalar s).isSome
  | .sequence items => readableItems items
  | .mapping members => readableMembers members

def readableKey : Node → Prop
  | .scalar s => (R.scalarKey s).isSome
  | _ => False

def readableItems : List Node → Prop
  | [] => True
  | item :: items => Readable item ∧ readableItems items

def readableMembers : List (Node × Node) → Prop
  | [] => True
  | (key, value) :: members => readableKey key ∧ Readable value ∧ readableMembers members

end

structure Lenient : Prop where
  tuple : ∀ xs, R.tuple xs = none
  admits : ∀ kvs, R.admits kvs = true

/-- The plain texts that begin with a letter and are not strings are the `words`. -/
structure Resolves (words : List String) : Prop where
  word : ∀ t ∈ words, ∀ s, R.plain t ≠ some (.str s) ∧ R.plainKey t ≠ some (.str s)
  other : ∀ t, beginsWithLetter t = true → t ∉ words → R.plain t = some (.str t) ∧ R.plainKey t = some (.str t)

section

variable {R}

theorem constructItems_iff {items : List Node} {xs : List (Data F)} :
    R.constructItems items = some xs ↔ List.Forall₂ (fun item x => R.construct item = some x) items xs := by
  induction items generalizing xs with
  | nil =>
    rw [constructItems, List.forall₂_nil_left_iff, Option.some.injEq, eq_comm]
  | cons item items ih =>
    rw [constructItems, Option.bind_eq_some_iff, List.forall₂_cons_left_iff]
    simp only [Option.map_eq_some_iff, ih]
    constructor
    · rintro ⟨x, hx, xs, hxs, rfl⟩
      exact ⟨x, xs, hx, hxs, rfl⟩
    · rintro ⟨x, xs, hx, hxs, rfl⟩
      exact ⟨x, hx, xs, hxs, rfl⟩

def MemberAs (R : Reader F) (m : Node × Node) (e : Key × Data F) : Prop :=
  R.constructKey m.1 = some e.1 ∧ R.construct m.2 = some e.2

theorem constructMembers_iff {members : List (Node × Node)} {kvs : List (Key × Data F)} :
    R.constructMembers members = some kvs ↔ List.Forall₂ R.MemberAs members kvs := by
  induction members generalizing kvs with
  | nil =>
    rw [constructMembers, List.forall₂_nil_left_iff, Option.some.injEq, eq_comm]
  | cons m members ih =>
    obtain ⟨key, value⟩ := m
    rw [constructMembers, List.forall₂_cons_left_iff]
    simp only [Option.bind_eq_some_iff, Option.map_eq_some_iff, ih]
    constructor
    · rintro ⟨k, hk, v, hv, kvs, hkvs, rfl⟩
      exact ⟨(k, v), kvs, ⟨hk, hv⟩, hkvs, rfl⟩
    · rintro ⟨⟨k, v⟩, kvs, ⟨hk, hv⟩, hkvs, rfl⟩
      exact ⟨k, hk, v, hv, kvs, hkvs, rfl⟩

theorem construct_mapping {members : List (Node × Node)} {d : Data F} :
    R.construct (.mapping members) = some d ↔
      ∃ kvs, List.Forall₂ R.MemberAs members kvs ∧ R.admits kvs = true ∧ d = .dict kvs := by
  rw [construct, Option.bind_eq_some_iff]
  simp only [constructMembers_iff]
  apply exists_congr
  intro kvs
  by_cases h : R.admits kvs = true
  · simp [h, eq_comm]
  · simp [h]

theorem construct_sequence {items : List Node} {d : Data F} :
    R.construct (.sequence items) = some d ↔
      ∃ xs, List.Forall₂ (fun item x => R.construct item = some x) items xs ∧ d = .list xs := by
  rw [construct, Option.map_eq_some_iff]
  simp only [constructItems_iff, eq_comm (a := Data.list _)]

mutual

theorem construct_isSome_iff (h : R.Lenient) : ∀ node : Node, (R.construct node).isSome ↔ R.Readable node
  | .scalar s => by rw [construct, Readable]
  | .sequence items => by
    rw [construct, Readable, Option.isSome_map]
    exact constructItems_isSome_iff h items
  | .mapping members => by
    simp only [construct, Readable, h.admits, if_true]
    rw [← constructMembers_isSome_iff h members]
    cases R.constructMembers members <;> rfl

theorem constructKey_isSome_iff (h : R.Lenient) : ∀ node : Node, (R.constructKey node).isSome ↔ R.readableKey node
  | .scalar s => by rw [constructKey, readableKey]
  | .sequence items => by simp [constructKey, readableKey, h.tuple]
  | .mapping members => by simp [constructKey, readableKey]

theorem constructItems_isSome_iff (h : R.Lenient) :
    ∀ items : List Node, (R.constructItems items).isSome ↔ R.readableItems items
  | [] => by simp [constructItems, readableItems]
  | item :: items => by
    rw [constructItems, readableItems, ← construct_isSome_iff h item, ← constructItems_isSome_iff h items]
    cases R.construct item <;> simp

theorem constructMembers_isSome_iff (h : R.Lenient) :
    ∀ members : List (Node × Node), (R.constructMembers members).isSome ↔ R.readableMembers members
  | [] => by simp [constructMembers, readableMembers]
  | (key, value) :: members => by
    rw [constructMembers, readableMembers, ← constructKey_isSome_iff h key, ← construct_isSome_iff h value,
      ← constructMembers_isSome_iff h members]
    cases R.constructKey key <;> cases R.construct value <;> simp

end

theorem names_of_constructKey {node : Node} {n : String} (h : R.constructKey node = some (.str n)) :
    Names n node := by
  cases node with
  | scalar s =>
    refine ⟨s, rfl, ?_⟩
    rw [constructKey, scalarKey] at h
    split_ifs at h
    · exact (R.plainKey_str h).symm
    · exact Key.str.inj (Option.some.inj h)
  | sequence items =>
    obtain ⟨xs, -, h⟩ := Option.bind_eq_some_iff.1 h
    obtain ⟨t, -, h⟩ := Option.map_eq_some_iff.1 h
    cases h
  | mapping members => cases h

theorem constructKey_of_names {words : List String} (hR : R.Resolves words) {node : Node} {n : String}
    (hletter : beginsWithLetter n = true) (hn : n ∉ words) (h : Names n node) :
    R.constructKey node = some (.str n) := by
  obtain ⟨s, rfl, rfl⟩ := h
  rw [constructKey, scalarKey]
  split_ifs
  · exact (hR.other s.text hletter hn).2
  · rfl

theorem scalar_str {s : Scalar} {t : String} (h : R.scalar s = some (.str t)) : s.text = t := by
  rw [scalar] at h
  split_ifs at h
  · exact (R.plain_str h).symm
  · exact Data.str.inj (Option.some.inj h)

theorem scalar_eq_str_iff {words : List String} (hR : R.Resolves words) {s : Scalar}
    (hletter : beginsWithLetter s.text = true) :
    (∃ t, R.scalar s = some (.str t)) ↔ (s.style = .plain → s.text ∉ words) := by
  rw [scalar]
  split_ifs with hplain
  · constructor
    · rintro ⟨t, ht⟩ - hword
      exact (hR.word _ hword t).1 ht
    · intro hn
      exact ⟨s.text, (hR.other _ hletter (hn hplain)).1⟩
  · exact ⟨fun _ h => absurd h hplain, fun _ => ⟨s.text, rfl⟩⟩

theorem unique_of_distinct {members : List (Node × Node)} {kvs : List (Key × Data F)} {words : List String}
    (hR : R.Resolves words) {n : String} (hletter : beginsWithLetter n = true) (hn : n ∉ words)
    (h : List.Forall₂ R.MemberAs members kvs) (hkvs : kvs.Pairwise fun e e' => e.1 = .str n → e'.1 ≠ .str n) :
    Unique n members := by
  refine pairwise_of_forall₂ h.flip (fun e e' m m' hm hm' hne hname hname' => ?_) hkvs
  have hkey : ∀ {m e}, R.MemberAs m e → Names n m.1 → e.1 = .str n := fun hm hname =>
    Option.some.inj (hm.1.symm.trans (constructKey_of_names hR hletter hn hname))
  exact hne (hkey hm hname) (hkey hm' hname')

theorem distinct_of_unique {members : List (Node × Node)} {kvs : List (Key × Data F)} {n : String}
    (h : List.Forall₂ R.MemberAs members kvs) (hu : Unique n members) :
    kvs.Pairwise fun e e' => e.1 = .str n → e'.1 ≠ .str n := by
  refine pairwise_of_forall₂ h (fun m m' e e' hm hm' hne hkey hkey' => ?_) hu
  exact hne (names_of_constructKey (hm.1.trans (congrArg some hkey)))
    (names_of_constructKey (hm'.1.trans (congrArg some hkey')))

theorem member_constructed {members : List (Node × Node)} {kvs : List (Key × Data F)} {words : List String}
    (hR : R.Resolves words) {n : String} (hletter : beginsWithLetter n = true) (hn : n ∉ words)
    (h : List.Forall₂ R.MemberAs members kvs) (hu : Unique n members) {m : Node × Node} (hm : m ∈ members)
    (hname : Names n m.1) :
    ∃ v, R.construct m.2 = some v ∧ lookup kvs n = some v ∧ latest kvs n = some v := by
  obtain ⟨⟨k, v⟩, he, hk, hv⟩ := exists_mem_of_forall₂ h.flip hm
  obtain rfl := Option.some.inj ((constructKey_of_names hR hletter hn hname).symm.trans hk)
  have hkvs := distinct_of_unique h hu
  refine ⟨v, hv, lookup_of_distinct hkvs he, lookup_of_distinct ?_ (List.mem_reverse.2 he)⟩
  rw [List.pairwise_reverse]
  exact hkvs.imp fun hne hkey' hkey => hne hkey hkey'

end

end Reader

end GraphSkillRuntime.YamlNodes
