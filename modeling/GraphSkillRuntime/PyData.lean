import GraphSkillRuntime.JsonLines
import Mathlib.Data.List.Sort
import Mathlib.Data.String.Basic

/-!
Python data as a YAML file gives it, written by `json.dumps` with `sort_keys=True` and read back. What is
read back has text keys only, and every mapping in the order of its keys.
-/

namespace GraphSkillRuntime.PyData

open OrderedDict JsonText

/-- `other` is what JSON has no form for, a date for example. -/
inductive Key where
  | str (s : String)
  | int (z : ℤ)
  | bool (b : Bool)
  | null
  | other (text : String)

inductive Data (F : Type) where
  | null
  | bool (b : Bool)
  | int (z : ℤ)
  | float (x : F)
  | str (s : String)
  | other (text : String)
  | list (xs : List (Data F))
  | dict (kvs : List (Key × Data F))

def Key.text? : Key → Option String
  | .str s => some s
  | .int z => some (.ofList (intText z))
  | .bool b => some (if b then "true" else "false")
  | .null => some "null"
  | .other _ => none

def Key.str? : Key → Option String
  | .str s => some s
  | _ => none

def Key.number? : Key → Option ℤ
  | .int z => some z
  | .bool b => some (if b then 1 else 0)
  | _ => none

def orderBy {β κ : Type} [LE κ] [DecidableLE κ] (key : β → κ) (xs : List β) : List β :=
  xs.insertionSort (fun a b => key a ≤ key b)

section

variable {F : Type}

def sortItems {β : Type} (kvs : List (Key × β)) : Option (List (Key × β)) :=
  if kvs.length ≤ 1 then some kvs
  else if kvs.all (fun e => e.1.str?.isSome) then some (orderBy (fun e => e.1.str?.getD "") kvs)
  else if kvs.all (fun e => e.1.number?.isSome) then some (orderBy (fun e => e.1.number?.getD 0) kvs)
  else none

def keyTexts {β : Type} : List (Key × β) → Option (List (String × β))
  | [] => some []
  | (k, v) :: kvs =>
    match k.text?, keyTexts kvs with
    | some k, some kvs => some ((k, v) :: kvs)
    | _, _ => none

mutual

/-- The JSON value that `json.dumps` writes; `none` is a `TypeError`. -/
def toJson? : Data F → Option (Json F)
  | .null => some .null
  | .bool b => some (.bool b)
  | .int z => some (.int z)
  | .float x => some (.float x)
  | .str s => some (.str s)
  | .other _ => none
  | .list xs => (elementsToJson? xs).map .list
  | .dict kvs => ((membersToJson? kvs).bind sortItems).bind fun kvs => (keyTexts kvs).map .dict

def elementsToJson? : List (Data F) → Option (List (Json F))
  | [] => some []
  | x :: xs =>
    match toJson? x, elementsToJson? xs with
    | some x, some xs => some (x :: xs)
    | _, _ => none

def membersToJson? : List (Key × Data F) → Option (List (Key × Json F))
  | [] => some []
  | (k, v) :: kvs =>
    match toJson? v, membersToJson? kvs with
    | some v, some kvs => some ((k, v) :: kvs)
    | _, _ => none

end

mutual

/-- The data that `json.loads` gives. -/
def ofJson : Json F → Data F
  | .null => .null
  | .bool b => .bool b
  | .int z => .int z
  | .float x => .float x
  | .str s => .str s
  | .list xs => .list (ofElements xs)
  | .dict kvs => .dict (ofMembers kvs)

def ofElements : List (Json F) → List (Data F)
  | [] => []
  | x :: xs => ofJson x :: ofElements xs

def ofMembers : List (String × Json F) → List (Key × Data F)
  | [] => []
  | (k, v) :: kvs => (.str k, ofJson v) :: ofMembers kvs

end

mutual

def sortJson : Json F → Json F
  | .list xs => .list (sortElements xs)
  | .dict kvs => .dict (orderBy Prod.fst (sortMembers kvs))
  | v => v

def sortElements : List (Json F) → List (Json F)
  | [] => []
  | x :: xs => sortJson x :: sortElements xs

def sortMembers : List (String × Json F) → List (String × Json F)
  | [] => []
  | (k, v) :: kvs => (k, sortJson v) :: sortMembers kvs

end

section

variable {β κ : Type} [LinearOrder κ] {key : β → κ} {xs : List β}

theorem orderBy_perm : (orderBy key xs).Perm xs := List.perm_insertionSort _ _

theorem orderBy_pairwise : (orderBy key xs).Pairwise fun a b => key a ≤ key b := by
  have : Std.Total fun a b : β => key a ≤ key b := ⟨fun a b => le_total (key a) (key b)⟩
  have : IsTrans β fun a b => key a ≤ key b := ⟨fun _ _ _ => le_trans⟩
  exact List.pairwise_insertionSort _ _

theorem orderBy_eq_self (h : xs.Pairwise fun a b => key a ≤ key b) : orderBy key xs = xs :=
  h.insertionSort_eq

theorem orderBy_short (h : xs.length ≤ 1) : orderBy key xs = xs := by
  match xs, h with
  | [], _ => rfl
  | [x], _ => rfl

theorem orderBy_eq_of_perm {ys : List β} (h : xs.Perm ys) (hinj : ∀ a ∈ xs, ∀ b ∈ xs, key a = key b → a = b) :
    orderBy key xs = orderBy key ys := by
  have hperm : (orderBy key xs).Perm (orderBy key ys) := (orderBy_perm.trans h).trans orderBy_perm.symm
  apply hperm.eq_of_pairwise _ orderBy_pairwise orderBy_pairwise
  intro a b ha hb hab hba
  have ha' := orderBy_perm.mem_iff.mp ha
  have hb' := h.mem_iff.mpr (orderBy_perm.mem_iff.mp hb)
  exact hinj a ha' b hb' (le_antisymm hab hba)

theorem orderBy_map {γ : Type} (f : γ → β) (ys : List γ) :
    orderBy key (ys.map f) = (orderBy (key ∘ f) ys).map f :=
  (List.map_insertionSort _ _ f ys fun _ _ _ _ => Iff.rfl).symm

end

theorem keyTexts_str {β : Type} (kvs : List (String × β)) :
    keyTexts (kvs.map fun e => (Key.str e.1, e.2)) = some kvs := by
  induction kvs with
  | nil => rfl
  | cons e kvs ih => simp [keyTexts, Key.text?, ih]

theorem sortItems_str {β : Type} (kvs : List (String × β)) :
    sortItems (kvs.map fun e => (Key.str e.1, e.2)) =
      some ((orderBy Prod.fst kvs).map fun e => (Key.str e.1, e.2)) := by
  unfold sortItems
  split_ifs with hshort hstr
  · rw [orderBy_short (by simpa using hshort)]
  · rw [orderBy_map]
    rfl
  · exact absurd (by simp [Key.str?]) hstr
  · exact absurd (by simp [Key.str?]) hstr

mutual

theorem toJson?_ofJson : ∀ v : Json F, toJson? (ofJson v) = some (sortJson v)
  | .null => rfl
  | .bool _ => rfl
  | .int _ => rfl
  | .float _ => rfl
  | .str _ => rfl
  | .list xs => by rw [ofJson, toJson?, elementsToJson?_ofElements xs, sortJson]; rfl
  | .dict kvs => by
    rw [ofJson, toJson?, membersToJson?_ofMembers kvs, sortJson, Option.bind_some, sortItems_str, Option.bind_some,
      keyTexts_str]
    rfl

theorem elementsToJson?_ofElements : ∀ xs : List (Json F), elementsToJson? (ofElements xs) = some (sortElements xs)
  | [] => rfl
  | x :: xs => by
    rw [ofElements, elementsToJson?, toJson?_ofJson x, elementsToJson?_ofElements xs, sortElements]

theorem membersToJson?_ofMembers : ∀ kvs : List (String × Json F),
    membersToJson? (ofMembers kvs) = some ((sortMembers kvs).map fun e => (Key.str e.1, e.2))
  | [] => rfl
  | (k, v) :: kvs => by
    rw [ofMembers, membersToJson?, toJson?_ofJson v, membersToJson?_ofMembers kvs, sortMembers]
    rfl

end

mutual

def Data.Distinct : Data F → Prop
  | .list xs => dataElementsDistinct xs
  | .dict kvs => (kvs.map Prod.fst).Nodup ∧ dataMembersDistinct kvs
  | _ => True

def dataElementsDistinct : List (Data F) → Prop
  | [] => True
  | x :: xs => x.Distinct ∧ dataElementsDistinct xs

def dataMembersDistinct : List (Key × Data F) → Prop
  | [] => True
  | (_, v) :: kvs => v.Distinct ∧ dataMembersDistinct kvs

end

theorem sortItems_perm {β : Type} {kvs sorted : List (Key × β)} (h : sortItems kvs = some sorted) :
    sorted.Perm kvs ∧ (sorted.length ≤ 1 ∨ (∀ e ∈ sorted, e.1.str?.isSome) ∨ ∀ e ∈ sorted, e.1.number?.isSome) := by
  unfold sortItems at h
  split_ifs at h with hshort hstr hnum
  · obtain rfl := Option.some.inj h
    exact ⟨.refl _, .inl hshort⟩
  · obtain rfl := Option.some.inj h
    refine ⟨orderBy_perm, .inr (.inl fun e he => ?_)⟩
    exact List.all_eq_true.1 hstr e (orderBy_perm.mem_iff.1 he)
  · obtain rfl := Option.some.inj h
    refine ⟨orderBy_perm, .inr (.inr fun e he => ?_)⟩
    exact List.all_eq_true.1 hnum e (orderBy_perm.mem_iff.1 he)

theorem keyTexts_forall {β : Type} {kvs : List (Key × β)} {members : List (String × β)}
    (h : keyTexts kvs = some members) : List.Forall₂ (fun e m => e.1.text? = some m.1 ∧ e.2 = m.2) kvs members := by
  induction kvs generalizing members with
  | nil =>
    obtain rfl := Option.some.inj h
    exact .nil
  | cons e kvs ih =>
    rw [keyTexts] at h
    split at h
    · next k rest hk hrest =>
      obtain rfl := Option.some.inj h
      exact .cons ⟨hk, rfl⟩ (ih hrest)
    · cases h

theorem keyTexts_values {β : Type} {kvs : List (Key × β)} {members : List (String × β)}
    (h : keyTexts kvs = some members) : members.map Prod.snd = kvs.map Prod.snd := by
  have hall := keyTexts_forall h
  clear h
  induction hall with
  | nil => rfl
  | cons he _ ih => rw [List.map_cons, List.map_cons, ih, he.2]

def literalFormat : FloatFormat FloatLiteral := ⟨id, id, fun _ => rfl⟩

def Key.json? : Key → Option (Json FloatLiteral)
  | .int z => some (.int z)
  | .bool b => some (.bool b)
  | _ => none

theorem number_text {k : Key} (h : k.number?.isSome) :
    ∃ v, k.json? = some v ∧ v.Distinct ∧ k.text? = some (.ofList (dumps literalFormat v)) := by
  cases k with
  | int z => exact ⟨.int z, rfl, trivial, rfl⟩
  | bool b => exact ⟨.bool b, rfl, trivial, by cases b <;> rfl⟩
  | str s => cases h
  | null => cases h
  | other text => cases h

theorem number_eq {k j : Key} (hk : k.number?.isSome) (hj : j.number?.isSome) (h : k.text? = j.text?) : k = j := by
  obtain ⟨v, hv, hvd, hkt⟩ := number_text hk
  obtain ⟨w, hw, hwd, hjt⟩ := number_text hj
  rw [hkt, hjt, Option.some.injEq, String.ofList_inj] at h
  have hvw : v = w := by
    apply Option.some.inj
    rw [← loads_dumps literalFormat hvd, ← loads_dumps literalFormat hwd, h]
  have hjson : k.json? = j.json? := by rw [hv, hw, hvw]
  clear hv hw hkt hjt
  revert hk hj hjson
  cases k <;> cases j <;> simp [Key.json?, Key.number?]

theorem keyTexts_nodup {β : Type} {kvs : List (Key × β)} {members : List (String × β)}
    (hkind : kvs.length ≤ 1 ∨ (∀ e ∈ kvs, e.1.str?.isSome) ∨ ∀ e ∈ kvs, e.1.number?.isSome)
    (hn : (kvs.map Prod.fst).Nodup) (h : keyTexts kvs = some members) : (members.map Prod.fst).Nodup := by
  have hall := keyTexts_forall h
  have htexts : (members.map Prod.fst).map some = kvs.map fun e => e.1.text? := by
    clear hkind hn h
    induction hall with
    | nil => rfl
    | cons he _ ih => rw [List.map_cons, List.map_cons, List.map_cons, ih, he.1]
  rcases hkind with hshort | hkind
  · rw [hall.length_eq] at hshort
    match members, hshort with
    | [], _ => exact List.nodup_nil
    | [m], _ => exact List.nodup_singleton _
  · have hinj : ∀ e ∈ kvs, ∀ e' ∈ kvs, e.1.text? = e'.1.text? → e.1 = e'.1 := by
      intro e he e' he' heq
      rcases hkind with hstr | hnum
      · have hs := hstr e he
        have hs' := hstr e' he'
        revert hs hs' heq
        cases e.1 <;> cases e'.1 <;> simp [Key.str?, Key.text?]
      · exact number_eq (hnum e he) (hnum e' he') heq
    have htext : (kvs.map fun e => e.1.text?).Nodup := by
      rw [List.Nodup, List.pairwise_map] at hn ⊢
      exact hn.imp_of_mem fun he he' hne heq => hne (hinj _ he _ he' heq)
    rw [← htexts] at htext
    exact List.Nodup.of_map _ htext

mutual

theorem distinct_toJson? : ∀ (y : Data F) (v : Json F), y.Distinct → toJson? y = some v → v.Distinct
  | .null, _, _, h => by obtain rfl := Option.some.inj h; trivial
  | .bool _, _, _, h => by obtain rfl := Option.some.inj h; trivial
  | .int _, _, _, h => by obtain rfl := Option.some.inj h; trivial
  | .float _, _, _, h => by obtain rfl := Option.some.inj h; trivial
  | .str _, _, _, h => by obtain rfl := Option.some.inj h; trivial
  | .other _, _, _, h => by cases h
  | .list xs, v, hy, h => by
    rw [toJson?] at h
    obtain ⟨vs, hvs, rfl⟩ := Option.map_eq_some_iff.1 h
    rw [Data.Distinct] at hy
    exact distinctElements_iff.2 (distinct_elementsToJson? xs vs hy hvs)
  | .dict kvs, v, hy, h => by
    rw [toJson?] at h
    obtain ⟨sorted, hsorted, h⟩ := Option.bind_eq_some_iff.1 h
    obtain ⟨items, hitems, hsorted⟩ := Option.bind_eq_some_iff.1 hsorted
    obtain ⟨members, hmembers, rfl⟩ := Option.map_eq_some_iff.1 h
    rw [Data.Distinct] at hy
    have hvalues := distinct_membersToJson? kvs items hy.2 hitems
    obtain ⟨hperm, hkind⟩ := sortItems_perm hsorted
    rw [Json.Distinct]
    constructor
    · apply keyTexts_nodup hkind _ hmembers
      rw [(hperm.map Prod.fst).nodup_iff, hvalues.1]
      exact hy.1
    · rw [distinctMembers_iff]
      intro m hm
      have hm : m.2 ∈ sorted.map Prod.snd := keyTexts_values hmembers ▸ List.mem_map_of_mem hm
      obtain ⟨e, he, heq⟩ := List.mem_map.1 hm
      rw [← heq]
      exact hvalues.2 e (hperm.mem_iff.1 he)

theorem distinct_elementsToJson? : ∀ (xs : List (Data F)) (vs : List (Json F)), dataElementsDistinct xs →
    elementsToJson? xs = some vs → ∀ v ∈ vs, v.Distinct
  | [], vs, _, h => by
    obtain rfl := Option.some.inj h
    exact List.forall_mem_nil _
  | x :: xs, vs, hx, h => by
    rw [elementsToJson?] at h
    rw [dataElementsDistinct] at hx
    split at h
    · next w ws hw hws =>
      obtain rfl := Option.some.inj h
      exact List.forall_mem_cons.2 ⟨distinct_toJson? x w hx.1 hw, distinct_elementsToJson? xs ws hx.2 hws⟩
    · cases h

theorem distinct_membersToJson? : ∀ (kvs : List (Key × Data F)) (items : List (Key × Json F)),
    dataMembersDistinct kvs → membersToJson? kvs = some items →
      items.map Prod.fst = kvs.map Prod.fst ∧ ∀ e ∈ items, e.2.Distinct
  | [], items, _, h => by
    obtain rfl := Option.some.inj h
    exact ⟨rfl, List.forall_mem_nil _⟩
  | (k, y) :: kvs, items, hy, h => by
    rw [membersToJson?] at h
    rw [dataMembersDistinct] at hy
    split at h
    · next w ws hw hws =>
      obtain rfl := Option.some.inj h
      have hrest := distinct_membersToJson? kvs ws hy.2 hws
      exact ⟨by rw [List.map_cons, List.map_cons, hrest.1],
        List.forall_mem_cons.2 ⟨distinct_toJson? y w hy.1 hw, hrest.2⟩⟩
    · cases h

end

theorem find_orderBy {β : Type} {kvs : List (String × β)} (hn : (kvs.map Prod.fst).Nodup) (k : String) :
    Dict.find (orderBy Prod.fst kvs) k = Dict.find kvs k := by
  have hperm : (orderBy Prod.fst kvs).Perm kvs := orderBy_perm
  have hn' : ((orderBy Prod.fst kvs).map Prod.fst).Nodup := (hperm.map Prod.fst).nodup_iff.2 hn
  apply Option.ext
  intro v
  rw [Dict.find_mem hn', Dict.find_mem hn, hperm.mem_iff]

theorem sortMembers_eq (kvs : List (String × Json F)) : sortMembers kvs = kvs.map fun e => (e.1, sortJson e.2) := by
  induction kvs with
  | nil => rfl
  | cons e kvs ih => rw [sortMembers, ih, List.map_cons]

theorem sortMembers_keys (kvs : List (String × Json F)) :
    ((orderBy Prod.fst (sortMembers kvs)).map Prod.fst).Perm (kvs.map Prod.fst) := by
  have hkeys : (sortMembers kvs).map Prod.fst = kvs.map Prod.fst := by simp [sortMembers_eq]
  exact hkeys ▸ orderBy_perm.map Prod.fst

mutual

theorem sortJson_sortJson : ∀ v : Json F, sortJson (sortJson v) = sortJson v
  | .null => rfl
  | .bool _ => rfl
  | .int _ => rfl
  | .float _ => rfl
  | .str _ => rfl
  | .list xs => by rw [sortJson, sortJson, sortElements_sortElements xs]
  | .dict kvs => by
    have hmembers : sortMembers (orderBy Prod.fst (sortMembers kvs)) = orderBy Prod.fst (sortMembers kvs) := by
      rw [sortMembers_eq (orderBy _ _)]
      refine (List.map_congr_left fun e he => ?_).trans (List.map_id _)
      exact sortMembers_sorted kvs e (orderBy_perm.mem_iff.1 he)
    rw [sortJson, sortJson, hmembers, orderBy_eq_self orderBy_pairwise]

theorem sortElements_sortElements : ∀ xs : List (Json F), sortElements (sortElements xs) = sortElements xs
  | [] => rfl
  | x :: xs => by rw [sortElements, sortElements, sortJson_sortJson x, sortElements_sortElements xs]

theorem sortMembers_sorted : ∀ kvs : List (String × Json F), ∀ e ∈ sortMembers kvs, (e.1, sortJson e.2) = e
  | [], e, h => by cases h
  | (k, v) :: kvs, e, h => by
    rw [sortMembers] at h
    rcases List.mem_cons.1 h with rfl | h
    · rw [sortJson_sortJson v]
    · exact sortMembers_sorted kvs e h

end

mutual

theorem distinct_sortJson : ∀ v : Json F, v.Distinct → (sortJson v).Distinct
  | .null, _ => trivial
  | .bool _, _ => trivial
  | .int _, _ => trivial
  | .float _, _ => trivial
  | .str _, _ => trivial
  | .list xs, h => by
    rw [Json.Distinct, distinctElements_iff] at h
    rw [sortJson, Json.Distinct, distinctElements_iff]
    exact distinct_sortElements xs h
  | .dict kvs, h => by
    rw [Json.Distinct, distinctMembers_iff] at h
    rw [sortJson, Json.Distinct, distinctMembers_iff]
    refine ⟨(sortMembers_keys kvs).nodup_iff.2 h.1, fun e he => ?_⟩
    exact distinct_sortMembers kvs h.2 e (orderBy_perm.mem_iff.1 he)

theorem distinct_sortElements : ∀ xs : List (Json F), (∀ x ∈ xs, x.Distinct) → ∀ x ∈ sortElements xs, x.Distinct
  | [], _ => by simp [sortElements]
  | x :: xs, h => by
    rw [List.forall_mem_cons] at h
    rw [sortElements, List.forall_mem_cons]
    exact ⟨distinct_sortJson x h.1, distinct_sortElements xs h.2⟩

theorem distinct_sortMembers : ∀ kvs : List (String × Json F), (∀ e ∈ kvs, e.2.Distinct) →
    ∀ e ∈ sortMembers kvs, e.2.Distinct
  | [], _ => by simp [sortMembers]
  | (k, v) :: kvs, h => by
    rw [List.forall_mem_cons] at h
    rw [sortMembers, List.forall_mem_cons]
    exact ⟨distinct_sortJson v h.1, distinct_sortMembers kvs h.2⟩

end

mutual

theorem mem_chars_sortJson (c : Char) : ∀ v : Json F, c ∈ (sortJson v).chars ↔ c ∈ v.chars
  | .null => Iff.rfl
  | .bool _ => Iff.rfl
  | .int _ => Iff.rfl
  | .float _ => Iff.rfl
  | .str _ => Iff.rfl
  | .list xs => by rw [sortJson, Json.chars, Json.chars, mem_chars_sortElements c xs]
  | .dict kvs => by
    rw [sortJson, Json.chars, Json.chars, ← mem_chars_sortMembers c kvs, mem_charsMembers, mem_charsMembers]
    simp only [orderBy_perm.mem_iff]

theorem mem_chars_sortElements (c : Char) : ∀ xs : List (Json F),
    c ∈ charsElements (sortElements xs) ↔ c ∈ charsElements xs
  | [] => Iff.rfl
  | x :: xs => by
    rw [sortElements, charsElements, charsElements, List.mem_append, List.mem_append, mem_chars_sortJson c x,
      mem_chars_sortElements c xs]

theorem mem_chars_sortMembers (c : Char) : ∀ kvs : List (String × Json F),
    c ∈ charsMembers (sortMembers kvs) ↔ c ∈ charsMembers kvs
  | [] => Iff.rfl
  | (k, v) :: kvs => by
    rw [sortMembers, charsMembers, charsMembers]
    simp only [List.mem_append]
    rw [mem_chars_sortJson c v, mem_chars_sortMembers c kvs]

end

end

end GraphSkillRuntime.PyData
