import GraphSkillRuntime.JsonRoundTrip
import GraphSkillRuntime.Runs
import Mathlib.Data.List.Sort

/-!
Entries of a shared JSON document, addressed by the keys on the way to them: how one is looked up, set
and removed, and which parents on the way were missing.
-/

namespace GraphSkillRuntime

open OrderedDict

section Keys

variable {ν : Type}

def setKey : List (String × ν) → String → ν → List (String × ν)
  | [], k, v => [(k, v)]
  | e :: es, k, v => if e.1 = k then (k, v) :: es else e :: setKey es k v

def dropKey : List (String × ν) → String → List (String × ν)
  | [], _ => []
  | e :: es, k => if e.1 = k then es else e :: dropKey es k

theorem find_setKey (es : List (String × ν)) (k j : String) (v : ν) :
    Dict.find (setKey es k v) j = if k = j then some v else Dict.find es j := by
  induction es with
  | nil => simp [setKey, Dict.find]
  | cons e es ih =>
    by_cases hk : e.1 = k
    · rw [setKey, if_pos hk, Dict.find, Dict.find, hk]
      split_ifs <;> rfl
    · rw [setKey, if_neg hk, Dict.find, Dict.find, ih]
      by_cases hj : e.1 = j
      · have hne : ¬ k = j := fun h => hk (hj.trans h.symm)
        simp [hj, hne]
      · simp [hj]

theorem setKey_setKey (es : List (String × ν)) (k : String) (v w : ν) :
    setKey (setKey es k v) k w = setKey es k w := by
  induction es with
  | nil => simp [setKey]
  | cons e es ih =>
    by_cases hk : e.1 = k
    · simp [setKey, hk]
    · simp [setKey, hk, ih]

theorem setKey_eq_self_iff {es : List (String × ν)} {k : String} {v w : ν} (h : Dict.find es k = some v) :
    setKey es k w = es ↔ w = v := by
  induction es with
  | nil => cases h
  | cons e es ih =>
    by_cases hk : e.1 = k
    · obtain ⟨j, u⟩ := e
      obtain rfl : j = k := hk
      rw [Dict.find, if_pos rfl] at h
      obtain rfl := Option.some.inj h
      simp [setKey]
    · rw [Dict.find, if_neg hk] at h
      simp [setKey, hk, ih h]

theorem dropKey_of_notMem {es : List (String × ν)} {k : String} (h : k ∉ es.map Prod.fst) :
    dropKey es k = es := by
  induction es with
  | nil => rfl
  | cons e es ih =>
    rw [List.map_cons, List.mem_cons, not_or] at h
    rw [dropKey, if_neg (Ne.symm h.1), ih h.2]

theorem dropKey_setKey (es : List (String × ν)) (k : String) (v : ν) :
    dropKey (setKey es k v) k = dropKey es k := by
  induction es with
  | nil => simp [setKey, dropKey]
  | cons e es ih =>
    by_cases hk : e.1 = k
    · simp [setKey, dropKey, hk]
    · simp [setKey, dropKey, hk, ih]

theorem length_dropKey {es : List (String × ν)} {k : String} (h : k ∈ es.map Prod.fst) :
    (dropKey es k).length + 1 = es.length := by
  induction es with
  | nil => cases h
  | cons e es ih =>
    by_cases hk : e.1 = k
    · simp [dropKey, hk]
    · rw [List.map_cons, List.mem_cons] at h
      simp [dropKey, hk, ih (h.resolve_left (Ne.symm hk))]

theorem dropKey_eq_self_iff {es : List (String × ν)} {k : String} :
    dropKey es k = es ↔ k ∉ es.map Prod.fst := by
  refine ⟨fun h hk => ?_, dropKey_of_notMem⟩
  have hlength := length_dropKey hk
  rw [h] at hlength
  omega

theorem find_dropKey {es : List (String × ν)} {k j : String} (h : k ≠ j) :
    Dict.find (dropKey es k) j = Dict.find es j := by
  induction es with
  | nil => rfl
  | cons e es ih =>
    by_cases hk : e.1 = k
    · have hj : ¬ e.1 = j := fun hj => h (hk.symm.trans hj)
      simp only [dropKey, hk, ↓reduceIte, Dict.find]
      simp [h]
    · simp [dropKey, hk, Dict.find, ih]

theorem find_dropKey_self {es : List (String × ν)} {k : String} (hn : (es.map Prod.fst).Nodup) :
    Dict.find (dropKey es k) k = none := by
  induction es with
  | nil => rfl
  | cons e es ih =>
    rw [List.map_cons, List.nodup_cons] at hn
    by_cases hk : e.1 = k
    · simp only [dropKey, hk, ↓reduceIte]
      exact Dict.find_eq_none.mpr (hk ▸ hn.1)
    · simp [dropKey, hk, Dict.find, ih hn.2]

theorem mem_setKey {es : List (String × ν)} {k : String} {v : ν} {e : String × ν} (h : e ∈ setKey es k v) :
    e = (k, v) ∨ e ∈ es := by
  induction es with
  | nil => exact .inl (List.mem_singleton.mp h)
  | cons d es ih =>
    rw [setKey] at h
    split at h
    · rcases List.mem_cons.mp h with rfl | h
      · exact .inl rfl
      · exact .inr (List.mem_cons_of_mem d h)
    · rcases List.mem_cons.mp h with rfl | h
      · exact .inr List.mem_cons_self
      · exact (ih h).imp_right (List.mem_cons_of_mem d)

theorem setKey_nodup {es : List (String × ν)} (h : (es.map Prod.fst).Nodup) (k : String) (v : ν) :
    ((setKey es k v).map Prod.fst).Nodup := by
  induction es with
  | nil => exact List.nodup_singleton k
  | cons e es ih =>
    rw [List.map_cons, List.nodup_cons] at h
    rw [setKey]
    split
    · next hk =>
      rw [List.map_cons, List.nodup_cons]
      exact hk ▸ h
    · next hk =>
      rw [List.map_cons, List.nodup_cons]
      refine ⟨fun hmem => ?_, ih h.2⟩
      obtain ⟨d, hd, heq⟩ := List.mem_map.mp hmem
      rcases mem_setKey hd with rfl | hd
      · exact hk heq.symm
      · exact h.1 (heq ▸ List.mem_map_of_mem hd)

theorem dropKey_sublist (es : List (String × ν)) (k : String) : (dropKey es k).Sublist es := by
  induction es with
  | nil => exact List.Sublist.refl _
  | cons e es ih =>
    rw [dropKey]
    split
    · exact List.sublist_cons_self e es
    · exact ih.cons_cons e

end Keys

namespace Installer

open JsonText

variable {F : Type}

abbrev Document (F : Type) := List (String × Json F)

inductive SelectorError where
  | empty
  | parentNotObject (key : String)
  deriving DecidableEq

def descend : Json F → List String → Option (Json F)
  | v, [] => some v
  | .dict kvs, k :: ks => (Dict.find kvs k).bind (descend · ks)
  | _, _ :: _ => none

def lookupJson (doc : Document F) (selector : List String) : Option (Json F) := descend (.dict doc) selector

/-- What stands at a key on the way to an entry: a missing key and `null` are one case. -/
inductive Parent (F : Type) where
  | missing
  | object (sub : Document F)
  | other

def parentAt (doc : Document F) (k : String) : Parent F :=
  match Dict.find doc k with
  | none | some .null => .missing
  | some (.dict sub) => .object sub
  | some _ => .other

def setJson : List String → Json F → Document F → Except SelectorError (Document F)
  | [], _, _ => .error .empty
  | [k], v, doc => .ok (setKey doc k v)
  | k :: j :: ks, v, doc =>
    match parentAt doc k with
    | .missing => (setJson (j :: ks) v []).map fun sub => setKey doc k (.dict sub)
    | .object sub => (setJson (j :: ks) v sub).map fun sub => setKey doc k (.dict sub)
    | .other => .error (.parentNotObject k)

def removeJson : List String → Document F → Except SelectorError (Document F)
  | [], _ => .error .empty
  | [k], doc => .ok (dropKey doc k)
  | k :: j :: ks, doc =>
    match Dict.find doc k with
    | some (.dict sub) => (removeJson (j :: ks) sub).map fun sub => setKey doc k (.dict sub)
    | _ => .ok doc

def missingJsonParents : List String → Document F → Except SelectorError (List (List String))
  | [], _ | [_], _ => .ok []
  | k :: j :: ks, doc =>
    match parentAt doc k with
    | .missing => (missingJsonParents (j :: ks) ([] : Document F)).map fun ps => [k] :: ps.map (k :: ·)
    | .object sub => (missingJsonParents (j :: ks) sub).map fun ps => ps.map (k :: ·)
    | .other => .error (.parentNotObject k)

def pruneParent : List String → Document F → Document F
  | [], doc => doc
  | [k], doc =>
    match Dict.find doc k with
    | some (.dict []) => dropKey doc k
    | _ => doc
  | k :: j :: ks, doc =>
    match Dict.find doc k with
    | some (.dict sub) => setKey doc k (.dict (pruneParent (j :: ks) sub))
    | _ => doc

def pruneCreatedJsonParents (created : List (List String)) (doc : Document F) : Document F :=
  (created.insertionSort fun a b => b.length ≤ a.length).foldl (fun doc selector => pruneParent selector doc) doc

section Distinct

variable {doc doc' : Document F}

theorem distinct_setKey (h : (Json.dict doc).Distinct) (k : String) {v : Json F} (hv : v.Distinct) :
    (Json.dict (setKey doc k v)).Distinct := by
  rw [Json.Distinct, distinctMembers_iff] at h ⊢
  refine ⟨setKey_nodup h.1 k v, fun e he => ?_⟩
  rcases mem_setKey he with rfl | he
  · exact hv
  · exact h.2 e he

theorem distinct_dropKey (h : (Json.dict doc).Distinct) (k : String) : (Json.dict (dropKey doc k)).Distinct := by
  rw [Json.Distinct, distinctMembers_iff] at h ⊢
  have hsub := dropKey_sublist doc k
  exact ⟨(hsub.map Prod.fst).nodup h.1, fun e he => h.2 e (hsub.subset he)⟩

theorem distinct_of_find (h : (Json.dict doc).Distinct) {k : String} {v : Json F} (hk : Dict.find doc k = some v) :
    v.Distinct := by
  rw [Json.Distinct, distinctMembers_iff] at h
  exact h.2 (k, v) (Dict.mem_of_find hk)

theorem distinct_nil : (Json.dict ([] : Document F)).Distinct := by simp [Json.Distinct, distinctMembers]

theorem find_of_parentAt {sub : Document F} {k : String} (h : parentAt doc k = .object sub) :
    Dict.find doc k = some (.dict sub) := by
  unfold parentAt at h
  split at h <;> simp_all

theorem distinct_setJson {selector : List String} {v : Json F} (h : (Json.dict doc).Distinct) (hv : v.Distinct)
    (hset : setJson selector v doc = .ok doc') : (Json.dict doc').Distinct := by
  induction selector generalizing doc doc' with
  | nil => cases hset
  | cons k ks ih =>
    cases ks with
    | nil =>
      cases hset
      exact distinct_setKey h k hv
    | cons j ks =>
      rw [setJson] at hset
      cases hparent : parentAt doc k with
      | missing =>
        rw [hparent] at hset
        obtain ⟨sub, hsub, rfl⟩ := map_eq_ok hset
        exact distinct_setKey h k (ih distinct_nil hsub)
      | object sub =>
        rw [hparent] at hset
        obtain ⟨sub', hsub', rfl⟩ := map_eq_ok hset
        exact distinct_setKey h k (ih (distinct_of_find h (find_of_parentAt hparent)) hsub')
      | other =>
        rw [hparent] at hset
        cases hset

theorem distinct_removeJson {selector : List String} (h : (Json.dict doc).Distinct)
    (hremove : removeJson selector doc = .ok doc') : (Json.dict doc').Distinct := by
  induction selector generalizing doc doc' with
  | nil => cases hremove
  | cons k ks ih =>
    cases ks with
    | nil =>
      cases hremove
      exact distinct_dropKey h k
    | cons j ks =>
      rw [removeJson] at hremove
      split at hremove
      · next sub hfind =>
        obtain ⟨sub', hsub', rfl⟩ := map_eq_ok hremove
        exact distinct_setKey h k (ih (distinct_of_find h hfind) hsub')
      · cases hremove
        exact h

theorem distinct_pruneParent (selector : List String) (h : (Json.dict doc).Distinct) :
    (Json.dict (pruneParent selector doc)).Distinct := by
  induction selector generalizing doc with
  | nil => exact h
  | cons k ks ih =>
    cases ks with
    | nil =>
      rw [pruneParent]
      split
      · exact distinct_dropKey h k
      · exact h
    | cons j ks =>
      rw [pruneParent]
      split
      · next sub hfind => exact distinct_setKey h k (ih (distinct_of_find h hfind))
      · exact h

theorem distinct_pruneCreatedJsonParents (created : List (List String)) (h : (Json.dict doc).Distinct) :
    (Json.dict (pruneCreatedJsonParents created doc)).Distinct := by
  rw [pruneCreatedJsonParents]
  generalize created.insertionSort (fun a b => b.length ≤ a.length) = selectors
  induction selectors generalizing doc with
  | nil => exact h
  | cons selector selectors ih => exact ih (distinct_pruneParent selector h)

end Distinct

theorem lookupJson_cons (doc : Document F) (k j : String) (ks : List String) :
    lookupJson doc (k :: j :: ks) = match Dict.find doc k with
      | some (.dict sub) => lookupJson sub (j :: ks)
      | _ => none := by
  simp only [lookupJson, descend]
  cases Dict.find doc k with
  | none => rfl
  | some v => cases v <;> rfl

theorem lookupJson_setJson {selector : List String} {v : Json F} {doc doc' : Document F}
    (hset : setJson selector v doc = .ok doc') : lookupJson doc' selector = some v := by
  induction selector generalizing doc doc' with
  | nil => cases hset
  | cons k ks ih =>
    cases ks with
    | nil =>
      cases hset
      simp [lookupJson, descend, find_setKey]
    | cons j ks =>
      rw [setJson] at hset
      cases hparent : parentAt doc k with
      | missing =>
        rw [hparent] at hset
        obtain ⟨sub, hsub, rfl⟩ := map_eq_ok hset
        simp only [lookupJson_cons, find_setKey, ↓reduceIte]
        exact ih hsub
      | object sub =>
        rw [hparent] at hset
        obtain ⟨sub', hsub', rfl⟩ := map_eq_ok hset
        simp only [lookupJson_cons, find_setKey, ↓reduceIte]
        exact ih hsub'
      | other =>
        rw [hparent] at hset
        cases hset

theorem exists_removeJson (k : String) (ks : List String) (doc : Document F) :
    ∃ doc', removeJson (k :: ks) doc = .ok doc' := by
  induction ks generalizing k doc with
  | nil => exact ⟨_, rfl⟩
  | cons j ks ih =>
    rw [removeJson]
    split
    · next sub _ =>
      obtain ⟨sub', hsub'⟩ := ih j sub
      exact ⟨_, by rw [hsub']; rfl⟩
    · exact ⟨doc, rfl⟩

/-- No key on the way to the entry holds `null`. -/
def NoNullParent : List String → Document F → Prop
  | [], _ | [_], _ => True
  | k :: j :: ks, doc =>
    match Dict.find doc k with
    | some .null => False
    | some (.dict sub) => NoNullParent (j :: ks) sub
    | _ => True

theorem missingJsonParents_sorted {selector : List String} {doc : Document F} {created : List (List String)}
    (h : missingJsonParents selector doc = .ok created) :
    (∀ p ∈ created, p ≠ []) ∧ created.Pairwise fun a b => a.length < b.length := by
  have hcons (k : String) {ps : List (List String)} (hp : ps.Pairwise fun a b => a.length < b.length) :
      (ps.map (k :: ·)).Pairwise fun a b => a.length < b.length := by
    rw [List.pairwise_map]
    exact hp.imp fun hlt => Nat.succ_lt_succ hlt
  fun_induction missingJsonParents selector doc generalizing created with
  | case1 | case2 =>
    cases h
    exact ⟨by simp, List.Pairwise.nil⟩
  | case3 k j ks doc hparent ih =>
    obtain ⟨ps, hps, rfl⟩ := map_eq_ok h
    obtain ⟨hne, hsorted⟩ := ih hps
    refine ⟨by simp, List.pairwise_cons.mpr ⟨?_, hcons k hsorted⟩⟩
    intro p hp
    obtain ⟨q, hq, rfl⟩ := List.mem_map.mp hp
    exact Nat.succ_lt_succ (List.length_pos_of_ne_nil (hne q hq))
  | case4 k j ks doc sub hparent ih =>
    obtain ⟨ps, hps, rfl⟩ := map_eq_ok h
    exact ⟨by simp, hcons k (ih hps).2⟩
  | case5 => cases h

theorem pruneCreatedJsonParents_eq {created : List (List String)}
    (h : created.Pairwise fun a b => a.length < b.length) (doc : Document F) :
    pruneCreatedJsonParents created doc = created.foldr pruneParent doc := by
  have hlast (a : List String) (l : List (List String)) (hl : ∀ b ∈ l, a.length < b.length) :
      l.orderedInsert (fun a b => b.length ≤ a.length) a = l ++ [a] := by
    induction l with
    | nil => rfl
    | cons b l ih =>
      rw [List.forall_mem_cons] at hl
      rw [List.orderedInsert_cons, if_neg (Nat.not_le.mpr hl.1), ih hl.2, List.cons_append]
  have hsort : created.insertionSort (fun a b => b.length ≤ a.length) = created.reverse := by
    induction created with
    | nil => rfl
    | cons a l ih =>
      rw [List.pairwise_cons] at h
      rw [List.insertionSort_cons, ih h.2, List.reverse_cons]
      exact hlast a _ fun b hb => h.1 b (List.mem_reverse.mp hb)
  rw [pruneCreatedJsonParents, hsort, List.foldl_reverse]

theorem foldr_pruneParent_map {doc : Document F} {k : String} {sub : Document F}
    (hfind : Dict.find doc k = some (.dict sub)) {ps : List (List String)} (hne : ∀ p ∈ ps, p ≠ []) :
    (ps.map (k :: ·)).foldr pruneParent doc = setKey doc k (.dict (ps.foldr pruneParent sub)) := by
  induction ps with
  | nil => exact ((setKey_eq_self_iff hfind).mpr rfl).symm
  | cons p ps ih =>
    rw [List.forall_mem_cons] at hne
    rw [List.map_cons, List.foldr_cons, ih hne.2, List.foldr_cons]
    obtain ⟨j, ks, rfl⟩ := List.exists_cons_of_ne_nil hne.1
    simp only [pruneParent, find_setKey, ↓reduceIte, setKey_setKey]

theorem lookupJson_nil (k : String) (ks : List String) : lookupJson ([] : Document F) (k :: ks) = none := rfl

theorem noNullParent_nil (k : String) (ks : List String) : NoNullParent (k :: ks) ([] : Document F) := by
  cases ks with
  | nil => trivial
  | cons j ks => simp [NoNullParent, Dict.find]

theorem noNullParent_of_missing {doc : Document F} {k j : String} {ks : List String}
    (h : parentAt doc k = .missing) : k ∉ doc.map Prod.fst ↔ NoNullParent (k :: j :: ks) doc := by
  rw [← Dict.find_eq_none, NoNullParent]
  unfold parentAt at h
  split at h <;> simp_all

theorem prune_remove_set_iff {selector : List String} {v : Json F} {doc doc₁ doc₂ : Document F}
    {created : List (List String)} (hnew : lookupJson doc selector = none)
    (hset : setJson selector v doc = .ok doc₁) (hmissing : missingJsonParents selector doc = .ok created)
    (hremove : removeJson selector doc₁ = .ok doc₂) :
    created.foldr pruneParent doc₂ = doc ↔ NoNullParent selector doc := by
  induction selector generalizing doc doc₁ doc₂ created with
  | nil => cases hset
  | cons k ks ih =>
    cases ks with
    | nil =>
      cases hset
      cases hmissing
      cases hremove
      have hk : k ∉ doc.map Prod.fst := by
        rw [← Dict.find_eq_none]
        simpa [lookupJson, descend] using hnew
      simp [NoNullParent, dropKey_setKey, dropKey_of_notMem hk]
    | cons j ks =>
      rw [setJson] at hset
      rw [missingJsonParents] at hmissing
      cases hparent : parentAt doc k with
      | missing =>
        rw [hparent] at hset hmissing
        obtain ⟨sub₁, hsub₁, rfl⟩ := map_eq_ok hset
        obtain ⟨ps, hps, rfl⟩ := map_eq_ok hmissing
        simp only [removeJson, find_setKey, ↓reduceIte] at hremove
        obtain ⟨sub₂, hsub₂, rfl⟩ := map_eq_ok hremove
        have hback := (ih (lookupJson_nil j ks) hsub₁ hps hsub₂).mpr (noNullParent_nil j ks)
        have hfind : Dict.find (setKey (setKey doc k (.dict sub₁)) k (.dict sub₂)) k = some (.dict sub₂) := by
          rw [find_setKey, if_pos rfl]
        rw [List.foldr_cons, foldr_pruneParent_map hfind (missingJsonParents_sorted hps).1, hback]
        simp only [setKey_setKey, pruneParent, find_setKey, ↓reduceIte, dropKey_setKey, dropKey_eq_self_iff]
        exact noNullParent_of_missing hparent
      | object sub =>
        rw [hparent] at hset hmissing
        have hfind := find_of_parentAt hparent
        obtain ⟨sub₁, hsub₁, rfl⟩ := map_eq_ok hset
        obtain ⟨ps, hps, rfl⟩ := map_eq_ok hmissing
        simp only [removeJson, find_setKey, ↓reduceIte] at hremove
        obtain ⟨sub₂, hsub₂, rfl⟩ := map_eq_ok hremove
        have hsub : lookupJson sub (j :: ks) = none := by
          simpa [lookupJson, descend, hfind] using hnew
        have hfind₂ : Dict.find (setKey (setKey doc k (.dict sub₁)) k (.dict sub₂)) k = some (.dict sub₂) := by
          rw [find_setKey, if_pos rfl]
        rw [foldr_pruneParent_map hfind₂ (missingJsonParents_sorted hps).1]
        simp only [setKey_setKey, setKey_eq_self_iff hfind, Json.dict.injEq, NoNullParent, hfind]
        exact ih hsub hsub₁ hps hsub₂
      | other =>
        rw [hparent] at hset
        cases hset

/-- Every key on the way to the entry is free, or holds `null` or an object. -/
def Open : List String → Document F → Prop
  | [], _ => False
  | [_], _ => True
  | k :: j :: ks, doc =>
    match parentAt doc k with
    | .missing => True
    | .object sub => Open (j :: ks) sub
    | .other => False

theorem open_nil (k : String) (ks : List String) : Open (k :: ks) ([] : Document F) := by
  cases ks with
  | nil => trivial
  | cons j ks => simp [Open, parentAt, Dict.find]

theorem parentAt_of_find {doc sub : Document F} {k : String} (h : Dict.find doc k = some (.dict sub)) :
    parentAt doc k = .object sub := by
  rw [parentAt, h]

theorem exists_setJson_of_open {selector : List String} {doc : Document F} (h : Open selector doc) (v : Json F) :
    ∃ doc', setJson selector v doc = .ok doc' := by
  induction selector generalizing doc with
  | nil => exact h.elim
  | cons k ks ih =>
    cases ks with
    | nil => exact ⟨_, rfl⟩
    | cons j ks =>
      rw [Open] at h
      rw [setJson]
      cases hparent : parentAt doc k with
      | missing =>
        obtain ⟨sub, hsub⟩ := ih (open_nil j ks)
        exact ⟨setKey doc k (.dict sub), by simp only [hsub, Except.map]⟩
      | object sub =>
        rw [hparent] at h
        obtain ⟨sub', hsub⟩ := ih h
        exact ⟨setKey doc k (.dict sub'), by simp only [hsub, Except.map]⟩
      | other =>
        rw [hparent] at h
        exact h.elim

theorem exists_missingJsonParents_of_open {selector : List String} {doc : Document F} (h : Open selector doc) :
    ∃ created, missingJsonParents selector doc = .ok created := by
  induction selector generalizing doc with
  | nil => exact h.elim
  | cons k ks ih =>
    cases ks with
    | nil => exact ⟨_, rfl⟩
    | cons j ks =>
      rw [Open] at h
      rw [missingJsonParents]
      cases hparent : parentAt doc k with
      | missing =>
        obtain ⟨ps, hps⟩ := ih (open_nil j ks)
        exact ⟨[k] :: ps.map (k :: ·), by simp only [hps, Except.map]⟩
      | object sub =>
        rw [hparent] at h
        obtain ⟨ps, hps⟩ := ih h
        exact ⟨ps.map (k :: ·), by simp only [hps, Except.map]⟩
      | other =>
        rw [hparent] at h
        exact h.elim

theorem open_of_lookupJson {selector : List String} (hne : selector ≠ []) {doc : Document F} {v : Json F}
    (h : lookupJson doc selector = some v) : Open selector doc := by
  induction selector generalizing doc with
  | nil => exact absurd rfl hne
  | cons k ks ih =>
    cases ks with
    | nil => trivial
    | cons j ks =>
      rw [lookupJson_cons] at h
      split at h
      next sub hfind =>
        rw [Open, parentAt_of_find hfind]
        exact ih (List.cons_ne_nil j ks) h
      next => cases h

theorem open_removeJson {selector : List String} {doc doc' : Document F} (h : Open selector doc)
    (hremove : removeJson selector doc = .ok doc') : Open selector doc' := by
  induction selector generalizing doc doc' with
  | nil => exact h.elim
  | cons k ks ih =>
    cases ks with
    | nil => trivial
    | cons j ks =>
      rw [removeJson] at hremove
      split at hremove
      next sub hfind =>
        obtain ⟨sub', hsub, rfl⟩ := map_eq_ok hremove
        rw [Open, parentAt_of_find hfind] at h
        rw [Open, parentAt_of_find (by rw [find_setKey, if_pos rfl])]
        exact ih h hsub
      next =>
        cases hremove
        exact h

theorem lookupJson_removeJson {selector : List String} {doc doc' : Document F} (hdistinct : (Json.dict doc).Distinct)
    (hremove : removeJson selector doc = .ok doc') : lookupJson doc' selector = none := by
  induction selector generalizing doc doc' with
  | nil => cases hremove
  | cons k ks ih =>
    cases ks with
    | nil =>
      cases hremove
      simp [lookupJson, descend, find_dropKey_self hdistinct.1]
    | cons j ks =>
      rw [removeJson] at hremove
      split at hremove
      next sub hfind =>
        obtain ⟨sub', hsub, rfl⟩ := map_eq_ok hremove
        rw [lookupJson_cons, find_setKey, if_pos rfl]
        exact ih (distinct_of_find hdistinct hfind) hsub
      next hnot =>
        cases hremove
        rw [lookupJson_cons]
        split
        next sub hfind => exact absurd hfind (hnot sub)
        next => rfl

def Vacated (selector : List String) (doc : Document F) : Prop :=
  Open selector doc ∧ lookupJson doc selector = none

theorem vacated_cons_iff {doc doc' : Document F} {k : String} (ks : List String)
    (h : Dict.find doc' k = Dict.find doc k) : Vacated (k :: ks) doc' ↔ Vacated (k :: ks) doc := by
  cases ks with
  | nil => simp [Vacated, Open, lookupJson, descend, h]
  | cons j ks => simp only [Vacated, Open, parentAt, lookupJson_cons, h]

theorem vacated_of_free {doc : Document F} {k : String} (h : Dict.find doc k = none) (ks : List String) :
    Vacated (k :: ks) doc := by
  cases ks with
  | nil => simp [Vacated, Open, lookupJson, descend, h]
  | cons j ks => simp [Vacated, Open, parentAt, lookupJson_cons, h]

theorem vacated_cons_object {doc sub : Document F} {k j : String} {ks : List String}
    (h : Dict.find doc k = some (.dict sub)) : Vacated (k :: j :: ks) doc ↔ Vacated (j :: ks) sub := by
  simp [Vacated, Open, parentAt_of_find h, lookupJson_cons, h]

theorem vacated_pruneParent {selector : List String} (p : List String) {doc : Document F}
    (hdistinct : (Json.dict doc).Distinct) (h : Vacated selector doc) : Vacated selector (pruneParent p doc) := by
  induction p generalizing selector doc with
  | nil => exact h
  | cons k ps ih =>
    cases selector with
    | nil => exact h.1.elim
    | cons i is =>
      cases ps with
      | nil =>
        rw [pruneParent]
        split
        · by_cases hk : k = i
          · subst hk
            exact vacated_of_free (find_dropKey_self hdistinct.1) is
          · exact (vacated_cons_iff is (find_dropKey hk)).mpr h
        · exact h
      | cons j ps =>
        rw [pruneParent]
        split
        · next sub hfind =>
          by_cases hk : k = i
          · subst hk
            cases is with
            | nil =>
              have hnone := h.2
              simp [lookupJson, descend, hfind] at hnone
            | cons i is =>
              rw [vacated_cons_object hfind] at h
              apply (vacated_cons_object (by rw [find_setKey, if_pos rfl])).mpr
              exact ih (distinct_of_find hdistinct hfind) h
          · apply (vacated_cons_iff is _).mpr h
            rw [find_setKey, if_neg hk]
        · exact h

theorem vacated_pruneCreatedJsonParents {selector : List String} (created : List (List String)) {doc : Document F}
    (hdistinct : (Json.dict doc).Distinct) (h : Vacated selector doc) :
    Vacated selector (pruneCreatedJsonParents created doc) := by
  rw [pruneCreatedJsonParents]
  generalize created.insertionSort (fun a b => b.length ≤ a.length) = parents
  induction parents generalizing doc with
  | nil => exact h
  | cons p parents ih => exact ih (distinct_pruneParent p hdistinct) (vacated_pruneParent p hdistinct h)

end Installer

end GraphSkillRuntime
