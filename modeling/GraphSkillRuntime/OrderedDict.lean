import Mathlib.Data.List.Nodup
import Mathlib.Data.List.Perm.Subperm
import Mathlib.Tactic.Common

/-!
Insertion-ordered dictionaries with unique keys. `update` keeps the position of a key that is
already there and appends the new ones in the order of the argument.
-/

namespace GraphSkillRuntime.OrderedDict

structure Dict (κ ν : Type) where
  entries : List (κ × ν)
  nodup : (entries.map Prod.fst).Nodup
  deriving DecidableEq

namespace Dict

variable {κ ν μ : Type} [DecidableEq κ]

def empty : Dict κ ν := ⟨[], List.nodup_nil⟩

instance : EmptyCollection (Dict κ ν) := ⟨empty⟩
instance : Inhabited (Dict κ ν) := ⟨empty⟩

def keys (d : Dict κ ν) : List κ := d.entries.map Prod.fst

def find : List (κ × ν) → κ → Option ν
  | [], _ => none
  | (k, v) :: es, j => if k = j then some v else find es j

def get? (d : Dict κ ν) (k : κ) : Option ν := find d.entries k

def contains (d : Dict κ ν) (k : κ) : Bool := (d.get? k).isSome

theorem find_append (es fs : List (κ × ν)) (k : κ) :
    find (es ++ fs) k = (find es k).or (find fs k) := by
  induction es with
  | nil => rfl
  | cons e es ih =>
    simp only [List.cons_append, find]
    split_ifs <;> simp [ih]

theorem find_eq_none {es : List (κ × ν)} {k : κ} : find es k = none ↔ k ∉ es.map Prod.fst := by
  induction es with
  | nil => simp [find]
  | cons e es ih =>
    simp only [find, List.map_cons, List.mem_cons, not_or]
    by_cases h : e.1 = k
    · simp [h]
    · simp [h, ih, Ne.symm h]

theorem find_isSome {es : List (κ × ν)} {k : κ} : (find es k).isSome ↔ k ∈ es.map Prod.fst := by
  rw [← not_iff_not, Bool.not_eq_true, Option.isSome_eq_false_iff, Option.isNone_iff_eq_none,
    find_eq_none]

theorem find_mem {es : List (κ × ν)} (hn : (es.map Prod.fst).Nodup) {k : κ} {v : ν} :
    find es k = some v ↔ (k, v) ∈ es := by
  induction es with
  | nil => simp [find]
  | cons e es ih =>
    simp only [List.map_cons, List.nodup_cons] at hn
    simp only [find, List.mem_cons]
    by_cases h : e.1 = k
    · simp only [h, ↓reduceIte, Option.some.injEq]
      constructor
      · intro hv; left; exact Prod.ext h.symm hv.symm
      · rintro (rfl | hm)
        · rfl
        · exact absurd (List.mem_map_of_mem hm) (h ▸ hn.1)
    · simp only [h, ↓reduceIte, ih hn.2]
      constructor
      · exact Or.inr
      · rintro (rfl | hm)
        · exact absurd rfl h
        · exact hm

theorem mem_of_find {es : List (κ × ν)} {k : κ} {v : ν} (h : find es k = some v) : (k, v) ∈ es := by
  induction es with
  | nil => simp [find] at h
  | cons e es ih =>
    simp only [find] at h
    split_ifs at h with hk
    · have he : e = (k, v) := Prod.ext hk (Option.some.inj h)
      exact he ▸ List.mem_cons_self
    · exact List.mem_cons_of_mem _ (ih h)

theorem find_filter {es : List (κ × ν)} (hn : (es.map Prod.fst).Nodup) (P : κ → ν → Bool) (k : κ) :
    find (es.filter (fun e => P e.1 e.2)) k = (find es k).filter (P k) := by
  induction es with
  | nil => rfl
  | cons e es ih =>
    simp only [List.map_cons, List.nodup_cons] at hn
    simp only [List.filter_cons, find]
    by_cases h : e.1 = k
    · subst h
      have hrest : find es e.1 = none := find_eq_none.mpr hn.1
      cases hP : P e.1 e.2 with
      | true => simp [find, Option.filter, hP]
      | false => simp [ih hn.2, hrest, Option.filter, hP]
    · cases hP : P e.1 e.2 with
      | true => simp [find, h, ih hn.2]
      | false => simp [h, ih hn.2]

theorem find_map (f : κ → ν → μ) (es : List (κ × ν)) (k : κ) :
    find (es.map (fun e => (e.1, f e.1 e.2))) k = (find es k).map (f k) := by
  induction es with
  | nil => rfl
  | cons e es ih =>
    simp only [List.map_cons, find]
    by_cases h : e.1 = k
    · subst h; simp
    · simp [h, ih]

@[simp] theorem get?_empty (k : κ) : (∅ : Dict κ ν).get? k = none := rfl

theorem mem_keys {d : Dict κ ν} {k : κ} : k ∈ d.keys ↔ (d.get? k).isSome := find_isSome.symm

omit [DecidableEq κ] in
@[simp] theorem keys_empty : (∅ : Dict κ ν).keys = [] := rfl

theorem contains_iff {d : Dict κ ν} {k : κ} : d.contains k = true ↔ k ∈ d.keys := mem_keys.symm

theorem get?_eq_none {d : Dict κ ν} {k : κ} : d.get? k = none ↔ k ∉ d.keys := find_eq_none

theorem get?_mem {d : Dict κ ν} {k : κ} {v : ν} : d.get? k = some v ↔ (k, v) ∈ d.entries :=
  find_mem d.nodup

def filter (d : Dict κ ν) (P : κ → ν → Bool) : Dict κ ν where
  entries := d.entries.filter (fun e => P e.1 e.2)
  nodup := d.nodup.sublist (List.filter_sublist.map _)

@[simp] theorem get?_filter (d : Dict κ ν) (P : κ → ν → Bool) (k : κ) :
    (d.filter P).get? k = (d.get? k).filter (P k) := find_filter d.nodup P k

def restrict (d : Dict κ ν) (p : κ → Bool) : Dict κ ν := d.filter (fun k _ => p k)

@[simp] theorem get?_restrict (d : Dict κ ν) (p : κ → Bool) (k : κ) :
    (d.restrict p).get? k = if p k then d.get? k else none := by
  rw [restrict, get?_filter]
  cases h : d.get? k <;> by_cases hp : p k <;> simp [hp]

def erase (d : Dict κ ν) (k : κ) : Dict κ ν := d.restrict (fun j => j ≠ k)

@[simp] theorem get?_erase (d : Dict κ ν) (k j : κ) :
    (d.erase k).get? j = if j = k then none else d.get? j := by
  rw [erase, get?_restrict]
  by_cases h : j = k <;> simp [h]

def mapValues (d : Dict κ ν) (f : κ → ν → μ) : Dict κ μ where
  entries := d.entries.map (fun e => (e.1, f e.1 e.2))
  nodup := by simpa [List.map_map, Function.comp_def] using d.nodup

@[simp] theorem get?_mapValues (d : Dict κ ν) (f : κ → ν → μ) (k : κ) :
    (d.mapValues f).get? k = (d.get? k).map (f k) := find_map f d.entries k

def update (d e : Dict κ ν) : Dict κ ν where
  entries := (d.mapValues (fun k v => (e.get? k).getD v)).entries ++
    (e.restrict (fun k => k ∉ d.keys)).entries
  nodup := by
    rw [List.map_append, List.nodup_append']
    refine ⟨(d.mapValues _).nodup, (e.restrict _).nodup, ?_⟩
    intro k hk he
    have hd : k ∈ d.keys := by simpa [mapValues, keys, List.map_map, Function.comp_def] using hk
    have hs := mem_keys.mp (show k ∈ (e.restrict (fun k => k ∉ d.keys)).keys from he)
    simp [hd] at hs

@[simp] theorem get?_update (d e : Dict κ ν) (k : κ) :
    (d.update e).get? k = (e.get? k).or (d.get? k) := by
  have h : (d.update e).get? k = ((d.mapValues (fun k v => (e.get? k).getD v)).get? k).or
      ((e.restrict (fun k => k ∉ d.keys)).get? k) := find_append _ _ k
  rw [h, get?_mapValues, get?_restrict]
  cases hd : d.get? k with
  | none => simp [get?_eq_none.mp hd]
  | some v => cases he : e.get? k <;> simp

omit [DecidableEq κ] in
theorem ext_entries {d e : Dict κ ν} (h : d.entries = e.entries) : d = e := by
  obtain ⟨es, hd⟩ := d
  obtain ⟨fs, he⟩ := e
  obtain rfl : es = fs := h
  rfl

theorem update_empty (d : Dict κ ν) : d.update ∅ = d := by
  apply ext_entries
  have hmap : d.entries.map (fun e => (e.1, ((∅ : Dict κ ν).get? e.1).getD e.2)) = d.entries := by simp
  have hnone : ((∅ : Dict κ ν).restrict (fun k => k ∉ d.keys)).entries = [] := rfl
  simp only [update, mapValues, hmap, hnone, List.append_nil]

theorem contains_update (d e : Dict κ ν) (k : κ) : (d.update e).contains k = (e.contains k || d.contains k) := by
  rw [contains, get?_update]
  cases h : e.get? k <;> simp [contains, h]

def single (k : κ) (v : ν) : Dict κ ν := ⟨[(k, v)], by simp⟩

@[simp] theorem get?_single (k j : κ) (v : ν) :
    (single k v).get? j = if k = j then some v else none := rfl

def set (d : Dict κ ν) (k : κ) (v : ν) : Dict κ ν := d.update (single k v)

@[simp] theorem get?_set (d : Dict κ ν) (k j : κ) (v : ν) :
    (d.set k v).get? j = if k = j then some v else d.get? j := by
  rw [set, get?_update, get?_single]
  by_cases h : k = j <;> simp [h]

theorem contains_set (d : Dict κ ν) (k j : κ) (v : ν) :
    (d.set k v).contains j = true ↔ k = j ∨ d.contains j = true := by
  rw [contains, get?_set]
  split_ifs with h <;> simp [h, contains]

omit [DecidableEq κ] in
theorem filter_single {P : κ → ν → Bool} {k : κ} {v : ν} (h : P k v = true) :
    (single k v).filter P = single k v := by
  simp [single, filter, h]

def ofList (es : List (κ × ν)) : Dict κ ν := es.foldl (fun d e => d.set e.1 e.2) ∅

theorem get?_foldl_set (es : List (κ × ν)) (d : Dict κ ν) (k : κ) :
    (es.foldl (fun d e => d.set e.1 e.2) d).get? k = (find es.reverse k).or (d.get? k) := by
  induction es generalizing d with
  | nil => simp [find]
  | cons e es ih =>
    rw [List.foldl_cons, ih, List.reverse_cons, find_append, get?_set]
    by_cases h : e.1 = k <;> cases find es.reverse k <;> simp [find, h]

theorem get?_ofList (es : List (κ × ν)) (k : κ) : (ofList es).get? k = find es.reverse k := by
  rw [ofList, get?_foldl_set]
  simp

theorem entries_set_new {d : Dict κ ν} {k : κ} (hk : k ∉ d.keys) (v : ν) :
    (d.set k v).entries = d.entries ++ [(k, v)] := by
  have hmap : d.entries.map (fun e => (e.1, ((single k v).get? e.1).getD e.2)) = d.entries := by
    refine (List.map_congr_left fun e he => ?_).trans (List.map_id _)
    have hne : k ≠ e.1 := fun h => hk (h ▸ List.mem_map_of_mem he)
    simp [hne]
  have hnew : (single k v).entries.filter (fun e => decide (e.1 ∉ d.keys)) = [(k, v)] := by
    simp [single, hk]
  simp only [set, update, mapValues, restrict, filter, hmap, hnew]

theorem entries_foldl_set (es : List (κ × ν)) (d : Dict κ ν)
    (hn : ((d.entries ++ es).map Prod.fst).Nodup) :
    (es.foldl (fun d e => d.set e.1 e.2) d).entries = d.entries ++ es := by
  induction es generalizing d with
  | nil => simp
  | cons e es ih =>
    have hk : e.1 ∉ d.keys := by
      rw [List.map_append, List.nodup_append'] at hn
      exact fun h => hn.2.2 h (by simp)
    have hset := entries_set_new hk e.2
    rw [List.foldl_cons, ih (d.set e.1 e.2), hset, List.append_assoc]
    · rfl
    · rw [hset, List.append_assoc]
      exact hn

theorem entries_ofList {es : List (κ × ν)} (h : (es.map Prod.fst).Nodup) : (ofList es).entries = es :=
  entries_foldl_set es ∅ h

@[simp] theorem ofList_entries (d : Dict κ ν) : ofList d.entries = d := by
  apply ext_entries
  rw [ofList, entries_foldl_set]
  · rfl
  · exact d.nodup

theorem get?_ofList_of_mem {es : List (κ × ν)} (hn : (es.map Prod.fst).Nodup) {k : κ} {v : ν}
    (h : (k, v) ∈ es) : (ofList es).get? k = some v := by
  rw [get?_mem, entries_ofList hn]
  exact h

theorem get?_ofList_nodup {es : List (κ × ν)} (hn : (es.map Prod.fst).Nodup) (k : κ) :
    (ofList es).get? k = find es k := by
  cases hfind : find es k with
  | some v => exact get?_ofList_of_mem hn ((find_mem hn).mp hfind)
  | none =>
    rw [get?_ofList, find_eq_none, List.map_reverse, List.mem_reverse]
    exact find_eq_none.mp hfind

def Same (d e : Dict κ ν) : Prop := ∀ k, d.get? k = e.get? k

theorem Same.refl (d : Dict κ ν) : Same d d := fun _ => rfl

theorem Same.symm {d e : Dict κ ν} (h : Same d e) : Same e d := fun k => (h k).symm

theorem Same.trans {d e f : Dict κ ν} (h : Same d e) (h' : Same e f) : Same d f :=
  fun k => (h k).trans (h' k)

theorem Same.mem_keys {d e : Dict κ ν} (h : Same d e) (k : κ) : k ∈ d.keys ↔ k ∈ e.keys := by
  rw [Dict.mem_keys, Dict.mem_keys, h k]

theorem same_empty_iff (d : Dict κ ν) : d.Same ∅ ↔ d.entries = [] := by
  constructor
  · intro h
    obtain ⟨es, hn⟩ := d
    cases es with
    | nil => rfl
    | cons e es =>
      have he := h e.1
      rw [get?_empty] at he
      simp [get?, find] at he
  · intro h
    have hd : d = ∅ := ext_entries h
    rw [hd]
    exact Same.refl _

instance [DecidableEq ν] (d e : Dict κ ν) : Decidable (Same d e) :=
  decidable_of_iff (∀ k ∈ d.keys ++ e.keys, d.get? k = e.get? k) <| by
    constructor
    · intro h k
      by_cases hk : k ∈ d.keys ++ e.keys
      · exact h k hk
      · simp only [List.mem_append, not_or] at hk
        rw [get?_eq_none.mpr hk.1, get?_eq_none.mpr hk.2]
    · exact fun h k _ => h k

end Dict

end GraphSkillRuntime.OrderedDict
