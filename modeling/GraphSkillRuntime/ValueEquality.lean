import GraphSkillRuntime.Value
import Mathlib.Data.List.Nodup
import Mathlib.Data.List.Perm.Subperm
import Mathlib.Data.Option.Basic

/-! Python's `==` on values: an equivalence on those whose objects have each key once. -/

namespace GraphSkillRuntime

namespace Value

open OrderedDict

theorem eqv_dict_iff {us vs : List (String × Value)} (hu : (us.map Prod.fst).Nodup) (hv : (vs.map Prod.fst).Nodup) :
    (Value.dict us).eqv (.dict vs) = true ↔
      ∀ k, Option.Rel (fun v w => Value.eqv v w = true) (Dict.find us k) (Dict.find vs k) := by
  rw [Value.eqv, Bool.and_eq_true, Value.eqvEntries_iff, beq_iff_eq]
  constructor
  · rintro ⟨hlen, hall⟩ k
    have hsub : us.map Prod.fst ⊆ vs.map Prod.fst := by
      intro j hj
      obtain ⟨v, hfind⟩ := Option.isSome_iff_exists.mp (Dict.find_isSome.mpr hj)
      obtain ⟨w, hw, -⟩ := hall j v (Dict.mem_of_find hfind)
      exact Dict.find_isSome.mp (Option.isSome_iff_exists.mpr ⟨w, hw⟩)
    have hperm : (us.map Prod.fst).Perm (vs.map Prod.fst) :=
      (hu.subperm hsub).perm_of_length_le (by simp [hlen])
    cases hfind : Dict.find us k with
    | none =>
      rw [Dict.find_eq_none.mpr fun hk => Dict.find_eq_none.mp hfind (hperm.mem_iff.mpr hk)]
      exact .none
    | some v =>
      obtain ⟨w, hw, heqv⟩ := hall k v (Dict.mem_of_find hfind)
      rw [hw]
      exact .some heqv
  · intro h
    have hkeys : ∀ k, k ∈ us.map Prod.fst ↔ k ∈ vs.map Prod.fst := by
      intro k
      rw [← Dict.find_isSome, ← Dict.find_isSome]
      have hrel := h k
      revert hrel
      generalize Dict.find us k = v
      generalize Dict.find vs k = w
      rintro (_ | _) <;> simp
    refine ⟨by simpa using ((List.perm_ext_iff_of_nodup hu hv).mpr hkeys).length_eq, ?_⟩
    intro k v hmem
    have hrel := h k
    rw [(Dict.find_mem hu).mpr hmem] at hrel
    cases hw : Dict.find vs k with
    | none =>
      rw [hw] at hrel
      cases hrel
    | some w =>
      rw [hw] at hrel
      cases hrel with
      | some heqv => exact ⟨w, rfl, heqv⟩

mutual

theorem eqv_trans : ∀ u v w : Value, u.eqv v = true → v.eqv w = true → u.eqv w = true
  | .null, v, w, huv, hvw => by
    cases v <;> simp only [eqv, Bool.false_eq_true] at huv
    exact hvw
  | .bool a, v, w, huv, hvw => by
    cases v <;> simp only [eqv, Bool.false_eq_true, beq_iff_eq] at huv
    · rw [huv]
      exact hvw
    · cases w <;> simp only [eqv, Bool.false_eq_true, beq_iff_eq] at hvw ⊢
      · rw [← huv] at hvw
        revert hvw
        cases a <;> rename_i b <;> cases b <;> simp
      · rw [huv, hvw]
  | .num p, v, w, huv, hvw => by
    cases v <;> simp only [eqv, Bool.false_eq_true, beq_iff_eq] at huv
    · cases w <;> simp only [eqv, Bool.false_eq_true, beq_iff_eq] at hvw ⊢
      · rw [huv, hvw]
      · rw [huv, hvw]
    · rw [huv]
      exact hvw
  | .str a, v, w, huv, hvw => by
    cases v <;> simp only [eqv, Bool.false_eq_true, beq_iff_eq] at huv
    rw [huv]
    exact hvw
  | .list xs, v, w, huv, hvw => by
    cases v <;> simp only [eqv, Bool.false_eq_true] at huv
    cases w <;> simp only [eqv, Bool.false_eq_true] at hvw ⊢
    exact eqvList_trans xs _ _ huv hvw
  | .dict xs, v, w, huv, hvw => by
    cases v <;> simp only [eqv, Bool.false_eq_true, Bool.and_eq_true, beq_iff_eq] at huv
    cases w <;> simp only [eqv, Bool.false_eq_true, Bool.and_eq_true, beq_iff_eq] at hvw ⊢
    exact ⟨huv.1.trans hvw.1, eqvEntries_trans xs _ _ huv.2 hvw.2⟩

theorem eqvList_trans : ∀ xs ys zs : List Value, eqvList xs ys = true → eqvList ys zs = true → eqvList xs zs = true
  | [], ys, zs, hxy, hyz => by
    cases ys with
    | nil => exact hyz
    | cons y ys => cases hxy
  | x :: xs, ys, zs, hxy, hyz => by
    cases ys with
    | nil => cases hxy
    | cons y ys =>
      cases zs with
      | nil => cases hyz
      | cons z zs =>
        simp only [eqvList, Bool.and_eq_true] at hxy hyz ⊢
        exact ⟨eqv_trans x y z hxy.1 hyz.1, eqvList_trans xs ys zs hxy.2 hyz.2⟩

theorem eqvEntries_trans : ∀ xs ys zs : List (String × Value), eqvEntries xs ys = true → eqvEntries ys zs = true →
    eqvEntries xs zs = true
  | [], _, _, _, _ => rfl
  | (k, u) :: xs, ys, zs, hxy, hyz => by
    rw [eqvEntries, Bool.and_eq_true] at hxy ⊢
    refine ⟨?_, eqvEntries_trans xs ys zs hxy.2 hyz⟩
    cases hv : Dict.find ys k with
    | none => simp [hv] at hxy
    | some v =>
      obtain ⟨w, hw, hvw⟩ := eqvEntries_iff.mp hyz _ _ (Dict.mem_of_find hv)
      simp only [hv, hw] at hxy ⊢
      exact eqv_trans u v w hxy.1 hvw

end

mutual

theorem eqv_refl : ∀ v : Value, v.Keyed → v.eqv v = true
  | .null, _ | .bool _, _ | .num _, _ | .str _, _ => by simp [eqv]
  | .list xs, h => eqvList_refl xs h
  | .dict kvs, h => by
    rw [eqv_dict_iff h.1 h.1]
    intro k
    cases hfind : Dict.find kvs k with
    | none => exact .none
    | some v => exact .some (eqvMembers_refl kvs h.2 _ (Dict.mem_of_find hfind))

theorem eqvList_refl : ∀ xs : List Value, KeyedElements xs → eqvList xs xs = true
  | [], _ => rfl
  | x :: xs, h => by
    rw [eqvList, eqv_refl x h.1, eqvList_refl xs h.2]
    rfl

theorem eqvMembers_refl : ∀ kvs : List (String × Value), KeyedMembers kvs → ∀ kv ∈ kvs, kv.2.eqv kv.2 = true
  | [], _ => by simp
  | (_, v) :: kvs, h => by
    rw [List.forall_mem_cons]
    exact ⟨eqv_refl v h.1, eqvMembers_refl kvs h.2⟩

end

mutual

theorem eqv_symm : ∀ v w : Value, v.Keyed → w.Keyed → v.eqv w = true → w.eqv v = true
  | .null, w, _, _, h | .bool _, w, _, _, h | .num _, w, _, _, h | .str _, w, _, _, h => by
    cases w <;> simp only [eqv, Bool.false_eq_true, beq_iff_eq] at h ⊢ <;> exact h.symm
  | .list xs, w, hv, hw, h => by
    cases w <;> simp only [eqv, Bool.false_eq_true] at h ⊢
    exact eqvList_symm xs _ hv hw h
  | .dict xs, w, hv, hw, h => by
    cases w <;> simp only [eqv, Bool.false_eq_true] at h
    rename_i ys
    have hrel := (eqv_dict_iff hv.1 hw.1).mp h
    rw [eqv_dict_iff hw.1 hv.1]
    intro k
    specialize hrel k
    cases hx : Dict.find xs k with
    | none =>
      cases hy : Dict.find ys k with
      | none => exact .none
      | some w =>
        rw [hx, hy] at hrel
        cases hrel
    | some v =>
      cases hy : Dict.find ys k with
      | none =>
        rw [hx, hy] at hrel
        cases hrel
      | some w =>
        rw [hx, hy] at hrel
        cases hrel with
        | some heqv =>
          have hkeyed := keyedMembers_iff.mp hw.2 _ (Dict.mem_of_find hy)
          exact .some (eqvMembers_symm xs hv.2 _ (Dict.mem_of_find hx) w hkeyed heqv)

theorem eqvList_symm : ∀ xs ys : List Value, KeyedElements xs → KeyedElements ys → eqvList xs ys = true →
    eqvList ys xs = true
  | [], ys, _, _, h => by
    cases ys with
    | nil => rfl
    | cons y ys => cases h
  | x :: xs, ys, hx, hy, h => by
    cases ys with
    | nil => cases h
    | cons y ys =>
      simp only [eqvList, Bool.and_eq_true] at h ⊢
      exact ⟨eqv_symm x y hx.1 hy.1 h.1, eqvList_symm xs ys hx.2 hy.2 h.2⟩

theorem eqvMembers_symm : ∀ kvs : List (String × Value), KeyedMembers kvs → ∀ kv ∈ kvs, ∀ w : Value, w.Keyed →
    kv.2.eqv w = true → w.eqv kv.2 = true
  | [], _ => by simp
  | (_, v) :: kvs, h => by
    rw [List.forall_mem_cons]
    exact ⟨fun w hw => eqv_symm v w h.1 hw, eqvMembers_symm kvs h.2⟩

end

end Value

end GraphSkillRuntime
