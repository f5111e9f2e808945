import GraphSkillRuntime.Iterate
import Mathlib

namespace GraphSkillRuntime

/-- The items at the positions from `start` to `stop`, both included and counted from one. -/
def closedInterval (items : List Value) (start stop : ℤ) : List Value :=
  ((items.zipIdx 1).filter (fun e => start ≤ e.2 ∧ e.2 ≤ stop)).map Prod.fst

structure SelectsInterval (items : List Value) (start stop : ℤ) (rounds : List Value) : Prop where
  items_eq : rounds = closedInterval items start stop
  count_eq : rounds.length = (Finset.Icc start stop ∩ Finset.Icc 1 (items.length : ℤ)).card

theorem filter_zipIdx (items : List Value) (first : ℕ) (start stop : ℤ) :
    ((items.zipIdx first).filter (fun e => start ≤ e.2 ∧ e.2 ≤ stop)).map Prod.fst =
      (items.take (stop + 1 - first).toNat).drop (start - first).toNat := by
  induction items generalizing first with
  | nil => simp
  | cons item items ih =>
    rw [List.zipIdx_cons, List.filter_cons]
    by_cases hstop : (first : ℤ) ≤ stop
    · obtain ⟨n, hn⟩ : ∃ n : ℕ, (stop + 1 - first).toNat = n + 1 := ⟨(stop - first).toNat, by omega⟩
      have hn' : (stop + 1 - ((first + 1 : ℕ) : ℤ)).toNat = n := by omega
      by_cases hstart : start ≤ first
      · have hdrop : (start - first).toNat = 0 := by omega
        have hdrop' : (start - ((first + 1 : ℕ) : ℤ)).toNat = 0 := by omega
        have hih := ih (first + 1)
        rw [hn', hdrop', List.drop_zero] at hih
        simp only [hstart, hstop, and_self, decide_true, if_true, List.map_cons, hih, hn, hdrop, List.take_succ_cons,
          List.drop_zero]
      · obtain ⟨m, hm⟩ : ∃ m : ℕ, (start - first).toNat = m + 1 := ⟨(start - first - 1).toNat, by omega⟩
        have hm' : (start - ((first + 1 : ℕ) : ℤ)).toNat = m := by omega
        have hih := ih (first + 1)
        rw [hn', hm'] at hih
        simp only [hstart, false_and, decide_false, Bool.false_eq_true, if_false, hih, hn, hm, List.take_succ_cons,
          List.drop_succ_cons]
    · have hzero : (stop + 1 - first).toNat = 0 := by omega
      have hzero' : (stop + 1 - ((first + 1 : ℕ) : ℤ)).toNat = 0 := by omega
      have hih := ih (first + 1)
      rw [hzero', List.take_zero, List.drop_nil] at hih
      simp only [hstop, and_false, decide_false, Bool.false_eq_true, if_false, hih, hzero, List.take_zero,
        List.drop_nil]

theorem closedInterval_eq (items : List Value) (start stop : ℤ) :
    closedInterval items start stop = (items.take stop.toNat).drop (start - 1).toNat := by
  have h := filter_zipIdx items 1 start stop
  rwa [Nat.cast_one, Int.add_sub_cancel] at h

theorem length_closedInterval (items : List Value) (start stop : ℤ) :
    (closedInterval items start stop).length = (Finset.Icc start stop ∩ Finset.Icc 1 (items.length : ℤ)).card := by
  have hinter : Finset.Icc start stop ∩ Finset.Icc 1 (items.length : ℤ) =
      Finset.Icc (max start 1) (min stop items.length) := by
    ext position
    simp only [Finset.mem_inter, Finset.mem_Icc]
    omega
  rw [closedInterval_eq, hinter, Int.card_Icc, List.length_drop, List.length_take]
  omega

theorem applyIterateRange_of_neg (items : List Value) {start stop : ℤ} (h : start ≤ stop) (hstop : stop < 0) :
    applyIterateRange items (some ⟨(start, stop), h⟩) = items.take (items.length - (-stop).toNat) := by
  have hstart : (max start 1 - 1).toNat = 0 := by omega
  simp only [applyIterateRange, hstop, if_true, hstart, List.drop_zero]

theorem applyIterateRange_of_nonneg (items : List Value) {start stop : ℤ} (h : start ≤ stop) (hstop : 0 ≤ stop) :
    applyIterateRange items (some ⟨(start, stop), h⟩) = closedInterval items start stop := by
  have hstart : (max start 1 - 1).toNat = (start - 1).toNat := by omega
  have hneg : ¬stop < 0 := by omega
  simp only [applyIterateRange, hneg, if_false, hstart, closedInterval_eq]

theorem range_selects_interval_iff (items : List Value) (start stop : ℤ) (h : start ≤ stop) :
    SelectsInterval items start stop (applyIterateRange items (some ⟨(start, stop), h⟩)) ↔
      0 ≤ stop ∨ items.length ≤ -stop := by
  by_cases hstop : 0 ≤ stop
  · have heq := applyIterateRange_of_nonneg items h hstop
    exact iff_of_true ⟨heq, heq ▸ length_closedInterval items start stop⟩ (.inl hstop)
  · have hempty : closedInterval items start stop = [] := by
      have hzero : stop.toNat = 0 := by omega
      rw [closedInterval_eq, hzero, List.take_zero, List.drop_nil]
    have heq := applyIterateRange_of_neg items h (by omega)
    constructor
    · intro hselects
      have hlength := congrArg List.length hselects.items_eq
      rw [heq, hempty, List.length_take, List.length_nil] at hlength
      omega
    · intro hlength
      have hzero : items.length - (-stop).toNat = 0 := by omega
      have htake : applyIterateRange items (some ⟨(start, stop), h⟩) = closedInterval items start stop := by
        rw [heq, hempty, hzero, List.take_zero]
      exact ⟨htake, htake ▸ length_closedInterval items start stop⟩

theorem range_selects_interval_chapters :
    SelectsInterval [.num 1, .num 2, .num 3] 0 2
      (applyIterateRange [.num 1, .num 2, .num 3] (some ⟨(0, 2), by decide⟩)) :=
  (range_selects_interval_iff _ 0 2 (by decide)).mpr (.inl (by decide))

theorem negative_end_selects_items :
    ¬SelectsInterval [.num 1, .num 2, .num 3] (-2) (-1)
      (applyIterateRange [.num 1, .num 2, .num 3] (some ⟨(-2, -1), by decide⟩)) := by
  intro h
  have hlength := congrArg List.length h.items_eq
  revert hlength
  decide

end GraphSkillRuntime
