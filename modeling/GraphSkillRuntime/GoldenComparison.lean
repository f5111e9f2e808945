import Mathlib
import GraphSkillRuntime.ValueEquality
import GraphSkillRuntime.PyData

/-! The comparison of a golden case: the differences and the score of the actual output against the expected one. -/

namespace GraphSkillRuntime.GoldenComparison

open OrderedDict PyData

structure Diff where
  path : String
  expected : Value
  actual : Value
  status : String := "changed"
  deriving DecidableEq

def changedDiff (path : String) (actual expected : Value) : Diff := { path, expected, actual }

def fieldPath (pathPrefix key : String) : String := if pathPrefix = "" then key else pathPrefix ++ "." ++ key

def elementPath (pathPrefix : String) (index : ℕ) : String := pathPrefix ++ "[" ++ toString index ++ "]"

/-- `diff_outputs(None, expected)`: an absent element is read as `None`, which is no object and no list. -/
def absentDiffs : List Value → ℕ → String → List Diff
  | [], _, _ => []
  | expected :: rest, index, pathPrefix =>
    (if Value.null == expected then [] else [changedDiff (elementPath pathPrefix index) .null expected]) ++
      absentDiffs rest (index + 1) pathPrefix

def newMembers (actual expected : List (String × Value)) : List (String × Value) :=
  expected.filter fun kv => (Dict.find actual kv.1).isNone

mutual

def diffOutputs : Value → Value → String → List Diff
  | .dict actual, expected, pathPrefix =>
    if Value.dict actual == expected then []
    else
      match expected with
      | .dict expected =>
        (orderBy Prod.fst (diffMembers actual expected pathPrefix ++ (newMembers actual expected).map fun kv =>
          (kv.1, [changedDiff (fieldPath pathPrefix kv.1) .null kv.2]))).flatMap Prod.snd
      | expected => [changedDiff pathPrefix (.dict actual) expected]
  | .list actual, expected, pathPrefix =>
    if Value.list actual == expected then []
    else
      match expected with
      | .list expected => diffElements actual expected 0 pathPrefix
      | expected => [changedDiff pathPrefix (.list actual) expected]
  | actual, expected, pathPrefix => if actual == expected then [] else [changedDiff pathPrefix actual expected]

def diffMembers : List (String × Value) → List (String × Value) → String → List (String × List Diff)
  | [], _, _ => []
  | (key, actual) :: rest, expected, pathPrefix =>
    (key, match Dict.find expected key with
      | none => [changedDiff (fieldPath pathPrefix key) actual .null]
      | some expected => diffOutputs actual expected (fieldPath pathPrefix key)) ::
        diffMembers rest expected pathPrefix

def diffElements : List Value → List Value → ℕ → String → List Diff
  | [], expected, index, pathPrefix => absentDiffs expected index pathPrefix
  | actual :: rest, expected, index, pathPrefix =>
    diffOutputs actual (expected.headD .null) (elementPath pathPrefix index) ++
      diffElements rest expected.tail (index + 1) pathPrefix

end

def meanScore (scores : List ℚ) : ℚ := if scores.isEmpty then 1 else scores.foldl (· + ·) 0 / scores.length

def numericScore (actual expected : ℚ) : ℚ :=
  max 0 (1 - |actual - expected| / max (max |actual| |expected|) 1)

/-- A `bool` is an `int`. -/
def number? : Value → Option ℚ
  | .bool b => some (if b then 1 else 0)
  | .num q => some q
  | _ => none

/-- `calculate_score(None, expected)`. -/
def absentScore (expected : Value) : ℚ := if Value.null == expected then 1 else 0

section

/- `SequenceMatcher(None, expected, actual).ratio()`. -/
variable (ratio : String → String → ℚ)

def leafScore : Value → Value → ℚ
  | .str actual, .str expected => ratio expected actual
  | actual, expected =>
    match number? actual, number? expected with
    | some actual, some expected => numericScore actual expected
    | _, _ => 0

mutual

def calculateScore : Value → Value → ℚ
  | .dict actual, expected =>
    if Value.dict actual == expected then 1
    else
      match expected with
      | .dict expected =>
        meanScore (memberScores actual expected ++ (newMembers actual expected).map fun kv => absentScore kv.2)
      | _ => 0
  | .list actual, expected =>
    if Value.list actual == expected then 1
    else
      match expected with
      | .list expected => meanScore (elementScores actual expected)
      | _ => 0
  | actual, expected => if actual == expected then 1 else leafScore ratio actual expected

def memberScores : List (String × Value) → List (String × Value) → List ℚ
  | [], _ => []
  | (key, actual) :: rest, expected =>
    calculateScore actual ((Dict.find expected key).getD .null) :: memberScores rest expected

def elementScores : List Value → List Value → List ℚ
  | [], expected => expected.map absentScore
  | actual :: rest, expected => calculateScore actual (expected.headD .null) :: elementScores rest expected.tail

end

inductive CaseStatus where
  | passed | failed | stale
  deriving DecidableEq

structure CaseReport where
  status : CaseStatus
  score : ℚ
  diff : List Diff
  staleFields : List String

def staleFields (expectedOutput : Value) (requiredOutputs : List String) : List String :=
  match expectedOutput with
  | .dict members => requiredOutputs.filter fun field => (Dict.find members field).isNone
  | _ => requiredOutputs

/-- The skill is run for a case that is not stale; `actual` is what it put out. -/
def evaluateCase (requiredOutputs : List String) (expected : Value) (actual : Value) : CaseReport :=
  match staleFields expected requiredOutputs with
  | field :: fields => { status := .stale, score := 0, diff := [], staleFields := field :: fields }
  | [] =>
    let diff := diffOutputs actual expected ""
    { status := if diff.isEmpty then .passed else .failed
      score := calculateScore ratio actual expected
      diff
      staleFields := [] }

end

mutual

/-- The values are the same JSON: objects are equal as maps, and a boolean is no number. -/
def sameJson : Value → Value → Bool
  | .null, .null => true
  | .bool a, .bool b => a == b
  | .num p, .num q => p == q
  | .str s, .str t => s == t
  | .list xs, .list ys => sameElements xs ys
  | .dict xs, .dict ys => xs.length == ys.length && sameMembers xs ys
  | _, _ => false

def sameElements : List Value → List Value → Bool
  | [], [] => true
  | x :: xs, y :: ys => sameJson x y && sameElements xs ys
  | _, _ => false

def sameMembers : List (String × Value) → List (String × Value) → Bool
  | [], _ => true
  | (k, v) :: xs, ys =>
    (match Dict.find ys k with | some w => sameJson v w | none => false) && sameMembers xs ys

end

mutual

/-- Without the members that are null and the nulls at the end of a list, at every depth. -/
def trimmed : Value → Value
  | .list xs => .list (trimmedElements xs)
  | .dict kvs => .dict (trimmedMembers kvs)
  | v => v

def trimmedElements : List Value → List Value
  | [] => []
  | x :: xs => if trimmed x = .null ∧ trimmedElements xs = [] then [] else trimmed x :: trimmedElements xs

def trimmedMembers : List (String × Value) → List (String × Value)
  | [] => []
  | (k, v) :: kvs => if trimmed v = .null then trimmedMembers kvs else (k, trimmed v) :: trimmedMembers kvs

end

theorem foldl_add (scores : List ℚ) (c : ℚ) : scores.foldl (· + ·) c = c + scores.sum := by
  induction scores generalizing c with
  | nil => simp
  | cons s scores ih => rw [List.foldl_cons, ih, List.sum_cons, add_assoc]

theorem sum_le_length {scores : List ℚ} (h : ∀ s ∈ scores, s ≤ 1) :
    scores.sum ≤ scores.length ∧ (scores.sum = scores.length ↔ ∀ s ∈ scores, s = 1) := by
  induction scores with
  | nil => simp
  | cons s scores ih =>
    rw [List.forall_mem_cons] at h
    obtain ⟨hle, heq⟩ := ih h.2
    rw [List.sum_cons, List.length_cons, List.forall_mem_cons, ← heq]
    push_cast
    refine ⟨by linarith [h.1], ?_⟩
    constructor
    · intro hsum
      constructor
      · linarith [h.1]
      · linarith [h.1]
    · rintro ⟨hs, hsum⟩
      linarith

theorem meanScore_le {scores : List ℚ} (h : ∀ s ∈ scores, s ≤ 1) : meanScore scores ≤ 1 := by
  unfold meanScore
  split_ifs with hempty
  · exact le_rfl
  · have hpos : (0 : ℚ) < scores.length := by
      have hne : scores ≠ [] := by simpa using hempty
      exact_mod_cast List.length_pos_iff.mpr hne
    rw [foldl_add, zero_add, div_le_one hpos]
    exact (sum_le_length h).1

theorem meanScore_eq_one {scores : List ℚ} (h : ∀ s ∈ scores, s ≤ 1) :
    meanScore scores = 1 ↔ ∀ s ∈ scores, s = 1 := by
  unfold meanScore
  split_ifs with hempty
  · have hnil : scores = [] := by simpa using hempty
    simp [hnil]
  · have hpos : (scores.length : ℚ) ≠ 0 := by
      have hne : scores ≠ [] := by simpa using hempty
      exact_mod_cast (List.length_pos_iff.mpr hne).ne'
    rw [foldl_add, zero_add, div_eq_one_iff_eq hpos]
    exact (sum_le_length h).2

theorem numericScore_le (actual expected : ℚ) : numericScore actual expected ≤ 1 := by
  have hdiv : 0 ≤ |actual - expected| / max (max |actual| |expected|) 1 := by positivity
  exact max_le (by norm_num) (by linarith)

theorem numericScore_eq_one {actual expected : ℚ} : numericScore actual expected = 1 ↔ actual = expected := by
  have hpos : 0 < max (max |actual| |expected|) 1 := lt_max_of_lt_right one_pos
  have hdiv : 0 ≤ |actual - expected| / max (max |actual| |expected|) 1 := by positivity
  constructor
  · intro h
    have hzero : |actual - expected| / max (max |actual| |expected|) 1 = 0 := by
      rcases max_choice 0 (1 - |actual - expected| / max (max |actual| |expected|) 1) with hm | hm
      · rw [numericScore, hm] at h
        norm_num at h
      · rw [numericScore, hm] at h
        linarith
    rw [div_eq_zero_iff, abs_eq_zero, sub_eq_zero] at hzero
    exact hzero.resolve_right hpos.ne'
  · rintro rfl
    simp [numericScore]

theorem absentScore_le (v : Value) : absentScore v ≤ 1 := by
  unfold absentScore
  split_ifs <;> norm_num

theorem null_beq {v : Value} : (Value.null == v) = true ↔ v = .null := by
  cases v <;> simp [BEq.beq, Value.eqv]

theorem absentScore_eq_one {v : Value} : absentScore v = 1 ↔ v = .null := by
  unfold absentScore
  split_ifs with h
  · simp [null_beq.mp h]
  · simp only [zero_ne_one, false_iff]
    exact fun hv => h (null_beq.mpr hv)

/-! The two recursions, by what is compared. -/

def Apart : Value → Value → Prop
  | .dict _, .dict _ | .list _, .list _ => False
  | _, _ => True

section

variable (ratio : String → String → ℚ)

theorem calculateScore_dict (actual expected : List (String × Value)) :
    calculateScore ratio (.dict actual) (.dict expected) =
      if Value.dict actual == Value.dict expected then 1
      else meanScore
        (memberScores ratio actual expected ++ (newMembers actual expected).map fun kv => absentScore kv.2) := by
  rw [calculateScore]

theorem calculateScore_list (actual expected : List Value) :
    calculateScore ratio (.list actual) (.list expected) =
      if Value.list actual == Value.list expected then 1 else meanScore (elementScores ratio actual expected) := by
  rw [calculateScore]

theorem calculateScore_apart {actual expected : Value} (h : Apart actual expected) :
    calculateScore ratio actual expected = if actual == expected then 1 else leafScore ratio actual expected := by
  cases actual with
  | dict xs =>
    cases expected with
    | dict ys => cases h
    | _ => simp [calculateScore, leafScore, number?]
  | list xs =>
    cases expected with
    | list ys => cases h
    | _ => simp [calculateScore, leafScore, number?]
  | _ => simp [calculateScore]

theorem calculateScore_eqv {actual expected : Value} (h : (actual == expected) = true) :
    calculateScore ratio actual expected = 1 := by
  cases actual with
  | _ => simp [calculateScore, h]

end

theorem diffOutputs_eqv {actual expected : Value} (h : (actual == expected) = true) (pathPrefix : String) :
    diffOutputs actual expected pathPrefix = [] := by
  cases actual with
  | _ => simp [diffOutputs, h]

theorem diffOutputs_apart {actual expected : Value} (h : Apart actual expected) (pathPrefix : String) :
    diffOutputs actual expected pathPrefix =
      if actual == expected then [] else [changedDiff pathPrefix actual expected] := by
  cases actual with
  | dict xs =>
    cases expected with
    | dict ys => cases h
    | _ => simp [diffOutputs]
  | list xs =>
    cases expected with
    | list ys => cases h
    | _ => simp [diffOutputs]
  | _ => simp [diffOutputs]

section Bounds

variable {ratio : String → String → ℚ} (hle : ∀ s t, ratio s t ≤ 1)

include hle

theorem leafScore_le (actual expected : Value) : leafScore ratio actual expected ≤ 1 := by
  unfold leafScore
  split
  · exact hle _ _
  · split
    · exact numericScore_le _ _
    · norm_num

theorem calculateScore_apart_le {actual expected : Value} (h : Apart actual expected) :
    calculateScore ratio actual expected ≤ 1 := by
  rw [calculateScore_apart ratio h]
  split_ifs
  · exact le_rfl
  · exact leafScore_le hle actual expected

omit hle in
theorem absentScores_le (vs : List Value) : ∀ s ∈ vs.map absentScore, s ≤ 1 := by
  intro s hs
  obtain ⟨v, -, rfl⟩ := List.mem_map.mp hs
  exact absentScore_le v

mutual

theorem calculateScore_le (actual expected : Value) : calculateScore ratio actual expected ≤ 1 := by
  cases actual with
  | dict xs =>
    cases expected with
    | dict ys =>
      rw [calculateScore_dict]
      split_ifs
      · exact le_rfl
      · apply meanScore_le
        intro s hs
        rcases List.mem_append.mp hs with hs | hs
        · exact memberScores_le xs ys s hs
        · obtain ⟨kv, -, rfl⟩ := List.mem_map.mp hs
          exact absentScore_le kv.2
    | _ => exact calculateScore_apart_le hle trivial
  | list xs =>
    cases expected with
    | list ys =>
      rw [calculateScore_list]
      split_ifs
      · exact le_rfl
      · exact meanScore_le (elementScores_le xs ys)
    | _ => exact calculateScore_apart_le hle trivial
  | _ =>
    apply calculateScore_apart_le hle
    cases expected <;> trivial
termination_by structural actual

theorem memberScores_le (xs ys : List (String × Value)) : ∀ s ∈ memberScores ratio xs ys, s ≤ 1 := by
  cases xs with
  | nil => simp [memberScores]
  | cons kv xs =>
    obtain ⟨key, v⟩ := kv
    rw [memberScores, List.forall_mem_cons]
    exact ⟨calculateScore_le v _, memberScores_le xs ys⟩
termination_by structural xs

theorem elementScores_le (xs ys : List Value) : ∀ s ∈ elementScores ratio xs ys, s ≤ 1 := by
  cases xs with
  | nil =>
    rw [elementScores]
    exact absentScores_le ys
  | cons x xs =>
    rw [elementScores, List.forall_mem_cons]
    exact ⟨calculateScore_le x _, elementScores_le xs ys.tail⟩
termination_by structural xs

end

end Bounds

theorem mem_orderBy {α : Type} {e : String × α} {es : List (String × α)} : e ∈ orderBy Prod.fst es ↔ e ∈ es :=
  List.mem_insertionSort _

theorem absentDiffs_eq_nil {vs : List Value} {index : ℕ} {pathPrefix : String}
    (h : absentDiffs vs index pathPrefix = []) : ∀ s ∈ vs.map absentScore, s = 1 := by
  induction vs generalizing index with
  | nil => simp
  | cons v vs ih =>
    rw [absentDiffs, List.append_eq_nil_iff] at h
    rw [List.map_cons, List.forall_mem_cons]
    refine ⟨?_, ih h.2⟩
    split_ifs at h with hv
    · exact absentScore_eq_one.mpr (null_beq.mp hv)
    · simp at h

section

variable (ratio : String → String → ℚ)

theorem meanScore_ones {scores : List ℚ} (h : ∀ s ∈ scores, s = 1) : meanScore scores = 1 :=
  (meanScore_eq_one fun s hs => (h s hs).le).mpr h

theorem calculateScore_of_apart_diff {actual expected : Value} {pathPrefix : String} (happart : Apart actual expected)
    (h : diffOutputs actual expected pathPrefix = []) : calculateScore ratio actual expected = 1 := by
  rw [diffOutputs_apart happart] at h
  split_ifs at h with heqv
  exact calculateScore_eqv ratio heqv

mutual

theorem calculateScore_of_diff {actual expected : Value} {pathPrefix : String}
    (h : diffOutputs actual expected pathPrefix = []) : calculateScore ratio actual expected = 1 := by
  cases actual with
  | dict xs =>
    cases expected with
    | dict ys =>
      rw [calculateScore_dict]
      rw [diffOutputs] at h
      split_ifs with heqv
      · rfl
      · rw [if_neg heqv, List.flatMap_eq_nil_iff] at h
        apply meanScore_ones
        intro s hs
        rcases List.mem_append.mp hs with hs | hs
        · exact memberScores_of_diff (fun p hp => h p (mem_orderBy.mpr (List.mem_append_left _ hp))) s hs
        · obtain ⟨kv, hkv, -⟩ := List.mem_map.mp hs
          have hnone := h _ (mem_orderBy.mpr (List.mem_append_right _ (List.mem_map_of_mem hkv)))
          cases hnone
    | _ => exact calculateScore_of_apart_diff ratio trivial h
  | list xs =>
    cases expected with
    | list ys =>
      rw [calculateScore_list]
      rw [diffOutputs] at h
      split_ifs with heqv
      · rfl
      · rw [if_neg heqv] at h
        exact meanScore_ones (elementScores_of_diff h)
    | _ => exact calculateScore_of_apart_diff ratio trivial h
  | _ =>
    refine calculateScore_of_apart_diff ratio ?_ h
    cases expected <;> trivial
termination_by structural actual

theorem memberScores_of_diff {xs ys : List (String × Value)} {pathPrefix : String}
    (h : ∀ p ∈ diffMembers xs ys pathPrefix, p.2 = []) : ∀ s ∈ memberScores ratio xs ys, s = 1 := by
  cases xs with
  | nil => simp [memberScores]
  | cons kv xs =>
    obtain ⟨key, v⟩ := kv
    rw [diffMembers, List.forall_mem_cons] at h
    rw [memberScores, List.forall_mem_cons]
    refine ⟨?_, memberScores_of_diff h.2⟩
    cases hfind : Dict.find ys key with
    | none => simp [hfind] at h
    | some w =>
      rw [hfind] at h
      exact calculateScore_of_diff h.1
termination_by structural xs

theorem elementScores_of_diff {xs ys : List Value} {index : ℕ} {pathPrefix : String}
    (h : diffElements xs ys index pathPrefix = []) : ∀ s ∈ elementScores ratio xs ys, s = 1 := by
  cases xs with
  | nil =>
    rw [elementScores]
    exact absentDiffs_eq_nil h
  | cons x xs =>
    rw [diffElements, List.append_eq_nil_iff] at h
    rw [elementScores, List.forall_mem_cons]
    exact ⟨calculateScore_of_diff h.1, elementScores_of_diff h.2⟩
termination_by structural xs

end

end

/-! A full score is equality of what is left without absent entries. -/

theorem trimmed_eq_null {v : Value} : trimmed v = .null ↔ v = .null := by
  cases v <;> simp [trimmed]

theorem eqv_null_iff {v : Value} : Value.eqv v .null = true ↔ v = .null := by
  cases v <;> simp [Value.eqv]

theorem null_eqv_iff {v : Value} : Value.eqv .null v = true ↔ v = .null := by
  cases v <;> simp [Value.eqv]

def kept (v : Value) : Option Value := if trimmed v = .null then none else some (trimmed v)

theorem rel_kept_iff {v w : Value} :
    Option.Rel (fun v w => Value.eqv v w = true) (kept v) (kept w) ↔ (trimmed v).eqv (trimmed w) = true := by
  unfold kept
  split_ifs with hv hw hw
  · simp [hv, hw, Value.eqv]
  · rw [hv, null_eqv_iff]
    constructor
    · rintro ⟨⟩
    · exact fun h => absurd h hw
  · rw [hw, eqv_null_iff]
    constructor
    · rintro ⟨⟩
    · exact fun h => absurd h hv
  · constructor
    · rintro (h | _)
      exact h
    · exact fun h => .some h

theorem find_trimmedMembers {kvs : List (String × Value)} (hn : (kvs.map Prod.fst).Nodup) (k : String) :
    Dict.find (trimmedMembers kvs) k = kept ((Dict.find kvs k).getD .null) := by
  induction kvs with
  | nil => rfl
  | cons kv kvs ih =>
    obtain ⟨j, v⟩ := kv
    rw [List.map_cons, List.nodup_cons] at hn
    have hrest := ih hn.2
    rw [trimmedMembers, Dict.find]
    by_cases hj : j = k
    · subst hj
      rw [Dict.find_eq_none.mpr hn.1] at hrest
      rw [if_pos rfl, Option.getD_some]
      split_ifs with hv
      · rw [hrest]
        simp [kept, hv, trimmed]
      · simp [kept, hv, Dict.find]
    · rw [if_neg hj]
      split_ifs
      · exact hrest
      · rw [Dict.find, if_neg hj]
        exact hrest

theorem nodup_trimmedMembers {kvs : List (String × Value)} (hn : (kvs.map Prod.fst).Nodup) :
    ((trimmedMembers kvs).map Prod.fst).Nodup := by
  have hsub : ((trimmedMembers kvs).map Prod.fst).Sublist (kvs.map Prod.fst) := by
    clear hn
    induction kvs with
    | nil => exact .refl _
    | cons kv kvs ih =>
      obtain ⟨k, v⟩ := kv
      rw [trimmedMembers]
      split_ifs
      · exact ih.cons _
      · exact ih.cons_cons _
  exact hn.sublist hsub

theorem trimmed_dict_iff {xs ys : List (String × Value)} (hx : (xs.map Prod.fst).Nodup) (hy : (ys.map Prod.fst).Nodup) :
    (trimmed (.dict xs)).eqv (trimmed (.dict ys)) = true ↔
      ∀ k, (trimmed ((Dict.find xs k).getD .null)).eqv (trimmed ((Dict.find ys k).getD .null)) = true := by
  rw [trimmed, trimmed, Value.eqv_dict_iff (nodup_trimmedMembers hx) (nodup_trimmedMembers hy)]
  apply forall_congr'
  intro k
  rw [find_trimmedMembers hx, find_trimmedMembers hy, rel_kept_iff]

theorem eqv_of_number {v w : Value} {q : ℚ} (hv : number? v = some q) (hw : number? w = some q) : v.eqv w = true := by
  cases v with
  | bool b =>
    obtain rfl := Option.some.inj hv
    cases w with
    | bool c =>
      have hbits := Option.some.inj hw
      cases b <;> cases c <;> simp_all [Value.eqv]
    | num r =>
      obtain rfl := Option.some.inj hw
      simp [Value.eqv]
    | _ => cases hw
  | num p =>
    obtain rfl := Option.some.inj hv
    cases w with
    | bool c =>
      have hbits : (if c then (1 : ℚ) else 0) = p := Option.some.inj hw
      simp [Value.eqv, hbits]
    | num r =>
      obtain rfl := Option.some.inj hw
      simp [Value.eqv]
    | _ => cases hw
  | _ => cases hv

theorem eqv_trimmed_apart {v w : Value} (h : Apart v w) : (trimmed v).eqv (trimmed w) = v.eqv w := by
  cases v with
  | list xs =>
    cases w with
    | list ys => cases h
    | _ => simp [trimmed, Value.eqv]
  | dict xs =>
    cases w with
    | dict ys => cases h
    | _ => simp [trimmed, Value.eqv]
  | _ => cases w <;> simp [trimmed, Value.eqv]

theorem trimmedElements_cons {x y : Value} {xs ys : List Value} :
    Value.eqvList (trimmedElements (x :: xs)) (trimmedElements (y :: ys)) = true ↔
      (trimmed x).eqv (trimmed y) = true ∧ Value.eqvList (trimmedElements xs) (trimmedElements ys) = true := by
  rw [trimmedElements, trimmedElements]
  split_ifs with hx hy hy
  · simp [hx, hy, Value.eqv, Value.eqvList]
  · rw [hx.1, hx.2, null_eqv_iff]
    constructor
    · intro h
      cases h
    · rintro ⟨hnull, hrest⟩
      apply absurd _ hy
      refine ⟨hnull, ?_⟩
      cases hys : trimmedElements ys with
      | nil => rfl
      | cons z zs =>
        rw [hys] at hrest
        cases hrest
  · rw [hy.1, hy.2, eqv_null_iff]
    constructor
    · intro h
      cases h
    · rintro ⟨hnull, hrest⟩
      apply absurd _ hx
      refine ⟨hnull, ?_⟩
      cases hxs : trimmedElements xs with
      | nil => rfl
      | cons z zs =>
        rw [hxs] at hrest
        cases hrest
  · rw [Value.eqvList, Bool.and_eq_true]

theorem trimmedElements_eq_nil {xs : List Value} : trimmedElements xs = [] ↔ ∀ x ∈ xs, x = .null := by
  induction xs with
  | nil => simp [trimmedElements]
  | cons x xs ih =>
    rw [trimmedElements, List.forall_mem_cons, ← ih]
    split_ifs with h
    · exact iff_of_true rfl ⟨trimmed_eq_null.mp h.1, h.2⟩
    · exact iff_of_false (by simp) fun hnull => h ⟨trimmed_eq_null.mpr hnull.1, hnull.2⟩

theorem eqvList_nil_left {vs : List Value} : Value.eqvList [] vs = true ↔ vs = [] := by
  cases vs <;> simp [Value.eqvList]

theorem eqvList_nil_right {vs : List Value} : Value.eqvList vs [] = true ↔ vs = [] := by
  cases vs <;> simp [Value.eqvList]

theorem trimmedElements_cons_nil {x : Value} {xs : List Value} :
    Value.eqvList (trimmedElements (x :: xs)) (trimmedElements []) = true ↔
      (trimmed x).eqv (trimmed .null) = true ∧ Value.eqvList (trimmedElements xs) (trimmedElements []) = true := by
  have hnull : trimmed .null = .null := rfl
  have hnil : trimmedElements [] = [] := rfl
  rw [hnull, hnil, eqv_null_iff, trimmed_eq_null, eqvList_nil_right, eqvList_nil_right, trimmedElements_eq_nil,
    trimmedElements_eq_nil, List.forall_mem_cons]

section Exact

variable {ratio : String → String → ℚ}

theorem memberScores_eqv {xs ys : List (String × Value)}
    (h : ∀ k v, (k, v) ∈ xs → ∃ w, Dict.find ys k = some w ∧ v.eqv w = true) :
    ∀ s ∈ memberScores ratio xs ys, s = 1 := by
  induction xs with
  | nil => simp [memberScores]
  | cons kv xs ih =>
    rw [memberScores, List.forall_mem_cons]
    refine ⟨?_, ih fun k v hmem => h k v (List.mem_cons_of_mem _ hmem)⟩
    obtain ⟨w, hw, heqv⟩ := h kv.1 kv.2 (List.mem_cons_self ..)
    rw [hw]
    exact calculateScore_eqv ratio heqv

theorem elementScores_eqv {xs ys : List Value} (h : Value.eqvList xs ys = true) :
    ∀ s ∈ elementScores ratio xs ys, s = 1 := by
  induction xs generalizing ys with
  | nil =>
    rw [eqvList_nil_left.mp h]
    simp [elementScores]
  | cons x xs ih =>
    cases ys with
    | nil => cases h
    | cons y ys =>
      rw [Value.eqvList, Bool.and_eq_true] at h
      rw [elementScores, List.forall_mem_cons]
      exact ⟨calculateScore_eqv ratio h.1, ih h.2⟩

theorem keyed_getD {ys : List (String × Value)} (h : Value.KeyedMembers ys) (k : String) :
    ((Dict.find ys k).getD .null).Keyed := by
  cases hfind : Dict.find ys k with
  | none => trivial
  | some w => exact Value.keyedMembers_iff.mp h _ (Dict.mem_of_find hfind)

theorem mem_newMembers {xs ys : List (String × Value)} {kv : String × Value} :
    kv ∈ newMembers xs ys ↔ kv ∈ ys ∧ Dict.find xs kv.1 = none := by
  simp [newMembers]

theorem fullScores_eqv {xs ys : List (String × Value)} (hx : (xs.map Prod.fst).Nodup) (hy : (ys.map Prod.fst).Nodup)
    (h : (Value.dict xs).eqv (.dict ys) = true) :
    ∀ s ∈ memberScores ratio xs ys ++ (newMembers xs ys).map (fun kv => absentScore kv.2), s = 1 := by
  have hrel := (Value.eqv_dict_iff hx hy).mp h
  rw [Value.eqv, Bool.and_eq_true, Value.eqvEntries_iff] at h
  rw [List.forall_mem_append]
  refine ⟨memberScores_eqv h.2, ?_⟩
  intro s hs
  obtain ⟨kv, hkv, rfl⟩ := List.mem_map.mp hs
  obtain ⟨hmem, hnone⟩ := mem_newMembers.mp hkv
  have hkey := hrel kv.1
  rw [hnone, (Dict.find_mem hy).mpr hmem] at hkey
  cases hkey

theorem fullScores_iff {xs ys : List (String × Value)} (hx : (xs.map Prod.fst).Nodup) (hy : (ys.map Prod.fst).Nodup)
    (hmembers : (∀ s ∈ memberScores ratio xs ys, s = 1) ↔
      ∀ kv ∈ xs, (trimmed kv.2).eqv (trimmed ((Dict.find ys kv.1).getD .null)) = true) :
    (∀ s ∈ memberScores ratio xs ys ++ (newMembers xs ys).map (fun kv => absentScore kv.2), s = 1) ↔
      ∀ k, (trimmed ((Dict.find xs k).getD .null)).eqv (trimmed ((Dict.find ys k).getD .null)) = true := by
  rw [List.forall_mem_append, hmembers]
  constructor
  · rintro ⟨hold, hnew⟩ k
    cases hfx : Dict.find xs k with
    | some v => exact hold (k, v) (Dict.mem_of_find hfx)
    | none =>
      cases hfy : Dict.find ys k with
      | none => simp [trimmed, Value.eqv]
      | some w =>
        have hmem : (k, w) ∈ newMembers xs ys := mem_newMembers.mpr ⟨Dict.mem_of_find hfy, hfx⟩
        have hw := absentScore_eq_one.mp (hnew _ (List.mem_map_of_mem hmem))
        simp only at hw
        simp [hw, trimmed, Value.eqv]
  · intro h
    refine ⟨?_, ?_⟩
    · intro kv hkv
      have hkey := h kv.1
      rw [(Dict.find_mem hx).mpr hkv] at hkey
      exact hkey
    · intro s hs
      obtain ⟨kv, hkv, rfl⟩ := List.mem_map.mp hs
      obtain ⟨hmem, hnone⟩ := mem_newMembers.mp hkv
      have hkey := h kv.1
      rw [hnone, (Dict.find_mem hy).mpr hmem] at hkey
      exact absentScore_eq_one.mpr (trimmed_eq_null.mp (null_eqv_iff.mp hkey))

variable (hle : ∀ s t, ratio s t ≤ 1) (hratio : ∀ s t, ratio s t = 1 ↔ s = t)

include hratio

theorem calculateScore_apart_iff {actual expected : Value} (h : Apart actual expected) :
    calculateScore ratio actual expected = 1 ↔ (trimmed actual).eqv (trimmed expected) = true := by
  rw [calculateScore_apart ratio h, eqv_trimmed_apart h]
  split_ifs with heqv
  · exact iff_of_true rfl heqv
  · refine iff_of_false ?_ heqv
    intro hone
    unfold leafScore at hone
    split at hone
    · exact heqv (by simp [BEq.beq, Value.eqv, (hratio _ _).mp hone])
    · split at hone
      · rename_i ha he
        exact heqv (eqv_of_number ha (numericScore_eq_one.mp hone ▸ he))
      · norm_num at hone

include hle

mutual

theorem calculateScore_iff {actual expected : Value} (hactual : actual.Keyed) (hexpected : expected.Keyed) :
    calculateScore ratio actual expected = 1 ↔ (trimmed actual).eqv (trimmed expected) = true := by
  cases actual with
  | dict xs =>
    cases expected with
    | dict ys =>
      rw [calculateScore_dict, trimmed_dict_iff hactual.1 hexpected.1,
        ← fullScores_iff hactual.1 hexpected.1 (memberScores_iff hactual.2 hexpected.2)]
      split_ifs with heqv
      · exact iff_of_true rfl (fullScores_eqv hactual.1 hexpected.1 heqv)
      · apply meanScore_eq_one
        rw [List.forall_mem_append]
        refine ⟨memberScores_le hle xs ys, ?_⟩
        intro s hs
        obtain ⟨kv, -, rfl⟩ := List.mem_map.mp hs
        exact absentScore_le kv.2
    | _ => exact calculateScore_apart_iff hratio trivial
  | list xs =>
    cases expected with
    | list ys =>
      rw [calculateScore_list, trimmed, trimmed, Value.eqv, ← elementScores_iff hactual hexpected]
      split_ifs with heqv
      · exact iff_of_true rfl (elementScores_eqv heqv)
      · exact meanScore_eq_one (elementScores_le hle xs ys)
    | _ => exact calculateScore_apart_iff hratio trivial
  | _ =>
    apply calculateScore_apart_iff hratio
    cases expected <;> trivial
termination_by structural actual

theorem memberScores_iff {xs ys : List (String × Value)} (hx : Value.KeyedMembers xs) (hy : Value.KeyedMembers ys) :
    (∀ s ∈ memberScores ratio xs ys, s = 1) ↔
      ∀ kv ∈ xs, (trimmed kv.2).eqv (trimmed ((Dict.find ys kv.1).getD .null)) = true := by
  cases xs with
  | nil => simp [memberScores]
  | cons kv xs =>
    obtain ⟨k, v⟩ := kv
    rw [memberScores, List.forall_mem_cons, List.forall_mem_cons, calculateScore_iff hx.1 (keyed_getD hy k),
      memberScores_iff hx.2 hy]
termination_by structural xs

theorem elementScores_iff {xs ys : List Value} (hx : Value.KeyedElements xs) (hy : Value.KeyedElements ys) :
    (∀ s ∈ elementScores ratio xs ys, s = 1) ↔
      Value.eqvList (trimmedElements xs) (trimmedElements ys) = true := by
  cases xs with
  | nil =>
    rw [elementScores, trimmedElements, eqvList_nil_left, trimmedElements_eq_nil]
    simp [absentScore_eq_one]
  | cons x xs =>
    cases ys with
    | nil =>
      have hnull : (Value.null).Keyed := trivial
      rw [elementScores, List.forall_mem_cons, List.headD_nil, List.tail_nil, calculateScore_iff hx.1 hnull,
        elementScores_iff hx.2 hy, trimmedElements_cons_nil]
    | cons y ys =>
      rw [elementScores, List.forall_mem_cons, List.headD_cons, List.tail_cons, calculateScore_iff hx.1 hy.1,
        elementScores_iff hx.2 hy.2, trimmedElements_cons]
termination_by structural xs

end

end Exact

mutual

theorem eqv_of_sameJson {v w : Value} (h : sameJson v w = true) : v.eqv w = true := by
  cases v with
  | list xs =>
    cases w with
    | list ys => exact eqvList_of_sameElements h
    | _ => cases h
  | dict xs =>
    cases w with
    | dict ys =>
      rw [sameJson, Bool.and_eq_true] at h
      rw [Value.eqv, Bool.and_eq_true]
      exact ⟨h.1, eqvEntries_of_sameMembers h.2⟩
    | _ => cases h
  | _ =>
    cases w with
    | _ => first | exact h | cases h
termination_by structural v

theorem eqvList_of_sameElements {xs ys : List Value} (h : sameElements xs ys = true) : Value.eqvList xs ys = true := by
  cases xs with
  | nil =>
    cases ys with
    | nil => rfl
    | cons y ys => cases h
  | cons x xs =>
    cases ys with
    | nil => cases h
    | cons y ys =>
      rw [sameElements, Bool.and_eq_true] at h
      rw [Value.eqvList, Bool.and_eq_true]
      exact ⟨eqv_of_sameJson h.1, eqvList_of_sameElements h.2⟩
termination_by structural xs

theorem eqvEntries_of_sameMembers {xs ys : List (String × Value)} (h : sameMembers xs ys = true) :
    Value.eqvEntries xs ys = true := by
  cases xs with
  | nil => rfl
  | cons kv xs =>
    obtain ⟨k, v⟩ := kv
    rw [sameMembers, Bool.and_eq_true] at h
    rw [Value.eqvEntries, Bool.and_eq_true]
    refine ⟨?_, eqvEntries_of_sameMembers h.2⟩
    cases hfind : Dict.find ys k with
    | none => simp [hfind] at h
    | some w =>
      rw [hfind] at h
      exact eqv_of_sameJson h.1
termination_by structural xs

end

structure Exact (ratio : String → String → ℚ) (actual expected : Value) : Prop where
  diff : diffOutputs actual expected "" = [] ↔ sameJson actual expected = true
  score : calculateScore ratio actual expected = 1 ↔ sameJson actual expected = true
  passed : ∀ requiredOutputs, staleFields expected requiredOutputs = [] →
    ((evaluateCase ratio requiredOutputs expected actual).status = .passed ↔ sameJson actual expected = true)
  passedScore : ∀ requiredOutputs, (evaluateCase ratio requiredOutputs expected actual).status = .passed →
    (evaluateCase ratio requiredOutputs expected actual).score = 1

section

variable {ratio : String → String → ℚ}

theorem evaluateCase_passed {requiredOutputs : List String} {actual expected : Value}
    (hstale : staleFields expected requiredOutputs = []) :
    (evaluateCase ratio requiredOutputs expected actual).status = .passed ↔ diffOutputs actual expected "" = [] := by
  unfold evaluateCase
  rw [hstale]
  cases diffOutputs actual expected "" <;> simp

theorem evaluateCase_passedScore {requiredOutputs : List String} {actual expected : Value}
    (h : (evaluateCase ratio requiredOutputs expected actual).status = .passed) :
    (evaluateCase ratio requiredOutputs expected actual).score = 1 := by
  cases hstale : staleFields expected requiredOutputs with
  | cons field fields => simp [evaluateCase, hstale] at h
  | nil =>
    have hdiff := (evaluateCase_passed hstale).mp h
    unfold evaluateCase
    rw [hstale]
    exact calculateScore_of_diff ratio hdiff

/-- The comparison is exact unless the outputs differ, but not once absent entries are read as null and `True` as 1. -/
theorem golden_comparison_exact_iff (hle : ∀ s t, ratio s t ≤ 1) (hratio : ∀ s t, ratio s t = 1 ↔ s = t)
    {actual expected : Value} (hactual : actual.Keyed) (hexpected : expected.Keyed) :
    Exact ratio actual expected ↔
      sameJson actual expected = true ∨ (trimmed actual).eqv (trimmed expected) = false := by
  have hscore := calculateScore_iff hle hratio hactual hexpected
  constructor
  · intro h
    by_cases hsame : sameJson actual expected = true
    · exact .inl hsame
    · right
      rw [Bool.eq_false_iff]
      exact fun htrimmed => hsame (h.score.mp (hscore.mpr htrimmed))
  · intro h
    have hfull : calculateScore ratio actual expected = 1 ↔ sameJson actual expected = true := by
      refine ⟨fun hone => ?_, fun hsame => calculateScore_eqv ratio (eqv_of_sameJson hsame)⟩
      rcases h with hsame | htrimmed
      · exact hsame
      · rw [hscore.mp hone] at htrimmed
        cases htrimmed
    have hdiff : diffOutputs actual expected "" = [] ↔ sameJson actual expected = true :=
      ⟨fun hnil => hfull.mp (calculateScore_of_diff ratio hnil),
        fun hsame => diffOutputs_eqv (eqv_of_sameJson hsame) ""⟩
    exact ⟨hdiff, hfull, fun _ hstale => (evaluateCase_passed hstale).trans hdiff, fun _ => evaluateCase_passedScore⟩

end

/-- The ratio on equal texts, and on texts with nothing in common. -/
def wholeRatio (expected actual : String) : ℚ := if expected = actual then 1 else 0

def writtenRows : Value := .dict [("title", .str "x"), ("rows", .list [.num 1])]

theorem golden_comparison_exact_sample :
    Exact wholeRatio writtenRows (.dict [("title", .str "y"), ("rows", .list [.num 1, .null])]) := by
  apply (golden_comparison_exact_iff _ _ _ _).mpr
  · exact .inr (by decide)
  · intro s t
    unfold wholeRatio
    split_ifs <;> norm_num
  · intro s t
    unfold wholeRatio
    split_ifs with h <;> simp [h]
  · simp [writtenRows, Value.Keyed, Value.KeyedMembers, Value.KeyedElements]
  · simp [Value.Keyed, Value.KeyedMembers, Value.KeyedElements]

theorem missing_row_passes :
    ¬ Exact wholeRatio writtenRows (.dict [("title", .str "x"), ("rows", .list [.num 1, .null])]) := by
  intro h
  have hdiff : diffOutputs writtenRows (.dict [("title", .str "x"), ("rows", .list [.num 1, .null])]) "" = [] := by
    decide
  have hsame := h.diff.mp hdiff
  revert hsame
  decide

end GraphSkillRuntime.GoldenComparison
