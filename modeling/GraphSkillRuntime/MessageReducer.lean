import GraphSkillRuntime.OrderedDict
import Mathlib.Data.List.Induction
import Mathlib.Data.List.ReduceOption

/-!
The reducer of the messages channel: stored writes are applied to the conversation as one batch, through an index of
the ids and a list that keeps a gap where a message was removed.
-/

namespace GraphSkillRuntime.MessageReducer

open OrderedDict

variable {α ρ ε : Type}

structure AnyMessage (α : Type) where
  id : Option String
  /-- Whether it is a `RemoveMessage`. -/
  removes : Bool := false
  content : α

def removeAllMessages : String := "__remove_all__"

def AnyMessage.removesAll (m : AnyMessage α) : Bool := m.removes && m.id == some removeAllMessages

/-- One stored write; what is not a message yet is coerced to one. -/
inductive Write (α ρ : Type) where
  | batch (ms : List (AnyMessage α ⊕ ρ))
  | single (m : AnyMessage α ⊕ ρ)

def Write.messages : Write α ρ → List (AnyMessage α ⊕ ρ)
  | .batch ms => ms
  | .single m => [m]

def convertToMessages (coerce : ρ → Except ε (AnyMessage α)) (ms : List (AnyMessage α ⊕ ρ)) :
    Except ε (List (AnyMessage α)) :=
  ms.mapM (Sum.elim .ok coerce)

def removeAllIdx (msgs : List (AnyMessage α)) : Option ℕ :=
  msgs.zipIdx.foldl (fun found entry => if entry.1.removesAll then some entry.2 else found) none

structure Slots (α : Type) where
  result : List (Option (AnyMessage α)) := []
  index : Dict String ℕ := ∅

def seed (s : Slots α) (m : AnyMessage α) : Slots α where
  index := match m.id with
    | some mid => s.index.set mid s.result.length
    | none => s.index
  result := s.result ++ [some m]

def write (s : Slots α) (msg : AnyMessage α) : Slots α :=
  match msg.id with
  | none => { s with result := s.result ++ [some msg] }
  | some mid =>
    if msg.removes then
      match s.index.get? mid with
      | some i => { result := s.result.set i none, index := s.index.erase mid }
      | none => s
    else
      match s.index.get? mid with
      | some i => { s with result := s.result.set i (some msg) }
      | none => { result := s.result ++ [some msg], index := s.index.set mid s.result.length }

def reduceMessages (state msgs : List (AnyMessage α)) : List (AnyMessage α) :=
  let cut := match removeAllIdx msgs with
    | some idx => ([], msgs.drop (idx + 1))
    | none => (state, msgs)
  (cut.2.foldl write (cut.1.foldl seed {})).result.reduceOption

def messagesDeltaReducer (coerce : ρ → Except ε (AnyMessage α)) (state : List (AnyMessage α))
    (writes : List (Write α ρ)) : Except ε (List (AnyMessage α)) := do
  let msgs ← convertToMessages coerce (writes.flatMap Write.messages)
  return reduceMessages state msgs

/-! What one write does to a conversation. -/

def applyWrite (conversation : List (AnyMessage α)) (msg : AnyMessage α) : List (AnyMessage α) :=
  if msg.removesAll then []
  else
    match msg.id with
    | none => conversation ++ [msg]
    | some mid =>
      if msg.removes then conversation.filter (fun m => m.id ≠ some mid)
      else if conversation.any (fun m => m.id = some mid) then
        conversation.map (fun m => if m.id = some mid then msg else m)
      else conversation ++ [msg]

def ids (ms : List (AnyMessage α)) : List String := ms.filterMap (·.id)

def DistinctIds (ms : List (AnyMessage α)) : Prop := (ids ms).Nodup

theorem mem_ids {ms : List (AnyMessage α)} {mid : String} : mid ∈ ids ms ↔ ∃ m ∈ ms, m.id = some mid := by
  simp [ids]

theorem ids_append (ms ns : List (AnyMessage α)) : ids (ms ++ ns) = ids ms ++ ids ns := List.filterMap_append

theorem ids_map {ms : List (AnyMessage α)} {f : AnyMessage α → AnyMessage α} (hf : ∀ m, (f m).id = m.id) :
    ids (ms.map f) = ids ms := by
  rw [ids, List.filterMap_map]
  apply List.filterMap_congr
  exact fun m _ => hf m

theorem id_replace (msg m : AnyMessage α) {mid : String} (h : msg.id = some mid) :
    (if m.id = some mid then msg else m).id = m.id := by
  split_ifs with hm
  · rw [h, hm]
  · rfl

theorem DistinctIds.applyWrite {ms : List (AnyMessage α)} (h : DistinctIds ms) (msg : AnyMessage α) :
    DistinctIds (applyWrite ms msg) := by
  unfold MessageReducer.applyWrite
  by_cases hall : msg.removesAll = true
  · rw [if_pos hall]
    exact List.nodup_nil
  · rw [if_neg hall]
    cases hid : msg.id with
    | none => simpa [DistinctIds, ids, hid] using h
    | some mid =>
      simp only
      split_ifs with hremoves hpresent
      · exact h.sublist (List.filter_sublist.filterMap _)
      · rw [DistinctIds, ids_map fun m => id_replace msg m hid]
        exact h
      · rw [DistinctIds, ids_append, List.nodup_append']
        refine ⟨h, by simp [ids, hid], ?_⟩
        intro k hk hk'
        obtain rfl : k = mid := by simpa [ids, hid] using hk'
        apply hpresent
        obtain ⟨m, hm, hmid⟩ := mem_ids.mp hk
        exact List.any_eq_true.mpr ⟨m, hm, by simpa using hmid⟩

theorem distinctIds_foldl {ms : List (AnyMessage α)} (h : DistinctIds ms) (msgs : List (AnyMessage α)) :
    DistinctIds (msgs.foldl applyWrite ms) := by
  induction msgs generalizing ms with
  | nil => exact h
  | cons msg msgs ih => exact ih (h.applyWrite msg)

def Tracks (s : Slots α) : Prop :=
  ∀ mid i, s.index.get? mid = some i ↔ ∃ m, s.result[i]? = some (some m) ∧ m.id = some mid

def Slots.live (s : Slots α) : List (AnyMessage α) := s.result.reduceOption

theorem live_append (s : Slots α) (m : AnyMessage α) (index : Dict String ℕ) :
    Slots.live ⟨s.result ++ [some m], index⟩ = s.live ++ [m] := by
  simp [Slots.live, List.reduceOption_append]

theorem Tracks.get?_eq_none {s : Slots α} (h : Tracks s) {mid : String} :
    s.index.get? mid = none ↔ ∀ m ∈ s.live, m.id ≠ some mid := by
  constructor
  · intro hnone m hm hid
    obtain ⟨i, hi⟩ := List.mem_iff_getElem?.mp (List.reduceOption_mem_iff.mp hm)
    rw [(h mid i).mpr ⟨m, hi, hid⟩] at hnone
    cases hnone
  · intro hlive
    by_contra hsome
    obtain ⟨i, hi⟩ := Option.ne_none_iff_exists'.mp hsome
    obtain ⟨m, hm, hid⟩ := (h mid i).mp hi
    exact hlive m (List.reduceOption_mem_iff.mpr (List.mem_of_getElem? hm)) hid

theorem Tracks.append {s : Slots α} (h : Tracks s) {m : AnyMessage α} {index : Dict String ℕ}
    (hindex : ∀ mid, index.get? mid = if m.id = some mid then some s.result.length else s.index.get? mid)
    (hfresh : ∀ mid, m.id = some mid → s.index.get? mid = none) : Tracks ⟨s.result ++ [some m], index⟩ := by
  intro mid i
  have hlast : (s.result ++ [some m])[i]? = if i = s.result.length then some (some m) else s.result[i]? := by
    rw [List.getElem?_append]
    split_ifs with hlt heq heq
    · omega
    · rfl
    · simp [heq]
    · rw [List.getElem?_eq_none (by simp; omega), List.getElem?_eq_none (by omega)]
  rw [hindex]
  simp only [hlast]
  by_cases hid : m.id = some mid
  · rw [if_pos hid]
    constructor
    · rintro hi
      exact ⟨m, by rw [if_pos (Option.some.inj hi).symm], hid⟩
    · rintro ⟨m', hm', hid'⟩
      by_cases hi : i = s.result.length
      · rw [hi]
      · rw [if_neg hi] at hm'
        have hnone := hfresh mid hid
        rw [(h mid i).mpr ⟨m', hm', hid'⟩] at hnone
        cases hnone
  · rw [if_neg hid, h mid i]
    constructor
    · rintro ⟨m', hm', hid'⟩
      have hi : i ≠ s.result.length := by
        rintro rfl
        simp at hm'
      exact ⟨m', by rw [if_neg hi, hm'], hid'⟩
    · rintro ⟨m', hm', hid'⟩
      split_ifs at hm' with hi
      · obtain rfl : m = m' := by simpa using hm'
        exact absurd hid' hid
      · exact ⟨m', hm', hid'⟩

theorem Tracks.remove {s : Slots α} (h : Tracks s) {mid : String} {i : ℕ} (hi : s.index.get? mid = some i) :
    Tracks ⟨s.result.set i none, s.index.erase mid⟩ := by
  intro k j
  rw [Dict.get?_erase]
  obtain ⟨m, hm, hid⟩ := (h mid i).mp hi
  constructor
  · intro hk
    split_ifs at hk with hne
    obtain ⟨m', hm', hid'⟩ := (h k j).mp hk
    have hij : i ≠ j := by
      rintro rfl
      rw [hm] at hm'
      obtain rfl : m = m' := by simpa using hm'
      exact hne (Option.some.inj (hid'.symm.trans hid))
    exact ⟨m', by rw [List.getElem?_set_ne hij, hm'], hid'⟩
  · rintro ⟨m', hm', hid'⟩
    have hij : i ≠ j := by
      rintro rfl
      have hlt : i < s.result.length := (List.getElem?_eq_some_iff.mp hm).1
      simp [List.getElem?_set_self hlt] at hm'
    rw [List.getElem?_set_ne hij] at hm'
    have hk := (h k j).mpr ⟨m', hm', hid'⟩
    have hne : k ≠ mid := by
      rintro rfl
      exact hij (Option.some.inj (hi.symm.trans hk))
    rw [if_neg hne, hk]

theorem Tracks.replace {s : Slots α} (h : Tracks s) {mid : String} {i : ℕ} (hi : s.index.get? mid = some i)
    {msg : AnyMessage α} (hmsg : msg.id = some mid) : Tracks ⟨s.result.set i (some msg), s.index⟩ := by
  intro k j
  obtain ⟨m, hm, hid⟩ := (h mid i).mp hi
  have hlt : i < s.result.length := (List.getElem?_eq_some_iff.mp hm).1
  rw [h k j]
  by_cases hij : i = j
  · subst hij
    simp [List.getElem?_set_self hlt, hm, hmsg, hid]
  · rw [List.getElem?_set_ne hij]

theorem reduceOption_set_none {p : α → Bool} {xs : List (Option α)} {i : ℕ}
    (h : ∀ j x, xs[j]? = some (some x) → (p x = true ↔ j = i)) :
    (xs.set i none).reduceOption = xs.reduceOption.filter (fun x => !p x) := by
  induction xs generalizing i with
  | nil => rfl
  | cons x xs ih =>
    have htail : ∀ j y, xs[j]? = some (some y) → (p y = true ↔ j + 1 = i) := fun j y hy =>
      h (j + 1) y (by simpa using hy)
    cases i with
    | zero =>
      have hnone : xs.reduceOption.filter (fun x => !p x) = xs.reduceOption := by
        apply List.filter_eq_self.mpr
        intro y hy
        obtain ⟨j, hj⟩ := List.mem_iff_getElem?.mp (List.reduceOption_mem_iff.mp hy)
        have := htail j y hj
        simpa using this
      cases x with
      | none => simp [hnone]
      | some y =>
        have hy : p y = true := (h 0 y rfl).mpr rfl
        simp [hnone, hy]
    | succ i =>
      have htail' : ∀ j y, xs[j]? = some (some y) → (p y = true ↔ j = i) := fun j y hy => by
        rw [htail j y hy]
        omega
      cases x with
      | none => simpa using ih htail'
      | some y =>
        have hy : p y = false := by
          have := h 0 y rfl
          simpa using this
        simp [hy, ih htail']

theorem reduceOption_set_some {p : α → Bool} {xs : List (Option α)} {i : ℕ} {y : α}
    (h : ∀ j x, xs[j]? = some (some x) → (p x = true ↔ j = i)) (hi : ∃ x, xs[i]? = some (some x)) :
    (xs.set i (some y)).reduceOption = xs.reduceOption.map (fun x => if p x then y else x) := by
  induction xs generalizing i with
  | nil => simp at hi
  | cons x xs ih =>
    have htail : ∀ j y, xs[j]? = some (some y) → (p y = true ↔ j + 1 = i) := fun j y hy =>
      h (j + 1) y (by simpa using hy)
    cases i with
    | zero =>
      obtain ⟨z, hz⟩ := hi
      obtain rfl : x = some z := by simpa using hz
      have hp : p z = true := (h 0 z rfl).mpr rfl
      have hrest : xs.reduceOption.map (fun x => if p x then y else x) = xs.reduceOption := by
        refine (List.map_congr_left ?_).trans (List.map_id _)
        intro w hw
        obtain ⟨j, hj⟩ := List.mem_iff_getElem?.mp (List.reduceOption_mem_iff.mp hw)
        have hpw : p w = false := by
          have := htail j w hj
          simpa using this
        simp [hpw]
      simp [hp, hrest]
    | succ i =>
      have htail' : ∀ j y, xs[j]? = some (some y) → (p y = true ↔ j = i) := fun j y hy => by
        rw [htail j y hy]
        omega
      have hi' : ∃ x, xs[i]? = some (some x) := by simpa using hi
      cases x with
      | none => simpa using ih htail' hi'
      | some w =>
        have hp : p w = false := by
          have := h 0 w rfl
          simpa using this
        simp [hp, ih htail' hi']

theorem Tracks.position {s : Slots α} (h : Tracks s) {mid : String} {i : ℕ} (hi : s.index.get? mid = some i) :
    ∀ j m, s.result[j]? = some (some m) → (decide (m.id = some mid) = true ↔ j = i) := by
  intro j m hm
  rw [decide_eq_true_iff]
  constructor
  · intro hid
    exact Option.some.inj (((h mid j).mpr ⟨m, hm, hid⟩).symm.trans hi)
  · rintro rfl
    obtain ⟨m', hm', hid'⟩ := (h mid j).mp hi
    obtain rfl : m = m' := by simpa using hm.symm.trans hm'
    exact hid'

theorem write_spec {s : Slots α} (h : Tracks s) {msg : AnyMessage α} (hall : msg.removesAll = false) :
    Tracks (write s msg) ∧ (write s msg).live = applyWrite s.live msg := by
  unfold write applyWrite
  rw [hall]
  cases hid : msg.id with
  | none =>
    exact ⟨h.append (by simp [hid]) (by simp [hid]), live_append s msg _⟩
  | some mid =>
    simp only [Bool.false_eq_true, if_false]
    cases hget : s.index.get? mid with
    | none =>
      have hlive := h.get?_eq_none.mp hget
      split_ifs with hremoves hpresent
      · refine ⟨h, (List.filter_eq_self.mpr ?_).symm⟩
        intro m hm
        simpa using hlive m hm
      · obtain ⟨m, hm, hmid⟩ := List.any_eq_true.mp hpresent
        exact absurd (by simpa using hmid) (hlive m hm)
      · refine ⟨h.append ?_ ?_, live_append s msg _⟩
        · intro k
          rw [Dict.get?_set, hid]
          simp
        · intro k hk
          obtain rfl : mid = k := by simpa [hid] using hk
          exact hget
    | some i =>
      obtain ⟨m, hm, hmid⟩ := (h mid i).mp hget
      have hany : s.live.any (fun m => decide (m.id = some mid)) = true :=
        List.any_eq_true.mpr ⟨m, List.reduceOption_mem_iff.mpr (List.mem_of_getElem? hm), by simpa using hmid⟩
      split_ifs with hremoves
      · refine ⟨h.remove hget, ?_⟩
        simpa [Slots.live] using reduceOption_set_none (h.position hget)
      · refine ⟨h.replace hget hid, ?_⟩
        simpa [Slots.live] using reduceOption_set_some (y := msg) (h.position hget) ⟨m, hm⟩

theorem foldl_write {msgs : List (AnyMessage α)} (hmsgs : ∀ m ∈ msgs, m.removesAll = false) {s : Slots α}
    (h : Tracks s) : (msgs.foldl write s).live = msgs.foldl applyWrite s.live := by
  induction msgs generalizing s with
  | nil => rfl
  | cons msg msgs ih =>
    rw [List.forall_mem_cons] at hmsgs
    obtain ⟨htracks, hlive⟩ := write_spec h hmsgs.1
    rw [List.foldl_cons, List.foldl_cons, ih hmsgs.2 htracks, hlive]

theorem seed_spec {state : List (AnyMessage α)} (hstate : DistinctIds state) :
    Tracks (state.foldl seed {}) ∧ (state.foldl seed {}).live = state := by
  induction state using List.reverseRecOn with
  | nil =>
    refine ⟨?_, rfl⟩
    intro mid i
    simp
  | append_singleton state m ih =>
    rw [DistinctIds, ids_append, List.nodup_append'] at hstate
    obtain ⟨htracks, hlive⟩ := ih hstate.1
    rw [List.foldl_append]
    refine ⟨htracks.append ?_ ?_, ?_⟩
    · intro mid
      cases hid : m.id with
      | none => simp
      | some k => simp
    · intro mid hid
      rw [htracks.get?_eq_none, hlive]
      intro m' hm' hid'
      exact hstate.2.2 (mem_ids.mpr ⟨m', hm', hid'⟩) (by simp [ids, hid])
    · exact (live_append _ m _).trans (by rw [hlive])

/-! The last remove-all marker cuts the conversation and the writes before it. -/

theorem removeAllIdx_concat (msgs : List (AnyMessage α)) (m : AnyMessage α) :
    removeAllIdx (msgs ++ [m]) = if m.removesAll then some msgs.length else removeAllIdx msgs := by
  simp [removeAllIdx, List.zipIdx_append]

theorem removeAllIdx_none {msgs : List (AnyMessage α)} (h : removeAllIdx msgs = none) :
    ∀ m ∈ msgs, m.removesAll = false := by
  induction msgs using List.reverseRecOn with
  | nil => exact fun m hm => absurd hm (by simp)
  | append_singleton msgs msg ih =>
    rw [removeAllIdx_concat] at h
    split_ifs at h with hall
    intro m hm
    rcases List.mem_append.mp hm with hm | hm
    · exact ih h m hm
    · rw [List.mem_singleton.mp hm]
      simpa using hall

theorem removeAllIdx_some {msgs : List (AnyMessage α)} {idx : ℕ} (h : removeAllIdx msgs = some idx)
    (state : List (AnyMessage α)) :
    idx < msgs.length ∧ (∀ m ∈ msgs.drop (idx + 1), m.removesAll = false) ∧
      msgs.foldl applyWrite state = (msgs.drop (idx + 1)).foldl applyWrite [] := by
  induction msgs using List.reverseRecOn with
  | nil => cases h
  | append_singleton msgs msg ih =>
    rw [removeAllIdx_concat] at h
    by_cases hall : msg.removesAll = true
    · rw [if_pos hall, Option.some.injEq] at h
      subst h
      have hdrop : (msgs ++ [msg]).drop (msgs.length + 1) = [] := List.drop_eq_nil_of_le (by simp)
      rw [hdrop, List.foldl_append]
      refine ⟨by simp, by simp, ?_⟩
      simp [applyWrite, hall]
    · rw [if_neg hall] at h
      obtain ⟨hlt, hnone, hfold⟩ := ih h
      have hdrop : (msgs ++ [msg]).drop (idx + 1) = msgs.drop (idx + 1) ++ [msg] :=
        List.drop_append_of_le_length hlt
      rw [hdrop, List.foldl_append, List.foldl_append, hfold]
      refine ⟨by rw [List.length_append]; omega, ?_, rfl⟩
      intro m hm
      rcases List.mem_append.mp hm with hm | hm
      · exact hnone m hm
      · rw [List.mem_singleton.mp hm]
        simpa using hall

theorem reduceMessages_eq {state : List (AnyMessage α)} (hstate : DistinctIds state) (msgs : List (AnyMessage α)) :
    reduceMessages state msgs = msgs.foldl applyWrite state := by
  unfold reduceMessages
  cases hidx : removeAllIdx msgs with
  | none =>
    obtain ⟨htracks, hlive⟩ := seed_spec hstate
    have hwrites := foldl_write (removeAllIdx_none hidx) htracks
    rw [hlive] at hwrites
    exact hwrites
  | some idx =>
    obtain ⟨-, hnone, hfold⟩ := removeAllIdx_some hidx state
    obtain ⟨htracks, hlive⟩ := @seed_spec α [] List.nodup_nil
    have hwrites := foldl_write hnone htracks
    rw [hlive] at hwrites
    exact hwrites.trans hfold.symm

def survives (msgs : List (AnyMessage α)) (m : AnyMessage α) : Bool :=
  msgs.all fun msg => !msg.removesAll && !(msg.removes && msg.id.isSome && msg.id == m.id)

def latest (msgs : List (AnyMessage α)) (m : AnyMessage α) : AnyMessage α :=
  msgs.foldl (fun m msg => if msg.id.isSome && !msg.removes && msg.id == m.id then msg else m) m

theorem latest_concat (msgs : List (AnyMessage α)) (msg m : AnyMessage α) :
    latest (msgs ++ [msg]) m =
      if msg.id.isSome && !msg.removes && msg.id == (latest msgs m).id then msg else latest msgs m := by
  rw [latest, List.foldl_append]
  rfl

theorem latest_id (msgs : List (AnyMessage α)) (m : AnyMessage α) : (latest msgs m).id = m.id := by
  induction msgs using List.reverseRecOn with
  | nil => rfl
  | append_singleton msgs msg ih =>
    rw [latest_concat]
    split_ifs with h
    · simp only [Bool.and_eq_true, beq_iff_eq] at h
      rw [h.2, ih]
    · exact ih

theorem foldl_applyWrite (state msgs : List (AnyMessage α)) :
    ∃ added, msgs.foldl applyWrite state = (state.filter (survives msgs)).map (latest msgs) ++ added ∧
      ∀ m ∈ added, m ∈ msgs := by
  induction msgs using List.reverseRecOn with
  | nil =>
    refine ⟨[], ?_, by simp⟩
    have hsurvives : survives ([] : List (AnyMessage α)) = fun _ => true := rfl
    have hlatest : latest ([] : List (AnyMessage α)) = id := rfl
    simp [hsurvives, hlatest]
  | append_singleton msgs msg ih =>
    obtain ⟨added, hfold, hadded⟩ := ih
    rw [List.foldl_append, List.foldl_cons, List.foldl_nil, hfold]
    have hsurvives : ∀ m, survives (msgs ++ [msg]) m =
        (survives msgs m && (!msg.removesAll && !(msg.removes && msg.id.isSome && msg.id == m.id))) := by
      simp [survives]
    have hmem : ∀ m ∈ added, m ∈ msgs ++ [msg] := fun m hm => List.mem_append_left _ (hadded m hm)
    unfold applyWrite
    by_cases hall : msg.removesAll = true
    · rw [if_pos hall]
      refine ⟨[], ?_, by simp⟩
      simp [hsurvives, hall]
    rw [if_neg hall]
    have hkept : (msg.removes && msg.id.isSome) = false →
        state.filter (survives (msgs ++ [msg])) = state.filter (survives msgs) := by
      intro hremoves
      apply List.filter_congr
      intro m _
      simp [hsurvives, hall, hremoves]
    have hsame : (∀ m ∈ state.filter (survives msgs), ¬ (msg.id.isSome = true ∧ msg.removes = false ∧ msg.id = m.id)) →
        (state.filter (survives msgs)).map (latest (msgs ++ [msg])) =
          (state.filter (survives msgs)).map (latest msgs) := by
      intro hnone
      apply List.map_congr_left
      intro m hm
      rw [latest_concat, latest_id, if_neg]
      simpa [and_assoc] using hnone m hm
    cases hid : msg.id with
    | none =>
      refine ⟨added ++ [msg], ?_, ?_⟩
      · rw [hkept (by simp [hid]), hsame (by simp [hid])]
        simp
      · simpa [hid, or_imp, forall_and] using hmem
    | some mid =>
      have hbeq : ∀ m : AnyMessage α, (msg.id == m.id) = decide (m.id = some mid) := by
        intro m
        rw [hid, beq_eq_decide]
        exact decide_eq_decide.mpr eq_comm
      simp only
      split_ifs with hremoves hpresent
      · refine ⟨added.filter (fun m => m.id ≠ some mid), ?_, fun m hm => hmem m (List.mem_of_mem_filter hm)⟩
        have hlatest : latest (msgs ++ [msg]) = latest msgs := by
          funext m
          simp [latest_concat, hremoves]
        have hfilter : state.filter (survives (msgs ++ [msg])) =
            (state.filter (survives msgs)).filter (fun m => (latest msgs m).id ≠ some mid) := by
          rw [List.filter_filter]
          apply List.filter_congr
          intro m _
          rw [hsurvives, latest_id, hbeq, Bool.and_comm]
          simp [hall, hremoves, hid]
        rw [List.filter_append, List.filter_map, hlatest, hfilter]
        rfl
      · refine ⟨added.map fun m => if m.id = some mid then msg else m, ?_, ?_⟩
        · rw [hkept (by simp [hremoves]), List.map_append, List.map_map]
          congr 1
          apply List.map_congr_left
          intro m _
          rw [latest_concat, hbeq]
          simp [hid, hremoves]
        · intro m hm
          obtain ⟨m', hm', rfl⟩ := List.mem_map.mp hm
          split_ifs
          · simp
          · exact hmem m' hm'
      · refine ⟨added ++ [msg], ?_, ?_⟩
        · rw [hkept (by simp [hremoves]), hsame ?_, List.append_assoc]
          rintro m hm ⟨-, -, hmid⟩
          apply hpresent
          refine List.any_eq_true.mpr ⟨latest msgs m, List.mem_append_left _ (List.mem_map_of_mem hm), ?_⟩
          simp [latest_id, ← hmid, hid]
        · intro m hm
          rcases List.mem_append.mp hm with hm | hm
          · exact hmem m hm
          · simp [List.mem_singleton.mp hm]

variable (coerce : ρ → Except ε (AnyMessage α))

theorem convertToMessages_append (ms ns : List (AnyMessage α ⊕ ρ)) :
    convertToMessages coerce (ms ++ ns) = do
      let as ← convertToMessages coerce ms
      let bs ← convertToMessages coerce ns
      return as ++ bs := by
  rw [convertToMessages, List.mapM_append]
  rfl

theorem messagesDeltaReducer_append {state : List (AnyMessage α)} (hstate : DistinctIds state)
    (w₁ w₂ : List (Write α ρ)) :
    messagesDeltaReducer coerce state (w₁ ++ w₂) =
      messagesDeltaReducer coerce state w₁ >>= fun r => messagesDeltaReducer coerce r w₂ := by
  unfold messagesDeltaReducer
  rw [List.flatMap_append, convertToMessages_append]
  cases convertToMessages coerce (w₁.flatMap Write.messages) with
  | error e => rfl
  | ok as =>
    cases convertToMessages coerce (w₂.flatMap Write.messages) with
    | error e => rfl
    | ok bs =>
      have hdistinct : DistinctIds (reduceMessages state as) := by
        rw [reduceMessages_eq hstate]
        exact distinctIds_foldl hstate as
      have hfold : reduceMessages state (as ++ bs) = reduceMessages (reduceMessages state as) bs := by
        rw [reduceMessages_eq hdistinct, reduceMessages_eq hstate, reduceMessages_eq hstate, List.foldl_append]
      exact congrArg Except.ok hfold

theorem messagesDeltaReducer_ok {state r : List (AnyMessage α)} (hstate : DistinctIds state) {writes : List (Write α ρ)}
    (h : messagesDeltaReducer coerce state writes = .ok r) :
    DistinctIds r ∧ ∃ msgs added, convertToMessages coerce (writes.flatMap Write.messages) = .ok msgs ∧
      r = (state.filter (survives msgs)).map (latest msgs) ++ added ∧ ∀ m ∈ added, m ∈ msgs := by
  unfold messagesDeltaReducer at h
  cases hmsgs : convertToMessages coerce (writes.flatMap Write.messages) with
  | error e =>
    rw [hmsgs] at h
    cases h
  | ok msgs =>
    rw [hmsgs] at h
    obtain rfl : reduceMessages state msgs = r := Except.ok.inj h
    rw [reduceMessages_eq hstate]
    obtain ⟨added, hfold, hadded⟩ := foldl_applyWrite state msgs
    exact ⟨distinctIds_foldl hstate msgs, msgs, added, rfl, hfold, hadded⟩

theorem messagesDeltaReducer_flatten {state : List (AnyMessage α)} (hstate : DistinctIds state)
    (groups : List (List (Write α ρ))) :
    groups.foldlM (messagesDeltaReducer coerce) state = messagesDeltaReducer coerce state groups.flatten := by
  induction groups generalizing state with
  | nil => exact congrArg Except.ok (reduceMessages_eq hstate []).symm
  | cons group groups ih =>
    rw [List.foldlM_cons, List.flatten_cons, messagesDeltaReducer_append coerce hstate]
    cases hr : messagesDeltaReducer coerce state group with
    | error e => rfl
    | ok r => exact ih (messagesDeltaReducer_ok coerce hstate hr).1

/-- Stored writes give one conversation in whatever batches they are replayed; its ids stay distinct, and what survives
of the conversation before keeps its order. -/
theorem messages_replay_in_any_grouping (state : List (AnyMessage α)) (hstate : DistinctIds state)
    (w₁ w₂ : List (Write α ρ)) :
    (messagesDeltaReducer coerce state (w₁ ++ w₂) =
        messagesDeltaReducer coerce state w₁ >>= fun r => messagesDeltaReducer coerce r w₂) ∧
      (∀ r, messagesDeltaReducer coerce state w₁ = .ok r →
        DistinctIds r ∧ ∃ msgs added, convertToMessages coerce (w₁.flatMap Write.messages) = .ok msgs ∧
          r = (state.filter (survives msgs)).map (latest msgs) ++ added ∧ ∀ m ∈ added, m ∈ msgs) ∧
      ∀ groups : List (List (Write α ρ)),
        groups.foldlM (messagesDeltaReducer coerce) state = messagesDeltaReducer coerce state groups.flatten :=
  ⟨messagesDeltaReducer_append coerce hstate w₁ w₂, fun _ h => messagesDeltaReducer_ok coerce hstate h,
    messagesDeltaReducer_flatten coerce hstate⟩

def storedConversation : List (AnyMessage String) :=
  [{ id := some "a", content := "plan" }, { id := none, content := "note" }, { id := some "b", content := "draft" }]

def firstWrites : List (Write String Empty) :=
  [.batch [.inl { id := some "b", content := "final" }],
    .single (.inl { id := some "a", removes := true, content := "" })]

def laterWrites : List (Write String Empty) := [.single (.inl { id := some "a", content := "plan again" })]

theorem messages_replay_sample :
    messagesDeltaReducer (ε := Unit) Empty.elim storedConversation (firstWrites ++ laterWrites) =
      messagesDeltaReducer Empty.elim storedConversation firstWrites >>= fun r =>
        messagesDeltaReducer Empty.elim r laterWrites :=
  (messages_replay_in_any_grouping Empty.elim storedConversation
    (by simp [DistinctIds, ids, storedConversation]) firstWrites
    laterWrites).1

end GraphSkillRuntime.MessageReducer
