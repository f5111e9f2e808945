import GraphSkillRuntime.Compaction
import GraphSkillRuntime.Value
import GraphSkillRuntime.WorkerPools
import Mathlib.Logic.Relation

/-!
The fan-out of a child skill over a list of items. The children run in a pool of workers, and the caller collects
their results in the order in which they end; the result of an item goes to the place of the item.
-/

namespace GraphSkillRuntime.ParallelMap

open OrderedDict WorkerPools

structure RunDump where
  members : Dict String Value
  error : members.contains "error" = true

abbrev Outcome := Except String RunDump

structure FanOut where
  itemList : List Value
  itemAs : String
  maxConcurrent : ℤ
  baseRuntimeInputs : Dict String Value
  stopOnError : Bool

/-- `f"{group_key}-{idx:04d}"`. -/
def subRunId (groupKey : String) (idx : ℕ) : String :=
  .ofList (groupKey.toList ++ '-' :: (List.replicate (4 - (Nat.toDigits 10 idx).length) '0' ++ Nat.toDigits 10 idx))

inductive Failure where
  | valueError (text : String)
  | child (error : String)

inductive Main where
  | submitting
  | collecting
  | cancelling (next : ℕ) (error : String)
  | returned (results : List (Dict String Value))
  | raised (failure : Failure)

structure State where
  main : Main
  pool : Pool Outcome
  results : List (Option (Dict String Value))
  /-- The children that have been started, with their inputs, in the order of their starts. -/
  runs : List (ℕ × Dict String Value)

section

variable (a : FanOut) (groupKey : String)

def childInputs (idx : ℕ) (item : Value) : Dict String Value :=
  ((a.baseRuntimeInputs.set a.itemAs item).set "_sub_run_id" (.str (subRunId groupKey idx))).set "_group_key"
    (.str groupKey)

def errorEntry (idx : ℕ) (error : String) : Dict String Value :=
  (Dict.single "error" (.str error)).set "sub_run_id" (.str (subRunId groupKey idx))

def entry (idx : ℕ) : Outcome → Dict String Value
  | .ok dump => dump.members
  | .error error => errorEntry groupKey idx error

def begin : Main :=
  if a.itemList = [] then .returned []
  else if a.maxConcurrent < 1 then
    .raised (.valueError ("max_concurrent must be >= 1, got " ++ toString a.maxConcurrent))
  else if a.itemAs = "" then .raised (.valueError "item_as must be a non-empty string")
  else .submitting

def initial : State := ⟨begin a, [], List.replicate a.itemList.length none, []⟩

inductive Step : State → State → Prop
  | submit {s : State} (hmain : s.main = .submitting) (hleft : s.pool.length < a.itemList.length) :
      Step s { s with pool := s.pool ++ [.pending] }
  | submitted {s : State} (hmain : s.main = .submitting) (hall : s.pool.length = a.itemList.length) :
      Step s { s with main := .collecting }
  | start {s : State} {idx : ℕ} {item : Value} (hpending : s.pool[idx]? = some .pending)
      (hitem : a.itemList[idx]? = some item) (hfree : s.pool.countP Future.isRunning < a.maxConcurrent.toNat) :
      Step s { s with pool := s.pool.set idx .running, runs := s.runs ++ [(idx, childInputs a groupKey idx item)] }
  | finish {s : State} {idx : ℕ} (outcome : Outcome) (hrunning : s.pool[idx]? = some .running) :
      Step s { s with pool := s.pool.set idx (.done outcome) }
  | collect {s : State} {idx : ℕ} {outcome : Outcome} (hmain : s.main = .collecting)
      (hdone : s.pool[idx]? = some (.done outcome)) (hnew : s.results[idx]? = some none)
      (hgo : a.stopOnError = false ∨ outcome.isOk = true) :
      Step s { s with results := s.results.set idx (some (entry groupKey idx outcome)) }
  | stop {s : State} {idx : ℕ} {error : String} (hmain : s.main = .collecting)
      (hdone : s.pool[idx]? = some (.done (.error error))) (hnew : s.results[idx]? = some none)
      (hstop : a.stopOnError = true) : Step s { s with main := .cancelling 0 error }
  | cancel {s : State} {next : ℕ} {error : String} {f : Future Outcome} (hmain : s.main = .cancelling next error)
      (hnext : s.pool[next]? = some f) :
      Step s { s with main := .cancelling (next + 1) error, pool := s.pool.set next f.cancel }
  | raise {s : State} {error : String} (hmain : s.main = .cancelling a.itemList.length error)
      (hidle : ∀ f ∈ s.pool, f.isRunning = false) : Step s { s with main := .raised (.child error) }
  | finished {s : State} (hmain : s.main = .collecting) (hall : ∀ r ∈ s.results, r.isSome = true) :
      Step s { s with main := .returned (s.results.filterMap id) }

def Reachable (s : State) : Prop := Relation.ReflTransGen (Step a groupKey) (initial a) s

def Stopped (p : Pool Outcome) (error : String) : Prop :=
  a.stopOnError = true ∧ ∃ idx : ℕ, p[idx]? = some (.done (.error error))

def Uncancelled (p : Pool Outcome) : Prop := Future.cancelled ∉ p

def AtMain (s : State) : Main → Prop
  | .submitting => 1 ≤ a.maxConcurrent ∧ Uncancelled s.pool
  | .collecting => 1 ≤ a.maxConcurrent ∧ Uncancelled s.pool ∧ s.pool.length = a.itemList.length
  | .cancelling next error => 1 ≤ a.maxConcurrent ∧ s.pool.length = a.itemList.length ∧ next ≤ a.itemList.length ∧
      Stopped a s.pool error ∧ ∀ idx < next, s.pool[idx]? ≠ some .pending
  | .returned results => s.pool.length = a.itemList.length ∧ results = s.results.filterMap id ∧
      ∀ r ∈ s.results, r.isSome = true
  | .raised (.valueError text) => s.pool = [] ∧ begin a = .raised (.valueError text)
  | .raised (.child error) => s.pool.length = a.itemList.length ∧ Stopped a s.pool error ∧
      ∀ f ∈ s.pool, f.isSettled = true

structure Invariant (s : State) : Prop where
  pool_le : s.pool.length ≤ a.itemList.length
  results_length : s.results.length = a.itemList.length
  bounded : Bounded a.maxConcurrent.toNat s.pool
  runs_nodup : (s.runs.map Prod.fst).Nodup
  runs_taken : ∀ idx, idx ∈ s.runs.map Prod.fst ↔ ∃ f, s.pool[idx]? = some f ∧ f.isTaken = true
  runs_inputs : ∀ r ∈ s.runs, ∃ item, a.itemList[r.1]? = some item ∧ r.2 = childInputs a groupKey r.1 item
  collected : ∀ idx r, s.results[idx]? = some (some r) → ∃ outcome, s.pool[idx]? = some (.done outcome) ∧
    r = entry groupKey idx outcome ∧ (a.stopOnError = false ∨ outcome.isOk = true)
  main : AtMain a s s.main

variable {a groupKey}

theorem Stopped.works {workers : ℕ} {p q : Pool Outcome} {error : String} (h : Stopped a p error)
    (hw : Works workers p q) : Stopped a q error :=
  ⟨h.1, h.2.imp fun _ hidx => hw.settled hidx rfl⟩

theorem Invariant.settled_of_collected {s : State} (hs : Invariant a groupKey s)
    (hlength : s.pool.length = a.itemList.length) (hall : ∀ r ∈ s.results, r.isSome = true) :
    ∀ f ∈ s.pool, f.isSettled = true := by
  intro f hf
  obtain ⟨idx, hidx⟩ := List.mem_iff_getElem?.mp hf
  have hlt : idx < s.results.length := by
    rw [hs.results_length, ← hlength]
    exact (List.getElem?_eq_some_iff.mp hidx).1
  obtain ⟨r, hr⟩ := Option.isSome_iff_exists.mp (hall _ (List.getElem_mem hlt))
  obtain ⟨outcome, hdone, -⟩ := hs.collected idx r (by rw [List.getElem?_eq_getElem hlt, hr])
  rw [hidx, Option.some.injEq] at hdone
  rw [hdone]
  rfl

theorem AtMain.works {s : State} {p : Pool Outcome} (hs : Invariant a groupKey s)
    (hw : Works a.maxConcurrent.toNat s.pool p) (runs : List (ℕ × Dict String Value)) :
    AtMain a { s with pool := p, runs } s.main := by
  have hmain := hs.main
  obtain ⟨f, hf, hleft⟩ := hw.not_settled
  cases hcase : s.main with
  | submitting =>
    rw [hcase] at hmain
    exact ⟨hmain.1, hw.uncancelled hmain.2⟩
  | collecting =>
    rw [hcase] at hmain
    exact ⟨hmain.1, hw.uncancelled hmain.2.1, hw.length_eq.trans hmain.2.2⟩
  | cancelling next error =>
    rw [hcase] at hmain
    obtain ⟨hmax, hlength, hnext, hstopped, hpending⟩ := hmain
    exact ⟨hmax, hw.length_eq.trans hlength, hnext, hstopped.works hw, fun idx hidx h =>
      hpending idx hidx (hw.pending h)⟩
  | returned results =>
    rw [hcase] at hmain
    rw [hs.settled_of_collected hmain.1 hmain.2.2 f hf] at hleft
    cases hleft
  | raised failure =>
    rw [hcase] at hmain
    cases failure with
    | valueError text =>
      rw [hmain.1] at hf
      cases hf
    | child error =>
      rw [hmain.2.2 f hf] at hleft
      cases hleft

theorem Invariant.works {s : State} (hs : Invariant a groupKey s) {p : Pool Outcome}
    (hw : Works a.maxConcurrent.toNat s.pool p) {runs : List (ℕ × Dict String Value)}
    (hnodup : (runs.map Prod.fst).Nodup)
    (htaken : ∀ idx, idx ∈ runs.map Prod.fst ↔ ∃ f, p[idx]? = some f ∧ f.isTaken = true)
    (hinputs : ∀ r ∈ runs, ∃ item, a.itemList[r.1]? = some item ∧ r.2 = childInputs a groupKey r.1 item) :
    Invariant a groupKey { s with pool := p, runs } where
  pool_le := hw.length_eq.le.trans hs.pool_le
  results_length := hs.results_length
  bounded := hw.bounded hs.bounded
  runs_nodup := hnodup
  runs_taken := htaken
  runs_inputs := hinputs
  collected idx r hr := by
    obtain ⟨outcome, hdone, hentry⟩ := hs.collected idx r hr
    exact ⟨outcome, hw.settled hdone rfl, hentry⟩
  main := AtMain.works hs hw runs

theorem begin_cases (a : FanOut) : (a.itemList = [] ∧ begin a = .returned []) ∨
    (∃ text, begin a = .raised (.valueError text)) ∨ (1 ≤ a.maxConcurrent ∧ begin a = .submitting) := by
  rw [begin]
  split_ifs with hempty hmax hname
  · exact .inl ⟨hempty, rfl⟩
  · exact .inr (.inl ⟨_, rfl⟩)
  · exact .inr (.inl ⟨_, rfl⟩)
  · exact .inr (.inr ⟨Int.not_lt.mp hmax, rfl⟩)

theorem initial_invariant (a : FanOut) (groupKey : String) : Invariant a groupKey (initial a) := by
  refine ⟨Nat.zero_le _, List.length_replicate, Nat.zero_le _, List.nodup_nil, by simp [initial], by simp [initial],
    fun idx r hr => ?_, ?_⟩
  · rw [initial, List.getElem?_replicate] at hr
    split_ifs at hr
    cases hr
  · rcases begin_cases a with ⟨hempty, hbegin⟩ | ⟨text, hbegin⟩ | ⟨hmax, hbegin⟩
    · rw [show (initial a).main = _ from hbegin]
      simp [AtMain, initial, hempty]
    · rw [show (initial a).main = _ from hbegin]
      exact ⟨rfl, hbegin⟩
    · rw [show (initial a).main = _ from hbegin]
      exact ⟨hmax, List.not_mem_nil⟩

theorem taken_set {p : Pool Outcome} {idx : ℕ} {f g : Future Outcome} (hf : p[idx]? = some f) (hg : g.isTaken = true)
    (other : ℕ) : (∃ e, (p.set idx g)[other]? = some e ∧ e.isTaken = true) ↔
      other = idx ∨ ∃ e, p[other]? = some e ∧ e.isTaken = true := by
  have hlt := (List.getElem?_eq_some_iff.mp hf).1
  rw [List.getElem?_set]
  by_cases heq : idx = other
  · subst heq
    simp [hlt, hg]
  · simp [heq, Ne.symm heq]

theorem done_cancel {p : Pool Outcome} {next idx : ℕ} {f : Future Outcome} (hf : p[next]? = some f) {outcome : Outcome}
    (h : p[idx]? = some (.done outcome)) : (p.set next f.cancel)[idx]? = some (.done outcome) := by
  rw [List.getElem?_set]
  split_ifs with heq hlt
  · subst heq
    rw [hf, Option.some.injEq] at h
    rw [h]
    rfl
  · exact absurd (heq ▸ (List.getElem?_eq_some_iff.mp h).1) hlt
  · exact h

theorem Step.invariant {s s' : State} (h : Step a groupKey s s') (hs : Invariant a groupKey s) :
    Invariant a groupKey s' := by
  have hmain := hs.main
  cases h with
  | submit hcase hleft =>
    rw [hcase] at hmain
    refine ⟨?_, hs.results_length, ?_, hs.runs_nodup, fun idx => ?_, hs.runs_inputs, fun idx r hr => ?_, ?_⟩
    · rw [List.length_append]
      exact hleft
    · rw [Bounded, List.countP_append]
      exact hs.bounded
    · rw [hs.runs_taken]
      constructor
      · rintro ⟨f, hf, htaken⟩
        exact ⟨f, by rw [List.getElem?_append_left (List.getElem?_eq_some_iff.mp hf).1, hf], htaken⟩
      · rintro ⟨f, hf, htaken⟩
        rw [List.getElem?_append] at hf
        split_ifs at hf
        · exact ⟨f, hf, htaken⟩
        · rw [List.mem_singleton.mp (List.mem_of_getElem? hf)] at htaken
          cases htaken
    · obtain ⟨outcome, hdone, hentry⟩ := hs.collected idx r hr
      refine ⟨outcome, ?_, hentry⟩
      rw [List.getElem?_append_left (List.getElem?_eq_some_iff.mp hdone).1, hdone]
    · rw [hcase]
      exact ⟨hmain.1, fun hmem => (List.mem_append.mp hmem).elim hmain.2 (by simp)⟩
  | submitted hcase hall =>
    rw [hcase] at hmain
    exact ⟨hs.pool_le, hs.results_length, hs.bounded, hs.runs_nodup, hs.runs_taken, hs.runs_inputs, hs.collected,
      hmain.1, hmain.2, hall⟩
  | @start idx item hpending hitem hfree =>
    have hnew : idx ∉ s.runs.map Prod.fst := by
      rw [hs.runs_taken]
      rintro ⟨f, hf, htaken⟩
      rw [hpending, Option.some.injEq] at hf
      rw [← hf] at htaken
      cases htaken
    refine hs.works (.start hpending hfree) ?_ (fun other => ?_) ?_
    · rw [List.map_append]
      exact List.nodup_append'.mpr ⟨hs.runs_nodup, List.nodup_singleton _, by simpa using hnew⟩
    · rw [taken_set hpending rfl, ← hs.runs_taken, List.map_append, List.mem_append, or_comm]
      simp
    · exact List.forall_mem_append.mpr ⟨hs.runs_inputs, by simpa using ⟨item, hitem, rfl⟩⟩
  | @finish idx outcome hrunning =>
    refine hs.works (.finish outcome hrunning) hs.runs_nodup (fun other => ?_) hs.runs_inputs
    rw [taken_set hrunning rfl, hs.runs_taken]
    refine ⟨.inr, ?_⟩
    rintro (rfl | h)
    · exact ⟨_, hrunning, rfl⟩
    · exact h
  | @collect idx outcome hcase hdone hnew hgo =>
    rw [hcase] at hmain
    refine ⟨hs.pool_le, ?_, hs.bounded, hs.runs_nodup, hs.runs_taken, hs.runs_inputs, fun other r hr => ?_, ?_⟩
    · rw [List.length_set]
      exact hs.results_length
    · rw [List.getElem?_set] at hr
      split_ifs at hr with heq hlt
      · subst heq
        rw [Option.some.injEq, Option.some.injEq] at hr
        exact ⟨outcome, hdone, hr.symm, hgo⟩
      · exact hs.collected other r hr
    · rw [hcase]
      exact hmain
  | @stop idx error hcase hdone hnew hstop =>
    rw [hcase] at hmain
    exact ⟨hs.pool_le, hs.results_length, hs.bounded, hs.runs_nodup, hs.runs_taken, hs.runs_inputs, hs.collected,
      hmain.1, hmain.2.2, Nat.zero_le _, ⟨hstop, idx, hdone⟩, fun idx hlt => absurd hlt (Nat.not_lt_zero idx)⟩
  | @cancel next error f hcase hnext =>
    rw [hcase] at hmain
    obtain ⟨hmax, hlength, hle, hstopped, hpending⟩ := hmain
    have hlt := (List.getElem?_eq_some_iff.mp hnext).1
    refine ⟨?_, hs.results_length, ?_, hs.runs_nodup, fun idx => ?_, hs.runs_inputs, fun idx r hr => ?_, hmax, ?_,
      hlength ▸ hlt, ⟨hstopped.1, hstopped.2.imp fun idx h => done_cancel hnext h⟩, fun idx hidx => ?_⟩
    · exact List.length_set.le.trans hs.pool_le
    · have hcount := countP_set_of_getElem? (g := f.cancel) hnext
      rw [f.isRunning_cancel] at hcount
      rw [Bounded, Nat.add_right_cancel hcount]
      exact hs.bounded
    · rw [hs.runs_taken, List.getElem?_set]
      by_cases heq : next = idx
      · subst heq
        rw [if_pos rfl, if_pos hlt, hnext]
        simp [f.isTaken_cancel]
      · simp [heq]
    · obtain ⟨outcome, hdone, hentry⟩ := hs.collected idx r hr
      exact ⟨outcome, done_cancel hnext hdone, hentry⟩
    · exact List.length_set.trans hlength
    · rw [List.getElem?_set]
      split_ifs with heq
      · cases f <;> simp [Future.cancel]
      · exact hpending idx (by omega)
  | @raise error hcase hidle =>
    rw [hcase] at hmain
    obtain ⟨hmax, hlength, hle, hstopped, hpending⟩ := hmain
    refine ⟨hs.pool_le, hs.results_length, hs.bounded, hs.runs_nodup, hs.runs_taken, hs.runs_inputs, hs.collected,
      hlength, hstopped, fun f hf => ?_⟩
    obtain ⟨idx, hidx⟩ := List.mem_iff_getElem?.mp hf
    have hlt := (List.getElem?_eq_some_iff.mp hidx).1
    have hrunning := hidle f hf
    cases f with
    | pending => exact absurd hidx (hpending idx (hlength ▸ hlt))
    | running => cases hrunning
    | cancelled => rfl
    | done outcome => rfl
  | finished hcase hall =>
    rw [hcase] at hmain
    exact ⟨hs.pool_le, hs.results_length, hs.bounded, hs.runs_nodup, hs.runs_taken, hs.runs_inputs, hs.collected,
      hmain.2.2, rfl, hall⟩

theorem Reachable.invariant {s : State} (h : Reachable a groupKey s) : Invariant a groupKey s := by
  induction h with
  | refl => exact initial_invariant a groupKey
  | tail _ hstep ih => exact hstep.invariant ih

variable (a) in
def mainRank (results : List (Option (Dict String Value))) : Main → ℕ
  | .submitting => 2 * a.itemList.length + 3
  | .collecting => results.countP Option.isNone + a.itemList.length + 2
  | .cancelling next _ => a.itemList.length - next + 1
  | .returned _ | .raised _ => 0

variable (a) in
def rank (s : State) : ℕ := 3 * (a.itemList.length - s.pool.length) + backlog s.pool + mainRank a s.results s.main

theorem rank_initial (a : FanOut) : rank a (initial a) ≤ 5 * a.itemList.length + 3 := by
  simp only [rank, initial, backlog, List.length_nil]
  rcases begin_cases a with ⟨-, hbegin⟩ | ⟨text, hbegin⟩ | ⟨-, hbegin⟩
  all_goals
    simp only [hbegin, mainRank]
    omega

theorem rank_works {s : State} {p : Pool Outcome} {workers : ℕ} (hw : Works workers s.pool p)
    (runs : List (ℕ × Dict String Value)) : rank a { s with pool := p, runs } < rank a s := by
  have hbacklog := hw.backlog_lt
  have hlength := hw.length_eq
  simp only [rank, hlength]
  omega

theorem Step.rank_lt {s s' : State} (h : Step a groupKey s s') (hs : Invariant a groupKey s) :
    rank a s' < rank a s := by
  have hmain := hs.main
  cases h with
  | submit hcase hleft =>
    have hbacklog : backlog (s.pool ++ [.pending]) = backlog s.pool + 2 := backlog_concat _ _
    simp only [rank, hbacklog, List.length_append, List.length_singleton]
    omega
  | submitted hcase hall =>
    have hcount := List.countP_le_length (p := Option.isNone) (l := s.results)
    have hresults := hs.results_length
    simp only [rank, hcase, mainRank]
    omega
  | start hpending _ hfree => exact rank_works (.start hpending hfree) _
  | finish outcome hrunning => exact rank_works (Works.finish outcome hrunning : Works 0 s.pool _) _
  | @collect idx outcome hcase hdone hnew hgo =>
    obtain ⟨hlt, hnone⟩ := List.getElem?_eq_some_iff.mp hnew
    have hpos : 0 < s.results.countP Option.isNone :=
      List.countP_pos_iff.mpr ⟨none, List.mem_of_getElem? hnew, rfl⟩
    simp only [rank, hcase, mainRank, List.countP_set hlt, hnone, Option.isNone_none, Option.isNone_some, if_true,
      Bool.false_eq_true, if_false]
    omega
  | stop hcase hdone hnew hstop =>
    simp only [rank, hcase, mainRank]
    omega
  | @cancel next error f hcase hnext =>
    rw [hcase] at hmain
    have hlt := (List.getElem?_eq_some_iff.mp hnext).1
    have hbacklog := backlog_set (g := f.cancel) hnext
    have hrank := f.rank_cancel_le
    have hlength := hmain.2.1
    simp only [rank, hcase, mainRank, List.length_set]
    omega
  | raise hcase hidle =>
    simp only [rank, hcase, mainRank]
    omega
  | finished hcase hall =>
    simp only [rank, hcase, mainRank]
    omega

theorem exists_step_unsettled {s : State} (hs : Invariant a groupKey s) (hmax : 1 ≤ a.maxConcurrent)
    {f : Future Outcome} (hf : f ∈ s.pool) (hleft : f.isSettled = false) : ∃ s', Step a groupKey s s' := by
  obtain ⟨p, hw⟩ := works_of_unsettled (show 0 < a.maxConcurrent.toNat by omega) hf hleft (.error "")
  cases hw with
  | @start idx hpending hfree =>
    have hlt : idx < a.itemList.length := (List.getElem?_eq_some_iff.mp hpending).1.trans_le hs.pool_le
    exact ⟨_, .start hpending (List.getElem?_eq_getElem hlt) hfree⟩
  | finish outcome hrunning => exact ⟨_, .finish outcome hrunning⟩

theorem exists_step_collecting {s : State} (hs : Invariant a groupKey s) (hcase : s.main = .collecting) :
    ∃ s', Step a groupKey s s' := by
  have hmain := hs.main
  rw [hcase] at hmain
  obtain ⟨hmax, huncancelled, hlength⟩ := hmain
  by_cases hall : ∀ r ∈ s.results, r.isSome = true
  · exact ⟨_, .finished hcase hall⟩
  · simp only [not_forall, Bool.not_eq_true, Option.isSome_eq_false_iff, Option.isNone_iff_eq_none] at hall
    obtain ⟨r, hr, rfl⟩ := hall
    obtain ⟨idx, hnew⟩ := List.mem_iff_getElem?.mp hr
    have hlt : idx < s.pool.length := by
      rw [hlength, ← hs.results_length]
      exact (List.getElem?_eq_some_iff.mp hnew).1
    have hf := List.getElem?_eq_getElem hlt
    cases hcase' : s.pool[idx] with
    | pending => exact exists_step_unsettled hs hmax (hcase' ▸ List.getElem_mem hlt) rfl
    | running => exact exists_step_unsettled hs hmax (hcase' ▸ List.getElem_mem hlt) rfl
    | cancelled => exact absurd (hcase' ▸ List.getElem_mem hlt) huncancelled
    | done outcome =>
      rw [hcase'] at hf
      cases hstop : a.stopOnError with
      | false => exact ⟨_, .collect hcase hf hnew (.inl hstop)⟩
      | true =>
        cases outcome with
        | ok dump => exact ⟨_, .collect hcase hf hnew (.inr rfl)⟩
        | error error => exact ⟨_, .stop hcase hf hnew hstop⟩

theorem exists_step {s : State} (hs : Invariant a groupKey s)
    (hopen : (∀ results, s.main ≠ .returned results) ∧ ∀ failure, s.main ≠ .raised failure) :
    ∃ s', Step a groupKey s s' := by
  have hmain := hs.main
  cases hcase : s.main with
  | submitting =>
    rcases hs.pool_le.lt_or_eq with hlt | heq
    · exact ⟨_, .submit hcase hlt⟩
    · exact ⟨_, .submitted hcase heq⟩
  | collecting => exact exists_step_collecting hs hcase
  | cancelling next error =>
    rw [hcase] at hmain
    obtain ⟨hmax, hlength, hle, hstopped, hpending⟩ := hmain
    rcases hle.lt_or_eq with hlt | rfl
    · exact ⟨_, .cancel hcase (List.getElem?_eq_getElem (hlength.symm ▸ hlt))⟩
    · by_cases hidle : ∀ f ∈ s.pool, f.isRunning = false
      · exact ⟨_, .raise hcase hidle⟩
      · simp only [not_forall, Bool.not_eq_false] at hidle
        obtain ⟨f, hf, hrunning⟩ := hidle
        refine exists_step_unsettled hs hmax hf ?_
        cases f <;> first | rfl | cases hrunning
  | returned results => exact absurd hcase (hopen.1 results)
  | raised failure => exact absurd hcase (hopen.2 failure)

/-- How many results have no error, and how many have one, as the closing event of the group counts them. -/
def groupCounts (results : List (Dict String Value)) : ℕ × ℕ :=
  (results.countP fun r => !r.contains "error", results.countP fun r => r.contains "error")

theorem subRunId_injective {groupKey : String} {idx other : ℕ} (h : subRunId groupKey idx = subRunId groupKey other) :
    idx = other := by
  have hvalue (n : ℕ) :
      Nat.ofDigitChars 10 (List.replicate (4 - (Nat.toDigits 10 n).length) '0' ++ Nat.toDigits 10 n) 0 =
      n := by
    rw [Compaction.ofDigitChars_zeros]
    exact Nat.ofDigitChars_ten_toDigits
  have hdigits := List.cons.inj (List.append_cancel_left (String.ofList_injective h))
  rw [← hvalue idx, hdigits.2, hvalue]

theorem entry_contains_error (groupKey : String) (idx : ℕ) (outcome : Outcome) :
    (entry groupKey idx outcome).contains "error" = true := by
  cases outcome with
  | ok dump => exact dump.error
  | error error => rfl

theorem returned_entries {s : State} (hs : Invariant a groupKey s) {results : List (Dict String Value)}
    (hmain : s.main = .returned results) : results.length = a.itemList.length ∧ ∀ idx < a.itemList.length,
      ∃ outcome, s.pool[idx]? = some (.done outcome) ∧ results[idx]? = some (entry groupKey idx outcome) ∧
        (a.stopOnError = false ∨ outcome.isOk = true) := by
  have hat := hs.main
  rw [hmain] at hat
  obtain ⟨hlength, hresults, hall⟩ := hat
  have hsome : results.map some = s.results := hresults ▸ map_some_filterMap hall
  have hcount : results.length = a.itemList.length := by
    rw [← hs.results_length, ← hsome, List.length_map]
  refine ⟨hcount, fun idx hidx => ?_⟩
  have hget := List.getElem?_eq_getElem (hcount.symm ▸ hidx)
  obtain ⟨outcome, hdone, hentry, hgo⟩ := hs.collected idx results[idx] (by rw [← hsome, List.getElem?_map, hget]; rfl)
  exact ⟨outcome, hdone, hentry ▸ hget, hgo⟩

end

inductive Run (a : FanOut) (groupKey : String) : ℕ → State → Prop
  | nil : Run a groupKey 0 (initial a)
  | step {k : ℕ} {s s' : State} (h : Run a groupKey k s) (hstep : Step a groupKey s s') : Run a groupKey (k + 1) s'

theorem Run.reachable {a : FanOut} {groupKey : String} {k : ℕ} {s : State} (h : Run a groupKey k s) :
    Reachable a groupKey s := by
  induction h with
  | nil => exact .refl
  | step _ hstep ih => exact ih.tail hstep

def pair (stopOnError : Bool) : FanOut where
  itemList := [.str "a", .str "b"]
  itemAs := "item"
  maxConcurrent := 1
  baseRuntimeInputs := ∅
  stopOnError := stopOnError

def plainDump : RunDump := ⟨Dict.single "error" .null, rfl⟩

theorem pair_returns : ∃ s, Run (pair false) "g" 10 s ∧
    s.main = .returned [plainDump.members, errorEntry "g" 1 "boom"] := by
  have hcollect : ∃ s, Run (pair false) "g" 7 s ∧ s.main = .collecting ∧ s.results = [none, none] ∧
      s.pool = [.done (.ok plainDump), .done (.error "boom")] :=
    ⟨_, ((((((Run.nil.step (.submit rfl (by decide))).step (.submit rfl (by decide))).step (.submitted rfl rfl)).step
      (@Step.start _ _ _ 0 _ rfl rfl (by decide))).step (@Step.finish _ _ _ 0 (.ok plainDump) rfl)).step
      (@Step.start _ _ _ 1 _ rfl rfl (by decide))).step (@Step.finish _ _ _ 1 (.error "boom") rfl), rfl, rfl, rfl⟩
  obtain ⟨s, hrun, hmain, hresults, hpool⟩ := hcollect
  have hlast : Run (pair false) "g" 8 { s with results := [none, some (errorEntry "g" 1 "boom")] } := by
    have hstep := hrun.step (@Step.collect _ _ _ 1 _ hmain (by rw [hpool]; rfl) (by rw [hresults]; rfl) (.inl rfl))
    rwa [hresults] at hstep
  have hfirst := hlast.step (@Step.collect _ _ _ 0 (.ok plainDump) hmain (by rw [hpool]; rfl) rfl (.inl rfl))
  exact ⟨_, hfirst.step (.finished hmain (by simp)), rfl⟩

theorem pair_stops : ∃ s, Run (pair true) "g" 9 s ∧ s.main = .raised (.child "boom") ∧ s.runs.length = 1 :=
  ⟨_, ((((((((Run.nil.step (.submit rfl (by decide))).step (.submit rfl (by decide))).step (.submitted rfl rfl)).step
    (@Step.start _ _ _ 0 _ rfl rfl (by decide))).step (@Step.finish _ _ _ 0 (.error "boom") rfl)).step
    (@Step.stop _ _ _ 0 _ rfl rfl rfl rfl)).step (.cancel (f := .done (.error "boom")) rfl rfl)).step
    (.cancel (f := .pending) rfl rfl)).step (.raise rfl (by simp [initial, Future.cancel, Future.isRunning])), rfl, rfl⟩

/-- In whatever order the children run and end, no more of them run at a time than are allowed and none is started
twice. When the caller returns, every child has run, with its own identity, and the results stand in the order of the
items. The closing event counts all of them as failures: a result has an error key also when it has no error. -/
theorem results_in_item_order (a : FanOut) (groupKey : String) {s : State} (h : Reachable a groupKey s) :
    s.pool.countP Future.isRunning ≤ a.maxConcurrent.toNat ∧ (s.runs.map Prod.fst).Nodup ∧
      (∀ r ∈ s.runs, ∃ item, a.itemList[r.1]? = some item ∧ r.2 = childInputs a groupKey r.1 item) ∧
      ∀ results, s.main = .returned results → (s.runs.map Prod.fst).Perm (List.range a.itemList.length) ∧
        results.length = a.itemList.length ∧ groupCounts results = (0, a.itemList.length) ∧
          ∀ idx < a.itemList.length, ∃ outcome, s.pool[idx]? = some (.done outcome) ∧
            results[idx]? = some (entry groupKey idx outcome) := by
  have hs := h.invariant
  refine ⟨hs.bounded, hs.runs_nodup, hs.runs_inputs, fun results hmain => ?_⟩
  obtain ⟨hlength, hentries⟩ := returned_entries hs hmain
  have hpool : s.pool.length = a.itemList.length := by
    have hat := hs.main
    rw [hmain] at hat
    exact hat.1
  have herror : ∀ r ∈ results, r.contains "error" = true := by
    intro r hr
    obtain ⟨idx, hidx⟩ := List.mem_iff_getElem?.mp hr
    obtain ⟨outcome, -, hentry, -⟩ := hentries idx (hlength ▸ (List.getElem?_eq_some_iff.mp hidx).1)
    rw [hidx, Option.some.injEq] at hentry
    exact hentry ▸ entry_contains_error groupKey idx outcome
  refine ⟨?_, hlength, ?_, fun idx hidx => ?_⟩
  · refine (List.perm_ext_iff_of_nodup hs.runs_nodup List.nodup_range).mpr fun idx => ?_
    rw [hs.runs_taken, List.mem_range]
    constructor
    · rintro ⟨f, hf, -⟩
      exact hpool ▸ (List.getElem?_eq_some_iff.mp hf).1
    · intro hidx
      obtain ⟨outcome, hdone, -⟩ := hentries idx hidx
      exact ⟨_, hdone, rfl⟩
  · rw [groupCounts, List.countP_eq_zero.mpr (by simpa using herror), List.countP_eq_length.mpr herror, hlength]
  · obtain ⟨outcome, hdone, hentry, -⟩ := hentries idx hidx
    exact ⟨outcome, hdone, hentry⟩

theorem pair_results_in_item_order : ∃ s, Reachable (pair false) "g" s ∧
    s.main = .returned [plainDump.members, errorEntry "g" 1 "boom"] ∧ (s.runs.map Prod.fst).Perm (List.range 2) := by
  obtain ⟨s, hrun, hmain⟩ := pair_returns
  exact ⟨s, hrun.reachable, hmain, ((results_in_item_order (pair false) "g" hrun.reachable).2.2.2 _ hmain).1⟩

theorem no_step_of_raised {a : FanOut} {groupKey : String} {s : State} (h : Reachable a groupKey s) {error : String}
    (hmain : s.main = .raised (.child error)) (s' : State) : ¬ Step a groupKey s s' := by
  intro hstep
  have hat := h.invariant.main
  rw [hmain] at hat
  have hidle : ∀ {idx : ℕ} {f : Future Outcome}, s.pool[idx]? = some f → f.isSettled = true :=
    fun hf => hat.2.2 _ (List.mem_of_getElem? hf)
  cases hstep with
  | start hpending => cases hidle hpending
  | finish outcome hrunning => cases hidle hrunning
  | submit hcase | submitted hcase | collect hcase | stop hcase | cancel hcase | raise hcase | finished hcase =>
    rw [hmain] at hcase
    cases hcase

/-- A caller that stops at failures never returns past one, and raises the failure of some child only when every child
has ended or will never start. -/
theorem stop_on_error_leaves_nothing_running (a : FanOut) (groupKey : String) {s : State}
    (h : Reachable a groupKey s) :
    (∀ results, s.main = .returned results → a.stopOnError = true →
        ∀ f ∈ s.pool, ∃ dump, f = .done (.ok dump)) ∧
      ∀ error, s.main = .raised (.child error) → a.stopOnError = true ∧ .done (.error error) ∈ s.pool ∧
        (∀ f ∈ s.pool, f.isSettled = true) ∧ ∀ s', ¬ Step a groupKey s s' := by
  have hs := h.invariant
  have hat := hs.main
  refine ⟨fun results hmain hstop f hf => ?_, fun error hmain => ?_⟩
  · rw [hmain] at hat
    obtain ⟨idx, hidx⟩ := List.mem_iff_getElem?.mp hf
    have hlt := hat.1 ▸ (List.getElem?_eq_some_iff.mp hidx).1
    obtain ⟨outcome, hdone, -, hgo⟩ := (returned_entries hs hmain).2 idx hlt
    rw [hidx, Option.some.injEq] at hdone
    cases outcome with
    | ok dump => exact ⟨dump, hdone⟩
    | error error => simp [hstop, Except.isOk, Except.toBool] at hgo
  · rw [hmain] at hat
    obtain ⟨hlength, ⟨hstop, idx, hdone⟩, hsettled⟩ := hat
    exact ⟨hstop, List.mem_of_getElem? hdone, hsettled, no_step_of_raised h hmain⟩

theorem pair_stop_leaves_nothing_running : ∃ s, Reachable (pair true) "g" s ∧ s.runs.length = 1 ∧
    s.main = .raised (.child "boom") ∧ ∀ f ∈ s.pool, f.isSettled = true := by
  obtain ⟨s, hrun, hmain, hruns⟩ := pair_stops
  exact ⟨s, hrun.reachable, hruns, hmain,
    ((stop_on_error_leaves_nothing_running (pair true) "g" hrun.reachable).2 _ hmain).2.2.1⟩

/-- No order of steps keeps the caller waiting: every run ends, and it ends with the results, with the failure of a
child, or with the refusal of the arguments. -/
theorem every_run_ends (a : FanOut) (groupKey : String) {k : ℕ} {s : State} (h : Run a groupKey k s) :
    k ≤ 5 * a.itemList.length + 3 ∧ ((∀ s', ¬ Step a groupKey s s') → (∃ results, s.main = .returned results) ∨
      (∃ error, s.main = .raised (.child error) ∧ a.stopOnError = true) ∨
        ∃ text, s.main = .raised (.valueError text) ∧ begin a = .raised (.valueError text)) := by
  have hrun : Reachable a groupKey s ∧ rank a s + k ≤ 5 * a.itemList.length + 3 := by
    induction h with
    | nil =>
      exact ⟨.refl, rank_initial a⟩
    | step _ hstep ih =>
      have hlt := hstep.rank_lt ih.1.invariant
      exact ⟨ih.1.tail hstep, by omega⟩
  have hs := hrun.1.invariant
  refine ⟨by omega, fun hstuck => ?_⟩
  have hat := hs.main
  by_contra hopen
  simp only [not_or, not_exists] at hopen
  have hraised : ∀ failure, s.main ≠ .raised failure := by
    intro failure hmain
    rw [hmain] at hat
    cases failure with
    | valueError text => exact hopen.2.2 text ⟨hmain, hat.2⟩
    | child error => exact hopen.2.1 error ⟨hmain, hat.2.1.1⟩
  obtain ⟨s', hstep⟩ := exists_step hs ⟨hopen.1, hraised⟩
  exact hstuck s' hstep

theorem pair_run_ends : ∃ s, Run (pair true) "g" 9 s ∧ 9 ≤ 5 * (pair true).itemList.length + 3 ∧
    (∀ s', ¬ Step (pair true) "g" s s') ∧ ((∃ results, s.main = .returned results) ∨
      (∃ error, s.main = .raised (.child error) ∧ (pair true).stopOnError = true) ∨
        ∃ text, s.main = .raised (.valueError text) ∧ begin (pair true) = .raised (.valueError text)) := by
  obtain ⟨s, hrun, hmain, -⟩ := pair_stops
  have hstuck := no_step_of_raised hrun.reachable hmain
  obtain ⟨hbound, hends⟩ := every_run_ends (pair true) "g" hrun
  exact ⟨s, hrun, hbound, hstuck, hends hstuck⟩

end GraphSkillRuntime.ParallelMap
