import GraphSkillRuntime.Iterate
import GraphSkillRuntime.WorkerPools
import Mathlib.Logic.Relation

/-!
A batch over a list of items, as its tasks take turns. A task waits for a free place, runs its item in a thread and
records what the item gave; the first failure that the caller hears of cancels the tasks that have not started.
-/

namespace GraphSkillRuntime.BatchGather

open OrderedDict WorkerPools

abbrev ItemResult := Dict String Value × List String

abbrev ItemOutcome := Except MapperError ItemResult

inductive Main where
  | gathering
  | failing (error : MapperError)
  | unwinding (error : MapperError)
  | returned (itemPayloads : List (Dict String Value))
  | raised (error : MapperError)

namespace Main

def isLooping : Main → Bool
  | gathering | failing _ => true
  | _ => false

def rank : Main → ℕ
  | gathering => 3
  | failing _ => 2
  | unwinding _ => 1
  | returned _ | raised _ => 0

end Main

structure State where
  main : Main
  pool : Pool ItemOutcome
  results : List (Option ItemResult)
  itemExecutions : List String

section

variable (runOne : ℕ → Value → ItemOutcome) (items : List Value) (concurrency : ℕ)

def initial : State where
  main := if items = [] then .returned [] else .gathering
  pool := List.replicate items.length .pending
  results := List.replicate items.length none
  itemExecutions := []

inductive Step : State → State → Prop
  | start {s : State} {i : ℕ} (hmain : s.main.isLooping = true) (hpending : s.pool[i]? = some .pending)
      (hfree : s.pool.countP Future.isRunning < concurrency) : Step s { s with pool := s.pool.set i .running }
  | finish {s : State} {i : ℕ} {item : Value} (hrunning : s.pool[i]? = some .running) (hitem : items[i]? = some item) :
      Step s { s with pool := s.pool.set i (.done (runOne (i + 1) item)) }
  | record {s : State} {i : ℕ} {r : ItemResult} (hmain : s.main.isLooping = true)
      (hdone : s.pool[i]? = some (.done (.ok r))) (hnew : s.results[i]? = some none) :
      Step s { s with results := s.results.set i (some r), itemExecutions := s.itemExecutions ++ r.2 }
  | fail {s : State} {i : ℕ} {error : MapperError} (hmain : s.main = .gathering)
      (hdone : s.pool[i]? = some (.done (.error error))) : Step s { s with main := .failing error }
  | cancel {s : State} {error : MapperError} (hmain : s.main = .failing error) :
      Step s { s with main := .unwinding error, pool := s.pool.map Future.cancel }
  | raise {s : State} {error : MapperError} (hmain : s.main = .unwinding error)
      (hidle : ∀ f ∈ s.pool, f.isRunning = false) : Step s { s with main := .raised error }
  | gathered {s : State} (hmain : s.main = .gathering) (hall : ∀ r ∈ s.results, r.isSome = true) :
      Step s { s with main := .returned ((s.results.filterMap id).map Prod.fst) }

inductive Run : ℕ → State → Prop
  | nil : Run 0 (initial items)
  | step {k : ℕ} {s s' : State} (h : Run k s) (hstep : Step runOne items concurrency s s') : Run (k + 1) s'

def Fails (error : MapperError) : Prop :=
  ∃ (i : ℕ) (item : Value), items[i]? = some item ∧ runOne (i + 1) item = .error error

def AtMain (s : State) : Main → Prop
  | .gathering => .cancelled ∉ s.pool
  | .failing error => Fails runOne items error
  | .unwinding error => .pending ∉ s.pool ∧ Fails runOne items error
  | .returned itemPayloads => (∀ r ∈ s.results, r.isSome = true) ∧
      itemPayloads = (s.results.filterMap id).map Prod.fst
  | .raised error => (∀ f ∈ s.pool, f.isSettled = true) ∧ Fails runOne items error

def executionsOf (r : Option ItemResult) : List String :=
  match r with
  | some r => r.2
  | none => []

structure Invariant (s : State) : Prop where
  pool_length : s.pool.length = items.length
  results_length : s.results.length = items.length
  bounded : Bounded concurrency s.pool
  outcomes : ∀ (i : ℕ) (outcome : ItemOutcome), s.pool[i]? = some (.done outcome) →
    ∃ item, items[i]? = some item ∧ outcome = runOne (i + 1) item
  recorded : ∀ (i : ℕ) (r : ItemResult), s.results[i]? = some (some r) → s.pool[i]? = some (.done (.ok r))
  executions : s.itemExecutions.Perm (s.results.flatMap executionsOf)
  main : AtMain runOne items s s.main

end

variable {runOne : ℕ → Value → ItemOutcome} {items : List Value} {concurrency : ℕ}

theorem flatMap_set_perm {results : List (Option ItemResult)} {i : ℕ} (hnew : results[i]? = some none)
    (r : ItemResult) :
    ((results.set i (some r)).flatMap executionsOf).Perm (results.flatMap executionsOf ++ r.2) := by
  induction results generalizing i with
  | nil => simp at hnew
  | cons e results ih =>
    cases i with
    | zero =>
      obtain rfl : e = none := by simpa using hnew
      exact List.perm_append_comm
    | succ i =>
      have htail := ih (i := i) (by simpa using hnew)
      simp only [List.set_cons_succ, List.flatMap_cons, List.append_assoc]
      exact htail.append_left _

theorem initial_invariant (runOne : ℕ → Value → ItemOutcome) (items : List Value) (concurrency : ℕ) :
    Invariant runOne items concurrency (initial items) where
  pool_length := List.length_replicate
  results_length := List.length_replicate
  bounded := by
    have hidle : (List.replicate items.length (.pending : Future ItemOutcome)).countP Future.isRunning = 0 := by
      apply List.countP_eq_zero.mpr
      intro f hf
      rw [(List.mem_replicate.mp hf).2]
      simp [Future.isRunning]
    exact hidle.le.trans (Nat.zero_le _)
  outcomes i outcome h := by
    cases (List.mem_replicate.mp (List.mem_of_getElem? h)).2
  recorded i r h := by
    cases (List.mem_replicate.mp (List.mem_of_getElem? h)).2
  executions := by
    have hnone (n : ℕ) : (List.replicate n (none : Option ItemResult)).flatMap executionsOf = [] := by
      simp [executionsOf]
    rw [initial, hnone]
  main := by
    unfold initial
    split_ifs with hnil
    · simp [AtMain, hnil]
    · intro hmem
      cases (List.mem_replicate.mp hmem).2

theorem Invariant.settled_of_recorded {s : State} (hs : Invariant runOne items concurrency s)
    (hall : ∀ r ∈ s.results, r.isSome = true) : ∀ f ∈ s.pool, f.isSettled = true := by
  intro f hf
  obtain ⟨i, hi⟩ := List.mem_iff_getElem?.mp hf
  have hlt : i < s.results.length := by
    have hpool := (List.getElem?_eq_some_iff.mp hi).1
    rw [hs.results_length, ← hs.pool_length]
    exact hpool
  obtain ⟨r, hr⟩ := Option.isSome_iff_exists.mp (hall _ (List.getElem_mem hlt))
  have hdone := hs.recorded i r (by rw [List.getElem?_eq_getElem hlt, hr])
  rw [hi, Option.some.injEq] at hdone
  rw [hdone]
  rfl

theorem AtMain.works {s : State} (hs : Invariant runOne items concurrency s) {p : Pool ItemOutcome}
    (hw : Works concurrency s.pool p) : AtMain runOne items { s with pool := p } s.main := by
  have hmain := hs.main
  obtain ⟨f, hf, hleft⟩ := hw.not_settled
  cases hcase : s.main with
  | gathering =>
    rw [hcase] at hmain
    exact hw.uncancelled hmain
  | failing error =>
    rw [hcase] at hmain
    exact hmain
  | unwinding error =>
    rw [hcase] at hmain
    refine ⟨?_, hmain.2⟩
    intro hmem
    obtain ⟨i, hi⟩ := List.mem_iff_getElem?.mp hmem
    exact hmain.1 (List.mem_of_getElem? (hw.pending hi))
  | returned itemPayloads =>
    rw [hcase] at hmain
    rw [hs.settled_of_recorded hmain.1 f hf] at hleft
    cases hleft
  | raised error =>
    rw [hcase] at hmain
    rw [hmain.1 f hf] at hleft
    cases hleft

theorem Invariant.works {s : State} (hs : Invariant runOne items concurrency s) {p : Pool ItemOutcome}
    (hw : Works concurrency s.pool p)
    (houtcomes : ∀ (i : ℕ) (outcome : ItemOutcome), p[i]? = some (.done outcome) →
      ∃ item, items[i]? = some item ∧ outcome = runOne (i + 1) item) :
    Invariant runOne items concurrency { s with pool := p } where
  pool_length := hw.length_eq.trans hs.pool_length
  results_length := hs.results_length
  bounded := hw.bounded hs.bounded
  outcomes := houtcomes
  recorded i r h := hw.settled (hs.recorded i r h) rfl
  executions := hs.executions
  main := AtMain.works hs hw

theorem done_of_set {p : Pool ItemOutcome} {i j : ℕ} {f : Future ItemOutcome} {outcome : ItemOutcome}
    (h : (p.set i f)[j]? = some (.done outcome)) :
    p[j]? = some (.done outcome) ∨ (j = i ∧ f = .done outcome) := by
  rw [List.getElem?_set] at h
  split_ifs at h with heq hlt
  · exact Or.inr ⟨heq.symm, Option.some.inj h⟩
  · exact Or.inl h

theorem done_of_cancel {p : Pool ItemOutcome} {i : ℕ} {outcome : ItemOutcome} :
    (p.map Future.cancel)[i]? = some (.done outcome) ↔ p[i]? = some (.done outcome) := by
  rw [List.getElem?_map]
  cases hi : p[i]? with
  | none => simp
  | some f => cases f <;> simp [Future.cancel]

theorem Step.invariant {s s' : State} (h : Step runOne items concurrency s s')
    (hs : Invariant runOne items concurrency s) : Invariant runOne items concurrency s' := by
  have hmain := hs.main
  cases h with
  | start hloop hpending hfree =>
    apply hs.works (.start hpending hfree)
    intro j outcome hj
    rcases done_of_set hj with hold | ⟨-, hnew⟩
    · exact hs.outcomes j outcome hold
    · cases hnew
  | @finish i item hrunning hitem =>
    apply hs.works (.finish _ hrunning)
    intro j outcome hj
    rcases done_of_set hj with hold | ⟨rfl, hnew⟩
    · exact hs.outcomes j outcome hold
    · cases hnew
      exact ⟨item, hitem, rfl⟩
  | @record i r hloop hdone hnew =>
    refine ⟨hs.pool_length, ?_, hs.bounded, hs.outcomes, ?_, ?_, ?_⟩
    · rw [List.length_set]
      exact hs.results_length
    · intro j t hj
      rw [List.getElem?_set] at hj
      split_ifs at hj with heq hlt
      · subst heq
        rw [Option.some.injEq, Option.some.injEq] at hj
        rw [← hj]
        exact hdone
      · exact hs.recorded j t hj
    · apply List.Perm.trans _ (flatMap_set_perm hnew r).symm
      exact hs.executions.append_right r.2
    · cases hcase : s.main with
      | gathering =>
        rw [hcase] at hmain
        exact hmain
      | failing error =>
        rw [hcase] at hmain
        exact hmain
      | _ => rw [hcase] at hloop; cases hloop
  | @fail i error hcase hdone =>
    obtain ⟨item, hitem, houtcome⟩ := hs.outcomes i _ hdone
    exact ⟨hs.pool_length, hs.results_length, hs.bounded, hs.outcomes, hs.recorded, hs.executions,
      i, item, hitem, houtcome.symm⟩
  | @cancel error hcase =>
    rw [hcase] at hmain
    refine ⟨?_, hs.results_length, ?_, ?_, ?_, hs.executions, ?_, hmain⟩
    · rw [List.length_map]
      exact hs.pool_length
    · have hsame : (Future.isRunning ∘ Future.cancel : Future ItemOutcome → Bool) = Future.isRunning := by
        funext f
        exact f.isRunning_cancel
      rw [Bounded, List.countP_map, hsame]
      exact hs.bounded
    · intro i outcome hi
      exact hs.outcomes i outcome (done_of_cancel.mp hi)
    · intro i r hi
      exact done_of_cancel.mpr (hs.recorded i r hi)
    · intro hmem
      obtain ⟨f, -, hf⟩ := List.mem_map.mp hmem
      cases f <;> cases hf
  | @raise error hcase hidle =>
    rw [hcase] at hmain
    refine ⟨hs.pool_length, hs.results_length, hs.bounded, hs.outcomes, hs.recorded, hs.executions, ?_, hmain.2⟩
    intro f hf
    have hrest := hidle f hf
    cases f with
    | pending => exact absurd hf hmain.1
    | running => cases hrest
    | cancelled => rfl
    | done outcome => rfl
  | gathered hcase hall =>
    exact ⟨hs.pool_length, hs.results_length, hs.bounded, hs.outcomes, hs.recorded, hs.executions, hall, rfl⟩

theorem Run.invariant {k : ℕ} {s : State} (h : Run runOne items concurrency k s) :
    Invariant runOne items concurrency s := by
  induction h with
  | nil => exact initial_invariant runOne items concurrency
  | step _ hstep ih => exact hstep.invariant ih

def rank (s : State) : ℕ := backlog s.pool + s.results.countP Option.isNone + s.main.rank

theorem backlog_replicate (n : ℕ) : backlog (List.replicate n (.pending : Future ItemOutcome)) = 2 * n := by
  induction n with
  | zero => rfl
  | succ n ih =>
    rw [List.replicate_succ, backlog, ih, Future.rank]
    omega

theorem backlog_cancel_le (p : Pool ItemOutcome) : backlog (p.map Future.cancel) ≤ backlog p := by
  induction p with
  | nil => exact Nat.le_refl _
  | cons f p ih =>
    rw [List.map_cons, backlog, backlog]
    exact Nat.add_le_add f.rank_cancel_le ih

theorem Step.rank_lt {s s' : State} (h : Step runOne items concurrency s s') : rank s' < rank s := by
  cases h with
  | start hloop hpending hfree =>
    have hbacklog := (Works.start hpending hfree).backlog_lt
    simp only [rank]
    omega
  | @finish i item hrunning hitem =>
    have hw : Works concurrency s.pool _ := .finish (runOne (i + 1) item) hrunning
    have hbacklog := hw.backlog_lt
    simp only [rank]
    omega
  | record hloop hdone hnew =>
    obtain ⟨hlt, hnone⟩ := List.getElem?_eq_some_iff.mp hnew
    have hpos : 0 < List.countP Option.isNone _ := List.countP_pos_iff.mpr ⟨none, List.mem_of_getElem? hnew, rfl⟩
    simp only [rank, List.countP_set hlt, hnone, Option.isNone_none, Option.isNone_some, if_true, Bool.false_eq_true,
      if_false]
    omega
  | fail hcase hdone =>
    simp only [rank, hcase, Main.rank]
    omega
  | cancel hcase =>
    have hbacklog := backlog_cancel_le s.pool
    simp only [rank, hcase, Main.rank]
    omega
  | raise hcase hidle =>
    simp only [rank, hcase, Main.rank]
    omega
  | gathered hcase hall =>
    simp only [rank, hcase, Main.rank]
    omega

theorem Run.length_le {k : ℕ} {s : State} (h : Run runOne items concurrency k s) : k ≤ 3 * items.length + 3 := by
  have hleft : k + rank s ≤ 3 * items.length + 3 := by
    induction h with
    | nil =>
      have hmain : (initial items).main.rank ≤ 3 := by
        unfold initial
        split_ifs <;> simp [Main.rank]
      have hresults := List.countP_le_length (p := Option.isNone) (l := (initial items).results)
      have hlength : (initial items).results.length = items.length := List.length_replicate
      have hpool : backlog (initial items).pool = 2 * items.length := backlog_replicate _
      simp only [rank]
      omega
    | step _ hstep ih =>
      have hlt := hstep.rank_lt
      omega
  omega

theorem exists_step_unsettled {s : State} (hs : Invariant runOne items concurrency s) (hpos : 0 < concurrency)
    (hloop : s.main.isLooping = true) {f : Future ItemOutcome} (hf : f ∈ s.pool) (hleft : f.isSettled = false) :
    ∃ s', Step runOne items concurrency s s' := by
  by_cases hrun : ∃ i : ℕ, s.pool[i]? = some .running
  · obtain ⟨i, hi⟩ := hrun
    have hlt : i < items.length := hs.pool_length ▸ (List.getElem?_eq_some_iff.mp hi).1
    exact ⟨_, .finish hi (List.getElem?_eq_getElem hlt)⟩
  · obtain ⟨p, hw⟩ := works_of_unsettled hpos hf hleft (.error (.valueError ""))
    cases hw with
    | start hpending hfree => exact ⟨_, .start hloop hpending hfree⟩
    | finish outcome hrunning => exact absurd ⟨_, hrunning⟩ hrun

theorem exists_step_gathering {s : State} (hs : Invariant runOne items concurrency s) (hpos : 0 < concurrency)
    (hcase : s.main = .gathering) : ∃ s', Step runOne items concurrency s s' := by
  have hmain := hs.main
  rw [hcase] at hmain
  have hloop : s.main.isLooping = true := by
    rw [hcase]
    rfl
  by_cases hall : ∀ r ∈ s.results, r.isSome = true
  · exact ⟨_, .gathered hcase hall⟩
  · simp only [not_forall, Bool.not_eq_true, Option.isSome_eq_false_iff, Option.isNone_iff_eq_none] at hall
    obtain ⟨r, hr, rfl⟩ := hall
    obtain ⟨i, hnew⟩ := List.mem_iff_getElem?.mp hr
    have hlt : i < s.pool.length := by
      rw [hs.pool_length, ← hs.results_length]
      exact (List.getElem?_eq_some_iff.mp hnew).1
    have hf := List.getElem?_eq_getElem hlt
    have hmem := List.getElem_mem hlt
    cases htask : s.pool[i] with
    | pending => exact exists_step_unsettled hs hpos hloop hmem (by rw [htask]; rfl)
    | running => exact exists_step_unsettled hs hpos hloop hmem (by rw [htask]; rfl)
    | cancelled => exact absurd (htask ▸ hmem) hmain
    | done outcome =>
      rw [htask] at hf
      cases outcome with
      | ok r => exact ⟨_, .record hloop hf hnew⟩
      | error error => exact ⟨_, .fail hcase hf⟩

theorem exists_step {s : State} (hs : Invariant runOne items concurrency s) (hpos : 0 < concurrency)
    (hopen : (∀ itemPayloads, s.main ≠ .returned itemPayloads) ∧ ∀ error, s.main ≠ .raised error) :
    ∃ s', Step runOne items concurrency s s' := by
  cases hcase : s.main with
  | gathering => exact exists_step_gathering hs hpos hcase
  | failing error => exact ⟨_, .cancel hcase⟩
  | unwinding error =>
    by_cases hidle : ∀ f ∈ s.pool, f.isRunning = false
    · exact ⟨_, .raise hcase hidle⟩
    · simp only [not_forall, Bool.not_eq_false] at hidle
      obtain ⟨f, hf, hrunning⟩ := hidle
      obtain ⟨i, hi⟩ := List.mem_iff_getElem?.mp hf
      have hlt : i < items.length := hs.pool_length ▸ (List.getElem?_eq_some_iff.mp hi).1
      cases f with
      | running => exact ⟨_, .finish hi (List.getElem?_eq_getElem hlt)⟩
      | _ => cases hrunning
  | returned itemPayloads => exact absurd hcase (hopen.1 itemPayloads)
  | raised error => exact absurd hcase (hopen.2 error)

section

variable {node : IndexedNode} {base : WorkflowState} {itemVar : String} {outputKeys : Option (List String)}
  {phaseId : String}

theorem batchItems_of_items {items : List Value} {index : ℕ} {results : List ItemResult}
    (hlength : results.length = items.length)
    (h : ∀ (i : ℕ) (item : Value), items[i]? = some item → ∃ r, results[i]? = some r ∧
      batchItem node base itemVar outputKeys phaseId (index + i) item = .ok r) :
    batchItems node base itemVar outputKeys phaseId index items = .ok results := by
  induction items generalizing index results with
  | nil =>
    rw [List.length_nil, List.length_eq_zero_iff] at hlength
    rw [hlength]
    rfl
  | cons item items ih =>
    obtain ⟨first, hfirst, hitem⟩ := h 0 item rfl
    cases results with
    | nil => cases hlength
    | cons head results =>
      obtain rfl : head = first := by simpa using hfirst
      have hrest : batchItems node base itemVar outputKeys phaseId (index + 1) items = .ok results := by
        apply ih (Nat.succ.inj hlength)
        intro i next hnext
        obtain ⟨r, hr, hrun⟩ := h (i + 1) next hnext
        refine ⟨r, hr, ?_⟩
        rw [show index + 1 + i = index + (i + 1) by omega]
        exact hrun
      rw [batchItems, show batchItem node base itemVar outputKeys phaseId index item = .ok head from hitem, hrest]
      rfl

theorem batchItems_error {items : List Value} {index i : ℕ} {item : Value} {error : MapperError}
    (hitem : items[i]? = some item)
    (hfails : batchItem node base itemVar outputKeys phaseId (index + i) item = .error error) :
    ∃ first, batchItems node base itemVar outputKeys phaseId index items = .error first := by
  induction items generalizing index i with
  | nil => cases hitem
  | cons head items ih =>
    rw [batchItems]
    cases hhead : batchItem node base itemVar outputKeys phaseId index head with
    | error first => exact ⟨first, rfl⟩
    | ok r =>
      cases i with
      | zero =>
        obtain rfl : head = item := by simpa using hitem
        rw [Nat.add_zero, hhead] at hfails
        cases hfails
      | succ i =>
        have hrest : batchItem node base itemVar outputKeys phaseId (index + 1 + i) item = .error error := by
          rw [show index + 1 + i = index + (i + 1) by omega]
          exact hfails
        have htail : items[i]? = some item := by simpa using hitem
        obtain ⟨first, hfirst⟩ := ih htail hrest
        refine ⟨first, ?_⟩
        rw [hfirst]
        rfl

end

/-- What the phase returns of the payloads of its items and of the executions that made them. -/
def batchDelta (phaseId : String) (outputKeys : Option (List String)) (itemPayloads : List (Dict String Value))
    (itemExecutions : List String) : PhaseDelta :=
  phaseOutputsDelta (Dict.single phaseId
      (if itemPayloads.isEmpty then emptyBatchPayload outputKeys else aggregateBatchPayloads itemPayloads))
    (Dict.single phaseId itemExecutions)

theorem batchPhase_eq {node : IndexedNode} {phaseId : String} {iterate : IterateSpec} {outputSchema : Option Schema}
    {state : WorkflowState} {items : List Value} (hitems : resolveIterateItems state iterate.overField = .ok items) :
    batchPhase node phaseId iterate outputSchema state =
      (batchItems node state iterate.itemVar (schemaOutputKeys outputSchema) phaseId 1
        (applyIterateRange items iterate.range)).map fun results =>
          batchDelta phaseId (schemaOutputKeys outputSchema) (results.map Prod.fst) (results.flatMap Prod.snd) := by
  rw [batchPhase, hitems]
  cases hresults : batchItems node state iterate.itemVar (schemaOutputKeys outputSchema) phaseId 1
      (applyIterateRange items iterate.range) with
  | error error => simp [hresults, bind, Except.bind, Except.map]
  | ok results =>
    simp only [bind, Except.bind, hresults, Except.map, batchDelta, List.isEmpty_map]
    rfl

theorem itemRun_perm {results : List ItemResult} {s : State} (hs : Invariant runOne items concurrency s)
    (hresults : results.map some = s.results) : (results.flatMap Prod.snd).Perm s.itemExecutions := by
  apply List.Perm.trans _ hs.executions.symm
  rw [← hresults, List.flatMap_map]
  exact List.Perm.refl _

theorem second_item_first {runOne : ℕ → Value → ItemOutcome} {a b : Value} {r t : ItemResult}
    (ha : runOne 1 a = .ok r) (hb : runOne 2 b = .ok t) : ∃ s, Run runOne [a, b] 2 7 s ∧
      s.main = .returned [r.1, t.1] ∧ s.itemExecutions = t.2 ++ r.2 := by
  have hstarted : Run runOne [a, b] 2 2 ⟨.gathering, [.running, .running], [none, none], []⟩ :=
    (Run.nil.step (@Step.start _ _ _ _ 0 rfl rfl Nat.zero_lt_two)).step (@Step.start _ _ _ _ 1 rfl rfl Nat.one_lt_two)
  have hlast : Run runOne [a, b] 2 4 ⟨.gathering, [.running, .done (.ok t)], [none, some t], t.2⟩ := by
    have hdone := hstarted.step (@Step.finish _ _ _ _ 1 b rfl rfl)
    have hrecord := hdone.step (@Step.record _ _ _ _ 1 t rfl (by rw [hb]; rfl) rfl)
    rw [hb] at hrecord
    exact hrecord
  have hfirst : Run runOne [a, b] 2 6 ⟨.gathering, [.done (.ok r), .done (.ok t)], [some r, some t], t.2 ++ r.2⟩ := by
    have hdone := hlast.step (@Step.finish _ _ _ _ 0 a rfl rfl)
    have hrecord := hdone.step (@Step.record _ _ _ _ 0 r rfl (by rw [ha]; rfl) rfl)
    rw [ha] at hrecord
    exact hrecord
  exact ⟨_, hfirst.step (.gathered rfl (by simp)), rfl, rfl⟩

/-- In whatever order the tasks start, end and record, no more items run at a time than are allowed, the run ends, and
what it comes to is what the phase gives that takes its items one after another: the same payloads in the order of the
items and the same executions, or a failure of some item when no thread is left running. -/
theorem gathered_batch_agrees (node : IndexedNode) (phaseId : String) (iterate : IterateSpec)
    (outputSchema : Option Schema) (state : WorkflowState) {items : List Value}
    (hitems : resolveIterateItems state iterate.overField = .ok items) {k : ℕ} {s : State}
    (h : Run (batchItem node state iterate.itemVar (schemaOutputKeys outputSchema) phaseId)
      (applyIterateRange items iterate.range) iterate.concurrency k s) :
    s.pool.countP Future.isRunning ≤ iterate.concurrency ∧
    k ≤ 3 * (applyIterateRange items iterate.range).length + 3 ∧
    (∀ itemPayloads, s.main = .returned itemPayloads → ∃ executions, executions.Perm s.itemExecutions ∧
      batchPhase node phaseId iterate outputSchema state =
        .ok (batchDelta phaseId (schemaOutputKeys outputSchema) itemPayloads executions)) ∧
    (∀ error, s.main = .raised error → (∀ f ∈ s.pool, f.isSettled = true) ∧
      (∃ (i : ℕ) (item : Value), (applyIterateRange items iterate.range)[i]? = some item ∧
        batchItem node state iterate.itemVar (schemaOutputKeys outputSchema) phaseId (i + 1) item = .error error) ∧
      ∃ first, batchPhase node phaseId iterate outputSchema state = .error first) ∧
    ((∀ s', ¬ Step (batchItem node state iterate.itemVar (schemaOutputKeys outputSchema) phaseId)
        (applyIterateRange items iterate.range) iterate.concurrency s s') →
      (∃ itemPayloads, s.main = .returned itemPayloads) ∨ ∃ error, s.main = .raised error) := by
  have hs := h.invariant
  have hmain := hs.main
  refine ⟨hs.bounded, h.length_le, ?_, ?_, ?_⟩
  · intro itemPayloads hcase
    rw [hcase] at hmain
    obtain ⟨hall, hpayloads⟩ := hmain
    have hsome := map_some_filterMap hall
    refine ⟨_, itemRun_perm hs hsome, ?_⟩
    have hrun : batchItems node state iterate.itemVar (schemaOutputKeys outputSchema) phaseId 1
        (applyIterateRange items iterate.range) = .ok (s.results.filterMap id) := by
      apply batchItems_of_items
      · rw [← hs.results_length, ← hsome, List.length_map, hsome]
      · intro i item hitem
        have hlt : i < s.results.length := by
          rw [hs.results_length]
          exact (List.getElem?_eq_some_iff.mp hitem).1
        obtain ⟨r, hr⟩ := Option.isSome_iff_exists.mp (hall _ (List.getElem_mem hlt))
        have hrecorded : s.results[i]? = some (some r) := by rw [List.getElem?_eq_getElem hlt, hr]
        obtain ⟨item', hitem', houtcome⟩ := hs.outcomes i _ (hs.recorded i r hrecorded)
        obtain rfl : item = item' := by simpa [hitem] using hitem'
        refine ⟨r, ?_, ?_⟩
        · rw [← hsome, List.getElem?_map] at hrecorded
          obtain ⟨r', hr', hsame⟩ := Option.map_eq_some_iff.mp hrecorded
          rw [hr', Option.some.inj hsame]
        · rw [Nat.add_comm]
          exact houtcome.symm
    rw [batchPhase_eq hitems, hrun, hpayloads]
    rfl
  · intro error hcase
    rw [hcase] at hmain
    obtain ⟨hsettled, i, item, hitem, hfails⟩ := hmain
    refine ⟨hsettled, ⟨i, item, hitem, hfails⟩, ?_⟩
    have hcount : batchItem node state iterate.itemVar (schemaOutputKeys outputSchema) phaseId (1 + i) item =
        .error error := by
      rw [Nat.add_comm]
      exact hfails
    obtain ⟨first, hfirst⟩ := batchItems_error hitem hcount
    refine ⟨first, ?_⟩
    rw [batchPhase_eq hitems, hfirst]
    rfl
  · intro hrest
    by_contra hopen
    rw [not_or, not_exists, not_exists] at hopen
    obtain ⟨s', hstep⟩ := exists_step hs iterate.concurrency.2 hopen
    exact hrest s' hstep

def chapterState : WorkflowState where
  data := Dict.single "chapters" (.list [.str "a", .str "b"])
  flow := {}
  messages := []

def chapterBatch : IterateSpec where
  mode := .batch
  overField := "chapters"
  itemVar := "chapter"
  concurrency := ⟨2, Nat.two_pos⟩

def chapterNode : IndexedNode := fun index child =>
  .ok ⟨child.data, { phaseExecutionIds := some (Dict.single "draft" [toString index]) }, []⟩

theorem chapters_agree : ∃ (s : State) (itemPayloads : List (Dict String Value)),
    s.main = .returned itemPayloads ∧ s.itemExecutions = ["2", "1"] ∧
    ∃ executions, executions.Perm s.itemExecutions ∧ batchPhase chapterNode "draft" chapterBatch none chapterState =
      .ok (batchDelta "draft" none itemPayloads executions) := by
  have hitem (index : ℕ) (name : String) : ∃ payload, batchItem chapterNode chapterState "chapter" none "draft" index
      (.str name) = .ok (payload, [toString index]) := by
    have hchild : updateBusiness chapterState (Dict.single "chapter" (.str name)) =
        .ok { chapterState with data := chapterState.data.update (Dict.single "chapter" (.str name)) } := by
      refine updateBusiness_ok_iff.mpr ⟨fun k hk => ?_, rfl⟩
      obtain rfl : k = "chapter" := List.mem_singleton.mp hk
      decide
    rw [batchItem, hchild]
    exact ⟨_, rfl⟩
  obtain ⟨_, ha⟩ := hitem 1 "a"
  obtain ⟨_, hb⟩ := hitem 2 "b"
  obtain ⟨s, hrun, hmain, hexecutions⟩ := second_item_first ha hb
  have hitems : resolveIterateItems chapterState chapterBatch.overField = .ok [.str "a", .str "b"] := rfl
  have hagree := gathered_batch_agrees chapterNode "draft" chapterBatch none chapterState hitems hrun
  exact ⟨s, _, hmain, hexecutions, hagree.2.2.1 _ hmain⟩

end GraphSkillRuntime.BatchGather
