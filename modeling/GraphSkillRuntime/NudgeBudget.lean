import GraphSkillRuntime.ExitControl

/-!
The nudge budget of one invocation over its hook calls: every hook consults the gates of one policy, a gate counts what
it nudges, and the agent loop ends behind a qualified finish marker only.
-/

namespace GraphSkillRuntime

open OrderedDict

inductive Gate where
  | selfcheck (payload : Dict String Value)
  | planning (latestContent : String) (hasToolCalls hasPlan : Bool)
  | standard (latestContent : String) (hasToolCalls : Bool)

def Gate.kind : Gate → NudgeKind
  | .selfcheck _ => .selfcheck
  | .planning .. => .planning
  | .standard .. => .standard

def Gate.triggered (P : Printer) : Gate → Bool
  | .selfcheck payload =>
    !(payload.get? "schema_validation" == some (.str "failed")) && !NudgePolicy.hasStructuredSelfcheck P payload
  | .planning latestContent hasToolCalls hasPlan => latestContent ≠ "" && !hasToolCalls && !hasPlan
  | .standard latestContent hasToolCalls => latestContent ≠ "" && !hasToolCalls

namespace NudgePolicy

variable (P : Printer) (maxNudges : ℕ)

def consult (policy : NudgePolicy) : Gate → NudgeDecision × NudgePolicy
  | .selfcheck payload => policy.trySelfcheck P maxNudges payload
  | .planning latestContent hasToolCalls hasPlan => policy.tryPlanning maxNudges latestContent hasToolCalls hasPlan
  | .standard latestContent hasToolCalls => policy.tryStandard maxNudges latestContent hasToolCalls

structure Consultation where
  policy : NudgePolicy
  gate : Gate
  decision : NudgeDecision

def consultAll (policy : NudgePolicy) : List Gate → List Consultation × NudgePolicy
  | [] => ([], policy)
  | gate :: gates =>
    let (decision, next) := policy.consult P maxNudges gate
    let (consultations, last) := next.consultAll gates
    (⟨policy, gate, decision⟩ :: consultations, last)

inductive Answers (policy : NudgePolicy) (gate : Gate) : NudgeDecision × NudgePolicy → Prop where
  | nudge (text : String) (htriggered : gate.triggered P = true) (hmay : policy.mayConsume maxNudges gate.kind = true) :
      Answers policy gate ({ text := some text, kind := some gate.kind, count := policy.counter gate.kind + 1,
                             counted := true }, policy.count gate.kind)
  | blocked (htriggered : gate.triggered P = true) (hmay : policy.mayConsume maxNudges gate.kind = false) :
      Answers policy gate ({ text := none, kind := some gate.kind, budgetExhausted := true }, policy)
  | uncounted {decision : NudgeDecision} (htriggered : gate.triggered P = false) (hcounted : decision.counted = false)
      (hexhausted : decision.budgetExhausted = false) : Answers policy gate (decision, policy)

theorem counter_count (policy : NudgePolicy) (kind other : NudgeKind) :
    (policy.count kind).counter other = if kind = other then policy.counter other + 1 else policy.counter other := by
  cases kind <;> cases other <;> rfl

theorem total_count (policy : NudgePolicy) (kind : NudgeKind) : (policy.count kind).total = policy.total + 1 := by
  cases kind <;> rfl

theorem nudge_answers (policy : NudgePolicy) (gate : Gate) (text : ℕ → String) (h : gate.triggered P = true) :
    Answers P maxNudges policy gate (policy.nudge maxNudges gate.kind text) := by
  unfold nudge
  cases hmay : policy.mayConsume maxNudges gate.kind with
  | true =>
    have hcount : (policy.count gate.kind).counter gate.kind = policy.counter gate.kind + 1 := by
      rw [counter_count, if_pos rfl]
    simp only [if_true, hcount]
    exact .nudge _ h hmay
  | false => exact .blocked h hmay

theorem consult_answers (policy : NudgePolicy) (gate : Gate) :
    Answers P maxNudges policy gate (policy.consult P maxNudges gate) := by
  cases gate with
  | selfcheck payload =>
    rw [consult, trySelfcheck]
    split_ifs with hfailed hstructured
    · exact .uncounted (by simp [Gate.triggered, hfailed]) rfl rfl
    · exact .uncounted (by simp [Gate.triggered, hstructured]) rfl rfl
    · exact nudge_answers P maxNudges policy (.selfcheck payload) _ (by simp [Gate.triggered, hfailed, hstructured])
  | planning latestContent hasToolCalls hasPlan =>
    rw [consult, tryPlanning]
    split_ifs with hquiet
    · exact .uncounted (by simp only [Gate.triggered, ne_eq, decide_not, ← Bool.not_or, hquiet, Bool.not_true]) rfl rfl
    · exact nudge_answers P maxNudges policy (.planning latestContent hasToolCalls hasPlan) _
        (by simpa [Gate.triggered, and_assoc] using hquiet)
  | standard latestContent hasToolCalls =>
    rw [consult, tryStandard]
    split_ifs with hquiet
    · exact .uncounted (by simp only [Gate.triggered, ne_eq, decide_not, ← Bool.not_or, hquiet, Bool.not_true]) rfl rfl
    · exact nudge_answers P maxNudges policy (.standard latestContent hasToolCalls) _
        (by simpa [Gate.triggered] using hquiet)

/-- The budgets of a policy: each kind within its own, and the total within the global one. -/
structure Within (policy : NudgePolicy) : Prop where
  kinds : ∀ kind, policy.counter kind ≤ maxNudges
  sum : policy.total = policy.planning + policy.selfcheck + policy.standard
  total : policy.total ≤ 2 * maxNudges

theorem Within.count {policy : NudgePolicy} (h : policy.Within maxNudges) {kind : NudgeKind}
    (hmay : policy.mayConsume maxNudges kind = true) : (policy.count kind).Within maxNudges := by
  simp only [mayConsume, Bool.and_eq_true, decide_eq_true_eq] at hmay
  refine ⟨?_, ?_, ?_⟩
  · intro other
    have hother := h.kinds other
    rw [counter_count]
    split_ifs with heq
    · subst heq
      omega
    · exact hother
  · have hsum := h.sum
    cases kind <;> simp only [NudgePolicy.count] <;> omega
  · rw [total_count]
    omega

theorem within_consult {policy : NudgePolicy} (h : policy.Within maxNudges) (gate : Gate) :
    (policy.consult P maxNudges gate).2.Within maxNudges := by
  have hanswers := consult_answers P maxNudges policy gate
  generalize policy.consult P maxNudges gate = answer at hanswers
  cases hanswers with
  | nudge text htriggered hmay => exact h.count maxNudges hmay
  | blocked => exact h
  | uncounted => exact h

theorem within_consultAll {policy : NudgePolicy} (h : policy.Within maxNudges) (gates : List Gate) :
    (policy.consultAll P maxNudges gates).2.Within maxNudges := by
  induction gates generalizing policy with
  | nil => exact h
  | cons gate gates ih => exact ih (within_consult P maxNudges h gate)

def counted (kind : NudgeKind) (consultations : List Consultation) : ℕ :=
  consultations.countP fun con => con.decision.counted && decide (con.gate.kind = kind)

theorem counter_consult (policy : NudgePolicy) (gate : Gate) (kind : NudgeKind) :
    (policy.consult P maxNudges gate).2.counter kind = policy.counter kind +
      counted kind [⟨policy, gate, (policy.consult P maxNudges gate).1⟩] := by
  have hanswers := consult_answers P maxNudges policy gate
  generalize policy.consult P maxNudges gate = answer at hanswers ⊢
  cases hanswers with
  | nudge text htriggered hmay =>
    rw [counter_count]
    by_cases hkind : gate.kind = kind <;> simp [counted, hkind]
  | blocked => simp [counted]
  | uncounted htriggered hcounted hexhausted => simp [counted, hcounted]

theorem counter_consultAll (policy : NudgePolicy) (gates : List Gate) (kind : NudgeKind) :
    (policy.consultAll P maxNudges gates).2.counter kind = policy.counter kind +
      counted kind (policy.consultAll P maxNudges gates).1 := by
  induction gates generalizing policy with
  | nil => rfl
  | cons gate gates ih =>
    have hrest := ih (policy.consult P maxNudges gate).2
    rw [counter_consult] at hrest
    simp only [consultAll, counted, List.countP_cons, List.countP_nil] at hrest ⊢
    omega

theorem mayConsume_eq_false {policy : NudgePolicy} {kind : NudgeKind} :
    policy.mayConsume maxNudges kind = false ↔
      maxNudges ≤ policy.counter kind ∨ 2 * maxNudges ≤ policy.total := by
  simp only [mayConsume, Bool.and_eq_false_iff, decide_eq_false_iff_not, Nat.not_lt, Nat.mul_comm maxNudges 2]

structure Consultation.Faithful (con : Consultation) : Prop where
  decision : con.decision = (con.policy.consult P maxNudges con.gate).1
  counted : (con.policy.consult P maxNudges con.gate).2 ≠ con.policy ↔ con.decision.counted = true
  nudges : con.decision.counted = true → con.decision.text.isSome
  exhausted : con.decision.budgetExhausted = true ↔ con.gate.triggered P = true ∧
    (maxNudges ≤ con.policy.counter con.gate.kind ∨ 2 * maxNudges ≤ con.policy.total)

theorem consult_faithful (policy : NudgePolicy) (gate : Gate) :
    Consultation.Faithful P maxNudges ⟨policy, gate, (policy.consult P maxNudges gate).1⟩ := by
  have hanswers := consult_answers P maxNudges policy gate
  refine ⟨rfl, ?_, ?_, ?_⟩
  all_goals
    simp only [← mayConsume_eq_false]
    generalize policy.consult P maxNudges gate = answer at hanswers ⊢
  · cases hanswers with
    | nudge text htriggered hmay =>
      simp only [iff_true]
      intro heq
      have htotal := total_count policy gate.kind
      rw [heq] at htotal
      omega
    | blocked => simp
    | uncounted htriggered hcounted hexhausted => simp [hcounted]
  · cases hanswers with
    | nudge => simp
    | blocked => simp
    | uncounted htriggered hcounted hexhausted => simp [hcounted]
  · cases hanswers with
    | nudge text htriggered hmay => simp [hmay]
    | blocked htriggered hmay => simp [htriggered, hmay]
    | uncounted htriggered hcounted hexhausted => simp [hexhausted, htriggered]

theorem consultAll_faithful (policy : NudgePolicy) (gates : List Gate) :
    ∀ con ∈ (policy.consultAll P maxNudges gates).1, con.Faithful P maxNudges := by
  induction gates generalizing policy with
  | nil => exact fun con hcon => absurd hcon (by simp [consultAll])
  | cons gate gates ih =>
    rw [consultAll, List.forall_mem_cons]
    exact ⟨consult_faithful P maxNudges policy gate, ih _⟩

end NudgePolicy

inductive Hook where
  | beforeModel (maxIterations : ℕ)
  | afterModel
  | afterAgent (maxIterations : ℕ)

structure HookCall where
  key : String
  hook : Hook
  flow : FrameworkState
  messages : List Message

namespace ExitControl

variable (c : ExitControl)

def call (b : ExitBudgets) (h : HookCall) : ExitAnswer × ExitBudgets :=
  match h.hook with
  | .beforeModel maxIterations => c.beforeModel b h.key maxIterations h.flow
  | .afterModel => c.afterModel b h.key h.flow h.messages
  | .afterAgent maxIterations => c.afterAgent b h.key maxIterations h.flow h.messages

/-- The gates that `_govern_no_finish_exit` consults: the standard gate follows a self-check with nothing to say. -/
def exitGates (policy : NudgePolicy) (flow : FrameworkState) (messages : List Message) : List Gate :=
  let standard := Gate.standard (latestAiText c.printer messages) false
  if lastHasToolCalls messages then []
  else
    match c.ownFinishPayload flow with
    | none => [standard]
    | some payload =>
      let decision := (policy.trySelfcheck c.printer c.maxNudges payload).1
      if decision.text.isSome || decision.budgetExhausted then [.selfcheck payload] else [.selfcheck payload, standard]

def gates (b : ExitBudgets) (h : HookCall) : List Gate :=
  if c.hasValidFinish h.flow then []
  else
    match h.hook with
    | .beforeModel _ => []
    | .afterModel =>
      [.planning (latestAiText c.printer h.messages) (lastHasToolCalls h.messages) (workingMemoryHasPlan h.flow)]
    | .afterAgent maxIterations =>
      if maxIterations ≤ b.iteration h.key then [] else c.exitGates (b.policy h.key) h.flow h.messages

def consulted (b : ExitBudgets) (h : HookCall) : List NudgePolicy.Consultation × NudgePolicy :=
  (b.policy h.key).consultAll c.printer c.maxNudges (c.gates b h)

def Sends (answer : ExitAnswer) (con : NudgePolicy.Consultation) : Prop :=
  con.decision.counted = true →
    ∃ text, con.decision.text = some text ∧ answer = .backToModel .continueNudged (some text)

section Govern

variable (policy : NudgePolicy) (iteration : ℕ) (flow : FrameworkState) (messages : List Message)

theorem sends_of_text_none {con : NudgePolicy.Consultation} (hfaithful : con.Faithful c.printer c.maxNudges)
    (htext : con.decision.text = none) (answer : ExitAnswer) : Sends answer con := by
  intro hcounted
  have hsome := hfaithful.nudges hcounted
  rw [htext] at hsome
  cases hsome

theorem standardGate_policy :
    (c.standardGate policy iteration messages).2 =
      (policy.consultAll c.printer c.maxNudges [.standard (latestAiText c.printer messages) false]).2 := by
  simp only [standardGate, NudgePolicy.consultAll, NudgePolicy.consult]
  split
  · rfl
  · split_ifs <;> rfl

theorem standardGate_sends :
    ∀ con ∈ (policy.consultAll c.printer c.maxNudges [.standard (latestAiText c.printer messages) false]).1,
      Sends (c.standardGate policy iteration messages).1 con := by
  intro con hcon
  have hfaithful := NudgePolicy.consultAll_faithful _ _ _ _ con hcon
  obtain rfl := List.mem_singleton.mp hcon
  cases htext : (policy.tryStandard c.maxNudges (latestAiText c.printer messages) false).1.text with
  | none => exact c.sends_of_text_none hfaithful htext _
  | some text =>
    intro hcounted
    refine ⟨text, htext, ?_⟩
    simp only [standardGate, htext]

theorem governNoFinishExit_policy :
    (c.governNoFinishExit policy iteration flow messages).2 =
      (policy.consultAll c.printer c.maxNudges (c.exitGates policy flow messages)).2 := by
  unfold governNoFinishExit exitGates
  split_ifs with hcalls
  · rfl
  · cases hown : c.ownFinishPayload flow with
    | none => exact c.standardGate_policy policy iteration messages
    | some payload =>
      simp only
      cases htext : (policy.trySelfcheck c.printer c.maxNudges payload).1.text with
      | some text => simp [NudgePolicy.consultAll, NudgePolicy.consult]
      | none =>
        cases hexhausted : (policy.trySelfcheck c.printer c.maxNudges payload).1.budgetExhausted with
        | true => simp [NudgePolicy.consultAll, NudgePolicy.consult]
        | false =>
          simp only [Bool.false_eq_true, if_false, Option.isSome_none, Bool.or_self]
          exact c.standardGate_policy _ iteration messages

theorem governNoFinishExit_sends :
    ∀ con ∈ (policy.consultAll c.printer c.maxNudges (c.exitGates policy flow messages)).1,
      Sends (c.governNoFinishExit policy iteration flow messages).1 con := by
  intro con hcon
  have hfaithful := NudgePolicy.consultAll_faithful _ _ _ _ con hcon
  unfold governNoFinishExit
  unfold exitGates at hcon
  split_ifs at hcon ⊢ with hcalls
  · cases hcon
  · cases hown : c.ownFinishPayload flow with
    | none =>
      rw [hown] at hcon
      exact c.standardGate_sends policy iteration messages con hcon
    | some payload =>
      simp only [hown] at hcon ⊢
      cases htext : (policy.trySelfcheck c.printer c.maxNudges payload).1.text with
      | some text =>
        simp only [htext, Option.isSome_some, Bool.true_or, if_true] at hcon
        obtain rfl := List.mem_singleton.mp hcon
        exact fun _ => ⟨text, htext, rfl⟩
      | none =>
        cases hexhausted : (policy.trySelfcheck c.printer c.maxNudges payload).1.budgetExhausted with
        | true =>
          simp only [htext, hexhausted, Bool.or_true, if_true] at hcon
          obtain rfl := List.mem_singleton.mp hcon
          exact c.sends_of_text_none hfaithful htext _
        | false =>
          simp only [htext, hexhausted, Option.isSome_none, Bool.or_self, Bool.false_eq_true, if_false] at hcon ⊢
          cases List.mem_cons.mp hcon with
          | inl hhead =>
            subst hhead
            exact c.sends_of_text_none hfaithful htext _
          | inr hrest => exact c.standardGate_sends _ iteration messages con hrest

end Govern

theorem call_policy (b : ExitBudgets) (h : HookCall) (key : String) :
    (c.call b h).2.policy key = if h.key = key then (c.consulted b h).2 else b.policy key := by
  have hkept : b.policy key = if h.key = key then b.policy h.key else b.policy key := by
    split_ifs with hkey
    · rw [hkey]
    · rfl
  unfold call consulted gates
  cases h.hook with
  | beforeModel maxIterations => simpa [beforeModel, NudgePolicy.consultAll] using hkept
  | afterModel =>
    unfold afterModel
    by_cases hvalid : c.hasValidFinish h.flow = true
    · simpa only [hvalid, if_true, NudgePolicy.consultAll] using hkept
    · simp only [hvalid, Bool.false_eq_true, if_false, NudgePolicy.consultAll, NudgePolicy.consult,
        ExitBudgets.policy_setPolicy]
  | afterAgent maxIterations =>
    unfold afterAgent
    by_cases hvalid : c.hasValidFinish h.flow = true
    · simpa only [hvalid, if_true, NudgePolicy.consultAll] using hkept
    · by_cases hmax : maxIterations ≤ b.iteration h.key
      · simpa only [hvalid, hmax, Bool.false_eq_true, if_true, if_false, NudgePolicy.consultAll] using hkept
      · simp only [hvalid, hmax, Bool.false_eq_true, if_false, ExitBudgets.policy_setPolicy,
          c.governNoFinishExit_policy]

theorem call_sends (b : ExitBudgets) (h : HookCall) : ∀ con ∈ (c.consulted b h).1, Sends (c.call b h).1 con := by
  unfold call consulted gates
  cases h.hook with
  | beforeModel maxIterations => simp [NudgePolicy.consultAll]
  | afterModel =>
    by_cases hvalid : c.hasValidFinish h.flow = true
    · simp [hvalid, NudgePolicy.consultAll]
    · intro con hcon
      have hfaithful := NudgePolicy.consultAll_faithful _ _ _ _ con hcon
      simp only [hvalid, Bool.false_eq_true, if_false, afterModel] at hcon ⊢
      obtain rfl := List.mem_singleton.mp hcon
      cases htext : ((b.policy h.key).tryPlanning c.maxNudges (latestAiText c.printer h.messages)
          (lastHasToolCalls h.messages) (workingMemoryHasPlan h.flow)).1.text with
      | none => exact c.sends_of_text_none hfaithful htext _
      | some text => exact fun _ => ⟨text, htext, rfl⟩
  | afterAgent maxIterations =>
    unfold afterAgent
    by_cases hvalid : c.hasValidFinish h.flow = true
    · simp [hvalid, NudgePolicy.consultAll]
    · by_cases hmax : maxIterations ≤ b.iteration h.key
      · simp [hvalid, hmax, NudgePolicy.consultAll]
      · simp only [hvalid, hmax, Bool.false_eq_true, if_false]
        exact c.governNoFinishExit_sends _ _ h.flow h.messages

def run (b : ExitBudgets) : List HookCall → ExitBudgets
  | [] => b
  | h :: calls => run (c.call b h).2 calls

def consultations (key : String) (b : ExitBudgets) : List HookCall → List NudgePolicy.Consultation
  | [] => []
  | h :: calls => (if h.key = key then (c.consulted b h).1 else []) ++ consultations key (c.call b h).2 calls

theorem within_call {b : ExitBudgets} {key : String} (hwithin : (b.policy key).Within c.maxNudges) (h : HookCall) :
    ((c.call b h).2.policy key).Within c.maxNudges := by
  rw [call_policy]
  split_ifs with hkey
  · subst hkey
    exact NudgePolicy.within_consultAll _ _ hwithin _
  · exact hwithin

theorem within_run {b : ExitBudgets} {key : String} (hwithin : (b.policy key).Within c.maxNudges)
    (calls : List HookCall) : ((c.run b calls).policy key).Within c.maxNudges := by
  induction calls generalizing b with
  | nil => exact hwithin
  | cons h calls ih => exact ih (c.within_call hwithin h)

theorem counter_call (b : ExitBudgets) (key : String) (kind : NudgeKind) (h : HookCall) :
    ((c.call b h).2.policy key).counter kind = (b.policy key).counter kind +
      NudgePolicy.counted kind (if h.key = key then (c.consulted b h).1 else []) := by
  rw [call_policy]
  split_ifs with hkey
  · subst hkey
    exact NudgePolicy.counter_consultAll _ _ _ _ _
  · rfl

theorem counter_run (b : ExitBudgets) (key : String) (kind : NudgeKind) (calls : List HookCall) :
    ((c.run b calls).policy key).counter kind = (b.policy key).counter kind +
      NudgePolicy.counted kind (c.consultations key b calls) := by
  induction calls generalizing b with
  | nil => rfl
  | cons h calls ih =>
    have hcall := c.counter_call b key kind h
    rw [run, ih, hcall, consultations, NudgePolicy.counted, NudgePolicy.counted, NudgePolicy.counted,
      List.countP_append, Nat.add_assoc]

theorem consultations_faithful (b : ExitBudgets) (key : String) (calls : List HookCall) :
    ∀ con ∈ c.consultations key b calls, con.Faithful c.printer c.maxNudges := by
  induction calls generalizing b with
  | nil => exact fun con hcon => absurd hcon List.not_mem_nil
  | cons h calls ih =>
    rw [consultations, List.forall_mem_append]
    refine ⟨?_, ih _⟩
    split_ifs with hkey
    · exact NudgePolicy.consultAll_faithful _ _ _ _
    · exact fun con hcon => absurd hcon List.not_mem_nil

theorem within_initial (key : String) : ((({} : ExitBudgets).policy key)).Within c.maxNudges := by
  refine ⟨?_, rfl, Nat.zero_le _⟩
  intro kind
  cases kind <;> exact Nat.zero_le _

/-- The budgets of every invocation after any hook calls, and what the next call answers. -/
theorem nudge_budget_and_exit (calls : List HookCall) (key : String) :
    ((c.run {} calls).policy key).Within c.maxNudges ∧
      (∀ kind, ((c.run {} calls).policy key).counter kind =
        NudgePolicy.counted kind (c.consultations key {} calls)) ∧
      (∀ con ∈ c.consultations key {} calls, con.Faithful c.printer c.maxNudges) ∧
      ∀ h : HookCall,
        (∀ kind, ((c.call (c.run {} calls) h).2.policy h.key).counter kind ≠
            ((c.run {} calls).policy h.key).counter kind ↔
          ∃ con ∈ (c.consulted (c.run {} calls) h).1, con.decision.counted = true ∧ con.gate.kind = kind) ∧
        (∀ con ∈ (c.consulted (c.run {} calls) h).1, Sends (c.call (c.run {} calls) h).1 con) ∧
        ∀ maxIterations, h.hook = .afterAgent maxIterations →
          (c.hasValidFinish h.flow = true ∧ (c.call (c.run {} calls) h).1 = .exitSuccess) ∨
            (c.hasValidFinish h.flow = false ∧ Refuses (c.call (c.run {} calls) h).1) := by
  refine ⟨c.within_run (c.within_initial key) calls, ?_, c.consultations_faithful _ _ _, ?_⟩
  · intro kind
    rw [c.counter_run]
    cases kind <;> exact Nat.zero_add _
  · intro h
    refine ⟨?_, c.call_sends _ h, ?_⟩
    · intro kind
      have hcounter := c.counter_call (c.run {} calls) h.key kind h
      rw [if_pos rfl] at hcounter
      rw [hcounter, ne_eq, Nat.add_eq_left, ← ne_eq, ← Nat.pos_iff_ne_zero, NudgePolicy.counted, List.countP_pos_iff]
      simp only [Bool.and_eq_true, decide_eq_true_eq]
    · intro maxIterations hhook
      unfold call
      rw [hhook]
      exact c.afterAgent_answer _ h.key maxIterations h.flow h.messages

end ExitControl

end GraphSkillRuntime
