import GraphSkillRuntime.HandoffRecovery
import GraphSkillRuntime.TraceFile

/-!
The lifecycle events that the submissions of a run leave in its trace. A submission that passes its checks announces
its result before the graph and the table may still refuse it, and again after its commit; an event is written unless
the lines of the file already hold its id, and any write may be lost.
-/

namespace GraphSkillRuntime

open OrderedDict Runs JsonText

section Payload

variable {F : Type} (ofRat : ℚ → F)

mutual

def Value.toJson : Value → Json F
  | .null => .null
  | .bool b => .bool b
  | .num q => if q.den = 1 then .int q.num else .float (ofRat q)
  | .str s => .str s
  | .list xs => .list (toJsonElements xs)
  | .dict kvs => .dict (toJsonMembers kvs)

def toJsonElements : List Value → List (Json F)
  | [] => []
  | x :: xs => x.toJson :: toJsonElements xs

def toJsonMembers : List (String × Value) → List (String × Json F)
  | [] => []
  | (k, v) :: kvs => (k, v.toJson) :: toJsonMembers kvs

end

def optionalText : Option String → Json F
  | some s => .str s
  | none => .null

def AgentStatus.text : AgentStatus → String
  | .completed => "completed"
  | .failed => "failed"
  | .cancelled => "cancelled"

inductive HandoffEvent where
  | required (taskId graphId phaseName checkpointRef : String)
  | completed (attemptId : Option String) (taskId phaseName executorId : String) (provenance : Dict String Value)
  | failed (taskId phaseName executorId : String) (status : AgentStatus) (error : RuntimeErrorPayload)
  | rejected (submittedTaskId : String) (expectedTaskId phaseName : Option String) (checkpointRef reason : String)

def HandoffEvent.eventType : HandoffEvent → String
  | .required .. => "agent_required"
  | .completed .. => "agent_completed"
  | .failed .. => "agent_failed"
  | .rejected .. => "agent_result_rejected"

def HandoffEvent.fields (runId : String) : HandoffEvent → List (String × Json F)
  | .required taskId graphId phaseName checkpointRef =>
    [("run_id", .str runId), ("task_id", .str taskId), ("graph_id", .str graphId), ("phase_name", .str phaseName),
      ("checkpoint_ref", .str checkpointRef)]
  | .completed attemptId taskId phaseName executorId provenance =>
    [("attempt_id", optionalText attemptId), ("run_id", .str runId), ("task_id", .str taskId),
      ("phase_name", .str phaseName), ("executor_id", .str executorId),
      ("provenance", .dict (toJsonMembers ofRat provenance.entries))]
  | .failed taskId phaseName executorId status error =>
    [("run_id", .str runId), ("task_id", .str taskId), ("phase_name", .str phaseName),
      ("executor_id", .str executorId), ("status", .str status.text), ("error_code", .str error.code),
      ("error_message", .str error.message), ("attempt_id", .null), ("retryable", .bool false),
      ("task_terminal", .bool true)]
  | .rejected submittedTaskId expectedTaskId phaseName checkpointRef reason =>
    [("run_id", .str runId), ("submitted_task_id", .str submittedTaskId),
      ("expected_task_id", optionalText expectedTaskId), ("phase_name", optionalText phaseName),
      ("checkpoint_ref", .str checkpointRef), ("reason", .str reason)]

structure TraceLine where
  handoffEventId : String
  runId : String
  timestamp : String
  event : HandoffEvent

/-- The fields of `model_dump`; the adapter stamps no grouping and no path on its events. -/
def TraceLine.payload (line : TraceLine) : List (String × Json F) :=
  let stamped : List (String × Json F) :=
    [("schema_version", .str "1.0"), ("timestamp", .str line.timestamp), ("sub_run_id", .null), ("group_key", .null),
      ("subgraph_path", .null), ("phase_execution_id", .null), ("event_type", .str line.event.eventType),
      ("handoff_event_id", .str line.handoffEventId)]
  stamped ++ line.event.fields ofRat line.runId

/-- No text of the event ends a line that `splitlines` reads. -/
def TraceLine.Unbroken (line : TraceLine) : Prop := NoRawBreak (Json.dict (line.payload ofRat))

instance (line : TraceLine) : Decidable (line.Unbroken ofRat) :=
  inferInstanceAs (Decidable (∀ c ∈ (Json.dict (line.payload ofRat)).chars, isRawBreak c = false))

def TraceLine.verdictOn (line : TraceLine) : Option String :=
  match line.event with
  | .completed _ taskId _ _ _ => some taskId
  | .failed taskId _ _ _ _ => some taskId
  | .required .. => none
  | .rejected .. => none

/-- `append_run_event_once`: the file is read back line by line, and an event whose id is found is not written. -/
def appendLineOnce (P : FloatFormat F) (written : String → Bool) (trace : List TraceLine) (line : TraceLine) :
    List TraceLine :=
  let text := writeLines P (trace.map fun l => .dict (l.payload ofRat))
  if (readLines P text).any (carriesEventId line.handoffEventId) then trace
  else if written line.handoffEventId then trace ++ [line]
  else trace

end Payload

def resultEventId (taskId resultHash : String) : String := "agent-result:" ++ taskId ++ ":" ++ resultHash

namespace HostRuntime

variable (rt : HostRuntime) (attemptId : Option String) (clock : String → String)

def traceLine (handoffEventId : String) (event : HandoffEvent) : TraceLine where
  handoffEventId := handoffEventId
  runId := rt.request.runId
  timestamp := clock handoffEventId
  event := event

def agentRequired (record : AgentHandoffRecord) : TraceLine :=
  rt.traceLine clock ("agent-required:" ++ record.task.taskId)
    (.required record.task.taskId record.task.address.graphId record.task.address.phaseId record.checkpointRef)

def agentTerminal (record : AgentHandoffRecord) (result : AgentResult) (resultHash : String) : TraceLine :=
  rt.traceLine clock (resultEventId record.task.taskId resultHash)
    (if h : result.status = .completed then
      .completed attemptId result.taskId record.task.address.phaseId result.executorId result.provenance
    else
      .failed result.taskId record.task.address.phaseId result.executorId result.status
        (result.error.get (result.terminal_error h)))

def agentRejected (record : Option AgentHandoffRecord) (checkpointRef : String) (result : AgentResult)
    (resultHash reason : String) : TraceLine :=
  rt.traceLine clock ("agent-rejected:" ++ checkpointRef ++ ":" ++ resultHash)
    (.rejected result.taskId (record.map (·.task.taskId)) (record.map (·.task.address.phaseId)) checkpointRef reason)

def requiredLines (rows : List AgentHandoffRecord) (response : RunResult) : List TraceLine :=
  match response.status with
  | .agentRequired _ checkpointRef => ((load rows checkpointRef).map (rt.agentRequired clock)).toList
  | _ => []

def terminalLines (rows : List AgentHandoffRecord) (checkpointRef : String) (result : AgentResult) : List TraceLine :=
  ((load rows checkpointRef).map fun record =>
    rt.agentTerminal attemptId clock record result (rt.resultHash result)).toList

def rejectedLine (rows : List AgentHandoffRecord) (checkpointRef : String) (result : AgentResult)
    (reason : String) : TraceLine :=
  rt.agentRejected clock (load rows checkpointRef) checkpointRef result (rt.resultHash result) reason

def beginLines (rows : List AgentHandoffRecord) (checkpointRef : String) (result : AgentResult) : List TraceLine :=
  match rt.submitEntry rows checkpointRef result with
  | .error reason => [rt.rejectedLine clock rows checkpointRef result reason]
  | .ok (.cached response) =>
    rt.terminalLines attemptId clock rows checkpointRef result ++ rt.requiredLines clock rows response
  | .ok .opened => rt.terminalLines attemptId clock rows checkpointRef result

def completionLines (s : System) (sub : Submission) (record : AgentHandoffRecord) (output : Dict String Value)
    (newId : String) (next : List String) : List TraceLine :=
  match applyExternalPhaseCompletion s.graph rt.request.runId record.checkpointId record.checkpointNs
      { taskId := sub.result.taskId
        phaseId := record.task.address.phaseId
        resultHash := rt.resultHash sub.result
        output := output } newId next with
  | .error reason => [rt.rejectedLine clock s.rows sub.checkpointRef sub.result reason]
  | .ok _ => []

def commitLines (s : System) (sub : Submission) (latest : Checkpoint) : Conclusion → List TraceLine
  | .raised _ => rt.terminalLines attemptId clock s.rows sub.checkpointRef sub.result
  | .stopped deadline =>
    if latest.next = [] then rt.terminalLines attemptId clock s.rows sub.checkpointRef sub.result
    else
      match rt.buildAgentHandoff .resume deadline latest with
      | .error reason => [rt.rejectedLine clock s.rows sub.checkpointRef sub.result reason]
      | .ok record =>
        match insertRequired s.rows record with
        | .error reason => [rt.rejectedLine clock s.rows sub.checkpointRef sub.result reason]
        | .ok _ => rt.terminalLines attemptId clock s.rows sub.checkpointRef sub.result ++
            [rt.agentRequired clock record]

def linesOf (s : System) : Action → List TraceLine
  | .submitBegin checkpointRef result => rt.beginLines attemptId clock s.rows checkpointRef result
  | .engineFails _ =>
    match s.submission with
    | some sub => rt.terminalLines attemptId clock s.rows sub.checkpointRef sub.result
    | none => []
  | .applyCompletion newId next =>
    match s.submission with
    | some sub =>
      match load s.rows sub.checkpointRef, sub.result.completedOutput with
      | some record, some output => rt.completionLines clock s sub record output newId next
      | _, _ => []
    | none => []
  | .submitCommit conclusion =>
    match s.submission, s.graph with
    | some ⟨checkpointRef, result, .applied⟩, some latest =>
      rt.commitLines attemptId clock s ⟨checkpointRef, result, .applied⟩ latest conclusion
    | some ⟨checkpointRef, result, .opened⟩, _ => rt.terminalLines attemptId clock s.rows checkpointRef result
    | _, _ => []
  | _ => []

def admits (s : System) : Action → List (String × String)
  | .submitBegin checkpointRef result =>
    match rt.submitEntry s.rows checkpointRef result with
    | .error _ => []
    | .ok _ => [(result.taskId, rt.resultHash result)]
  | _ => []

end HostRuntime

/-- The durable stores and the trace, with the admitted submissions so far. -/
structure Traced where
  system : System
  trace : List TraceLine
  admitted : List (String × String)

structure Move where
  action : Action
  attemptId : Option String
  clock : String → String
  written : String → Bool

def HostRuntime.tracedStep {F : Type} (P : FloatFormat F) (ofRat : ℚ → F) (rt : HostRuntime) (t : Traced) (m : Move) :
    Option Traced :=
  (rt.step t.system m.action).map fun s =>
    { system := s
      trace := (rt.linesOf m.attemptId m.clock t.system m.action).foldl (appendLineOnce ofRat P m.written) t.trace
      admitted := t.admitted ++ rt.admits t.system m.action }

def SubmitMove (_ : Traced) (m : Move) : Prop := ∃ ref, SubmitsOnly ref m.action

section Unbroken

variable {F : Type} (ofRat : ℚ → F)

def unbrokenIds (trace : List TraceLine) : List String :=
  (trace.filter fun line => line.Unbroken ofRat).map TraceLine.handoffEventId

structure Unsubmitted (t : Traced) : Prop where
  ids : (unbrokenIds ofRat t.trace).Nodup
  verdicts : ∀ line ∈ t.trace, line.verdictOn = none
  unique_ref : (t.system.rows.map AgentHandoffRecord.checkpointRef).Nodup
  unique_task : (t.system.rows.map (·.task.taskId)).Nodup
  responses : ∀ row ∈ t.system.rows, row.response = none
  submission : t.system.submission = none
  admitted : t.admitted = []

end Unbroken

/-- The row of the task has the response to the result with that hash. -/
def Committed (s : System) (taskId resultHash : String) : Prop :=
  ∃ row ∈ s.rows, row.task.taskId = taskId ∧ row.response.isSome ∧ row.resultHash = some resultHash

section Steps

variable {rt : HostRuntime} {ref : String} {s t : System} {a : Action}

theorem step_rows_eq (ha : SubmitsOnly ref a) (hcommit : ¬ CommitsUnapplied a) (h : rt.step s a = some t) :
    t.rows = s.rows := by
  cases a with
  | submitBegin ref' result =>
    simp only [HostRuntime.step] at h
    split_ifs at h
    obtain rfl := Option.some.inj h
    unfold HostRuntime.submitBegin
    split <;> rfl
  | applyCompletion newId next =>
    simp only [HostRuntime.step] at h
    split at h
    · split at h
      · split_ifs at h
        obtain rfl := Option.some.inj h
        unfold HostRuntime.applyCompletion
        simp only
        split <;> rfl
      · simp at h
    · simp at h
  | superstep move =>
    simp only [HostRuntime.step] at h
    split at h
    · split_ifs at h
      obtain rfl := Option.some.inj h
      rfl
    · simp at h
  | submitAbort =>
    simp only [HostRuntime.step] at h
    obtain rfl := Option.some.inj h
    rfl
  | engineFails error => exact absurd trivial hcommit
  | submitCommit conclusion => exact absurd trivial hcommit
  | _ => exact absurd ha id

def CommitsRow (rt : HostRuntime) (s : System) (sub : Submission) (t : System) : Prop :=
  ∃ rows response, t = s.commit rows sub.checkpointRef (rt.resultHash sub.result) response ∧
    (rows = s.rows ∨ ∃ record, record.response = none ∧ insertRequired s.rows record = .ok rows)

theorem submitCommit_commits {sub : Submission} (latest : Checkpoint) (conclusion : Conclusion) :
    (rt.submitCommit s sub latest conclusion).rows = s.rows ∨
      CommitsRow rt s sub (rt.submitCommit s sub latest conclusion) := by
  cases conclusion with
  | raised error => exact Or.inr ⟨s.rows, _, rfl, Or.inl rfl⟩
  | stopped deadline =>
    unfold HostRuntime.submitCommit
    simp only
    split_ifs
    · exact Or.inr ⟨s.rows, _, rfl, Or.inl rfl⟩
    · split
      · exact Or.inl rfl
      · rename_i record hbuild
        split
        · exact Or.inl rfl
        · rename_i rows hins
          exact Or.inr ⟨rows, _, rfl, Or.inr ⟨record, (buildAgentHandoff_ok hbuild).2.1, hins⟩⟩

theorem step_commits (hcommit : CommitsUnapplied a) (h : rt.step s a = some t) :
    ∃ sub, s.submission = some sub ∧ (t.rows = s.rows ∨ CommitsRow rt s sub t) := by
  cases a with
  | engineFails error =>
    simp only [HostRuntime.step] at h
    split at h
    · rename_i ref' result hsub
      split at h
      · rename_i record output hload hout
        obtain rfl := Option.some.inj h
        refine ⟨_, hsub, Or.inr ⟨s.rows, rt.resumeResult (.failed error) ∅, ?_, Or.inl rfl⟩⟩
        rw [HostRuntime.commitUnapplied, (load_some hload).2]
      · simp at h
    · simp at h
  | submitCommit conclusion =>
    simp only [HostRuntime.step] at h
    split at h
    · rename_i ref' result latest hsub hgraph
      obtain rfl := Option.some.inj h
      exact ⟨_, hsub, submitCommit_commits latest conclusion⟩
    · rename_i ref' result hsub
      split at h
      · rename_i record error hload hout herr
        obtain rfl := Option.some.inj h
        refine ⟨_, hsub, Or.inr ⟨s.rows, rt.resumeResult (.failed error) record.requiredResponse.outputs, ?_,
          Or.inl rfl⟩⟩
        rw [HostRuntime.commitUnapplied, (load_some hload).2]
      · simp at h
    · simp at h
  | _ => exact absurd hcommit id

theorem submitEntry_ok {result : AgentResult} {rows : List AgentHandoffRecord} {entry : Entry}
    (h : rt.submitEntry rows ref result = .ok entry) :
    ∃ record, load rows ref = some record ∧ result.taskId = record.task.taskId ∧
      (record.response.isSome → record.resultHash = some (rt.resultHash result)) := by
  unfold HostRuntime.submitEntry at h
  cases hl : load rows ref with
  | none => simp [hl] at h
  | some record =>
    rw [hl] at h
    obtain ⟨_, -, h⟩ := bind_ok h
    obtain ⟨_, hv, h⟩ := bind_ok h
    refine ⟨record, rfl, validateAgentResult_task hv, ?_⟩
    intro hsome
    cases hr : record.response with
    | none => simp [hr] at hsome
    | some response =>
      rw [hr] at h
      simp only at h
      split_ifs at h with hne
      exact not_not.mp hne

end Steps

section Lines

variable {rt : HostRuntime} {attemptId : Option String} {clock : String → String} {s : System} {line : TraceLine}
  {task : String}

theorem verdictOn_agentTerminal (record : AgentHandoffRecord) (result : AgentResult) (resultHash : String) :
    (rt.agentTerminal attemptId clock record result resultHash).verdictOn = some result.taskId := by
  by_cases h : result.status = .completed
  · simp [HostRuntime.agentTerminal, HostRuntime.traceLine, TraceLine.verdictOn, h]
  · simp [HostRuntime.agentTerminal, HostRuntime.traceLine, TraceLine.verdictOn, h]

theorem verdictOn_requiredLines {rows : List AgentHandoffRecord} {response : RunResult}
    (hmem : line ∈ rt.requiredLines clock rows response) : line.verdictOn = none := by
  unfold HostRuntime.requiredLines at hmem
  split at hmem
  · simp only [Option.mem_toList, Option.map_eq_some_iff] at hmem
    obtain ⟨record, -, rfl⟩ := hmem
    rfl
  · simp at hmem

def Announces (rt : HostRuntime) (rows : List AgentHandoffRecord) (ref : String) (result : AgentResult)
    (line : TraceLine) (task : String) : Prop :=
  ∃ record, load rows ref = some record ∧
    line.handoffEventId = resultEventId record.task.taskId (rt.resultHash result) ∧
    task = result.taskId

theorem announces_of_terminalLines {rows : List AgentHandoffRecord} {ref : String} {result : AgentResult}
    (hmem : line ∈ rt.terminalLines attemptId clock rows ref result) (hv : line.verdictOn = some task) :
    Announces rt rows ref result line task := by
  simp only [HostRuntime.terminalLines, Option.mem_toList, Option.map_eq_some_iff] at hmem
  obtain ⟨record, hload, rfl⟩ := hmem
  rw [verdictOn_agentTerminal] at hv
  exact ⟨record, hload, rfl, (Option.some.inj hv).symm⟩

theorem beginLines_verdict {rows : List AgentHandoffRecord} {ref : String} {result : AgentResult}
    (hmem : line ∈ rt.beginLines attemptId clock rows ref result) (hv : line.verdictOn = some task) :
    (∃ entry, rt.submitEntry rows ref result = .ok entry) ∧ Announces rt rows ref result line task := by
  unfold HostRuntime.beginLines at hmem
  split at hmem
  · rw [List.mem_singleton] at hmem
    subst hmem
    cases hv
  · rename_i response hentry
    rcases List.mem_append.mp hmem with hmem | hmem
    · exact ⟨⟨_, hentry⟩, announces_of_terminalLines hmem hv⟩
    · rw [verdictOn_requiredLines hmem] at hv
      cases hv
  · rename_i hentry
    exact ⟨⟨_, hentry⟩, announces_of_terminalLines hmem hv⟩

theorem commitLines_verdict {sub : Submission} {latest : Checkpoint} {conclusion : Conclusion}
    (hmem : line ∈ rt.commitLines attemptId clock s sub latest conclusion) (hv : line.verdictOn = some task) :
    Announces rt s.rows sub.checkpointRef sub.result line task := by
  cases conclusion with
  | raised error => exact announces_of_terminalLines hmem hv
  | stopped deadline =>
    unfold HostRuntime.commitLines at hmem
    simp only at hmem
    split_ifs at hmem
    · exact announces_of_terminalLines hmem hv
    · split at hmem
      · rw [List.mem_singleton] at hmem
        subst hmem
        cases hv
      · split at hmem
        · rw [List.mem_singleton] at hmem
          subst hmem
          cases hv
        · rcases List.mem_append.mp hmem with hmem | hmem
          · exact announces_of_terminalLines hmem hv
          · rw [List.mem_singleton] at hmem
            subst hmem
            cases hv

theorem linesOf_verdict {a : Action} (hmem : line ∈ rt.linesOf attemptId clock s a) (hv : line.verdictOn = some task) :
    (∃ ref result entry, a = .submitBegin ref result ∧ rt.submitEntry s.rows ref result = .ok entry ∧
      Announces rt s.rows ref result line task) ∨
    ∃ sub, s.submission = some sub ∧ Announces rt s.rows sub.checkpointRef sub.result line task := by
  cases a with
  | submitBegin ref result =>
    obtain ⟨⟨entry, hentry⟩, hann⟩ := beginLines_verdict hmem hv
    exact Or.inl ⟨ref, result, entry, rfl, hentry, hann⟩
  | engineFails error =>
    simp only [HostRuntime.linesOf] at hmem
    split at hmem
    · rename_i sub hsub
      exact Or.inr ⟨sub, hsub, announces_of_terminalLines hmem hv⟩
    · simp at hmem
  | applyCompletion newId next =>
    simp only [HostRuntime.linesOf] at hmem
    split at hmem
    · split at hmem
      · unfold HostRuntime.completionLines at hmem
        split at hmem
        · rw [List.mem_singleton] at hmem
          subst hmem
          cases hv
        · simp at hmem
      · simp at hmem
    · simp at hmem
  | submitCommit conclusion =>
    simp only [HostRuntime.linesOf] at hmem
    split at hmem
    · rename_i ref result latest hsub hgraph
      exact Or.inr ⟨_, hsub, commitLines_verdict hmem hv⟩
    · rename_i ref result hsub
      exact Or.inr ⟨_, hsub, announces_of_terminalLines hmem hv⟩
    · simp at hmem
  | _ => simp [HostRuntime.linesOf] at hmem

end Lines

section Appending

variable {F : Type} {ofRat : ℚ → F} {P : FloatFormat F} {written : String → Bool} {trace : List TraceLine}
  {line other : TraceLine}

theorem map_fst_rereadMembers (kvs : List (String × Json F)) : (rereadMembers kvs).map Prod.fst = kvs.map Prod.fst := by
  induction kvs with
  | nil => rfl
  | cons e kvs ih => rw [rereadMembers, List.map_cons, List.map_cons, ih]

theorem payload_keys (line : TraceLine) : ((line.payload ofRat).map Prod.fst).Nodup := by
  cases h : line.event <;> simp [TraceLine.payload, HandoffEvent.fields, h]

theorem find_rereadMembers (kvs : List (String × Json F)) (k : String) :
    Dict.find (rereadMembers kvs) k = (Dict.find kvs k).map Json.reread := by
  induction kvs with
  | nil => rfl
  | cons e kvs ih =>
    rw [rereadMembers, Dict.find, Dict.find, ih]
    split_ifs <;> rfl

theorem carriesEventId_payload (line : TraceLine) (eventId : String) :
    carriesEventId eventId (Json.reread (.dict (line.payload ofRat))) = decide (line.handoffEventId = eventId) := by
  have hkeys : ((rereadMembers (line.payload ofRat)).map Prod.fst).Nodup := by
    rw [map_fst_rereadMembers]
    exact payload_keys line
  have hfind : Dict.find (line.payload ofRat) "handoff_event_id" = some (.str line.handoffEventId) := by
    simp [TraceLine.payload, Dict.find]
  have htext : textAt (rereadMembers (line.payload ofRat)) "handoff_event_id" = some line.handoffEventId := by
    rw [textAt, find_rereadMembers, hfind]
    rfl
  rw [Json.reread, Dict.entries_ofList hkeys, carriesEventId, htext]
  exact decide_eq_decide.mpr Option.some_inj

theorem found_of_unbroken (hmem : other ∈ trace) (h : other.Unbroken ofRat) :
    (readLines P (writeLines P (trace.map fun l => .dict (l.payload ofRat)))).any
      (carriesEventId other.handoffEventId) = true := by
  rw [List.any_eq_true]
  refine ⟨_, reread_mem_readLines P (List.mem_map_of_mem hmem) h, ?_⟩
  rw [carriesEventId_payload]
  exact decide_eq_true rfl

theorem found_iff (h : ∀ l ∈ trace, l.Unbroken ofRat) (eventId : String) :
    (readLines P (writeLines P (trace.map fun l => .dict (l.payload ofRat)))).any (carriesEventId eventId) = true ↔
      eventId ∈ trace.map TraceLine.handoffEventId := by
  have hunbroken : ∀ v ∈ trace.map (fun l => Json.dict (l.payload ofRat)), ∀ c ∈ v.chars, isRawBreak c = false := by
    intro v hv
    obtain ⟨l, hl, rfl⟩ := List.mem_map.mp hv
    exact h l hl
  rw [readLines_writeLines P hunbroken, List.map_map, List.any_map, List.any_eq_true, List.mem_map]
  refine exists_congr fun l => and_congr_right fun _ => ?_
  rw [Function.comp_apply, Function.comp_apply, carriesEventId_payload, decide_eq_true_eq]

theorem appendLineOnce_eq (h : ∀ l ∈ trace, l.Unbroken ofRat) (hwritten : written line.handoffEventId = true) :
    appendLineOnce ofRat P written trace line =
      if line.handoffEventId ∈ trace.map TraceLine.handoffEventId then trace else trace ++ [line] := by
  unfold appendLineOnce
  dsimp only
  by_cases hfound : line.handoffEventId ∈ trace.map TraceLine.handoffEventId
  · rw [if_pos ((found_iff h _).mpr hfound), if_pos hfound]
  · rw [if_neg fun hany => hfound ((found_iff h _).mp hany), if_pos hwritten, if_neg hfound]

theorem mem_appendLineOnce (h : other ∈ appendLineOnce ofRat P written trace line) : other ∈ trace ∨ other = line := by
  unfold appendLineOnce at h
  dsimp only at h
  split_ifs at h
  · exact Or.inl h
  · simpa using h
  · exact Or.inl h

theorem nodup_appendLineOnce (h : (unbrokenIds ofRat trace).Nodup) :
    (unbrokenIds ofRat (appendLineOnce ofRat P written trace line)).Nodup := by
  unfold appendLineOnce
  dsimp only
  split_ifs with hold hwritten
  · exact h
  · rw [unbrokenIds, List.filter_append, List.map_append, List.nodup_append]
    refine ⟨h, ?_, ?_⟩
    · by_cases hline : line.Unbroken ofRat <;> simp [hline]
    · rintro id hid _ hlast rfl
      obtain ⟨l, hl, rfl⟩ := List.mem_map.mp hid
      obtain ⟨new, hnew, hsame⟩ := List.mem_map.mp hlast
      rw [List.mem_filter, decide_eq_true_eq] at hl hnew
      obtain rfl := List.mem_singleton.mp hnew.1
      apply hold
      rw [hsame]
      exact found_of_unbroken hl.1 hl.2
  · exact h

theorem mem_appended {lines : List TraceLine} (h : other ∈ lines.foldl (appendLineOnce ofRat P written) trace) :
    other ∈ trace ∨ other ∈ lines := by
  induction lines generalizing trace with
  | nil => exact Or.inl h
  | cons l lines ih =>
    rcases ih h with h | h
    · rcases mem_appendLineOnce h with h | rfl
      · exact Or.inl h
      · exact Or.inr (List.mem_cons_self ..)
    · exact Or.inr (List.mem_cons_of_mem l h)

theorem nodup_appended (lines : List TraceLine) (h : (unbrokenIds ofRat trace).Nodup) :
    (unbrokenIds ofRat (lines.foldl (appendLineOnce ofRat P written) trace)).Nodup :=
  foldl_invariant (I := fun (trace : List TraceLine) => (unbrokenIds ofRat trace).Nodup)
    (fun _ _ _ => nodup_appendLineOnce) h

def verdicts (trace : List TraceLine) (task : String) : List TraceLine :=
  trace.filter fun line => line.verdictOn = some task

theorem verdicts_appendLineOnce {task : String} (h : line.verdictOn = none) :
    verdicts (appendLineOnce ofRat P written trace line) task = verdicts trace task := by
  unfold appendLineOnce
  dsimp only
  split_ifs
  · rfl
  · simp [verdicts, h]
  · rfl

end Appending

section Trace

variable {F : Type} {ofRat : ℚ → F} {P : FloatFormat F}

structure Witnessed (ofRat : ℚ → F) (rt : HostRuntime) (t : Traced) : Prop where
  ids : (unbrokenIds ofRat t.trace).Nodup
  terminal : ∀ line ∈ t.trace, ∀ task, line.verdictOn = some task →
    ∃ hash, (task, hash) ∈ t.admitted ∧ line.handoffEventId = resultEventId task hash
  unique_ref : (t.system.rows.map AgentHandoffRecord.checkpointRef).Nodup
  unique_task : (t.system.rows.map (·.task.taskId)).Nodup
  committed : ∀ row ∈ t.system.rows, row.response.isSome →
    ∃ hash, row.resultHash = some hash ∧ (row.task.taskId, hash) ∈ t.admitted
  submission : ∀ sub, t.system.submission = some sub → (sub.result.taskId, rt.resultHash sub.result) ∈ t.admitted ∧
    ∃ row, load t.system.rows sub.checkpointRef = some row ∧ row.task.taskId = sub.result.taskId ∧ row.response = none

theorem Unsubmitted.witnessed {rt : HostRuntime} {t : Traced} (h : Unsubmitted ofRat t) : Witnessed ofRat rt t where
  ids := h.ids
  terminal := by
    intro line hmem task hv
    rw [h.verdicts line hmem] at hv
    cases hv
  unique_ref := h.unique_ref
  unique_task := h.unique_task
  committed := by
    intro row hmem hsome
    rw [h.responses row hmem] at hsome
    cases hsome
  submission := by
    intro sub hsub
    rw [h.submission] at hsub
    cases hsub

section Table

variable {rows rows' : List AgentHandoffRecord}

theorem map_taskId_setResponse (rows : List AgentHandoffRecord) (ref hash : String) (response : RunResult) :
    (setResponse rows ref hash response).map (·.task.taskId) = rows.map (·.task.taskId) := by
  rw [setResponse, List.map_map]
  apply List.map_congr_left
  intro row _
  simp only [Function.comp_apply]
  split_ifs <;> rfl

theorem unique_task_of_inserted (h : rows' = rows ∨ ∃ record, record.response = none ∧
      insertRequired rows record = .ok rows') (hn : (rows.map (·.task.taskId)).Nodup) :
    (rows'.map (·.task.taskId)).Nodup := by
  rcases h with rfl | ⟨record, -, hins⟩
  · exact hn
  · rcases insertRequired_ok hins with rfl | ⟨rfl, hnew⟩
    · exact hn
    · rw [List.map_append, List.nodup_append]
      refine ⟨hn, by simp, ?_⟩
      rintro id hid _ hlast rfl
      rw [List.map_singleton, List.mem_singleton] at hlast
      obtain ⟨row, hrow, hid⟩ := List.mem_map.mp hid
      exact (hnew row hrow).2 (hid.trans hlast)

theorem eq_of_taskId (hn : (rows.map (·.task.taskId)).Nodup) {row row' : AgentHandoffRecord} (h : row ∈ rows)
    (h' : row' ∈ rows) (heq : row.task.taskId = row'.task.taskId) : row = row' :=
  List.inj_on_of_nodup_map hn h h' heq

theorem mem_commit {ref hash : String} {response : RunResult} {active row : AgentHandoffRecord}
    (hn : (rows.map AgentHandoffRecord.checkpointRef).Nodup) (hload : load rows ref = some active)
    (hrows : rows' = rows ∨ ∃ record, record.response = none ∧ insertRequired rows record = .ok rows')
    (hmem : row ∈ setResponse rows' ref hash response) :
    row ∈ rows ∨ row.response = none ∨ (row.task = active.task ∧ row.resultHash = some hash) := by
  rw [setResponse, List.mem_map] at hmem
  obtain ⟨old, hold, heq⟩ := hmem
  obtain ⟨hactive, href⟩ := load_some hload
  have horigin : old ∈ rows ∨ (old.response = none ∧ old.checkpointRef ≠ ref) := by
    rcases hrows with rfl | ⟨record, hnone, hins⟩
    · exact Or.inl hold
    · rcases insertRequired_ok hins with rfl | ⟨rfl, hnew⟩
      · exact Or.inl hold
      · rcases List.mem_append.mp hold with hold | hold
        · exact Or.inl hold
        · rw [List.mem_singleton] at hold
          subst hold
          refine Or.inr ⟨hnone, fun h => (hnew active hactive).1 (href.trans h.symm)⟩
  split_ifs at heq with hold_ref
  · right
    right
    have hin : old ∈ rows := horigin.resolve_right (fun h => h.2 hold_ref)
    have hsame : old = active := List.inj_on_of_nodup_map hn hin hactive (hold_ref.trans href.symm)
    rw [← heq, ← hsame]
    exact ⟨rfl, rfl⟩
  · rw [← heq]
    rcases horigin with hin | ⟨hnone, -⟩
    · exact Or.inl hin
    · exact Or.inr (Or.inl hnone)

theorem mem_setResponse_of_ne {ref hash : String} {response : RunResult} {row : AgentHandoffRecord}
    (hrows : rows' = rows ∨ ∃ record, record.response = none ∧ insertRequired rows record = .ok rows')
    (hmem : row ∈ rows) (hne : row.checkpointRef ≠ ref) : row ∈ setResponse rows' ref hash response := by
  have hin : row ∈ rows' := by
    rcases hrows with rfl | ⟨record, -, hins⟩
    · exact hmem
    · rcases insertRequired_ok hins with rfl | ⟨rfl, -⟩
      · exact hmem
      · exact List.mem_append_left _ hmem
  rw [setResponse, List.mem_map]
  exact ⟨row, hin, if_neg hne⟩

end Table

section Verdicts

variable {rt : HostRuntime} {t u : Traced} {m : Move}

theorem tracedStep_some (h : rt.tracedStep P ofRat t m = some u) :
    rt.step t.system m.action = some u.system ∧
      u.trace = (rt.linesOf m.attemptId m.clock t.system m.action).foldl (appendLineOnce ofRat P m.written) t.trace ∧
      u.admitted = t.admitted ++ rt.admits t.system m.action := by
  rw [HostRuntime.tracedStep, Option.map_eq_some_iff] at h
  obtain ⟨s, hs, rfl⟩ := h
  exact ⟨hs, rfl, rfl⟩

theorem admits_of_entry {s : System} {ref : String} {result : AgentResult} {entry : Entry}
    (h : rt.submitEntry s.rows ref result = .ok entry) :
    (result.taskId, rt.resultHash result) ∈ rt.admits s (.submitBegin ref result) := by
  simp [HostRuntime.admits, h]

theorem entry_of_opened {s s' : System} {ref : String} {result : AgentResult} {sub : Submission}
    (h : rt.step s (.submitBegin ref result) = some s') (hidle : s.submission = none)
    (hsub : s'.submission = some sub) : ∃ entry, rt.submitEntry s.rows ref result = .ok entry := by
  simp only [HostRuntime.step, hidle] at h
  obtain rfl := Option.some.inj h
  cases hentry : rt.submitEntry s.rows ref result with
  | ok entry => exact ⟨entry, rfl⟩
  | error reason =>
    rw [HostRuntime.submitBegin, hentry] at hsub
    simp [System.logged, hidle] at hsub

theorem Witnessed.terminal_step (hw : Witnessed ofRat rt t) (h : rt.tracedStep P ofRat t m = some u) :
    ∀ line ∈ u.trace, ∀ task, line.verdictOn = some task →
      ∃ hash, (task, hash) ∈ u.admitted ∧ line.handoffEventId = resultEventId task hash := by
  obtain ⟨-, htrace, hadmitted⟩ := tracedStep_some h
  intro line hmem task hv
  rw [htrace] at hmem
  rw [hadmitted]
  rcases mem_appended hmem with hmem | hmem
  · obtain ⟨hash, hin, hid⟩ := hw.terminal line hmem task hv
    exact ⟨hash, List.mem_append_left _ hin, hid⟩
  · rcases linesOf_verdict hmem hv with ⟨ref, result, entry, ha, hentry, record, hload, hid, rfl⟩ |
      ⟨sub, hsub, record, hload, hid, rfl⟩
    · obtain ⟨record', hload', htask, -⟩ := submitEntry_ok hentry
      obtain rfl := Option.some.inj (hload.symm.trans hload')
      rw [ha]
      exact ⟨rt.resultHash result, List.mem_append_right _ (admits_of_entry hentry), by rw [hid, htask]⟩
    · obtain ⟨hin, row, hrow, htask, -⟩ := hw.submission sub hsub
      obtain rfl := Option.some.inj (hload.symm.trans hrow)
      exact ⟨rt.resultHash sub.result, List.mem_append_left _ hin, by rw [hid, htask]⟩

theorem Witnessed.submission_step (hw : Witnessed ofRat rt t) (hm : SubmitMove t m)
    (h : rt.tracedStep P ofRat t m = some u) :
    ∀ sub, u.system.submission = some sub → (sub.result.taskId, rt.resultHash sub.result) ∈ u.admitted ∧
      ∃ row, load u.system.rows sub.checkpointRef = some row ∧ row.task.taskId = sub.result.taskId ∧
        row.response = none := by
  obtain ⟨hs, -, hadmitted⟩ := tracedStep_some h
  obtain ⟨ref, hsubmits⟩ := hm
  have heff := submit_step_effect hsubmits hs
  intro sub hsub
  rw [hadmitted]
  generalize u.system = s' at hs heff hsub ⊢
  cases heff with
  | aborted => cases hsub
  | refused ref hash => cases hsub
  | cached ha hload hresponse hhash =>
    obtain ⟨hin, hrow⟩ := hw.submission sub hsub
    exact ⟨List.mem_append_left _ hin, hrow⟩
  | opened ha hidle hload hresponse htask =>
    obtain rfl := Option.some.inj hsub
    obtain ⟨entry, hentry⟩ := entry_of_opened (ha ▸ hs) hidle rfl
    rw [ha]
    exact ⟨List.mem_append_right _ (admits_of_entry hentry), _, hload, htask.symm, hresponse⟩
  | already hold hmark =>
    obtain rfl := Option.some.inj hsub
    obtain ⟨hin, hrow⟩ := hw.submission _ hold
    exact ⟨List.mem_append_left _ hin, hrow⟩
  | updated hold hnone hmarks =>
    obtain rfl := Option.some.inj hsub
    obtain ⟨hin, hrow⟩ := hw.submission _ hold
    exact ⟨List.mem_append_left _ hin, hrow⟩
  | advanced hold hstage hmarks =>
    obtain ⟨hin, hrow⟩ := hw.submission sub hsub
    exact ⟨List.mem_append_left _ hin, hrow⟩
  | committed hold hrows hstage => cases hsub

theorem step_table {s s' : System} {a : Action} {ref : String} (ha : SubmitsOnly ref a)
    (h : rt.step s a = some s') : s'.rows = s.rows ∨ ∃ sub, s.submission = some sub ∧ CommitsRow rt s sub s' := by
  by_cases hcommit : CommitsUnapplied a
  · obtain ⟨sub, hsub, hrows | hrow⟩ := step_commits hcommit h
    · exact Or.inl hrows
    · exact Or.inr ⟨sub, hsub, hrow⟩
  · exact Or.inl (step_rows_eq ha hcommit h)

theorem Witnessed.step (hw : Witnessed ofRat rt t) (hm : SubmitMove t m) (h : rt.tracedStep P ofRat t m = some u) :
    Witnessed ofRat rt u := by
  obtain ⟨hs, htrace, hadmitted⟩ := tracedStep_some h
  have hids : (unbrokenIds ofRat u.trace).Nodup := by
    rw [htrace]
    exact nodup_appended _ hw.ids
  have hterminal := hw.terminal_step h
  have hsubmission := hw.submission_step hm h
  obtain ⟨ref, hsubmits⟩ := hm
  rcases step_table hsubmits hs with hrows | ⟨sub, hsub, rows, response, hsys, hins⟩
  · refine ⟨hids, hterminal, by rw [hrows]; exact hw.unique_ref, by rw [hrows]; exact hw.unique_task, ?_, hsubmission⟩
    intro row hmem hsome
    rw [hrows] at hmem
    obtain ⟨hash, hhash, hin⟩ := hw.committed row hmem hsome
    rw [hadmitted]
    exact ⟨hash, hhash, List.mem_append_left _ hin⟩
  · obtain ⟨hin, active, hload, htask, hnone⟩ := hw.submission sub hsub
    have hrows : u.system.rows = setResponse rows sub.checkpointRef (rt.resultHash sub.result)
        response := by rw [hsys]; rfl
    refine ⟨hids, hterminal, ?_, ?_, ?_, hsubmission⟩
    · rw [hrows, map_checkpointRef_setResponse]
      exact unique_ref_of_inserted (hins.imp_right fun ⟨record, _, hrec⟩ => ⟨record, hrec⟩) hw.unique_ref
    · rw [hrows, map_taskId_setResponse]
      exact unique_task_of_inserted hins hw.unique_task
    · intro row hmem hsome
      rw [hrows] at hmem
      rw [hadmitted]
      rcases mem_commit hw.unique_ref hload hins hmem with hold | hnew | ⟨hrow, hhash⟩
      · obtain ⟨hash, hhash, hold⟩ := hw.committed row hold hsome
        exact ⟨hash, hhash, List.mem_append_left _ hold⟩
      · rw [hnew] at hsome
        cases hsome
      · refine ⟨rt.resultHash sub.result, hhash, List.mem_append_left _ ?_⟩
        rw [hrow, htask]
        exact hin

theorem Committed.step (hw : Witnessed ofRat rt t) (hm : SubmitMove t m) (h : rt.tracedStep P ofRat t m = some u)
    {task hash : String} (hc : Committed t.system task hash) : Committed u.system task hash := by
  obtain ⟨hs, -, -⟩ := tracedStep_some h
  obtain ⟨row, hmem, htask, hsome, hhash⟩ := hc
  obtain ⟨ref, hsubmits⟩ := hm
  rcases step_table hsubmits hs with hrows | ⟨sub, hsub, rows, response, hsys, hins⟩
  · exact ⟨row, by rw [hrows]; exact hmem, htask, hsome, hhash⟩
  · refine ⟨row, ?_, htask, hsome, hhash⟩
    have hrows : u.system.rows = setResponse rows sub.checkpointRef (rt.resultHash sub.result)
        response := by rw [hsys]; rfl
    rw [hrows]
    apply mem_setResponse_of_ne hins hmem
    intro href
    -- the row in progress has no response yet
    obtain ⟨-, active, hload, -, hnone⟩ := hw.submission sub hsub
    obtain rfl := Option.some.inj (hload.symm.trans (load_eq_of_mem hw.unique_ref hmem href))
    rw [hnone] at hsome
    cases hsome

theorem Committed.new_verdict (hw : Witnessed ofRat rt t) (h : rt.tracedStep P ofRat t m = some u) {task hash : String}
    (hc : Committed t.system task hash) {line : TraceLine} (hmem : line ∈ u.trace) (hv : line.verdictOn = some task) :
    line ∈ t.trace ∨ line.handoffEventId = resultEventId task hash := by
  obtain ⟨-, htrace, -⟩ := tracedStep_some h
  obtain ⟨row, hrow, rfl, hsome, hhash⟩ := hc
  rw [htrace] at hmem
  rcases mem_appended hmem with hmem | hmem
  · exact Or.inl hmem
  right
  rcases linesOf_verdict hmem hv with ⟨ref, result, entry, -, hentry, record, hload, hid, htask⟩ |
    ⟨sub, hsub, record, hload, hid, htask⟩
  · obtain ⟨record', hload', htask', hresult⟩ := submitEntry_ok hentry
    obtain rfl := Option.some.inj (hload.symm.trans hload')
    have hsame : record = row := eq_of_taskId hw.unique_task (load_some hload).1 hrow (htask'.symm.trans htask.symm)
    subst hsame
    obtain rfl := Option.some.inj (hhash.symm.trans (hresult hsome))
    exact hid
  · obtain ⟨-, active, hactive, htask', hnone⟩ := hw.submission sub hsub
    obtain rfl := Option.some.inj (hload.symm.trans hactive)
    have hsame : record = row := eq_of_taskId hw.unique_task (load_some hload).1 hrow (htask'.trans htask.symm)
    subst hsame
    rw [hnone] at hsome
    cases hsome

theorem refused_adds_no_verdict {ref : String} {result : AgentResult} {reason : String}
    (ha : m.action = .submitBegin ref result) (hrefused : rt.submitEntry t.system.rows ref result = .error reason)
    (h : rt.tracedStep P ofRat t m = some u) (task : String) : verdicts u.trace task = verdicts t.trace task := by
  obtain ⟨-, htrace, -⟩ := tracedStep_some h
  have hlines : rt.linesOf m.attemptId m.clock t.system m.action =
      [rt.rejectedLine m.clock t.system.rows ref result reason] := by
    rw [ha, HostRuntime.linesOf, HostRuntime.beginLines, hrefused]
  rw [htrace, hlines]
  exact verdicts_appendLineOnce rfl

theorem length_unbroken_verdicts_le_one {trace : List TraceLine} {task id : String}
    (hids : (unbrokenIds ofRat trace).Nodup)
    (hall : ∀ line ∈ trace, line.verdictOn = some task → line.handoffEventId = id) :
    ((verdicts trace task).filter fun line => line.Unbroken ofRat).length ≤ 1 := by
  have hsub : (((verdicts trace task).filter fun line => line.Unbroken ofRat).map TraceLine.handoffEventId).Nodup :=
    hids.sublist ((List.filter_sublist.filter _).map TraceLine.handoffEventId)
  have hconst : ((verdicts trace task).filter fun line => line.Unbroken ofRat).map TraceLine.handoffEventId =
      List.replicate ((verdicts trace task).filter fun line => line.Unbroken ofRat).length id := by
    rw [List.eq_replicate_iff]
    refine ⟨List.length_map .., ?_⟩
    intro x hx
    obtain ⟨line, hline, rfl⟩ := List.mem_map.mp hx
    rw [verdicts, List.mem_filter, List.mem_filter, decide_eq_true_eq] at hline
    exact hall line hline.1.1 hline.1.2
  rw [hconst] at hsub
  exact List.nodup_replicate.mp hsub

theorem trace_one_verdict_per_result {start mid : Traced} {before after : List Move} {final : Traced}
    (hstart : Unsubmitted ofRat start) (hbefore : Run (rt.tracedStep P ofRat) SubmitMove start before mid)
    (hafter : Run (rt.tracedStep P ofRat) SubmitMove mid after final) :
    (unbrokenIds ofRat final.trace).Nodup ∧
      (∀ line ∈ final.trace, ∀ task, line.verdictOn = some task →
        ∃ hash, (task, hash) ∈ final.admitted ∧ line.handoffEventId = resultEventId task hash) ∧
      (∀ task hash, Committed mid.system task hash → ∀ line ∈ final.trace, line.verdictOn = some task →
        line ∈ mid.trace ∨ line.handoffEventId = resultEventId task hash) ∧
      (∀ task hash, (∀ other, (task, other) ∈ final.admitted → other = hash) →
        ((verdicts final.trace task).filter fun line => line.Unbroken ofRat).length ≤ 1 ∧
        ∀ line ∈ final.trace, line.verdictOn = some task →
          ∀ committed, Committed final.system task committed → line.handoffEventId = resultEventId task committed) ∧
      ∀ m u ref result reason, m.action = .submitBegin ref result →
        rt.submitEntry final.system.rows ref result = .error reason → rt.tracedStep P ofRat final m = some u →
        ∀ task, verdicts u.trace task = verdicts final.trace task := by
  have hmid : Witnessed ofRat rt mid := hbefore.invariant (fun _ _ _ hw hm h => hw.step hm h) hstart.witnessed
  have hfinal : Witnessed ofRat rt final := hafter.invariant (fun _ _ _ hw hm h => hw.step hm h) hmid
  refine ⟨hfinal.ids, hfinal.terminal, ?_, ?_, ?_⟩
  · intro task hash hc
    have hinv := hafter.invariant (I := fun t => Witnessed ofRat rt t ∧ Committed t.system task hash ∧
        ∀ line ∈ t.trace, line.verdictOn = some task → line ∈ mid.trace ∨ line.handoffEventId = resultEventId task hash)
      (fun t m u ht hm h => ⟨ht.1.step hm h, ht.2.1.step ht.1 hm h, fun line hline hv =>
        (ht.2.1.new_verdict ht.1 h hline hv).elim (fun hold => ht.2.2 line hold hv) Or.inr⟩)
      ⟨hmid, hc, fun line hline _ => Or.inl hline⟩
    exact hinv.2.2
  · intro task hash hone
    have hall : ∀ line ∈ final.trace, line.verdictOn = some task → line.handoffEventId = resultEventId task hash := by
      intro line hline hv
      obtain ⟨other, hin, hid⟩ := hfinal.terminal line hline task hv
      rw [hid, hone other hin]
    refine ⟨length_unbroken_verdicts_le_one hfinal.ids hall, ?_⟩
    intro line hline hv committed hcommitted
    obtain ⟨row, hrow, rfl, hsome, hhash⟩ := hcommitted
    obtain ⟨other, hother, hin⟩ := hfinal.committed row hrow hsome
    obtain rfl := Option.some.inj (hhash.symm.trans hother)
    rw [hall line hline hv, hone committed hin]
  · intro m u ref result reason ha hrefused h
    exact refused_adds_no_verdict ha hrefused h

theorem tracedStep_of {system : System} {lines trace : List TraceLine} {admitted : List (String × String)}
    (hs : rt.step t.system m.action = some system) (hlines : rt.linesOf m.attemptId m.clock t.system m.action = lines)
    (htrace : lines.foldl (appendLineOnce ofRat P m.written) t.trace = trace)
    (hadmitted : t.admitted ++ rt.admits t.system m.action = admitted) :
    rt.tracedStep P ofRat t m = some ⟨system, trace, admitted⟩ := by
  rw [HostRuntime.tracedStep, hs, Option.map_some, hlines, htrace, hadmitted]

end Verdicts

end Trace

def writeTraced : Traced := ⟨writeWaiting, [], []⟩

def wholePart (q : ℚ) : ℤ := q.num / q.den

theorem writeTraced_unsubmitted : Unsubmitted wholePart writeTraced :=
  ⟨by decide, by simp [writeTraced], by decide, by decide, by decide, rfl, rfl⟩

def writing (action : Action) : Move := ⟨action, none, fun _ => "2026-08-20T13:14:59+00:00", fun _ => true⟩

def writeStep : Traced → Move → Option Traced := writeRuntime.tracedStep wholeNumbers.toFloatFormat wholePart

def draftTraced : Traced := (exec writeStep writeTraced (draftSubmission.map writing)).getD writeTraced

def verdictOf (result : AgentResult) : TraceLine :=
  writeRuntime.agentTerminal none (fun _ => "2026-08-20T13:14:59+00:00") writeRecord result (statusHash result)

theorem unbroken_of_all {line : TraceLine}
    (h : ((Json.dict (line.payload wholePart)).chars.all fun c => !isRawBreak c) = true) : line.Unbroken wholePart := by
  intro c hc
  simpa using List.all_eq_true.mp h c hc

theorem draftVerdict_unbroken : (verdictOf draftCompleted).Unbroken wholePart :=
  unbroken_of_all (by decide +kernel)

theorem failedVerdict_unbroken : (verdictOf draftFailed).Unbroken wholePart :=
  unbroken_of_all (by decide +kernel)

theorem verdict_added {result : AgentResult} {trace : List TraceLine}
    (h : ∀ line ∈ trace, line.Unbroken wholePart)
    (hnew : (verdictOf result).handoffEventId ∉ trace.map TraceLine.handoffEventId) :
    [verdictOf result].foldl (appendLineOnce wholePart wholeNumbers.toFloatFormat fun _ => true) trace =
      trace ++ [verdictOf result] := by
  rw [List.foldl_cons, List.foldl_nil, appendLineOnce_eq h rfl, if_neg hnew]

theorem verdict_found {result : AgentResult} {trace : List TraceLine}
    (h : ∀ line ∈ trace, line.Unbroken wholePart)
    (hold : (verdictOf result).handoffEventId ∈ trace.map TraceLine.handoffEventId) :
    [verdictOf result].foldl (appendLineOnce wholePart wholeNumbers.toFloatFormat fun _ => true) trace = trace := by
  rw [List.foldl_cons, List.foldl_nil, appendLineOnce_eq h rfl, if_pos hold]

theorem draftTraced_run : Run writeStep SubmitMove writeTraced (draftSubmission.map writing)
    ⟨draftSubmitted, [verdictOf draftCompleted], [("t1", "completed:host")]⟩ := by
  have hadded := @verdict_added draftCompleted [] (by simp) (by simp)
  have hfound := @verdict_found draftCompleted [verdictOf draftCompleted] (by simp [draftVerdict_unbroken]) (by simp)
  refine .cons ⟨ref1, rfl⟩ (tracedStep_of rfl rfl hadded rfl) ?_
  refine .cons ⟨ref1, trivial⟩ (tracedStep_of rfl rfl (List.foldl_nil ..) rfl) ?_
  refine .cons ⟨ref1, trivial⟩ (tracedStep_of rfl rfl hfound rfl) ?_
  exact .nil _

theorem draftTraced_eq :
    draftTraced = ⟨draftSubmitted, [verdictOf draftCompleted], [("t1", "completed:host")]⟩ := by
  rw [draftTraced, draftTraced_run.exec_eq, Option.getD_some]

theorem trace_one_verdict_per_result_draft :
    Run writeStep SubmitMove writeTraced (draftSubmission.map writing) draftTraced ∧
      (∀ line ∈ draftTraced.trace, line.verdictOn = some "t1" →
        line.handoffEventId = resultEventId "t1" "completed:host") ∧
      (verdicts draftTraced.trace "t1").length = 1 := by
  have hrun : Run writeStep SubmitMove writeTraced (draftSubmission.map writing) draftTraced :=
    draftTraced_eq ▸ draftTraced_run
  have hcommitted : Committed draftTraced.system "t1" "completed:host" := by
    rw [draftTraced_eq]
    exact ⟨_, List.mem_cons_self .., rfl, rfl, rfl⟩
  have hone : ∀ other, ("t1", other) ∈ draftTraced.admitted → other = "completed:host" := by
    intro other hin
    rw [draftTraced_eq] at hin
    simpa using hin
  have hverdict := (trace_one_verdict_per_result writeTraced_unsubmitted hrun (.nil draftTraced)).2.2.2.1 "t1"
    "completed:host" hone
  refine ⟨hrun, fun line hline hv => hverdict.2 line hline hv _ hcommitted, ?_⟩
  rw [draftTraced_eq]
  decide +kernel

/-- The first submission dies before the graph has its result; the second gives another one. -/
def secondThoughts : List Action :=
  [.submitBegin ref1 draftCompleted, .submitAbort, .submitBegin ref1 draftFailed, .submitCommit (.stopped none)]

def secondTraced : Traced := (exec writeStep writeTraced (secondThoughts.map writing)).getD writeTraced

theorem secondTraced_run : ∃ system, Committed system "t1" "failed:host" ∧
    Run writeStep SubmitMove writeTraced (secondThoughts.map writing)
      ⟨system, [verdictOf draftCompleted, verdictOf draftFailed],
        [("t1", "completed:host"), ("t1", "failed:host")]⟩ := by
  have hnew : (verdictOf draftFailed).handoffEventId ∉ [verdictOf draftCompleted].map TraceLine.handoffEventId := by
    decide +kernel
  have hfirst := @verdict_added draftCompleted [] (by simp) (by simp)
  have hsecond := @verdict_added draftFailed [verdictOf draftCompleted] (by simp [draftVerdict_unbroken]) hnew
  have hfound := @verdict_found draftFailed [verdictOf draftCompleted, verdictOf draftFailed]
    (by simp [draftVerdict_unbroken, failedVerdict_unbroken]) (by simp)
  refine ⟨_, ?committed, .cons ⟨ref1, rfl⟩ (tracedStep_of rfl rfl hfirst rfl)
    (.cons ⟨ref1, trivial⟩ (tracedStep_of rfl rfl (List.foldl_nil ..) rfl)
      (.cons ⟨ref1, rfl⟩ (tracedStep_of rfl rfl hsecond rfl)
        (.cons ⟨ref1, trivial⟩ (tracedStep_of rfl rfl hfound rfl) (.nil _))))⟩
  exact ⟨_, List.mem_cons_self .., rfl, rfl, rfl⟩

theorem second_result_adds_verdict :
    Run writeStep SubmitMove writeTraced (secondThoughts.map writing) secondTraced ∧
      ¬ ((verdicts secondTraced.trace "t1").length ≤ 1) ∧ Committed secondTraced.system "t1" "failed:host" ∧
      ∃ line ∈ verdicts secondTraced.trace "t1", line.handoffEventId ≠ resultEventId "t1" "failed:host" := by
  obtain ⟨system, hcommitted, hrun⟩ := secondTraced_run
  have htraced : secondTraced = ⟨system, [verdictOf draftCompleted, verdictOf draftFailed],
      [("t1", "completed:host"), ("t1", "failed:host")]⟩ := by
    rw [secondTraced, hrun.exec_eq, Option.getD_some]
  have hverdicts : verdicts [verdictOf draftCompleted, verdictOf draftFailed] "t1" =
      [verdictOf draftCompleted, verdictOf draftFailed] := by
    rfl
  rw [htraced, hverdicts]
  refine ⟨hrun, by decide, hcommitted, verdictOf draftCompleted, List.mem_cons_self .., ?_⟩
  decide +kernel

end GraphSkillRuntime
