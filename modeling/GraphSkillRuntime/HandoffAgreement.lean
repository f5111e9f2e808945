import GraphSkillRuntime.Handoff
import GraphSkillRuntime.HostNativeRefinement

namespace GraphSkillRuntime

open OrderedDict Runs

/-! What a sequence of submissions keeps between the handoff table and the graph. -/

theorem load_some {rows : List AgentHandoffRecord} {ref : String} {row : AgentHandoffRecord}
    (h : load rows ref = some row) : row ∈ rows ∧ row.checkpointRef = ref := by
  refine ⟨List.mem_of_find?_eq_some h, ?_⟩
  simpa using List.find?_some h

theorem load_eq_of_mem {rows : List AgentHandoffRecord} {ref : String} {row : AgentHandoffRecord}
    (hn : (rows.map AgentHandoffRecord.checkpointRef).Nodup) (hm : row ∈ rows)
    (hr : row.checkpointRef = ref) : load rows ref = some row := by
  induction rows with
  | nil => simp at hm
  | cons r rows ih =>
    rw [List.map_cons, List.nodup_cons] at hn
    unfold load
    rw [List.find?_cons]
    by_cases h : r.checkpointRef = ref
    · have heq : r = row := by
        rcases List.mem_cons.mp hm with h' | h'
        · exact h'.symm
        · exact absurd (List.mem_map.mpr ⟨row, h', hr.trans h.symm⟩) hn.1
      simp [heq, hr]
    · have hm' : row ∈ rows := by
        rcases List.mem_cons.mp hm with h' | h'
        · exact absurd (h' ▸ hr) h
        · exact h'
      rw [decide_eq_false h]
      exact ih hn.2 hm'

theorem insertRequired_ok {rows rows' : List AgentHandoffRecord} {record : AgentHandoffRecord}
    (h : insertRequired rows record = .ok rows') :
    rows' = rows ∨ (rows' = rows ++ [record] ∧
      ∀ row ∈ rows, row.checkpointRef ≠ record.checkpointRef ∧ row.task.taskId ≠ record.task.taskId) := by
  unfold insertRequired at h
  cases hf : rows.find? (sameIdentity record) with
  | none =>
    rw [hf] at h
    refine Or.inr ⟨(Except.ok.inj h).symm, fun row hm => ?_⟩
    have hrow := List.find?_eq_none.mp hf row hm
    simp only [sameIdentity, Bool.decide_or, Bool.or_eq_true, decide_eq_true_eq, not_or] at hrow
    exact hrow
  | some row =>
    rw [hf] at h
    simp only at h
    split_ifs at h
    exact Or.inl (Except.ok.inj h).symm

theorem agentResultHashes_superstep (deltas : List EngineDelta) (values : WorkflowState) :
    (deltas.foldl (fun values delta => applyDelta values delta.1.data delta.1.flow)
      values).flow.agentResultHashes = values.flow.agentResultHashes := by
  induction deltas generalizing values with
  | nil => rfl
  | cons delta deltas ih =>
    rw [List.foldl_cons, ih]
    simp [applyDelta, mergeFlowChannel, delta.2, mergeField]

theorem marker_superstep (move : Superstep) (latest : Checkpoint) (taskId : String) :
    marker (some (move.apply latest)) taskId = marker (some latest) taskId := by
  simp only [marker, Option.bind_some, Superstep.apply, Superstep.values, agentResultHashes_superstep]

theorem marker_applied {latest : Checkpoint} {newId : String} {next : List String}
    {completion : ExternalPhaseCompletion} {data : Dict String Value} (taskId : String) :
    marker (some
      { checkpointId := newId
        checkpointNs := latest.checkpointNs
        next := next
        values := applyDelta latest.values data (completionFlow completion) }) taskId =
      if completion.taskId = taskId then some completion.resultHash else marker (some latest) taskId := by
  simp only [marker, Option.bind_some, applyDelta, mergeFlowChannel, completionFlow, mergeField,
    Dict.get?_update, Dict.get?_single]
  split_ifs <;> simp

theorem applyExternalPhaseCompletion_already {graph : Option Checkpoint} {runId id ns newId : String}
    {completion : ExternalPhaseCompletion} {next : List String}
    (h : applyExternalPhaseCompletion graph runId id ns completion newId next = .ok .already) :
    marker graph completion.taskId = some completion.resultHash := by
  cases graph with
  | none => simp [applyExternalPhaseCompletion] at h
  | some latest =>
    simp only [applyExternalPhaseCompletion] at h
    cases hm : latest.values.flow.agentResultHashes.get? completion.taskId with
    | none =>
      rw [hm] at h
      simp only at h
      split_ifs at h
      simp at h
    | some hash =>
      rw [hm] at h
      simp only at h
      split_ifs at h with hne
      simp only [marker, Option.bind_some, hm]
      exact congrArg some (not_not.mp hne)

structure CompletionApplied (graph : Option Checkpoint) (id ns : String)
    (completion : ExternalPhaseCompletion) (newId : String) (next : List String)
    (checkpoint latest : Checkpoint) : Prop where
  latest_eq : graph = some latest
  unmarked : marker graph completion.taskId = none
  sameId : latest.checkpointId = id
  sameNs : latest.checkpointNs = ns
  pending : latest.next = [completion.phaseId]
  checkpoint_eq : checkpoint =
    { checkpointId := newId
      checkpointNs := latest.checkpointNs
      next := next
      values := applyDelta latest.values (phaseDataDelta completion.phaseId completion.output)
        (completionFlow completion) }

theorem applyExternalPhaseCompletion_updated {graph : Option Checkpoint} {runId id ns newId : String}
    {completion : ExternalPhaseCompletion} {next : List String} {checkpoint : Checkpoint}
    (h : applyExternalPhaseCompletion graph runId id ns completion newId next = .ok (.updated checkpoint)) :
    ∃ latest, CompletionApplied graph id ns completion newId next checkpoint latest := by
  cases graph with
  | none => simp [applyExternalPhaseCompletion] at h
  | some latest =>
    simp only [applyExternalPhaseCompletion] at h
    cases hm : latest.values.flow.agentResultHashes.get? completion.taskId with
    | some hash =>
      rw [hm] at h
      simp only at h
      split_ifs at h
      simp at h
    | none =>
      rw [hm] at h
      simp only at h
      split_ifs at h with hid hnext hpo
      obtain ⟨h1, h2⟩ := not_or.mp hid
      injection h with h
      injection h with h
      exact ⟨latest, rfl, by simpa [marker] using hm, (not_not.mp h1).symm, (not_not.mp h2).symm,
        not_not.mp hnext, h.symm⟩

def SubmitsOnly (ref : String) : Action → Prop
  | .submitBegin ref' _ => ref' = ref
  | .engineFails _ | .applyCompletion _ _ | .superstep _ | .submitCommit _ | .submitAbort => True
  | _ => False

def CommitsUnapplied : Action → Prop
  | .engineFails _ | .submitCommit _ => True
  | _ => False

inductive SubmitEffect (rt : HostRuntime) (s : System) (a : Action) : System → Prop where
  | aborted : SubmitEffect rt s a { s with submission := none }
  | refused (ref hash : String) : SubmitEffect rt s a (s.rejected ref hash)
  | cached {ref : String} {result : AgentResult} {record : AgentHandoffRecord} {response : RunResult}
      (ha : a = .submitBegin ref result) (hload : load s.rows ref = some record)
      (hresponse : record.response = some response)
      (hhash : record.resultHash = some (rt.resultHash result)) :
      SubmitEffect rt s a (s.logged (.returned ref response))
  | opened {ref : String} {result : AgentResult} {record : AgentHandoffRecord}
      (ha : a = .submitBegin ref result) (hidle : s.submission = none)
      (hload : load s.rows ref = some record) (hresponse : record.response = none)
      (htask : result.taskId = record.task.taskId) :
      SubmitEffect rt s a { s with submission := some ⟨ref, result, .opened⟩ }
  | already {sub : Submission} (hsub : s.submission = some sub)
      (hmark : marker s.graph sub.result.taskId = some (rt.resultHash sub.result)) :
      SubmitEffect rt s a { s with submission := some { sub with stage := .applied } }
  | updated {sub : Submission} {checkpoint : Checkpoint} {newId : String}
      (hsub : s.submission = some sub) (hnone : marker s.graph sub.result.taskId = none)
      (hmarks : ∀ t, marker (some checkpoint) t =
        if sub.result.taskId = t then some (rt.resultHash sub.result) else marker s.graph t) :
      SubmitEffect rt s a
        { s with
          graph := some checkpoint
          issued := newId :: s.issued
          submission := some { sub with stage := .applied }
          log := s.log ++ [.applied sub.result.taskId] }
  | advanced {sub : Submission} {checkpoint : Checkpoint} {newId : String}
      (hsub : s.submission = some sub) (hstage : sub.stage = .applied)
      (hmarks : ∀ t, marker (some checkpoint) t = marker s.graph t) :
      SubmitEffect rt s a { s with graph := some checkpoint, issued := newId :: s.issued }
  | committed {sub : Submission} {rows : List AgentHandoffRecord} {response : RunResult}
      (hsub : s.submission = some sub)
      (hrows : rows = s.rows ∨ ∃ record, insertRequired s.rows record = .ok rows)
      (hstage : sub.stage = .applied ∨ sub.stage = .opened ∧ CommitsUnapplied a) :
      SubmitEffect rt s a (s.commit rows sub.checkpointRef (rt.resultHash sub.result) response)

theorem submitEntry_cached {rt : HostRuntime} {rows : List AgentHandoffRecord} {ref : String}
    {result : AgentResult} {response : RunResult}
    (h : rt.submitEntry rows ref result = .ok (.cached response)) :
    ∃ record, load rows ref = some record ∧ record.response = some response ∧
      record.resultHash = some (rt.resultHash result) := by
  unfold HostRuntime.submitEntry at h
  cases hl : load rows ref with
  | none => simp [hl] at h
  | some record =>
    rw [hl] at h
    obtain ⟨_, -, h⟩ := bind_ok h
    obtain ⟨_, -, h⟩ := bind_ok h
    cases hr : record.response with
    | none => simp [hr] at h
    | some response' =>
      rw [hr] at h
      simp only at h
      split_ifs at h with hne
      injection h with h
      injection h with h
      exact ⟨record, rfl, hr.trans (congrArg some h), not_not.mp hne⟩

theorem validateAgentResult_task {V : Draft202012} {task : AgentTask} {result : AgentResult}
    (h : validateAgentResult V task result = .ok ()) : result.taskId = task.taskId := by
  unfold validateAgentResult at h
  by_cases ht : result.taskId = task.taskId
  · exact ht
  · simp [ht] at h

theorem submitEntry_opened {rt : HostRuntime} {rows : List AgentHandoffRecord} {ref : String}
    {result : AgentResult} (h : rt.submitEntry rows ref result = .ok .opened) :
    ∃ record, load rows ref = some record ∧ record.response = none ∧
      result.taskId = record.task.taskId := by
  unfold HostRuntime.submitEntry at h
  cases hl : load rows ref with
  | none => simp [hl] at h
  | some record =>
    rw [hl] at h
    obtain ⟨_, -, h⟩ := bind_ok h
    obtain ⟨_, hv, h⟩ := bind_ok h
    cases hr : record.response with
    | none => exact ⟨record, rfl, hr, validateAgentResult_task hv⟩
    | some response =>
      rw [hr] at h
      simp only at h
      split_ifs at h
      simp at h

theorem submitBegin_effect (rt : HostRuntime) (s : System) (ref : String) (result : AgentResult)
    (hidle : s.submission = none) :
    SubmitEffect rt s (.submitBegin ref result) (rt.submitBegin s ref result) := by
  unfold HostRuntime.submitBegin
  cases h : rt.submitEntry s.rows ref result with
  | error message =>
    have heq : s.logged (.rejected ref (rt.resultHash result)) =
        s.rejected ref (rt.resultHash result) := by
      simp [System.logged, System.rejected, hidle]
    simp only [heq]
    exact .refused _ _
  | ok entry =>
    cases entry with
    | cached response =>
      obtain ⟨record, hl, hr, hh⟩ := submitEntry_cached h
      exact .cached rfl hl hr hh
    | opened =>
      obtain ⟨record, hl, hr, ht⟩ := submitEntry_opened h
      exact .opened rfl hidle hl hr ht

theorem applyCompletion_effect {rt : HostRuntime} {s : System} {a : Action} {sub : Submission}
    (hsub : s.submission = some sub) (record : AgentHandoffRecord) (output : Dict String Value)
    (newId : String) (next : List String) :
    SubmitEffect rt s a (rt.applyCompletion s sub record output newId next) := by
  unfold HostRuntime.applyCompletion
  simp only
  split
  · exact .refused _ _
  · rename_i h
    exact .already hsub (applyExternalPhaseCompletion_already h)
  · rename_i checkpoint h
    obtain ⟨latest, happ⟩ := applyExternalPhaseCompletion_updated h
    refine .updated hsub happ.unmarked (fun t => ?_)
    rw [happ.checkpoint_eq, happ.latest_eq]
    exact marker_applied t

theorem commitUnapplied_effect {rt : HostRuntime} {s : System} {a : Action} {sub : Submission}
    (hsub : s.submission = some sub) (hstage : sub.stage = .opened) (ha : CommitsUnapplied a)
    {record : AgentHandoffRecord} (hload : load s.rows sub.checkpointRef = some record)
    (error : RuntimeErrorPayload) (outputs : Dict String Value) :
    SubmitEffect rt s a (rt.commitUnapplied s sub record error outputs) := by
  unfold HostRuntime.commitUnapplied
  rw [(load_some hload).2]
  exact .committed hsub (Or.inl rfl) (Or.inr ⟨hstage, ha⟩)

theorem submitCommit_effect {rt : HostRuntime} {s : System} {a : Action} {sub : Submission}
    (hsub : s.submission = some sub) (hstage : sub.stage = .applied) (latest : Checkpoint)
    (conclusion : Conclusion) : SubmitEffect rt s a (rt.submitCommit s sub latest conclusion) := by
  cases conclusion with
  | raised error => exact .committed hsub (Or.inl rfl) (Or.inl hstage)
  | stopped deadline =>
    unfold HostRuntime.submitCommit
    simp only
    split_ifs
    · exact .committed hsub (Or.inl rfl) (Or.inl hstage)
    · split
      · exact .refused _ _
      · rename_i record _
        split
        · exact .refused _ _
        · rename_i rows hins
          exact .committed hsub (Or.inr ⟨record, hins⟩) (Or.inl hstage)

theorem submit_step_effect {rt : HostRuntime} {ref : String} {s t : System} {a : Action}
    (ha : SubmitsOnly ref a) (h : rt.step s a = some t) : SubmitEffect rt s a t := by
  cases a with
  | submitBegin ref' result =>
    simp only [HostRuntime.step] at h
    split_ifs at h with hidle
    obtain rfl := Option.some.inj h
    exact submitBegin_effect rt s ref' result (by simpa using hidle)
  | engineFails error =>
    simp only [HostRuntime.step] at h
    split at h
    · rename_i ref' result hsub
      split at h
      · rename_i record output hload hout
        obtain rfl := Option.some.inj h
        exact commitUnapplied_effect hsub rfl (by trivial) hload error _
      · simp at h
    · simp at h
  | applyCompletion newId next =>
    simp only [HostRuntime.step] at h
    split at h
    · rename_i ref' result hsub
      split at h
      · split_ifs at h
        obtain rfl := Option.some.inj h
        exact applyCompletion_effect hsub _ _ _ _
      · simp at h
    · simp at h
  | superstep move =>
    simp only [HostRuntime.step] at h
    split at h
    · rename_i ref' result latest hsub hgraph
      split_ifs at h
      obtain rfl := Option.some.inj h
      refine .advanced hsub rfl (fun t => ?_)
      rw [hgraph]
      exact marker_superstep move latest t
    · simp at h
  | submitCommit conclusion =>
    simp only [HostRuntime.step] at h
    split at h
    · rename_i ref' result latest hsub hgraph
      obtain rfl := Option.some.inj h
      exact submitCommit_effect hsub rfl latest conclusion
    · rename_i ref' result hsub
      split at h
      · rename_i record error hload hout herr
        obtain rfl := Option.some.inj h
        exact commitUnapplied_effect hsub rfl (by trivial) hload error _
      · simp at h
    · simp at h
  | submitAbort =>
    obtain rfl := Option.some.inj h
    exact .aborted
  | _ => exact absurd ha id

structure Consistent (rt : HostRuntime) (ref : String) (record : AgentHandoffRecord) (s : System) :
    Prop where
  unique_ref : (s.rows.map AgentHandoffRecord.checkpointRef).Nodup
  row : ∃ row, load s.rows ref = some row ∧ row.task = record.task
  committed : ∀ row, load s.rows ref = some row → row.response.isSome →
    ∀ h, marker s.graph record.task.taskId = some h → row.resultHash = some h
  submission : ∀ sub, s.submission = some sub → sub.checkpointRef = ref ∧
    sub.result.taskId = record.task.taskId ∧ ∀ row, load s.rows ref = some row → row.response = none
  applied : ∀ sub, s.submission = some sub → sub.stage = .applied →
    marker s.graph record.task.taskId = some (rt.resultHash sub.result)

def Unconflicted (rt : HostRuntime) (s : System) (a : Action) : Prop :=
  CommitsUnapplied a → ∀ sub, s.submission = some sub → sub.stage = .opened →
    ∀ h, marker s.graph sub.result.taskId = some h → h = rt.resultHash sub.result

def SubmitGuard (rt : HostRuntime) (ref : String) (s : System) (a : Action) : Prop :=
  SubmitsOnly ref a ∧ Unconflicted rt s a

theorem load_setResponse {rows : List AgentHandoffRecord} {ref hash : String} {response : RunResult}
    {row : AgentHandoffRecord} (h : load rows ref = some row) :
    load (setResponse rows ref hash response) ref =
      some { row with resultHash := some hash, response := some response } := by
  induction rows with
  | nil => simp [load] at h
  | cons r rows ih =>
    unfold load at h ih ⊢
    rw [setResponse, List.map_cons, List.find?_cons]
    rw [List.find?_cons] at h
    by_cases hr : r.checkpointRef = ref
    · rw [decide_eq_true hr] at h
      obtain rfl := Option.some.inj h
      simp [hr]
    · rw [decide_eq_false hr] at h
      rw [if_neg hr, decide_eq_false hr]
      exact ih h

theorem map_checkpointRef_setResponse (rows : List AgentHandoffRecord) (ref hash : String)
    (response : RunResult) :
    (setResponse rows ref hash response).map AgentHandoffRecord.checkpointRef =
      rows.map AgentHandoffRecord.checkpointRef := by
  rw [setResponse, List.map_map]
  apply List.map_congr_left
  intro row _
  simp only [Function.comp_apply]
  split_ifs <;> rfl

section

variable {rows rows' : List AgentHandoffRecord}

theorem load_of_inserted (h : rows' = rows ∨ ∃ record, insertRequired rows record = .ok rows')
    {ref : String} {row : AgentHandoffRecord} (hl : load rows ref = some row) :
    load rows' ref = some row := by
  rcases h with rfl | ⟨record, hins⟩
  · exact hl
  · rcases insertRequired_ok hins with rfl | ⟨rfl, -⟩
    · exact hl
    · unfold load at hl ⊢
      rw [List.find?_append, hl]
      rfl

theorem unique_ref_of_inserted (h : rows' = rows ∨ ∃ record, insertRequired rows record = .ok rows')
    (hn : (rows.map AgentHandoffRecord.checkpointRef).Nodup) :
    (rows'.map AgentHandoffRecord.checkpointRef).Nodup := by
  rcases h with rfl | ⟨record, hins⟩
  · exact hn
  · rcases insertRequired_ok hins with rfl | ⟨rfl, hfresh⟩
    · exact hn
    · rw [List.map_append, List.nodup_append']
      refine ⟨hn, by simp, ?_⟩
      intro r hr hr'
      obtain ⟨row, hm, rfl⟩ := List.mem_map.mp hr
      exact (hfresh row hm).1 (by simpa using hr')

end

section

variable {rt : HostRuntime} {ref : String} {record : AgentHandoffRecord} {s : System}
variable {sub : Submission} {rows : List AgentHandoffRecord}

theorem Consistent.load_commit (hs : Consistent rt ref record s) (hsub : s.submission = some sub)
    (hrows : rows = s.rows ∨ ∃ record, insertRequired s.rows record = .ok rows) (response : RunResult) :
    ∃ row : AgentHandoffRecord,
      load (setResponse rows sub.checkpointRef (rt.resultHash sub.result) response) ref =
        some { row with resultHash := some (rt.resultHash sub.result), response := some response } ∧
      row.task = record.task := by
  obtain ⟨row, hl, ht⟩ := hs.row
  obtain ⟨hsref, -, -⟩ := hs.submission sub hsub
  rw [hsref]
  exact ⟨row, load_setResponse (load_of_inserted hrows hl), ht⟩

theorem Consistent.commit (hs : Consistent rt ref record s) (hsub : s.submission = some sub)
    (hrows : rows = s.rows ∨ ∃ record, insertRequired s.rows record = .ok rows) (response : RunResult)
    (hmark : ∀ h, marker s.graph record.task.taskId = some h → h = rt.resultHash sub.result) :
    Consistent rt ref record (s.commit rows sub.checkpointRef (rt.resultHash sub.result) response) := by
  obtain ⟨row, hload, ht⟩ := hs.load_commit hsub hrows response
  refine ⟨?_, ⟨_, hload, ht⟩, ?_, by simp [System.commit], by simp [System.commit]⟩
  · change ((setResponse rows _ _ _).map _).Nodup
    rw [map_checkpointRef_setResponse]
    exact unique_ref_of_inserted hrows hs.unique_ref
  · intro row' hl' _ h hm
    obtain rfl := Option.some.inj (hload.symm.trans hl')
    exact congrArg some (hmark h hm).symm

end

theorem Consistent.step {rt : HostRuntime} {ref : String} {record : AgentHandoffRecord} {s t : System}
    {a : Action} (hs : Consistent rt ref record s) (hg : SubmitGuard rt ref s a)
    (h : rt.step s a = some t) : Consistent rt ref record t := by
  have heff := submit_step_effect hg.1 h
  cases heff with
  | aborted =>
    exact ⟨hs.unique_ref, hs.row, hs.committed, by simp, by simp⟩
  | refused ref' hash =>
    exact ⟨hs.unique_ref, hs.row, hs.committed, by simp [System.rejected], by simp [System.rejected]⟩
  | cached ha hload hresponse hhash =>
    exact ⟨hs.unique_ref, hs.row, hs.committed, hs.submission, hs.applied⟩
  | @opened ref' result row ha hidle hload hresponse htask =>
    subst ha
    obtain rfl : ref' = ref := hg.1
    obtain ⟨row', hl, ht⟩ := hs.row
    obtain rfl := Option.some.inj (hl.symm.trans hload)
    refine ⟨hs.unique_ref, hs.row, hs.committed, ?_, ?_⟩
    · intro sub hsub
      obtain rfl := Option.some.inj hsub
      refine ⟨rfl, by rw [htask, ht], fun row'' hl' => ?_⟩
      obtain rfl := Option.some.inj (hl.symm.trans hl')
      exact hresponse
    · intro sub hsub hstage
      obtain rfl := Option.some.inj hsub
      simp at hstage
  | @already sub hsub hmark =>
    obtain ⟨hsref, htask, hopen⟩ := hs.submission sub hsub
    rw [htask] at hmark
    refine ⟨hs.unique_ref, hs.row, hs.committed, ?_, ?_⟩
    · intro sub' hsub'
      obtain rfl := Option.some.inj hsub'
      exact ⟨hsref, htask, hopen⟩
    · intro sub' hsub' _
      obtain rfl := Option.some.inj hsub'
      exact hmark
  | @updated sub checkpoint newId hsub hnone hmarks =>
    obtain ⟨hsref, htask, hopen⟩ := hs.submission sub hsub
    refine ⟨hs.unique_ref, hs.row, ?_, ?_, ?_⟩
    · intro row hl hsome
      rw [hopen row hl] at hsome
      simp at hsome
    · intro sub' hsub'
      obtain rfl := Option.some.inj hsub'
      exact ⟨hsref, htask, hopen⟩
    · intro sub' hsub' _
      obtain rfl := Option.some.inj hsub'
      change marker (some checkpoint) _ = _
      rw [hmarks, if_pos htask]
  | @advanced sub checkpoint newId hsub hstage hmarks =>
    refine ⟨hs.unique_ref, hs.row, ?_, hs.submission, ?_⟩
    · intro row hl hsome h hm
      change marker (some checkpoint) _ = _ at hm
      exact hs.committed row hl hsome h (by rwa [hmarks] at hm)
    · intro sub' hsub' hst
      change marker (some checkpoint) _ = _
      rw [hmarks]
      exact hs.applied sub' hsub' hst
  | @committed sub rows response hsub hrows hstage =>
    refine hs.commit hsub hrows response (fun h hm => ?_)
    rcases hstage with hst | ⟨hst, hc⟩
    · rw [hs.applied sub hsub hst] at hm
      exact (Option.some.inj hm).symm
    · exact hg.2 hc sub hsub hst h (by rwa [(hs.submission sub hsub).2.1])

structure Waiting (ref : String) (record : AgentHandoffRecord) (s : System) : Prop where
  unique_ref : (s.rows.map AgentHandoffRecord.checkpointRef).Nodup
  row : load s.rows ref = some record
  waiting : record.response = none
  idle : s.submission = none
  fresh_log : s.log = []

theorem Waiting.consistent {rt : HostRuntime} {ref : String} {record : AgentHandoffRecord} {s : System}
    (h : Waiting ref record s) : Consistent rt ref record s := by
  refine ⟨h.unique_ref, ⟨record, h.row, rfl⟩, ?_, by simp [h.idle], by simp [h.idle]⟩
  intro row hl hsome
  obtain rfl := Option.some.inj (h.row.symm.trans hl)
  simp [h.waiting] at hsome

structure Ledger (ref : String) (record : AgentHandoffRecord) (s : System) : Prop where
  returned : ∀ response, Event.returned ref response ∈ s.log →
    ∃ row, load s.rows ref = some row ∧ row.response = some response
  applied_le : s.log.count (.applied record.task.taskId) ≤ 1
  unapplied : marker s.graph record.task.taskId = none →
    s.log.count (.applied record.task.taskId) = 0

theorem Ledger.step {rt : HostRuntime} {ref : String} {record : AgentHandoffRecord} {s t : System}
    {a : Action} (hc : Consistent rt ref record s) (hs : Ledger ref record s)
    (hg : SubmitGuard rt ref s a) (h : rt.step s a = some t) : Ledger ref record t := by
  have heff := submit_step_effect hg.1 h
  cases heff with
  | aborted => exact ⟨hs.returned, hs.applied_le, hs.unapplied⟩
  | refused ref' hash =>
    refine ⟨?_, ?_, ?_⟩
    · intro response hm
      exact hs.returned response (by simpa [System.rejected] using hm)
    · simpa [System.rejected, List.count_append] using hs.applied_le
    · simpa [System.rejected, List.count_append] using hs.unapplied
  | @cached ref' result row response ha hload hresponse hhash =>
    subst ha
    obtain rfl : ref' = ref := hg.1
    refine ⟨?_, ?_, ?_⟩
    · intro response' hm
      rcases List.mem_append.mp hm with hm | hm
      · exact hs.returned response' hm
      · obtain rfl : response' = response := by simpa using hm
        exact ⟨row, hload, hresponse⟩
    · simpa [System.logged, List.count_append] using hs.applied_le
    · simpa [System.logged, List.count_append] using hs.unapplied
  | opened => exact ⟨hs.returned, hs.applied_le, hs.unapplied⟩
  | already => exact ⟨hs.returned, hs.applied_le, hs.unapplied⟩
  | @updated sub checkpoint newId hsub hnone hmarks =>
    obtain ⟨-, htask, -⟩ := hc.submission sub hsub
    have hzero := hs.unapplied (by rwa [htask] at hnone)
    refine ⟨?_, ?_, ?_⟩
    · intro response hm
      exact hs.returned response (by simpa using hm)
    · simp [List.count_append, htask, hzero]
    · intro hm
      change marker (some checkpoint) _ = none at hm
      rw [hmarks, if_pos htask] at hm
      simp at hm
  | @advanced sub checkpoint newId hsub hstage hmarks =>
    refine ⟨hs.returned, hs.applied_le, fun hm => hs.unapplied ?_⟩
    change marker (some checkpoint) _ = none at hm
    rwa [hmarks] at hm
  | @committed sub rows response hsub hrows hstage =>
    obtain ⟨-, -, hopen⟩ := hc.submission sub hsub
    obtain ⟨row, hload, -⟩ := hc.load_commit hsub hrows response
    refine ⟨?_, ?_, ?_⟩
    · intro response' hm
      rcases List.mem_append.mp hm with hm | hm
      · obtain ⟨row', hl', hr'⟩ := hs.returned response' hm
        rw [hopen row' hl'] at hr'
        simp at hr'
      · obtain ⟨-, rfl⟩ : _ ∧ response' = response := by simpa using hm
        exact ⟨_, hload, rfl⟩
    · simpa [System.commit, List.count_append] using hs.applied_le
    · simpa [System.commit, List.count_append] using hs.unapplied

theorem Waiting.ledger {ref : String} {record : AgentHandoffRecord} {s : System}
    (h : Waiting ref record s) : Ledger ref record s := by
  constructor <;> simp [h.fresh_log]

def recordedHash (s : System) (ref : String) : Option String :=
  match load s.rows ref with
  | none => none
  | some row => if row.response.isSome then row.resultHash else marker s.graph row.task.taskId

def callResult (s : System) : Action → Option AgentResult
  | .submitBegin _ result => some result
  | _ => s.submission.map Submission.result

def Decides (s : System) (ref : String) : Action → Prop
  | .submitBegin _ _ => ∀ row, load s.rows ref = some row → row.response.isSome
  | .applyCompletion _ _ => True
  | _ => False

structure Rejected (s t : System) (ref hash : String) (a : Action) : Prop where
  rows : t.rows = s.rows
  graph : t.graph = s.graph
  log : t.log = s.log ∨ ∃ ref hash, t.log = s.log ++ [.rejected ref hash]
  told : Decides s ref a → t.log = s.log ++ [.rejected ref hash] ∧ t.submission = none

theorem submitEntry_conflict {rt : HostRuntime} {rows : List AgentHandoffRecord} {ref hash : String}
    {result : AgentResult} {row : AgentHandoffRecord} (hl : load rows ref = some row)
    (hsome : row.response.isSome) (hh : row.resultHash = some hash) (hne : hash ≠ rt.resultHash result) :
    ∃ message, rt.submitEntry rows ref result = .error message := by
  cases he : rt.submitEntry rows ref result with
  | error message => exact ⟨message, rfl⟩
  | ok entry =>
    exfalso
    cases entry with
    | cached response =>
      obtain ⟨record, hl', -, hh'⟩ := submitEntry_cached he
      obtain rfl := Option.some.inj (hl.symm.trans hl')
      exact hne (Option.some.inj (hh.symm.trans hh'))
    | opened =>
      obtain ⟨record, hl', hr, -⟩ := submitEntry_opened he
      obtain rfl := Option.some.inj (hl.symm.trans hl')
      simp [hr] at hsome

theorem applyCompletion_conflict {rt : HostRuntime} {s : System} {sub : Submission} {hash : String}
    (hm : marker s.graph sub.result.taskId = some hash) (hne : hash ≠ rt.resultHash sub.result)
    (record : AgentHandoffRecord) (output : Dict String Value) (newId : String) (next : List String) :
    rt.applyCompletion s sub record output newId next =
      s.rejected sub.checkpointRef (rt.resultHash sub.result) := by
  unfold HostRuntime.applyCompletion
  simp only
  split
  · rfl
  · rename_i hal
    have hmark := applyExternalPhaseCompletion_already hal
    exact absurd (Option.some.inj (hm.symm.trans hmark)) hne
  · rename_i checkpoint hup
    obtain ⟨latest, happ⟩ := applyExternalPhaseCompletion_updated hup
    have hnone := happ.unmarked
    simp [hm] at hnone

section

variable {rt : HostRuntime} {ref h : String} {record : AgentHandoffRecord} {s t : System}
variable {result : AgentResult}

theorem Consistent.recordedHash_eq (hs : Consistent rt ref record s) :
    ∃ row, load s.rows ref = some row ∧ row.task = record.task ∧
      recordedHash s ref =
        if row.response.isSome then row.resultHash else marker s.graph record.task.taskId := by
  obtain ⟨row, hl, ht⟩ := hs.row
  exact ⟨row, hl, ht, by simp [recordedHash, hl, ht]⟩

theorem Consistent.open_conflict (hs : Consistent rt ref record s) {sub : Submission}
    (hsub : s.submission = some sub) (hrec : recordedHash s ref = some h)
    (hne : h ≠ rt.resultHash sub.result) :
    sub.stage = .opened ∧ marker s.graph sub.result.taskId = some h := by
  obtain ⟨row, hl, ht, heq⟩ := hs.recordedHash_eq
  obtain ⟨-, htask, hopen⟩ := hs.submission sub hsub
  rw [hopen row hl, hrec] at heq
  have hmark : marker s.graph record.task.taskId = some h := by simpa using heq.symm
  refine ⟨?_, by rw [htask, hmark]⟩
  cases hst : sub.stage with
  | opened => rfl
  | applied =>
    have happ := hs.applied sub hsub hst
    rw [hmark] at happ
    exact absurd (Option.some.inj happ) hne

theorem Consistent.begin_conflict_rejected (hs : Consistent rt ref record s)
    (hidle : s.submission = none) (hrec : recordedHash s ref = some h) (hne : h ≠ rt.resultHash result) :
    Rejected s (rt.submitBegin s ref result) ref (rt.resultHash result) (.submitBegin ref result) := by
  obtain ⟨row, hl, -, heq⟩ := hs.recordedHash_eq
  rw [hrec] at heq
  cases hsome : row.response.isSome with
  | true =>
    rw [hsome, if_pos rfl] at heq
    obtain ⟨message, he⟩ := submitEntry_conflict hl hsome heq.symm hne
    have ht : rt.submitBegin s ref result = s.logged (.rejected ref (rt.resultHash result)) := by
      simp [HostRuntime.submitBegin, he]
    rw [ht]
    exact ⟨rfl, rfl, Or.inr ⟨_, _, rfl⟩, fun _ => ⟨rfl, hidle⟩⟩
  | false =>
    have hnot : ¬ Decides s ref (.submitBegin ref result) := by
      intro hd
      have hd' := hd row hl
      simp [hsome] at hd'
    have heff := submitBegin_effect rt s ref result hidle
    generalize rt.submitBegin s ref result = t at heff ⊢
    cases heff with
    | aborted => exact ⟨rfl, rfl, Or.inl rfl, fun hd => absurd hd hnot⟩
    | refused => exact ⟨rfl, rfl, Or.inr ⟨_, _, rfl⟩, fun hd => absurd hd hnot⟩
    | cached ha hload hresponse hhash =>
      injection ha with href
      rw [← href, hl] at hload
      obtain rfl := Option.some.inj hload
      simp [hresponse] at hsome
    | opened => exact ⟨rfl, rfl, Or.inl rfl, fun hd => absurd hd hnot⟩
    | already hsub => simp [hidle] at hsub
    | updated hsub => simp [hidle] at hsub
    | advanced hsub => simp [hidle] at hsub
    | committed hsub => simp [hidle] at hsub

theorem Consistent.conflict_rejected (hs : Consistent rt ref record s) {a : Action}
    (hg : SubmitGuard rt ref s a) (hstep : rt.step s a = some t) (hcall : callResult s a = some result)
    (hrec : recordedHash s ref = some h) (hne : h ≠ rt.resultHash result) :
    Rejected s t ref (rt.resultHash result) a := by
  have hopen : ∀ sub, s.submission = some sub → sub.result = result →
      sub.stage = .opened ∧ marker s.graph sub.result.taskId = some h := by
    rintro sub hsub rfl
    exact hs.open_conflict hsub hrec hne
  have hunapplied : ∀ sub, s.submission = some sub → sub.result = result → ¬ CommitsUnapplied a := by
    intro sub hsub heq hc
    obtain ⟨hst, hm⟩ := hopen sub hsub heq
    exact hne (heq ▸ hg.2 hc sub hsub hst h hm)
  cases a with
  | submitBegin ref' result' =>
    obtain rfl : result' = result := Option.some.inj hcall
    obtain rfl : ref' = ref := hg.1
    simp only [HostRuntime.step] at hstep
    split_ifs at hstep with hidle
    obtain rfl := Option.some.inj hstep
    exact hs.begin_conflict_rejected (by simpa using hidle) hrec hne
  | engineFails error =>
    obtain ⟨sub, hsub, heq⟩ := Option.map_eq_some_iff.mp hcall
    exact absurd trivial (hunapplied sub hsub heq)
  | applyCompletion newId next =>
    obtain ⟨sub, hsub, rfl⟩ := Option.map_eq_some_iff.mp hcall
    obtain ⟨-, hm⟩ := hopen sub hsub rfl
    obtain ⟨hsref, -, -⟩ := hs.submission sub hsub
    simp only [HostRuntime.step] at hstep
    split at hstep
    · rename_i ref' result hsub'
      obtain rfl := Option.some.inj (hsub.symm.trans hsub')
      split at hstep
      · split_ifs at hstep
        obtain rfl := Option.some.inj hstep
        obtain rfl : ref' = ref := hsref
        rw [applyCompletion_conflict hm hne]
        exact ⟨rfl, rfl, Or.inr ⟨_, _, rfl⟩, fun _ => ⟨rfl, rfl⟩⟩
      · simp at hstep
    · simp at hstep
  | superstep move =>
    obtain ⟨sub, hsub, heq⟩ := Option.map_eq_some_iff.mp hcall
    obtain ⟨hst, -⟩ := hopen sub hsub heq
    simp only [HostRuntime.step] at hstep
    split at hstep
    · rename_i hsub' _
      obtain rfl := Option.some.inj (hsub.symm.trans hsub')
      simp at hst
    · simp at hstep
  | submitCommit conclusion =>
    obtain ⟨sub, hsub, heq⟩ := Option.map_eq_some_iff.mp hcall
    exact absurd trivial (hunapplied sub hsub heq)
  | submitAbort =>
    obtain rfl := Option.some.inj hstep
    exact ⟨rfl, rfl, Or.inl rfl, fun hd => absurd hd id⟩
  | _ => exact absurd hg.1 id

end

def writeIo : PhaseIo where
  inputs := Dict.ofList [("type", .str "object"),
    ("properties", .dict [("topic", .dict [("type", .str "string")])])]
  outputs := writeTask.outputSchema

def statusHash (result : AgentResult) : String :=
  match result.status with
  | .completed => "completed:" ++ result.executorId
  | .failed => "failed:" ++ result.executorId
  | .cancelled => "cancelled:" ++ result.executorId

def writeRuntime : HostRuntime where
  V := acceptingValidator
  request := writeRequest
  graphId := "main"
  phases := Dict.ofList [("write", writeIo), ("review", writeIo)]
  resultHash := statusHash
  taskId := TaskIdentity.checkpointId

def writeWaiting : System where
  rows := [writeRecord]
  graph := some (pausedCheckpoint writeRecord writeRequest.inputs)
  issued := ["c1"]
  submission := none
  runs := []
  log := []

theorem writeWaiting_waiting : Waiting writeRecord.checkpointRef writeRecord writeWaiting :=
  ⟨by decide, rfl, rfl, rfl, rfl⟩

def draftCompleted : AgentResult := completedResult (Dict.single "draft" (.str "text"))

def draftFailed : AgentResult where
  taskId := "t1"
  status := .failed
  error := some ⟨"AGENT_FAILED", "the host gave up"⟩
  executorId := "host"
  completed_output := by decide
  terminal_error := fun _ => rfl

theorem committed_hash_matches_marker {rt : HostRuntime} {ref : String} {record : AgentHandoffRecord}
    {s t : System} {actions : List Action} (hstart : Waiting ref record s)
    (hrun : Run rt.step (SubmitGuard rt ref) s actions t) :
    ∀ row, load t.rows ref = some row → row.response.isSome →
      ∀ h, marker t.graph row.task.taskId = some h → row.resultHash = some h := by
  have hc := hrun.invariant (fun _ _ _ hs hg h => hs.step hg h) hstart.consistent
  intro row hl hsome h hm
  obtain ⟨row', hl', ht⟩ := hc.row
  obtain rfl := Option.some.inj (hl'.symm.trans hl)
  exact hc.committed _ hl hsome h (by rwa [ht] at hm)

def ref1 : String := writeRecord.checkpointRef

def draftSubmission : List Action :=
  [.submitBegin ref1 draftCompleted, .applyCompletion "c2" [], .submitCommit (.stopped none)]

def draftSubmitted : System := (exec writeRuntime.step writeWaiting draftSubmission).getD writeWaiting

theorem draftSubmission_run :
    Run writeRuntime.step (SubmitGuard writeRuntime ref1) writeWaiting draftSubmission draftSubmitted := by
  refine .cons ⟨rfl, fun hc => absurd hc id⟩ rfl (.cons ⟨trivial, fun hc => absurd hc id⟩ rfl
    (.cons ⟨trivial, ?_⟩ rfl (.nil _)))
  intro _ sub hsub hst
  obtain rfl := Option.some.inj hsub
  simp at hst

theorem committed_hash_matches_marker_draft :
    ∃ t, Run writeRuntime.step (SubmitGuard writeRuntime ref1) writeWaiting
        [.submitBegin ref1 draftCompleted, .applyCompletion "c2" [], .submitCommit (.stopped none)] t ∧
      ∃ row, load t.rows ref1 = some row ∧ row.response.isSome ∧
        marker t.graph row.task.taskId = some "completed:host" ∧
        row.resultHash = some "completed:host" := by
  exact ⟨_, draftSubmission_run, _, rfl, rfl, rfl,
    committed_hash_matches_marker writeWaiting_waiting draftSubmission_run _ rfl rfl _ rfl⟩

def failedRetry : List Action :=
  [.submitBegin ref1 draftCompleted, .applyCompletion "c2" ["review"], .submitAbort,
    .submitBegin ref1 draftFailed, .submitCommit (.stopped none)]

theorem failedRetry_submits : ∀ a ∈ failedRetry, SubmitsOnly ref1 a := by
  simp [failedRetry, SubmitsOnly]

theorem failed_retry_commits_other_hash :
    ∃ t, Run writeRuntime.step (fun _ a => SubmitsOnly ref1 a) writeWaiting failedRetry t ∧
      ∃ row, load t.rows ref1 = some row ∧ row.response.isSome ∧
        marker t.graph row.task.taskId = some "completed:host" ∧
        row.resultHash ≠ some "completed:host" := by
  exact ⟨_, Run.of_exec (fun _ => failedRetry_submits) rfl, _, rfl, rfl, rfl, by decide⟩

theorem submissions_apply_once {rt : HostRuntime} {ref : String} {record : AgentHandoffRecord}
    {s t : System} {actions : List Action} (hstart : Waiting ref record s)
    (hrun : Run rt.step (SubmitGuard rt ref) s actions t) :
    t.log.count (.applied record.task.taskId) ≤ 1 ∧
      (∀ response response', Event.returned ref response ∈ t.log →
        Event.returned ref response' ∈ t.log → response = response') ∧
      ∀ a u result h, SubmitGuard rt ref t a → rt.step t a = some u → callResult t a = some result →
        recordedHash t ref = some h → h ≠ rt.resultHash result →
        Rejected t u ref (rt.resultHash result) a := by
  have hinv := hrun.invariant
    (fun _ _ _ (hs : Consistent rt ref record _ ∧ Ledger ref record _) hg h =>
      ⟨hs.1.step hg h, hs.2.step hs.1 hg h⟩) ⟨hstart.consistent, hstart.ledger⟩
  refine ⟨hinv.2.applied_le, ?_, ?_⟩
  · intro response response' h h'
    obtain ⟨row, hl, hr⟩ := hinv.2.returned response h
    obtain ⟨row', hl', hr'⟩ := hinv.2.returned response' h'
    obtain rfl := Option.some.inj (hl.symm.trans hl')
    exact Option.some.inj (hr.symm.trans hr')
  · intro a u result h hg hstep hcall hrec hne
    exact hinv.1.conflict_rejected hg hstep hcall hrec hne

theorem submissions_apply_once_draft :
    ∃ t u, Run writeRuntime.step (SubmitGuard writeRuntime ref1) writeWaiting
        [.submitBegin ref1 draftCompleted, .applyCompletion "c2" [], .submitCommit (.stopped none)] t ∧
      writeRuntime.step t (.submitBegin ref1 draftFailed) = some u ∧
      Rejected t u ref1 "failed:host" (.submitBegin ref1 draftFailed) := by
  refine ⟨_, _, draftSubmission_run, rfl, ?_⟩
  exact (submissions_apply_once writeWaiting_waiting draftSubmission_run).2.2 (.submitBegin ref1 draftFailed) _
    draftFailed "completed:host" ⟨rfl, fun hc => absurd hc id⟩ rfl rfl rfl (by decide)

theorem failed_retry_is_not_rejected :
    ∃ t u, Run writeRuntime.step (fun _ a => SubmitsOnly ref1 a) writeWaiting (failedRetry.take 4) t ∧
      writeRuntime.step t (.submitCommit (.stopped none)) = some u ∧
      callResult t (.submitCommit (.stopped none)) = some draftFailed ∧
      recordedHash t ref1 = some "completed:host" ∧
      "completed:host" ≠ writeRuntime.resultHash draftFailed ∧
      ¬ Rejected t u ref1 (writeRuntime.resultHash draftFailed) (.submitCommit (.stopped none)) := by
  refine ⟨_, _, Run.of_exec (fun _ a ha => failedRetry_submits a (List.mem_of_mem_take ha)) rfl, rfl, rfl,
    rfl, by decide, fun h => ?_⟩
  have hrows := congrArg (List.map AgentHandoffRecord.resultHash) h.rows
  revert hrows
  decide

end GraphSkillRuntime
