import GraphSkillRuntime.HandoffAgreement

namespace GraphSkillRuntime

open OrderedDict Runs

/-! One active wait per run, across runs, recoveries and submissions. -/

structure WaitsAt (row : AgentHandoffRecord) (latest : Checkpoint) : Prop where
  checkpointId : latest.checkpointId = row.checkpointId
  checkpointNs : latest.checkpointNs = row.checkpointNs
  next : latest.next.head? = some row.task.address.phaseId
  unmarked : marker (some latest) row.task.taskId = none

structure PassedBy (rows : List AgentHandoffRecord) (row : AgentHandoffRecord) (latest : Checkpoint) :
    Prop where
  marked : (marker (some latest) row.task.taskId).isSome
  beyond : ∀ r ∈ rows, r.checkpointId ≠ latest.checkpointId

def rowIdentity (rt : HostRuntime) (row : AgentHandoffRecord) : TaskIdentity where
  runId := rt.request.runId
  address := row.task.address
  checkpointId := row.checkpointId
  checkpointNs := row.checkpointNs

structure WellNamed (rt : HostRuntime) (row : AgentHandoffRecord) : Prop where
  runId : row.task.runId = rt.request.runId
  graphId : row.task.address.graphId = rt.graphId
  phase : rt.phases.contains row.task.address.phaseId
  root : row.checkpointNs = ""
  taskId : row.task.taskId = rt.taskId (rowIdentity rt row)
  checkpointRef : row.checkpointRef = rt.checkpointRef (rowIdentity rt row)

def Terminal (response : RunResult) : Prop :=
  ∀ task ref, response.status ≠ .agentRequired task ref

structure Settled (graph : Option Checkpoint) (rows init : List AgentHandoffRecord)
    (last : AgentHandoffRecord) : Prop where
  rows_eq : rows = init ++ [last]
  settled : ∀ row ∈ init, row.response.isSome
  active : last.response = none →
    ∃ latest, graph = some latest ∧ (WaitsAt last latest ∨ PassedBy rows last latest)
  terminal : ∀ response, last.response = some response → Terminal response

structure WorksOn (graph : Option Checkpoint) (rows : List AgentHandoffRecord) (sub : Submission)
    (init : List AgentHandoffRecord) (last : AgentHandoffRecord) : Prop where
  settled : Settled graph rows init last
  waiting : last.response = none
  checkpointRef : sub.checkpointRef = last.checkpointRef
  taskId : sub.result.taskId = last.task.taskId
  marked : sub.stage = .applied → (marker graph last.task.taskId).isSome

structure OfRun (rt : HostRuntime) (issued : List String) (i : TaskIdentity) : Prop where
  runId : i.runId = rt.request.runId
  graphId : i.address.graphId = rt.graphId
  phase : rt.phases.contains i.address.phaseId
  checkpoint : i.checkpointId ∈ issued
  root : i.checkpointNs = ""

def NamesCheckpoints (rt : HostRuntime) (issued : List String) : Prop :=
  ∀ i j, OfRun rt issued i → OfRun rt issued j → rt.taskId i = rt.taskId j → i.checkpointId = j.checkpointId

structure SingleWait (rt : HostRuntime) (s : System) : Prop where
  runs_le : s.runs.length ≤ 1
  runs_alone : s.runs ≠ [] → s.rows = [] ∧ s.submission = none
  putting : ∀ record, RunStage.putting record ∈ s.runs → WellNamed rt record ∧ record.response = none ∧
    ∃ latest, s.graph = some latest ∧ WaitsAt record latest
  named : ∀ row ∈ s.rows, WellNamed rt row ∧ row.checkpointId ∈ s.issued
  unique_ref : (s.rows.map AgentHandoffRecord.checkpointRef).Nodup
  graph_issued : ∀ latest, s.graph = some latest → latest.checkpointId ∈ s.issued ∧ latest.checkpointNs = ""
  marks : ∀ t, (marker s.graph t).isSome → ∃ row ∈ s.rows, row.task.taskId = t
  table : s.rows = [] ∨ ∃ init last, Settled s.graph s.rows init last
  submission : ∀ sub, s.submission = some sub → ∃ init last, WorksOn s.graph s.rows sub init last

def Undisturbed (rt : HostRuntime) (s : System) : Action → Prop
  | .runBegin => recoverRun s.rows rt.request.runId = none → s.runs = []
  | .submitBegin _ _ | .engineFails _ | .applyCompletion _ _ | .superstep _ | .submitCommit _ => s.runs = []
  | _ => True

structure Unstarted (s : System) : Prop where
  rows : s.rows = []
  graph : s.graph = none
  submission : s.submission = none
  runs : s.runs = []

theorem Unstarted.singleWait {rt : HostRuntime} {s : System} (h : Unstarted s) : SingleWait rt s where
  runs_le := by simp [h.runs]
  runs_alone := by simp [h.runs]
  putting := by simp [h.runs]
  named := by simp [h.rows]
  unique_ref := by simp [h.rows]
  graph_issued := by simp [h.graph]
  marks := by simp [h.graph, marker]
  table := Or.inl h.rows
  submission := by simp [h.submission]

section Table

variable {rt : HostRuntime}

variable {issued : List String} {row row' : AgentHandoffRecord}

theorem NamesCheckpoints.mono {issued' : List String} (h : NamesCheckpoints rt issued')
    (hsub : issued ⊆ issued') : NamesCheckpoints rt issued := by
  have hmono : ∀ i, OfRun rt issued i → OfRun rt issued' i := fun i hi =>
    ⟨hi.runId, hi.graphId, hi.phase, hsub hi.checkpoint, hi.root⟩
  exact fun i j hi hj => h i j (hmono i hi) (hmono j hj)

theorem WellNamed.ofRun (h : WellNamed rt row) (hi : row.checkpointId ∈ issued) :
    OfRun rt issued (rowIdentity rt row) :=
  ⟨rfl, h.graphId, h.phase, hi, h.root⟩

theorem WellNamed.checkpointId_eq (hinj : NamesCheckpoints rt issued) (h : WellNamed rt row)
    (hi : row.checkpointId ∈ issued) (h' : WellNamed rt row') (hi' : row'.checkpointId ∈ issued)
    (he : row.task.taskId = row'.task.taskId) : row.checkpointId = row'.checkpointId := by
  rw [h.taskId, h'.taskId] at he
  exact hinj _ _ (h.ofRun hi) (h'.ofRun hi') he

theorem WellNamed.taskId_eq_of_ref (h : WellNamed rt row) (h' : WellNamed rt row')
    (he : row.checkpointRef = row'.checkpointRef) : row.task.taskId = row'.task.taskId := by
  rw [h.checkpointRef, h'.checkpointRef] at he
  rw [h.taskId, h'.taskId]
  exact (String.append_right_inj "gskill-handoff-v1:").mp he

theorem insertRequired_new (hinj : NamesCheckpoints rt issued) {rows : List AgentHandoffRecord}
    {record : AgentHandoffRecord} (hrows : ∀ row ∈ rows, WellNamed rt row ∧ row.checkpointId ∈ issued)
    (hrec : WellNamed rt record) (hi : record.checkpointId ∈ issued)
    (hnew : ∀ row ∈ rows, row.checkpointId ≠ record.checkpointId) :
    insertRequired rows record = .ok (rows ++ [record]) := by
  have hnone : rows.find? (sameIdentity record) = none := by
    rw [List.find?_eq_none]
    intro row hm hs
    simp only [sameIdentity, Bool.decide_or, Bool.or_eq_true, decide_eq_true_eq] at hs
    obtain ⟨hrow, hissued⟩ := hrows row hm
    apply hnew row hm
    rcases hs with hs | hs
    · exact hrow.checkpointId_eq hinj hissued hrec hi (hrow.taskId_eq_of_ref hrec hs)
    · exact hrow.checkpointId_eq hinj hissued hrec hi hs
  rw [insertRequired, hnone]

theorem buildAgentHandoff_ok {mode : RunMode} {deadline : Option String} {latest : Checkpoint}
    {record : AgentHandoffRecord} (h : rt.buildAgentHandoff mode deadline latest = .ok record) :
    (latest.checkpointNs = "" → WellNamed rt record) ∧ record.response = none ∧
      record.checkpointId = latest.checkpointId ∧
      record.checkpointNs = latest.checkpointNs ∧
      latest.next.head? = some record.task.address.phaseId ∧
      record.requiredResponse.status = .agentRequired record.task record.checkpointRef := by
  unfold HostRuntime.buildAgentHandoff at h
  cases hn : latest.next with
  | nil => simp [hn] at h
  | cons phaseId rest =>
    rw [hn] at h
    simp only at h
    cases hp : rt.phases.get? phaseId with
    | none => simp [hp] at h
    | some io =>
      rw [hp] at h
      simp only at h
      split_ifs at h
      obtain ⟨inputs, -, h⟩ := bind_ok h
      obtain rfl := Except.ok.inj h
      have hphase : rt.phases.contains phaseId := by simp [Dict.contains, hp]
      exact ⟨fun hroot => ⟨rfl, rfl, hphase, hroot, rfl, rfl⟩, rfl, rfl, rfl, rfl, rfl⟩

theorem setResponse_of_ne {rows : List AgentHandoffRecord} {ref hash : String} {response : RunResult}
    (h : ∀ row ∈ rows, row.checkpointRef ≠ ref) : setResponse rows ref hash response = rows := by
  rw [setResponse]
  refine (List.map_congr_left fun row hm => ?_).trans (List.map_id _)
  rw [if_neg (h row hm), id]

theorem init_ref_ne {init : List AgentHandoffRecord} {last : AgentHandoffRecord}
    (hn : ((init ++ [last]).map AgentHandoffRecord.checkpointRef).Nodup) :
    ∀ row ∈ init, row.checkpointRef ≠ last.checkpointRef := by
  intro row hm he
  rw [List.map_append, List.nodup_append'] at hn
  exact hn.2.2 (List.mem_map_of_mem hm) (by simp [he])

theorem setResponse_last {init : List AgentHandoffRecord} {last : AgentHandoffRecord} {hash : String}
    {response : RunResult} (hn : ((init ++ [last]).map AgentHandoffRecord.checkpointRef).Nodup) :
    setResponse (init ++ [last]) last.checkpointRef hash response =
      init ++ [{ last with resultHash := some hash, response := some response }] := by
  have hinit : setResponse init last.checkpointRef hash response = init :=
    setResponse_of_ne (init_ref_ne hn)
  rw [setResponse, List.map_append, ← setResponse, hinit]
  simp

end Table

section Issued

variable {rt : HostRuntime} {s : System}

theorem submitBegin_issued (ref : String) (result : AgentResult) :
    (rt.submitBegin s ref result).issued = s.issued := by
  unfold HostRuntime.submitBegin
  split <;> rfl

theorem subset_applyCompletion_issued (sub : Submission) (record : AgentHandoffRecord)
    (output : Dict String Value) (newId : String) (next : List String) :
    s.issued ⊆ (rt.applyCompletion s sub record output newId next).issued := by
  unfold HostRuntime.applyCompletion
  simp only
  split
  · exact List.Subset.refl _
  · exact List.Subset.refl _
  · exact List.subset_cons_self _ _

theorem submitCommit_issued (sub : Submission) (latest : Checkpoint) (conclusion : Conclusion) :
    (rt.submitCommit s sub latest conclusion).issued = s.issued := by
  cases conclusion with
  | raised error => rfl
  | stopped deadline =>
    unfold HostRuntime.submitCommit
    simp only
    split_ifs
    · rfl
    · split
      · rfl
      · split <;> rfl

theorem runRecover_issued (i : Nat) (deadline : Option String) :
    (rt.runRecover s i deadline).issued = s.issued := by
  unfold HostRuntime.runRecover
  split
  · rfl
  · split_ifs
    · split <;> rfl
    · rfl

theorem runPut_issued (i : Nat) (record : AgentHandoffRecord) : (s.runPut i record).issued = s.issued := by
  unfold System.runPut
  split <;> rfl

theorem issued_subset {t : System} {a : Action} (h : rt.step s a = some t) : s.issued ⊆ t.issued := by
  cases a <;> simp only [HostRuntime.step] at h
  case submitBegin ref result =>
    split_ifs at h
    obtain rfl := Option.some.inj h
    rw [submitBegin_issued]
    exact List.Subset.refl _
  case applyCompletion newId next =>
    split at h
    · split at h
      · split_ifs at h
        obtain rfl := Option.some.inj h
        exact subset_applyCompletion_issued ..
      · simp at h
    · simp at h
  case submitCommit conclusion =>
    split at h
    · obtain rfl := Option.some.inj h
      rw [submitCommit_issued]
      exact List.Subset.refl _
    · split at h
      · obtain rfl := Option.some.inj h
        exact List.Subset.refl _
      · simp at h
    · simp at h
  case engineFails error =>
    split at h
    · split at h
      · obtain rfl := Option.some.inj h
        exact List.Subset.refl _
      · simp at h
    · simp at h
  case superstep move =>
    split at h
    · split_ifs at h
      obtain rfl := Option.some.inj h
      exact List.subset_cons_self _ _
    · simp at h
  case submitAbort =>
    obtain rfl := Option.some.inj h
    exact List.Subset.refl _
  case runBegin =>
    split at h
    all_goals
      obtain rfl := Option.some.inj h
      exact List.Subset.refl _
  case runRecover i deadline =>
    split at h
    · obtain rfl := Option.some.inj h
      rw [runRecover_issued]
      exact List.Subset.refl _
    · simp at h
  case runStart i newId next =>
    split at h
    · split_ifs at h
      obtain rfl := Option.some.inj h
      exact List.subset_cons_self _ _
    · simp at h
  case runSuperstep i move =>
    split at h
    · split_ifs at h
      obtain rfl := Option.some.inj h
      exact List.subset_cons_self _ _
    · simp at h
  case runPause i deadline =>
    split at h
    · split at h
      all_goals
        obtain rfl := Option.some.inj h
        exact List.Subset.refl _
    · simp at h
  case runPut i =>
    split at h
    · split_ifs at h
      obtain rfl := Option.some.inj h
      rw [runPut_issued]
      exact List.Subset.refl _
    · simp at h
  case runDrop i =>
    obtain rfl := Option.some.inj h
    exact List.Subset.refl _

end Issued

section Steps

variable {rt : HostRuntime} {s : System}

theorem Settled.rows_ne {graph : Option Checkpoint} {rows init : List AgentHandoffRecord}
    {last : AgentHandoffRecord} (h : Settled graph rows init last) : rows ≠ [] := by
  simp [h.rows_eq]

theorem SingleWait.closed (hs : SingleWait rt s) (log : List Event) :
    SingleWait rt { s with submission := none, log := log } :=
  ⟨hs.runs_le, fun h => ⟨(hs.runs_alone h).1, rfl⟩, hs.putting, hs.named, hs.unique_ref,
    hs.graph_issued, hs.marks, hs.table, by simp⟩

theorem SingleWait.logged (hs : SingleWait rt s) (event : Event) : SingleWait rt (s.logged event) :=
  ⟨hs.runs_le, hs.runs_alone, hs.putting, hs.named, hs.unique_ref, hs.graph_issued, hs.marks, hs.table,
    hs.submission⟩

theorem SingleWait.staged (hs : SingleWait rt s) (hruns : s.runs = []) {sub : Submission}
    {init : List AgentHandoffRecord} {last : AgentHandoffRecord}
    (hw : WorksOn s.graph s.rows sub init last) : SingleWait rt { s with submission := some sub } where
  runs_le := hs.runs_le
  runs_alone := fun h => absurd hruns h
  putting := hs.putting
  named := hs.named
  unique_ref := hs.unique_ref
  graph_issued := hs.graph_issued
  marks := hs.marks
  table := hs.table
  submission := fun sub' hsub => by
    obtain rfl := Option.some.inj hsub
    exact ⟨init, last, hw⟩

theorem SingleWait.waiting_row_is_last (hs : SingleWait rt s) {ref : String} {row : AgentHandoffRecord}
    (hl : load s.rows ref = some row) (hr : row.response = none) :
    ∃ init, Settled s.graph s.rows init row := by
  obtain ⟨hm, -⟩ := load_some hl
  rcases hs.table with he | ⟨init, last, hset⟩
  · simp [he] at hm
  · rw [hset.rows_eq, List.mem_append, List.mem_singleton] at hm
    rcases hm with hm | rfl
    · have hsome := hset.settled row hm
      simp [hr] at hsome
    · exact ⟨init, hset⟩

theorem SingleWait.moved (hs : SingleWait rt s) (hruns : s.runs = []) {sub : Submission}
    {init : List AgentHandoffRecord} {last : AgentHandoffRecord} {checkpoint : Checkpoint}
    (hw : WorksOn s.graph s.rows sub init last) (hnew : checkpoint.checkpointId ∉ s.issued)
    (hroot : checkpoint.checkpointNs = "") (hmarked : (marker (some checkpoint) last.task.taskId).isSome)
    (hmarks : ∀ t, (marker (some checkpoint) t).isSome → t = last.task.taskId ∨ (marker s.graph t).isSome)
    (log : List Event) :
    SingleWait rt
      { s with
        graph := some checkpoint
        issued := checkpoint.checkpointId :: s.issued
        submission := some { sub with stage := .applied }
        log := log } := by
  have hlast : last ∈ s.rows := by simp [hw.settled.rows_eq]
  have hset : Settled (some checkpoint) s.rows init last := by
    refine ⟨hw.settled.rows_eq, hw.settled.settled, fun _ => ?_, hw.settled.terminal⟩
    refine ⟨checkpoint, rfl, Or.inr ⟨hmarked, fun row hm he => hnew ?_⟩⟩
    rw [← he]
    exact (hs.named row hm).2
  refine ⟨hs.runs_le, fun h => absurd hruns h, by simp [hruns], ?_, hs.unique_ref, ?_, ?_,
    Or.inr ⟨init, last, hset⟩, ?_⟩
  · intro row hm
    exact ⟨(hs.named row hm).1, List.mem_cons_of_mem _ (hs.named row hm).2⟩
  · intro latest hl
    obtain rfl := Option.some.inj hl
    exact ⟨List.mem_cons_self .., hroot⟩
  · intro t ht
    rcases hmarks t ht with rfl | ht
    · exact ⟨last, hlast, rfl⟩
    · exact hs.marks t ht
  · intro sub' hsub
    obtain rfl := Option.some.inj hsub
    exact ⟨init, last, hset, hw.waiting, hw.checkpointRef, hw.taskId, fun _ => hmarked⟩

def answered (row : AgentHandoffRecord) (hash : String) (response : RunResult) : AgentHandoffRecord :=
  { row with resultHash := some hash, response := some response }

theorem SingleWait.named_answered (hs : SingleWait rt s) {init : List AgentHandoffRecord}
    {last : AgentHandoffRecord} (hrows : s.rows = init ++ [last]) (hash : String) (response : RunResult) :
    ∀ row ∈ init ++ [answered last hash response], WellNamed rt row ∧ row.checkpointId ∈ s.issued := by
  intro row hm
  rcases List.mem_append.mp hm with hm | hm
  · exact hs.named row (by simp [hrows, hm])
  · obtain rfl := List.mem_singleton.mp hm
    obtain ⟨hn, hi⟩ := hs.named last (by simp [hrows])
    exact ⟨⟨hn.runId, hn.graphId, hn.phase, hn.root, hn.taskId, hn.checkpointRef⟩, hi⟩

theorem SingleWait.marks_answered (hs : SingleWait rt s) {init : List AgentHandoffRecord}
    {last : AgentHandoffRecord} (hrows : s.rows = init ++ [last]) (hash : String) (response : RunResult)
    (t : String) (ht : (marker s.graph t).isSome) :
    ∃ row ∈ init ++ [answered last hash response], row.task.taskId = t := by
  obtain ⟨row, hm, rfl⟩ := hs.marks t ht
  rw [hrows, List.mem_append, List.mem_singleton] at hm
  rcases hm with hm | rfl
  · exact ⟨row, by simp [hm], rfl⟩
  · exact ⟨answered row hash response, by simp, rfl⟩

theorem map_checkpointRef_answered (init : List AgentHandoffRecord) (last : AgentHandoffRecord)
    (hash : String) (response : RunResult) :
    (init ++ [answered last hash response]).map AgentHandoffRecord.checkpointRef =
      (init ++ [last]).map AgentHandoffRecord.checkpointRef := by
  simp [answered]

theorem SingleWait.setResponse_rows (hs : SingleWait rt s) {sub : Submission}
    {init : List AgentHandoffRecord} {last : AgentHandoffRecord} (hw : WorksOn s.graph s.rows sub init last)
    (hash : String) (response : RunResult) :
    setResponse s.rows sub.checkpointRef hash response = init ++ [answered last hash response] := by
  have hrows := hw.settled.rows_eq
  rw [hw.checkpointRef, hrows]
  exact setResponse_last (hrows ▸ hs.unique_ref)

theorem SingleWait.commit_terminal (hs : SingleWait rt s) (hruns : s.runs = []) {sub : Submission}
    {init : List AgentHandoffRecord} {last : AgentHandoffRecord}
    (hw : WorksOn s.graph s.rows sub init last) (hash : String) {response : RunResult}
    (hterm : Terminal response) : SingleWait rt (s.commit s.rows sub.checkpointRef hash response) := by
  have hrows := hw.settled.rows_eq
  unfold System.commit
  rw [hs.setResponse_rows hw]
  refine ⟨hs.runs_le, fun h => absurd hruns h, by simp [hruns], hs.named_answered hrows hash response, ?_,
    hs.graph_issued, hs.marks_answered hrows hash response, Or.inr ⟨init, _, rfl, ?_, ?_, ?_⟩, by simp⟩
  · change ((init ++ [answered last hash response]).map _).Nodup
    rw [map_checkpointRef_answered, ← hrows]
    exact hs.unique_ref
  · exact hw.settled.settled
  · simp [answered]
  · intro response' hr
    obtain rfl := Option.some.inj hr
    exact hterm

theorem WorksOn.beyond {graph : Option Checkpoint} {rows init : List AgentHandoffRecord}
    {last : AgentHandoffRecord} {sub : Submission} (hw : WorksOn graph rows sub init last)
    (hstage : sub.stage = .applied) {latest : Checkpoint} (hgraph : graph = some latest) :
    ∀ row ∈ rows, row.checkpointId ≠ latest.checkpointId := by
  obtain ⟨latest', hl', hcase⟩ := hw.settled.active hw.waiting
  obtain rfl := Option.some.inj (hgraph.symm.trans hl')
  rcases hcase with hwait | hpass
  · -- the result of the active row is in the graph, so the graph waits there no more
    have hmark := hw.marked hstage
    rw [hgraph, hwait.unmarked] at hmark
    simp at hmark
  · exact hpass.beyond

theorem SingleWait.commit_next (hinj : NamesCheckpoints rt s.issued) (hs : SingleWait rt s)
    (hruns : s.runs = []) {sub : Submission} {init : List AgentHandoffRecord} {last : AgentHandoffRecord}
    (hw : WorksOn s.graph s.rows sub init last) (hstage : sub.stage = .applied) {latest : Checkpoint}
    (hgraph : s.graph = some latest) {mode : RunMode} {deadline : Option String}
    {record : AgentHandoffRecord} (hbuild : rt.buildAgentHandoff mode deadline latest = .ok record)
    {rows : List AgentHandoffRecord} (hins : insertRequired s.rows record = .ok rows) (hash : String)
    (response : RunResult) : SingleWait rt (s.commit rows sub.checkpointRef hash response) := by
  have hrows := hw.settled.rows_eq
  obtain ⟨hissued, hroot⟩ := hs.graph_issued latest hgraph
  obtain ⟨hwell, hresp, hid, hns, hnext, -⟩ := buildAgentHandoff_ok hbuild
  have hnamed := hwell hroot
  rw [← hid] at hissued
  have hbeyond : ∀ row ∈ s.rows, row.checkpointId ≠ record.checkpointId := by
    rw [hid]
    exact hw.beyond hstage hgraph
  obtain rfl : s.rows ++ [record] = rows := by
    have hnew := insertRequired_new hinj hs.named hnamed hissued hbeyond
    exact Except.ok.inj (hnew.symm.trans hins)
  have hrefs : ∀ row ∈ s.rows, row.checkpointRef ≠ record.checkpointRef := by
    intro row hm he
    obtain ⟨hrow, hi⟩ := hs.named row hm
    exact hbeyond row hm (hrow.checkpointId_eq hinj hi hnamed hissued (hrow.taskId_eq_of_ref hnamed he))
  have hlast : last ∈ s.rows := by simp [hrows]
  have hset : setResponse (s.rows ++ [record]) sub.checkpointRef hash response =
      (init ++ [answered last hash response]) ++ [record] := by
    have hsecond : setResponse [record] sub.checkpointRef hash response = [record] := by
      apply setResponse_of_ne
      intro row hm
      obtain rfl := List.mem_singleton.mp hm
      rw [hw.checkpointRef]
      exact (hrefs last hlast).symm
    rw [setResponse, List.map_append, ← setResponse, ← setResponse, hs.setResponse_rows hw, hsecond]
  have hunmarked : marker (some latest) record.task.taskId = none := by
    by_contra hne
    obtain ⟨row, hm, ht⟩ := hs.marks record.task.taskId
      (by rw [hgraph]; exact Option.isSome_iff_ne_none.mpr hne)
    obtain ⟨hrow, hi⟩ := hs.named row hm
    exact hbeyond row hm (hrow.checkpointId_eq hinj hi hnamed hissued ht)
  unfold System.commit
  rw [hset]
  refine ⟨hs.runs_le, fun h => absurd hruns h, by simp [hruns], ?_, ?_, hs.graph_issued, ?_,
    Or.inr ⟨init ++ [answered last hash response], record, rfl, ?_, ?_, ?_⟩, by simp⟩
  · intro row hm
    rcases List.mem_append.mp hm with hm | hm
    · exact hs.named_answered hrows hash response row hm
    · obtain rfl := List.mem_singleton.mp hm
      exact ⟨hnamed, hissued⟩
  · change (((init ++ [answered last hash response]) ++ [record]).map _).Nodup
    rw [List.map_append, map_checkpointRef_answered, ← hrows, List.nodup_append']
    refine ⟨hs.unique_ref, by simp, fun ref hm hm' => ?_⟩
    obtain ⟨row, hrow, rfl⟩ := List.mem_map.mp hm
    exact hrefs row hrow (by simpa using hm')
  · intro t ht
    obtain ⟨row, hm, he⟩ := hs.marks_answered hrows hash response t ht
    exact ⟨row, List.mem_append_left _ hm, he⟩
  · intro row hm
    rcases List.mem_append.mp hm with hm | hm
    · exact hw.settled.settled row hm
    · obtain rfl := List.mem_singleton.mp hm
      rfl
  · intro _
    exact ⟨latest, hgraph, Or.inl ⟨hid.symm, hns.symm, hnext, hunmarked⟩⟩
  · intro response' hr
    simp [hresp] at hr

theorem SingleWait.recoverRun_active (hs : SingleWait rt s) {init : List AgentHandoffRecord}
    {last : AgentHandoffRecord} (hset : Settled s.graph s.rows init last) (hr : last.response = none) :
    recoverRun s.rows rt.request.runId = some last.requiredResponse := by
  have hrun := (hs.named last (by simp [hset.rows_eq])).1.runId
  have hact : isActive rt.request.runId last = true := by simp [isActive, hrun, hr]
  rw [recoverRun, hset.rows_eq, List.reverse_append]
  simp [hact]

theorem SingleWait.recoverRun_terminal (hs : SingleWait rt s) {init : List AgentHandoffRecord}
    {last : AgentHandoffRecord} (hset : Settled s.graph s.rows init last) {response : RunResult}
    (hr : last.response = some response) :
    recoverRun s.rows rt.request.runId = some response := by
  have hrun := (hs.named last (by simp [hset.rows_eq])).1.runId
  have hnone : s.rows.reverse.find? (isActive rt.request.runId) = none := by
    rw [List.find?_eq_none]
    intro row hm hact
    have hrow : row.response = none := by
      simp only [isActive, Bool.decide_and, Bool.and_eq_true, decide_eq_true_eq] at hact
      exact hact.2
    rw [hset.rows_eq, List.mem_reverse, List.mem_append, List.mem_singleton] at hm
    rcases hm with hm | rfl
    · have hsome := hset.settled row hm
      simp [hrow] at hsome
    · simp [hr] at hrow
  rw [recoverRun, hnone, hset.rows_eq, List.reverse_append]
  simp [hrun, hr]

theorem SingleWait.rows_of_recoverRun_none (hs : SingleWait rt s)
    (h : recoverRun s.rows rt.request.runId = none) : s.rows = [] ∧ s.submission = none := by
  have hrows : s.rows = [] := by
    rcases hs.table with he | ⟨init, last, hset⟩
    · exact he
    · cases hr : last.response with
      | none => simp [hs.recoverRun_active hset hr] at h
      | some response => simp [hs.recoverRun_terminal hset hr] at h
  refine ⟨hrows, ?_⟩
  cases hsub : s.submission with
  | none => rfl
  | some sub =>
    obtain ⟨init, last, hw⟩ := hs.submission sub hsub
    exact absurd hrows hw.settled.rows_ne

theorem SingleWait.run_moves (hs : SingleWait rt s) (hne : s.runs ≠ []) {runs : List RunStage}
    (hle : runs.length ≤ 1) {graph : Option Checkpoint} {issued : List String}
    (hgraph : ∀ latest, graph = some latest → latest.checkpointId ∈ issued ∧ latest.checkpointNs = "")
    (hmarks : ∀ t, marker graph t = none)
    (hput : ∀ record, RunStage.putting record ∈ runs → WellNamed rt record ∧ record.response = none ∧
      ∃ latest, graph = some latest ∧ WaitsAt record latest) :
    SingleWait rt { s with runs := runs, graph := graph, issued := issued } := by
  obtain ⟨hrows, hsub⟩ := hs.runs_alone hne
  refine ⟨hle, fun _ => ⟨hrows, hsub⟩, hput, by simp [hrows], by simp [hrows], hgraph, ?_,
    Or.inl hrows, by simp [hsub]⟩
  intro t ht
  rw [show marker _ t = none from hmarks t] at ht
  simp at ht

theorem SingleWait.unmarked (hs : SingleWait rt s) (hne : s.runs ≠ []) (t : String) :
    marker s.graph t = none := by
  obtain ⟨hrows, -⟩ := hs.runs_alone hne
  by_contra hm
  obtain ⟨row, hrow, -⟩ := hs.marks t (Option.isSome_iff_ne_none.mpr hm)
  simp [hrows] at hrow

theorem SingleWait.runs_eq (hs : SingleWait rt s) {i : Nat} {stage : RunStage}
    (h : s.runs[i]? = some stage) : s.runs = [stage] ∧ i = 0 := by
  have hle := hs.runs_le
  match hr : s.runs with
  | [] => simp [hr] at h
  | [st] =>
    rw [hr] at h
    cases i with
    | zero => exact ⟨by simpa using h, rfl⟩
    | succ i => simp at h
  | _ :: _ :: _ =>
    rw [hr] at hle
    simp at hle

theorem SingleWait.run_pauses (hs : SingleWait rt s) (hne : s.runs ≠ []) {mode : RunMode}
    {deadline : Option String} {latest : Checkpoint} {record : AgentHandoffRecord}
    (hgraph : s.graph = some latest) (hbuild : rt.buildAgentHandoff mode deadline latest = .ok record) :
    SingleWait rt { s with runs := [.putting record] } := by
  obtain ⟨hwell, hresp, hid, hns, hnext, -⟩ := buildAgentHandoff_ok hbuild
  have hnamed := hwell (hs.graph_issued latest hgraph).2
  refine hs.run_moves hne (by simp) hs.graph_issued (hs.unmarked hne) (fun record' hm => ?_)
  obtain rfl : record' = record := by simpa using hm
  refine ⟨hnamed, hresp, latest, hgraph, hid.symm, hns.symm, hnext, ?_⟩
  rw [← hgraph]
  exact hs.unmarked hne _

theorem SingleWait.run_stops (hs : SingleWait rt s) (i : Nat) : SingleWait rt (s.dropRun i) := by
  have hsub : ∀ stage, stage ∈ s.runs.eraseIdx i → stage ∈ s.runs := fun stage hm =>
    List.mem_of_mem_eraseIdx hm
  refine ⟨?_, ?_, fun record hm => hs.putting record (hsub _ hm), hs.named, hs.unique_ref,
    hs.graph_issued, hs.marks, hs.table, hs.submission⟩
  · have hle := hs.runs_le
    have hlen := List.length_eraseIdx_le s.runs i
    exact hlen.trans hle
  · intro hne
    refine hs.runs_alone (fun he => hne ?_)
    change s.runs.eraseIdx i = []
    rw [he, List.eraseIdx_nil]

theorem SingleWait.run_puts (hs : SingleWait rt s) {record : AgentHandoffRecord}
    (hruns : s.runs = [.putting record]) : SingleWait rt (s.runPut 0 record) := by
  have hne : s.runs ≠ [] := by simp [hruns]
  obtain ⟨hrows, hsub⟩ := hs.runs_alone hne
  obtain ⟨hnamed, hresp, latest, hgraph, hwait⟩ := hs.putting record (by simp [hruns])
  have heq : s.runPut 0 record = { s with runs := [], rows := [record] } := by
    simp [System.runPut, insertRequired, hrows, System.dropRun, hruns]
  rw [heq]
  refine ⟨by simp, by simp, by simp, ?_, by simp, hs.graph_issued, ?_,
    Or.inr ⟨[], record, rfl, by simp, fun _ => ⟨latest, hgraph, Or.inl hwait⟩, by simp [hresp]⟩,
    by simp [hsub]⟩
  · intro row hm
    obtain rfl := List.mem_singleton.mp hm
    exact ⟨hnamed, hwait.checkpointId ▸ (hs.graph_issued latest hgraph).1⟩
  · intro t ht
    rw [show marker _ t = none from hs.unmarked hne t] at ht
    simp at ht

theorem SingleWait.submitBegin (hs : SingleWait rt s) (hruns : s.runs = []) (ref : String)
    (result : AgentResult) : SingleWait rt (rt.submitBegin s ref result) := by
  unfold HostRuntime.submitBegin
  cases h : rt.submitEntry s.rows ref result with
  | error message => exact hs.logged _
  | ok entry =>
    cases entry with
    | cached response => exact hs.logged _
    | opened =>
      obtain ⟨row, hl, hr, ht⟩ := submitEntry_opened h
      obtain ⟨init, hset⟩ := hs.waiting_row_is_last hl hr
      exact hs.staged hruns ⟨hset, hr, (load_some hl).2.symm, ht, by simp⟩

theorem SingleWait.applyCompletion (hs : SingleWait rt s) (hruns : s.runs = []) {sub : Submission}
    (hsub : s.submission = some sub) (record : AgentHandoffRecord) (output : Dict String Value)
    {newId : String} (hnew : newId ∉ s.issued) (next : List String) :
    SingleWait rt (rt.applyCompletion s sub record output newId next) := by
  obtain ⟨init, last, hw⟩ := hs.submission sub hsub
  unfold HostRuntime.applyCompletion
  simp only
  split
  · exact hs.closed _
  · rename_i hal
    have hmark := applyExternalPhaseCompletion_already hal
    refine hs.staged hruns ⟨hw.settled, hw.waiting, hw.checkpointRef, hw.taskId, fun _ => ?_⟩
    rw [← hw.taskId, hmark]
    rfl
  · rename_i checkpoint hup
    obtain ⟨latest, happ⟩ := applyExternalPhaseCompletion_updated hup
    have hmarks : ∀ t, marker (some checkpoint) t =
        if sub.result.taskId = t then some (rt.resultHash sub.result) else marker s.graph t := by
      intro t
      rw [happ.checkpoint_eq, happ.latest_eq]
      exact marker_applied t
    have hid : checkpoint.checkpointId = newId := by rw [happ.checkpoint_eq]
    have hroot : checkpoint.checkpointNs = "" := by
      rw [happ.checkpoint_eq]
      exact (hs.graph_issued latest happ.latest_eq).2
    rw [← hid]
    refine hs.moved hruns hw (hid ▸ hnew) hroot ?_ (fun t ht => ?_) _
    · rw [hmarks, if_pos hw.taskId]
      rfl
    · rw [hmarks] at ht
      split_ifs at ht with he
      · exact Or.inl (he.symm.trans hw.taskId)
      · exact Or.inr ht

theorem SingleWait.advance (hs : SingleWait rt s) (hruns : s.runs = []) {sub : Submission}
    (hsub : s.submission = some sub) (hstage : sub.stage = .applied) {latest : Checkpoint}
    (hgraph : s.graph = some latest) {move : Superstep} (hnew : move.newId ∉ s.issued) :
    SingleWait rt { s with graph := some (move.apply latest), issued := move.newId :: s.issued } := by
  obtain ⟨init, last, hw⟩ := hs.submission sub hsub
  have hmarks : ∀ t, marker (some (move.apply latest)) t = marker s.graph t := fun t => by
    rw [marker_superstep, hgraph]
  have hnew' : (move.apply latest).checkpointId ∉ s.issued := hnew
  have hroot : (move.apply latest).checkpointNs = "" := (hs.graph_issued latest hgraph).2
  have hmoved := hs.moved hruns hw hnew' hroot (by rw [hmarks]; exact hw.marked hstage)
    (fun t ht => Or.inr (by rwa [hmarks] at ht)) s.log
  have hsame : ({ sub with stage := .applied } : Submission) = sub := by
    rw [← hstage]
  rw [hsame, ← hsub] at hmoved
  exact hmoved

theorem terminal_resumeResult {status : RunStatus} (h : ∀ task ref, status ≠ .agentRequired task ref)
    (outputs : Dict String Value) : Terminal (rt.resumeResult status outputs) := h

theorem SingleWait.submitCommit (hinj : NamesCheckpoints rt s.issued) (hs : SingleWait rt s)
    (hruns : s.runs = []) {sub : Submission} (hsub : s.submission = some sub)
    (hstage : sub.stage = .applied) {latest : Checkpoint} (hgraph : s.graph = some latest)
    (conclusion : Conclusion) : SingleWait rt (rt.submitCommit s sub latest conclusion) := by
  obtain ⟨init, last, hw⟩ := hs.submission sub hsub
  cases conclusion with
  | raised error =>
    exact hs.commit_terminal hruns hw _ (terminal_resumeResult (by simp) _)
  | stopped deadline =>
    unfold HostRuntime.submitCommit
    simp only
    split_ifs
    · exact hs.commit_terminal hruns hw _ (terminal_resumeResult (by simp) _)
    · split
      · exact hs.closed _
      · rename_i record hbuild
        split
        · exact hs.closed _
        · rename_i rows hins
          exact hs.commit_next hinj hruns hw hstage hgraph hbuild hins _ _

theorem SingleWait.runRecover (hs : SingleWait rt s) {i : Nat}
    (hi : s.runs[i]? = some .checkedStore) (deadline : Option String) :
    SingleWait rt (rt.runRecover s i deadline) := by
  obtain ⟨hruns, rfl⟩ := hs.runs_eq hi
  have hne : s.runs ≠ [] := by simp [hruns]
  have hset : ∀ stage, s.setRun 0 stage = { s with runs := [stage] } := fun stage => by
    simp [System.setRun, hruns]
  unfold HostRuntime.runRecover
  split
  · rw [hset]
    exact hs.run_moves hne (by simp) hs.graph_issued (hs.unmarked hne) (by simp)
  · rename_i latest hgraph
    split_ifs
    · split
      · rename_i record hbuild
        rw [hset]
        exact hs.run_pauses hne hgraph hbuild
      · exact hs.run_stops 0
    · exact hs.run_stops 0

theorem SingleWait.commitUnapplied (hs : SingleWait rt s) (hruns : s.runs = []) {sub : Submission}
    (hsub : s.submission = some sub) {record : AgentHandoffRecord}
    (hload : load s.rows sub.checkpointRef = some record) (error : RuntimeErrorPayload)
    (outputs : Dict String Value) : SingleWait rt (rt.commitUnapplied s sub record error outputs) := by
  obtain ⟨init, last, hw⟩ := hs.submission _ hsub
  unfold HostRuntime.commitUnapplied
  rw [(load_some hload).2]
  exact hs.commit_terminal hruns hw _ (terminal_resumeResult (by simp) _)

theorem SingleWait.runBegin (hs : SingleWait rt s) (hruns : s.runs = [])
    (hnone : recoverRun s.rows rt.request.runId = none) :
    SingleWait rt { s with runs := s.runs ++ [.checkedStore] } := by
  obtain ⟨hrows, hsub⟩ := hs.rows_of_recoverRun_none hnone
  exact ⟨by simp [hruns], fun _ => ⟨hrows, hsub⟩, by simp [hruns], hs.named, hs.unique_ref,
    hs.graph_issued, hs.marks, hs.table, hs.submission⟩

theorem SingleWait.runStart (hs : SingleWait rt s) {i : Nat} (hi : s.runs[i]? = some (.executing false))
    (newId : String) (next : List String) :
    SingleWait rt { s.setRun i (.executing true) with
      graph := some (rt.initialCheckpoint newId next)
      issued := newId :: s.issued } := by
  obtain ⟨hruns, rfl⟩ := hs.runs_eq hi
  have hne : s.runs ≠ [] := by simp [hruns]
  have hset : s.setRun 0 (.executing true) = { s with runs := [.executing true] } := by
    simp [System.setRun, hruns]
  rw [hset]
  refine hs.run_moves hne (by simp) ?_ (fun t => rfl) (by simp)
  intro latest hl
  obtain rfl := Option.some.inj hl
  exact ⟨List.mem_cons_self .., rfl⟩

theorem SingleWait.runSuperstep (hs : SingleWait rt s) {i : Nat} (hi : s.runs[i]? = some (.executing true))
    {latest : Checkpoint} (hgraph : s.graph = some latest) (move : Superstep) :
    SingleWait rt { s with graph := some (move.apply latest), issued := move.newId :: s.issued } := by
  obtain ⟨hruns, rfl⟩ := hs.runs_eq hi
  have hne : s.runs ≠ [] := by simp [hruns]
  refine hs.run_moves hne hs.runs_le ?_ ?_ (by simp [hruns])
  · intro latest' hl
    obtain rfl := Option.some.inj hl
    exact ⟨List.mem_cons_self .., (hs.graph_issued latest hgraph).2⟩
  · intro t
    rw [marker_superstep, ← hgraph]
    exact hs.unmarked hne t

theorem SingleWait.runPause (hs : SingleWait rt s) {i : Nat} (hi : s.runs[i]? = some (.executing true))
    {latest : Checkpoint} (hgraph : s.graph = some latest) {deadline : Option String}
    {record : AgentHandoffRecord} (hbuild : rt.buildAgentHandoff .run deadline latest = .ok record) :
    SingleWait rt (s.setRun i (.putting record)) := by
  obtain ⟨hruns, rfl⟩ := hs.runs_eq hi
  have hset : s.setRun 0 (.putting record) = { s with runs := [.putting record] } := by
    simp [System.setRun, hruns]
  rw [hset]
  exact hs.run_pauses (by simp [hruns]) hgraph hbuild

theorem SingleWait.step (hinj : NamesCheckpoints rt s.issued) {t : System} {a : Action}
    (hs : SingleWait rt s) (hg : Undisturbed rt s a) (h : rt.step s a = some t) : SingleWait rt t := by
  -- one case per action; a step that the system does not take leaves nothing to show
  cases a with
  | submitBegin ref result =>
    simp only [HostRuntime.step] at h
    split_ifs at h
    obtain rfl := Option.some.inj h
    exact hs.submitBegin hg ref result
  | engineFails error =>
    simp only [HostRuntime.step] at h
    split at h
    · rename_i ref result hsub
      split at h
      · rename_i record output hload hout
        obtain rfl := Option.some.inj h
        exact hs.commitUnapplied hg hsub hload error _
      · simp at h
    · simp at h
  | applyCompletion newId next =>
    simp only [HostRuntime.step] at h
    split at h
    · rename_i ref result hsub
      split at h
      · rename_i record output hload hout
        split_ifs at h with hnew
        obtain rfl := Option.some.inj h
        exact hs.applyCompletion hg hsub record output hnew next
      · simp at h
    · simp at h
  | superstep move =>
    simp only [HostRuntime.step] at h
    split at h
    · rename_i ref result latest hsub hgraph
      split_ifs at h with hnew
      obtain rfl := Option.some.inj h
      exact hs.advance hg hsub rfl hgraph hnew
    · simp at h
  | submitCommit conclusion =>
    simp only [HostRuntime.step] at h
    split at h
    · rename_i ref result latest hsub hgraph
      obtain rfl := Option.some.inj h
      exact hs.submitCommit hinj hg hsub rfl hgraph conclusion
    · rename_i ref result hsub
      split at h
      · rename_i record error hload hout herr
        obtain rfl := Option.some.inj h
        exact hs.commitUnapplied hg hsub hload error _
      · simp at h
    · simp at h
  | submitAbort =>
    obtain rfl := Option.some.inj h
    exact hs.closed s.log
  | runBegin =>
    simp only [HostRuntime.step] at h
    split at h
    · obtain rfl := Option.some.inj h
      exact hs
    · rename_i hnone
      obtain rfl := Option.some.inj h
      exact hs.runBegin (hg hnone) hnone
  | runRecover i deadline =>
    simp only [HostRuntime.step] at h
    split at h
    · rename_i hi
      obtain rfl := Option.some.inj h
      exact hs.runRecover hi deadline
    · simp at h
  | runStart i newId next =>
    simp only [HostRuntime.step] at h
    split at h
    · rename_i hi
      split_ifs at h
      obtain rfl := Option.some.inj h
      exact hs.runStart hi newId next
    · simp at h
  | runSuperstep i move =>
    simp only [HostRuntime.step] at h
    split at h
    · rename_i latest hi hgraph
      split_ifs at h
      obtain rfl := Option.some.inj h
      exact hs.runSuperstep hi hgraph move
    · simp at h
  | runPause i deadline =>
    simp only [HostRuntime.step] at h
    split at h
    · rename_i latest hi hgraph
      split at h
      · rename_i record hbuild
        obtain rfl := Option.some.inj h
        exact hs.runPause hi hgraph hbuild
      · obtain rfl := Option.some.inj h
        exact hs.run_stops i
    · simp at h
  | runPut i =>
    simp only [HostRuntime.step] at h
    split at h
    · rename_i record hi
      split_ifs at h
      obtain rfl := Option.some.inj h
      obtain ⟨hruns, rfl⟩ := hs.runs_eq hi
      exact hs.run_puts hruns
    · simp at h
  | runDrop i =>
    obtain rfl := Option.some.inj h
    exact hs.run_stops i

end Steps

/-- What a recovered answer can be: the wait of the one active row, which the graph stands at unless
it already has that row's result, or the terminal answer of the last row. -/
def RecoveredAnswer (rt : HostRuntime) (s : System) (answer : RunResult) : Prop :=
  (∃ row ∈ s.rows, isActive rt.request.runId row = true ∧ answer = row.requiredResponse ∧
    ((∃ latest, s.graph = some latest ∧ WaitsAt row latest) ∨
      (marker s.graph row.task.taskId).isSome)) ∨
  ((∀ row ∈ s.rows, isActive rt.request.runId row = false) ∧
    ∃ row, s.rows.getLast? = some row ∧ row.response = some answer ∧ Terminal answer)

theorem SingleWait.active_le_one {rt : HostRuntime} {s : System} (hs : SingleWait rt s) :
    (s.rows.filter (isActive rt.request.runId)).length ≤ 1 := by
  rcases hs.table with he | ⟨init, last, hset⟩
  · simp [he]
  · have hinit : init.filter (isActive rt.request.runId) = [] := by
      rw [List.filter_eq_nil_iff]
      intro row hm hact
      have hsome := hset.settled row hm
      simp only [isActive, Bool.decide_and, Bool.and_eq_true, decide_eq_true_eq] at hact
      simp [hact.2] at hsome
    rw [hset.rows_eq, List.filter_append, hinit, List.nil_append]
    exact List.length_filter_le _ _

theorem SingleWait.recovered {rt : HostRuntime} {s : System} (hs : SingleWait rt s) {answer : RunResult}
    (h : recoverRun s.rows rt.request.runId = some answer) : RecoveredAnswer rt s answer := by
  rcases hs.table with he | ⟨init, last, hset⟩
  · simp [he, recoverRun] at h
  · have hlast : last ∈ s.rows := by simp [hset.rows_eq]
    have hrun := (hs.named last hlast).1.runId
    cases hr : last.response with
    | none =>
      rw [hs.recoverRun_active hset hr] at h
      obtain ⟨latest, hgraph, hcase⟩ := hset.active hr
      refine Or.inl ⟨last, hlast, by simp [isActive, hrun, hr], (Option.some.inj h).symm, ?_⟩
      rcases hcase with hwait | hpass
      · exact Or.inl ⟨latest, hgraph, hwait⟩
      · exact Or.inr (hgraph ▸ hpass.marked)
    | some response =>
      rw [hs.recoverRun_terminal hset hr] at h
      obtain rfl := Option.some.inj h
      refine Or.inr ⟨?_, last, by simp [hset.rows_eq], hr, hset.terminal response hr⟩
      intro row hm
      rw [hset.rows_eq, List.mem_append, List.mem_singleton] at hm
      rcases hm with hm | rfl
      · have hsome := hset.settled row hm
        cases hrow : row.response with
        | none => simp [hrow] at hsome
        | some _ => simp [isActive, hrow]
      · simp [isActive, hr]

theorem single_active_wait {rt : HostRuntime} {s t : System} {actions : List Action} (hstart : Unstarted s)
    (hrun : Run rt.step (Undisturbed rt) s actions t) (hnames : NamesCheckpoints rt t.issued) :
    (t.rows.filter (isActive rt.request.runId)).length ≤ 1 ∧
      ∀ answer, recoverRun t.rows rt.request.runId = some answer → RecoveredAnswer rt t answer := by
  have hinv : NamesCheckpoints rt t.issued → SingleWait rt t := by
    refine hrun.invariant (I := fun s => NamesCheckpoints rt s.issued → SingleWait rt s) ?_
      fun _ => hstart.singleWait
    intro s a t hs hg h hnames
    have hbefore := hnames.mono (issued_subset h)
    exact (hs hbefore).step hbefore hg h
  have hwait := hinv hnames
  exact ⟨hwait.active_le_one, fun answer h => hwait.recovered h⟩

def emptySystem : System where
  rows := []
  graph := none
  issued := []
  submission := none
  runs := []
  log := []

theorem emptySystem_unstarted : Unstarted emptySystem := ⟨rfl, rfl, rfl, rfl⟩

def firstWait : List Action :=
  [.runBegin, .runRecover 0 none, .runStart 0 "c1" ["write"], .runPause 0 none, .runPut 0]

theorem single_active_wait_first :
    ∃ t, Run writeRuntime.step (Undisturbed writeRuntime) emptySystem firstWait t ∧
      (t.rows.filter (isActive "r1")).length = 1 ∧
      ∃ answer, recoverRun t.rows "r1" = some answer ∧ RecoveredAnswer writeRuntime t answer := by
  have hrun : Run writeRuntime.step (Undisturbed writeRuntime) emptySystem firstWait _ :=
    .cons (fun _ => rfl) rfl (.cons trivial rfl (.cons trivial rfl (.cons trivial rfl
      (.cons trivial rfl (.nil _)))))
  exact ⟨_, hrun, rfl, _, rfl,
    (single_active_wait emptySystem_unstarted hrun (fun _ _ _ _ h => h)).2 _ rfl⟩

def overlappingRuns : List Action :=
  [.runBegin, .runBegin, .runRecover 0 none, .runRecover 1 none, .runStart 0 "c1" ["write"],
    .runPause 0 none, .runStart 1 "c2" ["write"], .runPause 1 none, .runPut 0, .runPut 0]

def crashedSubmit (ref : String) (result : AgentResult) : List Action :=
  firstWait ++ [.submitBegin ref result, .applyCompletion "c2" ["review"], .submitAbort]

def draftForCheckpoint : AgentResult :=
  { completedResult (Dict.single "draft" (.str "text")) with taskId := "c1" }

theorem overlap_and_crash_break_single_wait :
    (∃ t, Run writeRuntime.step (fun _ _ => True) emptySystem overlappingRuns t ∧
      (t.rows.filter (isActive "r1")).length = 2) ∧
    ∃ t row latest, Run writeRuntime.step (fun _ _ => True) emptySystem
        (crashedSubmit "gskill-handoff-v1:c1" draftForCheckpoint) t ∧
      recoverRun t.rows "r1" = some row.requiredResponse ∧ row ∈ t.rows ∧
      row.task.address.phaseId = "write" ∧ t.graph = some latest ∧ latest.next = ["review"] := by
  constructor
  · exact ⟨_, Run.of_exec (fun _ _ _ => trivial) rfl, rfl⟩
  · exact ⟨_, _, _, Run.of_exec (fun _ _ _ => trivial) rfl, rfl, List.mem_singleton.mpr rfl, rfl, rfl, rfl⟩

end GraphSkillRuntime
