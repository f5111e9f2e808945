import GraphSkillRuntime.OrderedDict
import Mathlib.Data.List.Induction

/-! `run_artifact` and `predict_artifact` with the sessions they keep under the idempotency keys of their requests. -/

namespace GraphSkillRuntime.RunCache

open OrderedDict

inductive ArtifactStore where
  | ephemeral | product
  deriving DecidableEq

structure ArtifactRef where
  artifactId : String
  contentHash : String
  store : ArtifactStore
  version : Option String := none
  manifestRef : String
  sourceMapRef : String
  deriving DecidableEq

/-- The objects of a request: which of them are strings, and which count as true. -/
structure Objects (V : Type) where
  asStr : V → Option String
  truthy : V → Bool

/-- `PredictArtifactRequest` has the same fields. -/
structure RunArtifactRequest (V : Type) where
  artifactRef : ArtifactRef
  inputs : Dict String V
  executionContext : Dict String V
  idempotencyKey : String

structure RunSession where
  runId : String
  eventStreamRef : String
  resultRef : Option String
  statusRef : Option String
  deriving DecidableEq

structure RunArtifactErrorResult where
  errorCode : String
  message : String
  runId : Option String
  retryable : Bool := false
  deriving DecidableEq

abbrev Cache := Dict String RunSession

inductive Operation where
  | run | predict
  deriving DecidableEq

inductive Executed where
  | error (result : RunArtifactErrorResult)
  | outputs
  | runResult (runId : String)
  deriving DecidableEq

/-- What the artifact store does with the outputs: it raises, or gives the reference of `outputs.json`. -/
inductive StoreAnswer where
  | raised (message : String)
  | bytesRef (ref : Option String)
  deriving DecidableEq

structure Disk where
  materialized : String → Bool
  isFile : String → Bool
  join : String → String → String
  parent : String → String

structure Call (V : Type) where
  operation : Operation
  predictRequest : Bool
  request : RunArtifactRequest V
  store : Option StoreAnswer
  artifactExecutor : Option Executed
  graph : Executed
  predictGraph : Executed
  disk : Disk

variable {V : Type} (o : Objects V)

def isBytesRef (ref : String) : Bool := "bytes://".toList.isPrefixOf ref.toList

def cachedSessionForMaterialization (cache : Cache) (idempotencyKey : String) (store : Option StoreAnswer) :
    Option RunSession :=
  match cache.get? idempotencyKey with
  | none => none
  | some cached =>
    if store.isNone then some cached
    else
      match cached.resultRef with
      | some ref => if isBytesRef ref then some cached else none
      | none => none

def contextStr (request : RunArtifactRequest V) (key : String) : Option String :=
  match (request.executionContext.get? key).bind o.asStr with
  | some text => if text = "" then none else some text
  | none => none

def artifactRunId (request : RunArtifactRequest V) : String :=
  let requested := match request.executionContext.get? "thread_id" with
    | some threadId => if o.truthy threadId then some threadId else request.executionContext.get? "run_id"
    | none => request.executionContext.get? "run_id"
  match requested.bind o.asStr with
  | some text => if text = "" then "run-" ++ request.artifactRef.artifactId ++ "-" ++ request.idempotencyKey else text
  | none => "run-" ++ request.artifactRef.artifactId ++ "-" ++ request.idempotencyKey

def artifactHashHex (request : RunArtifactRequest V) : Option String :=
  if "sha256:".toList.isPrefixOf request.artifactRef.contentHash.toList then
    some (.ofList (request.artifactRef.contentHash.toList.drop "sha256:".toList.length))
  else none

def resolveArtifactWorkspaceDir (request : RunArtifactRequest V) : Option String := contextStr o request "workspace_dir"

def resolveArtifactRoot (disk : Disk) (request : RunArtifactRequest V) : Option String :=
  let explicit := (contextStr o request "artifact_root").filter disk.materialized
  match explicit with
  | some path => some path
  | none =>
    match resolveArtifactWorkspaceDir o request, artifactHashHex request with
    | some workspaceDir, some sha256 =>
      [disk.join (disk.join workspaceDir "ephemeral_run_skills") sha256,
        disk.join (disk.join (disk.parent workspaceDir) "ephemeral_run_skills") sha256].find? disk.materialized
    | _, _ => none

def providerNotConfigured (runId : String) : RunArtifactErrorResult where
  errorCode := "llm.provider_not_configured"
  message := "LLM Provider is not configured"
  runId := some runId

def artifactNotMaterializedError (runId : String) : RunArtifactErrorResult where
  errorCode := "runtime.artifact_not_materialized"
  message := "Artifact bytes are not materialized for graph execution"
  runId := some runId

/-- `_run_compiled_artifact_graph` and `_run_compiled_artifact_predict_graph`: neither runs without a workspace. -/
def runCompiledArtifact (call : Call V) (runId : String) (result : Executed) : Executed :=
  if (resolveArtifactRoot o call.disk call.request).isSome && (resolveArtifactWorkspaceDir o call.request).isSome then
    result
  else .error (providerNotConfigured runId)

def executeRunArtifactOutputs (call : Call V) (runId : String) : Executed :=
  match call.artifactExecutor with
  | some executed => executed
  | none =>
    if (resolveArtifactRoot o call.disk call.request).isSome then runCompiledArtifact o call runId call.graph
    else .error (artifactNotMaterializedError runId)

def workflowResultRef (disk : Disk) (runId : String) (runRoot : Option String) : Option String :=
  match runRoot with
  | none => none
  | some root =>
    let resultPath := disk.join (disk.join root runId) "result.json"
    if disk.isFile resultPath then some ("file://" ++ resultPath) else none

def missingObjectRef : String := "Run artifact store did not return an object ref for outputs.json"

def runArtifactStoreResult : StoreAnswer → Except String String
  | .raised message => .error message
  | .bytesRef none => .error missingObjectRef
  | .bytesRef (some ref) => if isBytesRef ref then .ok ref else .error missingObjectRef

inductive Answer where
  | session (session : RunSession)
  | error (result : RunArtifactErrorResult)
  | raised (message : String)
  deriving DecidableEq

def storedRef (store : Option StoreAnswer) (resultRef : Option String) : Except String (Option String) :=
  match store with
  | none => .ok resultRef
  | some answer => (runArtifactStoreResult answer).map some

def keepSession (call : Call V) (runId : String) (resultRef : Option String) (cache : Cache) : Answer × Cache :=
  match storedRef call.store resultRef with
  | .error message => (.raised message, cache)
  | .ok resultRef =>
    let session : RunSession :=
      { runId, eventStreamRef := "stream://" ++ runId, resultRef, statusRef := some ("state://" ++ runId ++ "/status") }
    (.session session, cache.set call.request.idempotencyKey session)

def runArtifact (call : Call V) (cache : Cache) : Answer × Cache :=
  let runId := artifactRunId o call.request
  match cachedSessionForMaterialization cache call.request.idempotencyKey call.store with
  | some cached => (.session cached, cache)
  | none =>
    match executeRunArtifactOutputs o call runId with
    | .error result => (.error result, cache)
    | .outputs => keepSession call runId none cache
    | .runResult id =>
      keepSession call runId (workflowResultRef call.disk id
        ((resolveArtifactWorkspaceDir o call.request).map (call.disk.join · "runs"))) cache

def predictArtifact (call : Call V) (cache : Cache) : Answer × Cache :=
  if call.predictRequest && (resolveArtifactRoot o call.disk call.request).isSome then
    let runId := artifactRunId o call.request
    match cachedSessionForMaterialization cache call.request.idempotencyKey call.store with
    | some cached => (.session cached, cache)
    | none =>
      match runCompiledArtifact o call runId call.predictGraph with
      | .error result => (.error result, cache)
      | .outputs => keepSession call runId none cache
      | .runResult id =>
        keepSession call runId (workflowResultRef call.disk id
          ((resolveArtifactWorkspaceDir o call.request).map (call.disk.join · "predicts"))) cache
  else runArtifact o call cache

def answer (call : Call V) (cache : Cache) : Answer × Cache :=
  match call.operation with
  | .run => runArtifact o call cache
  | .predict => predictArtifact o call cache

def cacheAfter (history : List (Call V)) : Cache := history.foldl (fun cache call => (answer o call cache).2) ∅

/-! Which call a session in the cache comes from. -/

def Executes (cache : Cache) (call : Call V) (session : RunSession) : Prop :=
  cachedSessionForMaterialization cache call.request.idempotencyKey call.store = none ∧
    (answer o call cache).1 = .session session

inductive LastExecuted (key : String) : List (Call V) → Call V → RunSession → Prop where
  | last {before : List (Call V)} {call : Call V} {session : RunSession} (hkey : call.request.idempotencyKey = key)
      (hexec : Executes o (cacheAfter o before) call session) : LastExecuted key (before ++ [call]) call session
  | earlier {before : List (Call V)} {call later : Call V} {session : RunSession}
      (h : LastExecuted key before call session)
      (hlater : later.request.idempotencyKey = key → ∀ s, ¬ Executes o (cacheAfter o before) later s) :
      LastExecuted key (before ++ [later]) call session

structure SameRequest (earlier call : Call V) : Prop where
  operation : earlier.operation = call.operation
  artifact : earlier.request.artifactRef = call.request.artifactRef
  inputs : earlier.request.inputs.Same call.request.inputs
  context : earlier.request.executionContext.Same call.request.executionContext

/-- A session from the cache comes from an earlier call with the same operation and request. -/
def AnswersOwn (history : List (Call V)) : Prop :=
  ∀ before call after session, history = before ++ call :: after →
    cachedSessionForMaterialization (cacheAfter o before) call.request.idempotencyKey call.store = some session →
      ∃ earlier ∈ before, LastExecuted o call.request.idempotencyKey before earlier session ∧ SameRequest earlier call

def ErrorsUncached (history : List (Call V)) : Prop :=
  ∀ before call after, history = before ++ call :: after →
    (∀ session, (answer o call (cacheAfter o before)).1 ≠ .session session) →
      cacheAfter o (before ++ [call]) = cacheAfter o before

/-! Which call that is can be read off the calls alone. -/

def executed (call : Call V) : Executed :=
  let runId := artifactRunId o call.request
  match call.operation with
  | .run => executeRunArtifactOutputs o call runId
  | .predict =>
    if call.predictRequest && (resolveArtifactRoot o call.disk call.request).isSome then
      runCompiledArtifact o call runId call.predictGraph
    else executeRunArtifactOutputs o call runId

def Executed.failed : Executed → Bool
  | .error _ => true
  | _ => false

def storeTakes : Option StoreAnswer → Bool
  | none => true
  | some answer => (runArtifactStoreResult answer).toBool

def succeeds (call : Call V) : Bool := !(executed o call).failed && storeTakes call.store

def keptCall (key : String) (history : List (Call V)) : Option (Call V) :=
  (history.find? fun call => call.request.idempotencyKey = key ∧ succeeds o call = true ∧ call.store.isSome = true).or
    (history.find? fun call => call.request.idempotencyKey = key ∧ succeeds o call = true)

/-- The call that answers for another one under its key; without a store of its own it answers for none with a store. -/
def answeringCall (history : List (Call V)) (call : Call V) : Option (Call V) :=
  (keptCall o call.request.idempotencyKey history).filter fun kept => call.store.isNone || kept.store.isSome

/-- A key that a call can be answered under stands for one operation and one request. -/
def KeysIdentify (history : List (Call V)) : Prop :=
  ∀ before call after earlier, history = before ++ call :: after → answeringCall o before call = some earlier →
    SameRequest earlier call

variable {o}

theorem cachedSession_eq_some {cache : Cache} {key : String} {store : Option StoreAnswer} {session : RunSession} :
    cachedSessionForMaterialization cache key store = some session ↔
      cache.get? key = some session ∧
        (store = none ∨ ∃ ref, session.resultRef = some ref ∧ isBytesRef ref = true) := by
  unfold cachedSessionForMaterialization
  cases cache.get? key with
  | none => simp
  | some cached =>
    cases store with
    | none => simp
    | some answer =>
      cases href : cached.resultRef with
      | none =>
        simp only [Option.isNone_some, Bool.false_eq_true, if_false, href, reduceCtorEq, false_iff, not_and]
        rintro heq (h | ⟨ref, h, -⟩)
        · cases h
        · obtain rfl := Option.some.inj heq
          rw [href] at h
          cases h
      | some ref =>
        simp only [Option.isNone_some, Bool.false_eq_true, if_false, href, reduceCtorEq, false_or]
        by_cases hbytes : isBytesRef ref = true
        · rw [if_pos hbytes]
          constructor
          · intro heq
            obtain rfl := Option.some.inj heq
            exact ⟨rfl, ref, href, hbytes⟩
          · exact fun h => h.1
        · rw [if_neg hbytes]
          constructor
          · intro h
            cases h
          · rintro ⟨heq, other, hother, hbytes'⟩
            obtain rfl := Option.some.inj heq
            rw [href] at hother
            obtain rfl := Option.some.inj hother
            exact absurd hbytes' hbytes

def Reusable (session : RunSession) : Prop := ∃ ref, session.resultRef = some ref ∧ isBytesRef ref = true

def Gets (cache : Cache) (call : Call V) (success : Bool) (result : Answer × Cache) : Prop :=
  (success = true ∧ ∃ session, result = (.session session, cache.set call.request.idempotencyKey session) ∧
    (Reusable session ↔ call.store.isSome = true)) ∨
  (success = false ∧ result.2 = cache ∧ ∀ session, result.1 ≠ .session session)

theorem keepSession_gets (call : Call V) (runId : String) {resultRef : Option String}
    (hplain : ∀ ref, resultRef = some ref → isBytesRef ref = false) (cache : Cache) :
    Gets cache call (storeTakes call.store) (keepSession call runId resultRef cache) := by
  unfold keepSession
  cases hstore : call.store with
  | none =>
    refine .inl ⟨rfl, _, rfl, ?_⟩
    rw [hstore]
    simp only [Option.isSome_none, Bool.false_eq_true, iff_false]
    rintro ⟨ref, href, hbytes⟩
    rw [hplain ref href] at hbytes
    cases hbytes
  | some answer =>
    have hbytes : ∀ ref, runArtifactStoreResult answer = .ok ref → isBytesRef ref = true := by
      intro ref h
      unfold runArtifactStoreResult at h
      split at h
      · cases h
      · cases h
      · split_ifs at h with hbytes
        obtain rfl := Except.ok.inj h
        exact hbytes
    cases hresult : runArtifactStoreResult answer with
    | error message =>
      simp only [storedRef, hresult, Except.map]
      exact .inr ⟨by simp [storeTakes, hresult, Except.toBool], rfl, by simp⟩
    | ok ref =>
      simp only [storedRef, hresult, Except.map]
      refine .inl ⟨by simp [storeTakes, hresult, Except.toBool], _, rfl, ?_⟩
      simpa [hstore] using ⟨ref, rfl, hbytes ref hresult⟩

theorem workflowResultRef_plain {disk : Disk} {runId : String} {root : Option String} :
    ∀ ref, workflowResultRef disk runId root = some ref → isBytesRef ref = false := by
  intro ref h
  unfold workflowResultRef at h
  split at h
  · cases h
  · dsimp only at h
    split_ifs at h
    obtain rfl := Option.some.inj h
    rw [isBytesRef, String.toList_append]
    rfl

theorem gets_of_executed {call : Call V} {cache : Cache} (runId : String) {executed : Executed}
    {result : Answer × Cache} (herror : ∀ error, executed = .error error → result = (.error error, cache))
    (houtputs : executed = .outputs → result = keepSession call runId none cache)
    (hrun : ∀ id, executed = .runResult id →
      ∃ root, result = keepSession call runId (workflowResultRef call.disk id root) cache) :
    Gets cache call (!executed.failed && storeTakes call.store) result := by
  cases executed with
  | error error =>
    rw [herror error rfl]
    exact .inr ⟨rfl, rfl, by simp⟩
  | outputs =>
    rw [houtputs rfl]
    exact keepSession_gets call runId (by simp) cache
  | runResult id =>
    obtain ⟨root, hresult⟩ := hrun id rfl
    rw [hresult]
    exact keepSession_gets call runId workflowResultRef_plain cache

theorem runArtifact_cases (call : Call V) (cache : Cache) :
    (∃ session, cachedSessionForMaterialization cache call.request.idempotencyKey call.store = some session ∧
        runArtifact o call cache = (.session session, cache)) ∨
      cachedSessionForMaterialization cache call.request.idempotencyKey call.store = none ∧
        Gets cache call
          (!(executeRunArtifactOutputs o call (artifactRunId o call.request)).failed && storeTakes call.store)
          (runArtifact o call cache) := by
  unfold runArtifact
  cases hcached : cachedSessionForMaterialization cache call.request.idempotencyKey call.store with
  | some session => exact .inl ⟨session, rfl, rfl⟩
  | none =>
    refine .inr ⟨rfl, gets_of_executed (artifactRunId o call.request) ?_ ?_ ?_⟩
    · intro error h
      simp only [h]
    · intro h
      simp only [h]
    · intro id h
      simp only [h]
      exact ⟨_, rfl⟩

theorem answer_cases (call : Call V) (cache : Cache) :
    (∃ session, cachedSessionForMaterialization cache call.request.idempotencyKey call.store = some session ∧
        answer o call cache = (.session session, cache)) ∨
      cachedSessionForMaterialization cache call.request.idempotencyKey call.store = none ∧
        Gets cache call (succeeds o call) (answer o call cache) := by
  unfold answer succeeds executed
  cases call.operation with
  | run => exact runArtifact_cases call cache
  | predict =>
    simp only
    unfold predictArtifact
    split_ifs
    · cases hcached : cachedSessionForMaterialization cache call.request.idempotencyKey call.store with
      | some session => exact .inl ⟨session, rfl, rfl⟩
      | none =>
        refine .inr ⟨rfl, gets_of_executed (artifactRunId o call.request) ?_ ?_ ?_⟩
        · intro error h
          simp only [h]
        · intro h
          simp only [h]
        · intro id h
          simp only [h]
          exact ⟨_, rfl⟩
    · exact runArtifact_cases call cache

theorem Executes.succeeds {cache : Cache} {call : Call V} {session : RunSession} (h : Executes o cache call session) :
    succeeds o call = true := by
  rcases answer_cases call cache with ⟨s, hcached, -⟩ | ⟨-, ⟨hsucceeds, -⟩ | ⟨-, -, hno⟩⟩
  · rw [h.1] at hcached
    cases hcached
  · exact hsucceeds
  · exact absurd h.2 (hno session)

theorem exists_executes {cache : Cache} {call : Call V}
    (hnone : cachedSessionForMaterialization cache call.request.idempotencyKey call.store = none)
    (h : succeeds o call = true) :
    ∃ session, Executes o cache call session ∧ (Reusable session ↔ call.store.isSome = true) := by
  rcases answer_cases call cache with ⟨s, hcached, -⟩ | ⟨-, ⟨-, session, hanswer, hreusable⟩ | ⟨hfails, -⟩⟩
  · rw [hnone] at hcached
    cases hcached
  · exact ⟨session, ⟨hnone, by rw [hanswer]⟩, hreusable⟩
  · rw [h] at hfails
    cases hfails

theorem cacheAfter_append (before : List (Call V)) (call : Call V) :
    cacheAfter o (before ++ [call]) = (answer o call (cacheAfter o before)).2 := by
  rw [cacheAfter, List.foldl_append]
  rfl

theorem get?_cacheAfter_append (before : List (Call V)) (call : Call V) (key : String) :
    (∃ session, Executes o (cacheAfter o before) call session ∧
        (cacheAfter o (before ++ [call])).get? key =
          if call.request.idempotencyKey = key then some session else (cacheAfter o before).get? key) ∨
      (∀ session, ¬ Executes o (cacheAfter o before) call session) ∧
        cacheAfter o (before ++ [call]) = cacheAfter o before := by
  rw [cacheAfter_append]
  rcases answer_cases call (cacheAfter o before) with
    ⟨session, hcached, hanswer⟩ | ⟨hnone, ⟨-, session, hanswer, -⟩ | ⟨-, hsame, hno⟩⟩
  · refine .inr ⟨?_, by rw [hanswer]⟩
    intro other hexec
    rw [hexec.1] at hcached
    cases hcached
  · refine .inl ⟨session, ⟨hnone, by rw [hanswer]⟩, ?_⟩
    rw [hanswer]
    exact Dict.get?_set (cacheAfter o before) _ _ _
  · exact .inr ⟨fun other hexec => hno other hexec.2, hsame⟩

theorem lastExecuted_append_iff {key : String} {before : List (Call V)} {call other : Call V} {session : RunSession} :
    LastExecuted o key (before ++ [call]) other session ↔
      (call.request.idempotencyKey = key ∧ Executes o (cacheAfter o before) call session ∧ other = call) ∨
        LastExecuted o key before other session ∧
          (call.request.idempotencyKey = key → ∀ s, ¬ Executes o (cacheAfter o before) call s) := by
  constructor
  · intro h
    generalize hhistory : before ++ [call] = history at h
    cases h with
    | last hkey hexec =>
      obtain ⟨rfl, hcall⟩ := List.append_inj' hhistory rfl
      obtain rfl := List.singleton_inj.mp hcall
      exact .inl ⟨hkey, hexec, rfl⟩
    | earlier h hlater =>
      obtain ⟨rfl, hcall⟩ := List.append_inj' hhistory rfl
      obtain rfl := List.singleton_inj.mp hcall
      exact .inr ⟨h, hlater⟩
  · rintro (⟨hkey, hexec, rfl⟩ | ⟨h, hlater⟩)
    · exact .last hkey hexec
    · exact .earlier h hlater

theorem LastExecuted.mem {key : String} {history : List (Call V)} {call : Call V} {session : RunSession}
    (h : LastExecuted o key history call session) : call ∈ history := by
  induction h with
  | last => simp
  | earlier _ _ ih => exact List.mem_append_left _ ih

theorem LastExecuted.unique {key : String} {history : List (Call V)} {call other : Call V} {session s : RunSession}
    (h : LastExecuted o key history call session) (h' : LastExecuted o key history other s) :
    call = other ∧ session = s := by
  induction h with
  | last hkey hexec =>
    rcases lastExecuted_append_iff.mp h' with ⟨-, hexec', rfl⟩ | ⟨-, hlater⟩
    · have heq := hexec.2.symm.trans hexec'.2
      rw [Answer.session.injEq] at heq
      exact ⟨rfl, heq⟩
    · exact absurd hexec (hlater hkey _)
  | earlier _ hlater ih =>
    rcases lastExecuted_append_iff.mp h' with ⟨hkey, hexec, -⟩ | ⟨h', -⟩
    · exact absurd hexec (hlater hkey _)
    · exact ih h'

theorem get?_cacheAfter_iff (history : List (Call V)) (key : String) (session : RunSession) :
    (cacheAfter o history).get? key = some session ↔ ∃ call, LastExecuted o key history call session := by
  induction history using List.reverseRecOn with
  | nil =>
    constructor
    · intro h
      cases h
    · rintro ⟨call, h⟩
      cases h.mem
  | append_singleton before call ih =>
    simp only [lastExecuted_append_iff]
    rcases get?_cacheAfter_append before call key with ⟨fresh, hexec, hget⟩ | ⟨hnone, hsame⟩
    · rw [hget]
      by_cases hkey : call.request.idempotencyKey = key
      · rw [if_pos hkey]
        constructor
        · intro h
          obtain rfl := Option.some.inj h
          exact ⟨call, .inl ⟨hkey, hexec, rfl⟩⟩
        · rintro ⟨other, ⟨-, hexec', -⟩ | ⟨-, hlater⟩⟩
          · have heq := hexec.2.symm.trans hexec'.2
            rw [Answer.session.injEq] at heq
            rw [heq]
          · exact absurd hexec (hlater hkey fresh)
      · rw [if_neg hkey, ih]
        constructor
        · rintro ⟨other, h⟩
          exact ⟨other, .inr ⟨h, fun heq => absurd heq hkey⟩⟩
        · rintro ⟨other, ⟨heq, -⟩ | ⟨h, -⟩⟩
          · exact absurd heq hkey
          · exact ⟨other, h⟩
    · rw [hsame, ih]
      constructor
      · rintro ⟨other, h⟩
        exact ⟨other, .inr ⟨h, fun _ => hnone⟩⟩
      · rintro ⟨other, ⟨-, hexec, -⟩ | ⟨h, -⟩⟩
        · exact absurd hexec (hnone session)
        · exact ⟨other, h⟩

theorem errorsUncached (history : List (Call V)) : ErrorsUncached o history := by
  intro before call after _ hno
  rw [cacheAfter_append]
  rcases answer_cases call (cacheAfter o before) with
    ⟨session, -, hanswer⟩ | ⟨-, ⟨-, session, hanswer, -⟩ | ⟨-, hsame, -⟩⟩
  · rw [hanswer]
  · exact absurd (by rw [hanswer]) (hno session)
  · exact hsame

/-- The kept call is the last one that executed under the key, and its session is for calls with a store if it had
one. -/
structure KeptSpec (o : Objects V) (key : String) (history : List (Call V)) : Prop where
  some : ∀ call, keptCall o key history = some call →
    ∃ session, LastExecuted o key history call session ∧ (Reusable session ↔ call.store.isSome = true)
  none : keptCall o key history = none → ∀ call session, ¬ LastExecuted o key history call session

theorem cached_iff_answering {before : List (Call V)} {call : Call V}
    (h : KeptSpec o call.request.idempotencyKey before) {session : RunSession} :
    cachedSessionForMaterialization (cacheAfter o before) call.request.idempotencyKey call.store = some session ↔
      ∃ kept, answeringCall o before call = some kept ∧
        LastExecuted o call.request.idempotencyKey before kept session := by
  rw [cachedSession_eq_some, get?_cacheAfter_iff]
  constructor
  · rintro ⟨⟨other, hother⟩, hreuse⟩
    cases hkept : keptCall o call.request.idempotencyKey before with
    | none => exact absurd hother (h.none hkept other session)
    | some kept =>
      obtain ⟨s, hlast, hreusable⟩ := h.some kept hkept
      obtain ⟨rfl, rfl⟩ := hlast.unique hother
      refine ⟨kept, ?_, hlast⟩
      rw [answeringCall, hkept, Option.filter_some, if_pos]
      rw [Bool.or_eq_true, Option.isNone_iff_eq_none]
      exact hreuse.imp id fun hbytes => hreusable.mp hbytes
  · rintro ⟨kept, hanswering, hlast⟩
    obtain ⟨hkept, hstores⟩ := Option.filter_eq_some_iff.mp hanswering
    obtain ⟨s, hlast', hreusable⟩ := h.some kept hkept
    obtain ⟨-, rfl⟩ := hlast.unique hlast'
    refine ⟨⟨kept, hlast⟩, ?_⟩
    rw [Bool.or_eq_true, Option.isNone_iff_eq_none] at hstores
    exact hstores.imp id hreusable.mpr

theorem keptCall_append (key : String) (before : List (Call V)) (call : Call V) :
    keptCall o key (before ++ [call]) =
      if call.request.idempotencyKey = key ∧ succeeds o call = true ∧ answeringCall o before call = none then some call
      else keptCall o key before := by
  by_cases hkey : call.request.idempotencyKey = key
  · subst hkey
    unfold answeringCall keptCall
    simp only [List.find?_append, List.find?_singleton, true_and]
    cases hstored : before.find? fun c => c.request.idempotencyKey = call.request.idempotencyKey ∧
        succeeds o c = true ∧ c.store.isSome = true with
    | some c =>
      have hc := List.find?_some hstored
      simp only [decide_eq_true_eq] at hc
      simp [Option.isSome_iff_ne_none.mp hc.2.2]
    | none =>
      cases hfirst : before.find? fun c => c.request.idempotencyKey = call.request.idempotencyKey ∧
          succeeds o c = true with
      | none => cases succeeds o call <;> cases call.store <;> simp
      | some c =>
        have hc := List.find?_some hfirst
        simp only [decide_eq_true_eq] at hc
        have hnostore : c.store = none := by
          by_contra hsome
          have hnot := List.find?_eq_none.mp hstored c (List.mem_of_find?_eq_some hfirst)
          exact hnot (by simpa using ⟨hc.1, hc.2, Option.isSome_iff_ne_none.mpr hsome⟩)
        cases succeeds o call <;> cases call.store <;> simp [hnostore]
  · simp [keptCall, List.find?_append, hkey]

theorem keptSpec (key : String) (history : List (Call V)) : KeptSpec o key history := by
  induction history using List.reverseRecOn with
  | nil =>
    refine ⟨fun call h => ?_, fun _ call session h => ?_⟩
    · cases h
    · cases h.mem
  | append_singleton before call ih =>
    by_cases hnew : call.request.idempotencyKey = key ∧ succeeds o call = true ∧ answeringCall o before call = none
    · obtain ⟨rfl, hsucceeds, hanswering⟩ := hnew
      have hkept := keptCall_append (o := o) call.request.idempotencyKey before call
      rw [if_pos ⟨rfl, hsucceeds, hanswering⟩] at hkept
      have hnone : cachedSessionForMaterialization (cacheAfter o before) call.request.idempotencyKey call.store =
          none := by
        rw [Option.eq_none_iff_forall_ne_some]
        intro session hcached
        obtain ⟨kept, hkept, -⟩ := (cached_iff_answering ih).mp hcached
        rw [hanswering] at hkept
        cases hkept
      obtain ⟨session, hexec, hreusable⟩ := exists_executes hnone hsucceeds
      refine ⟨fun other h => ?_, fun h => ?_⟩
      · obtain rfl := Option.some.inj (hkept.symm.trans h)
        exact ⟨session, .last rfl hexec, hreusable⟩
      · rw [hkept] at h
        cases h
    · have hkept := keptCall_append (o := o) key before call
      rw [if_neg hnew] at hkept
      have hidle : call.request.idempotencyKey = key → ∀ s, ¬ Executes o (cacheAfter o before) call s := by
        rintro rfl s hexec
        refine hnew ⟨rfl, hexec.succeeds, Option.eq_none_iff_forall_ne_some.mpr fun kept hkept => ?_⟩
        obtain ⟨session, hlast, -⟩ := ih.some kept (Option.filter_eq_some_iff.mp hkept).1
        have hcached := (cached_iff_answering ih).mpr ⟨kept, hkept, hlast⟩
        rw [hexec.1] at hcached
        cases hcached
      refine ⟨fun other h => ?_, fun h other session hlast => ?_⟩
      · rw [hkept] at h
        obtain ⟨session, hlast, hreusable⟩ := ih.some other h
        exact ⟨session, .earlier hlast hidle, hreusable⟩
      · rw [hkept] at h
        rcases lastExecuted_append_iff.mp hlast with ⟨hkey, hexec, -⟩ | ⟨hlast, -⟩
        · exact hidle hkey session hexec
        · exact ih.none h other session hlast

theorem run_cache_answers_own_iff (o : Objects V) (history : List (Call V)) :
    (AnswersOwn o history ∧ ErrorsUncached o history) ↔ KeysIdentify o history := by
  constructor
  · rintro ⟨hown, -⟩ before call after kept hhistory hanswering
    have hspec := keptSpec (o := o) call.request.idempotencyKey before
    obtain ⟨session, hlast, -⟩ := hspec.some kept (Option.filter_eq_some_iff.mp hanswering).1
    have hcached := (cached_iff_answering hspec).mpr ⟨kept, hanswering, hlast⟩
    obtain ⟨other, -, hother, hsame⟩ := hown before call after session hhistory hcached
    obtain ⟨rfl, -⟩ := hlast.unique hother
    exact hsame
  · intro hkeys
    refine ⟨?_, errorsUncached history⟩
    intro before call after session hhistory hcached
    obtain ⟨kept, hanswering, hlast⟩ := (cached_iff_answering (keptSpec _ before)).mp hcached
    exact ⟨kept, hlast.mem, hlast, hkeys before call after kept hhistory hanswering⟩

theorem key_of_keptCall {key : String} {history : List (Call V)} {call : Call V}
    (h : keptCall o key history = some call) : call ∈ history ∧ call.request.idempotencyKey = key := by
  rcases Option.or_eq_some_iff.mp h with h | ⟨-, h⟩
  · have hkey := List.find?_some h
    simp only [decide_eq_true_eq] at hkey
    exact ⟨List.mem_of_find?_eq_some h, hkey.1⟩
  · have hkey := List.find?_some h
    simp only [decide_eq_true_eq] at hkey
    exact ⟨List.mem_of_find?_eq_some h, hkey.1⟩

theorem keysIdentify_of_distinct (o : Objects V) (history : List (Call V))
    (h : ∀ a ∈ history, ∀ b ∈ history, a.request.idempotencyKey = b.request.idempotencyKey → SameRequest a b) :
    KeysIdentify o history := by
  rintro before call after earlier rfl hanswering
  obtain ⟨hmem, hkey⟩ := key_of_keptCall (Option.filter_eq_some_iff.mp hanswering).1
  exact h earlier (List.mem_append_left _ hmem) call (by simp) hkey

def plainObjects : Objects String := ⟨some, fun text => text ≠ ""⟩

def topicRequest (topic : String) : RunArtifactRequest String where
  artifactRef := ⟨"essay", "sha256:aa", .ephemeral, none, "manifest.json", "map.json"⟩
  inputs := .single "topic" topic
  executionContext := ∅
  idempotencyKey := "idem-1"

def topicCall (operation : Operation) (topic : String) : Call String where
  operation := operation
  predictRequest := false
  request := topicRequest topic
  store := none
  artifactExecutor := some .outputs
  graph := .outputs
  predictGraph := .outputs
  disk := ⟨fun _ => false, fun _ => false, fun base name => base ++ "/" ++ name, id⟩

theorem moon_answered_with_mars :
    ¬ AnswersOwn plainObjects [topicCall .run "mars", topicCall .predict "moon"] := by
  intro h
  obtain ⟨earlier, hmem, -, hsame⟩ := h [topicCall .run "mars"] (topicCall .predict "moon") []
    ⟨"run-essay-idem-1", "stream://run-essay-idem-1", none, some "state://run-essay-idem-1/status"⟩ rfl (by decide)
  obtain rfl := List.mem_singleton.mp hmem
  cases hsame.operation

end GraphSkillRuntime.RunCache
