import GraphSkillRuntime.JsonRoundTrip
import Mathlib.Data.List.DropRight
import Mathlib.Data.List.Sort
import Mathlib.Data.String.Basic

/-!
The contracts of a run that are persisted, with the checks that stand between them and inline secrets, and the
resolution of a run request from the user, project, preset and invocation layers.
-/

namespace GraphSkillRuntime.RunContracts

open OrderedDict JsonText

abbrev JsonObject (F : Type) := List (String × Json F)

def secretKeyParts : List String :=
  ["api_key", "access_token", "credential", "credentials", "password", "private_key", "refresh_token", "secret",
    "token"]

def isKeyChar (c : Char) : Bool := ('a' ≤ c && c ≤ 'z') || ('0' ≤ c && c ≤ '9')

def squeeze : Bool → List Char → List Char
  | _, [] => []
  | inRun, c :: cs =>
    if isKeyChar c then c :: squeeze false cs else if inRun then squeeze true cs else '_' :: squeeze true cs

section

/- Unicode case folding takes a character to one or more characters. -/
variable (fold : Char → List Char) {F : Type}

def normalizedKey (value : String) : List Char :=
  ((squeeze false (value.toList.flatMap fold)).dropWhile (· = '_')).rdropWhile (· = '_')

def secretShaped (key : String) : Bool :=
  secretKeyParts.any fun part =>
    decide (normalizedKey fold key = part.toList) || ('_' :: part.toList).isSuffixOf (normalizedKey fold key)

mutual

def assertNoInlineSecrets : Json F → String → Except String Unit
  | .dict kvs, path => assertMembers kvs path
  | .list xs, path => assertElements xs 0 path
  | _, _ => .ok ()

def assertMembers : List (String × Json F) → String → Except String Unit
  | [], _ => .ok ()
  | (key, child) :: kvs, path =>
    if secretShaped fold key then
      .error (path ++ "." ++ key ++ " looks like a secret value; store only a SecretReference")
    else
      match assertNoInlineSecrets child (path ++ "." ++ key) with
      | .error e => .error e
      | .ok () => assertMembers kvs path

def assertElements : List (Json F) → ℕ → String → Except String Unit
  | [], _, _ => .ok ()
  | child :: xs, index, path =>
    match assertNoInlineSecrets child (path ++ "[" ++ toString index ++ "]") with
    | .error e => .error e
    | .ok () => assertElements xs (index + 1) path

end

inductive ConfigSource where
  | default | portable | user | project | preset | invocation
  deriving DecidableEq

structure ValueOrigin where
  field : String
  source : ConfigSource
  sourcePath : Option String := none
  deriving DecidableEq

structure PhaseAddress where
  graphId : String
  phaseId : String
  deriving DecidableEq

def PhaseAddress.value (a : PhaseAddress) : String := a.graphId ++ "/" ++ a.phaseId

inductive SecretSource where
  | environment | host | keychain
  deriving DecidableEq

structure SecretReference where
  source : SecretSource
  name : String
  deriving DecidableEq

structure SecretBinding where
  inputName : String
  reference : SecretReference
  deriving DecidableEq

inductive Vendor where
  | claude | codex | copilot | cursor | gemini | opencode
  deriving DecidableEq

inductive ExecutorConfig (F : Type) where
  | hostNative
  | cli (vendor : Vendor) (agentProfile modelOverride executable : Option String) (timeoutSeconds : F)
  | embedded (provider model : Option String) (credential : Option SecretReference)

inductive ExecutorKind where
  | hostNative | cli | embedded
  deriving DecidableEq

def ExecutorConfig.kind : ExecutorConfig F → ExecutorKind
  | .hostNative => .hostNative
  | .cli .. => .cli
  | .embedded .. => .embedded

inductive CheckpointStoreConfig where
  | memory
  | sqlite (filename : String)
  deriving DecidableEq

inductive NetworkPolicy where
  | deny | hostPolicy | allow
  deriving DecidableEq

inductive FilesystemPolicy where
  | declaredOnly | skillAndState
  deriving DecidableEq

structure PermissionPolicy where
  network : NetworkPolicy := .hostPolicy
  filesystem : FilesystemPolicy := .skillAndState
  deriving DecidableEq

structure RuntimeProfileOverlay (F : Type) where
  executor : Option (ExecutorConfig F) := none
  checkpointStore : Option CheckpointStoreConfig := none
  stateDir : Option String := none
  permissions : Option PermissionPolicy := none
  requiredCapabilities : Option (List String) := none
  fallbackExecutors : Option (List (ExecutorConfig F)) := none

structure RuntimeProfile (F : Type) where
  executor : ExecutorConfig F
  checkpointStore : CheckpointStoreConfig
  stateDir : Option String
  permissions : PermissionPolicy
  requiredCapabilities : List String
  fallbackExecutors : List (ExecutorConfig F)
  fallbacks_are_explicit_and_distinct :
    executor.kind ∉ fallbackExecutors.map ExecutorConfig.kind ∧
      (fallbackExecutors.map ExecutorConfig.kind).Nodup

structure ResolvedRuntimeProfile (F : Type) where
  profile : RuntimeProfile F
  skillRoot : String
  stateRoot : String
  fieldOrigins : List ValueOrigin

structure InputBinding (F : Type) where
  address : PhaseAddress
  field : String
  value : Json F
  literal_is_not_a_secret :
    assertNoInlineSecrets fold value ("bindings." ++ address.value ++ "." ++ field) = .ok ()

structure NodeOverride (F : Type) where
  address : PhaseAddress
  timeoutSeconds : Option F
  customParams : JsonObject F
  params_do_not_persist_secrets :
    assertNoInlineSecrets fold (.dict customParams) ("node_overrides." ++ address.value) = .ok ()

structure CompareCandidate where
  address : PhaseAddress
  candidateId : String
  modelOverride : Option String
  deriving DecidableEq

structure ArtifactRequest where
  artifactId : String
  destination : Option String
  deriving DecidableEq

structure RunPreset (F : Type) where
  presetId : String
  inputs : JsonObject F := []
  secretInputs : List SecretBinding := []
  bindings : List (InputBinding fold F) := []
  breakpoints : List PhaseAddress := []
  nodeOverrides : List (NodeOverride fold F) := []
  compareCandidates : List CompareCandidate := []
  artifactRequests : List ArtifactRequest := []
  preset_does_not_persist_inline_secrets :
    assertNoInlineSecrets fold (.dict inputs) ("presets." ++ presetId ++ ".inputs") = .ok ()

structure RunInvocation (F : Type) where
  skillRoot : String
  runId : Option String
  presetId : Option String
  runtime : RuntimeProfileOverlay F
  inputs : Option (JsonObject F)
  secretInputs : Option (List SecretBinding)
  bindings : Option (List (InputBinding fold F))
  breakpoints : Option (List PhaseAddress)
  nodeOverrides : Option (List (NodeOverride fold F))
  compareCandidates : Option (List CompareCandidate)
  artifactRequests : Option (List ArtifactRequest)
  invocation_does_not_inline_secrets :
    ∀ given, inputs = some given → assertNoInlineSecrets fold (.dict given) "invocation.inputs" = .ok ()

structure RunRequest (F : Type) where
  runId : String
  presetId : Option String
  profile : ResolvedRuntimeProfile F
  inputs : JsonObject F
  secretInputs : List SecretBinding
  bindings : List (InputBinding fold F)
  breakpoints : List PhaseAddress
  nodeOverrides : List (NodeOverride fold F)
  compareCandidates : List CompareCandidate
  artifactRequests : List ArtifactRequest
  valueOrigins : List ValueOrigin

inductive RuntimeErrorCode where
  | configInvalid | compileFailed | executorUnavailable | internalError | invalidRequest | notImplemented
  | runFailed | snapshotNotFound
  deriving DecidableEq

structure RuntimeErrorPayload (F : Type) where
  code : RuntimeErrorCode
  message : String
  retryable : Bool := false
  phase : Option String := none
  sourcePath : Option String := none
  details : JsonObject F := []

inductive AgentStatus where
  | completed | failed | cancelled
  deriving DecidableEq

structure AgentResult (F : Type) where
  taskId : String
  status : AgentStatus
  output : Option (JsonObject F)
  error : Option (RuntimeErrorPayload F)
  executorId : String
  provenance : JsonObject F
  terminal_payload_matches_status :
    (status = .completed → output.isSome) ∧ (status ≠ .completed → error.isSome) ∧
      (∀ given, output = some given → assertNoInlineSecrets fold (.dict given) "agent_result.output" = .ok ()) ∧
      assertNoInlineSecrets fold (.dict provenance) "agent_result.provenance" = .ok ()

structure Sourced (α : Type) where
  value : α
  origin : ValueOrigin

def Sourced.overlay {α : Type} (s : Sourced α) (given : Option α) (source : ConfigSource)
    (sourcePath : Option String) : Sourced α :=
  match given with
  | none => s
  | some value => ⟨value, ⟨s.origin.field, source, sourcePath⟩⟩

structure ProfileAccumulator (F : Type) where
  executor : Sourced (ExecutorConfig F)
  checkpointStore : Sourced CheckpointStoreConfig
  stateDir : Sourced (Option String)
  permissions : Sourced PermissionPolicy
  requiredCapabilities : Sourced (List String)
  fallbackExecutors : Sourced (List (ExecutorConfig F))

namespace ProfileAccumulator

def defaults : ProfileAccumulator F where
  executor := ⟨.hostNative, ⟨"runtime.executor", .default, none⟩⟩
  checkpointStore := ⟨.sqlite "checkpoints.sqlite3", ⟨"runtime.checkpoint_store", .default, none⟩⟩
  stateDir := ⟨none, ⟨"runtime.state_dir", .default, none⟩⟩
  permissions := ⟨{}, ⟨"runtime.permissions", .default, none⟩⟩
  requiredCapabilities := ⟨[], ⟨"runtime.required_capabilities", .default, none⟩⟩
  fallbackExecutors := ⟨[], ⟨"runtime.fallback_executors", .default, none⟩⟩

def apply (acc : ProfileAccumulator F) (overlay : Option (RuntimeProfileOverlay F)) (source : ConfigSource)
    (sourcePath : Option String) : ProfileAccumulator F :=
  match overlay with
  | none => acc
  | some overlay =>
    { executor := acc.executor.overlay overlay.executor source sourcePath
      checkpointStore := acc.checkpointStore.overlay overlay.checkpointStore source sourcePath
      stateDir := acc.stateDir.overlay (overlay.stateDir.map some) source sourcePath
      permissions := acc.permissions.overlay overlay.permissions source sourcePath
      requiredCapabilities := acc.requiredCapabilities.overlay overlay.requiredCapabilities source sourcePath
      fallbackExecutors := acc.fallbackExecutors.overlay overlay.fallbackExecutors source sourcePath }

def origins (acc : ProfileAccumulator F) : List ValueOrigin :=
  [acc.checkpointStore.origin, acc.executor.origin, acc.fallbackExecutors.origin, acc.permissions.origin,
    acc.requiredCapabilities.origin, acc.stateDir.origin]

end ProfileAccumulator

structure PresetDocument (F : Type) where
  inputs : JsonObject F
  secretInputs : List SecretBinding
  bindings : List (InputBinding fold F)
  breakpoints : List PhaseAddress
  nodeOverrides : List (NodeOverride fold F)
  compareCandidates : List CompareCandidate
  artifactRequests : List ArtifactRequest

structure ProjectConfigDocument (F : Type) where
  runtime : RuntimeProfileOverlay F
  presets : List (String × PresetDocument fold F)

inductive ConfigurationError where
  | notDirectory (skillRoot : String)
  | userConfig (message : String)
  | projectConfig (message : String)
  | unknownPreset (presetId : String)
  | invalid (message : String)
  deriving DecidableEq

/-- What the resolver finds outside: the configuration files, the file system's paths and a new run id. -/
structure Surroundings (F : Type) where
  userConfigPath : String
  userConfigParent : String
  resolvedDirectory : String → Option String
  userDocument : Except ConfigurationError (Option (RuntimeProfileOverlay F))
  projectDocument : String → Except ConfigurationError (Option (ProjectConfigDocument fold F))
  absolutePath : String → Option String
  join : String → String → String
  freshRunId : String

variable {fold}

def PresetDocument.toPreset (document : PresetDocument fold F) (presetId : String) :
    Except ConfigurationError (RunPreset fold F) :=
  match h : assertNoInlineSecrets fold (.dict document.inputs) ("presets." ++ presetId ++ ".inputs") with
  | .error e => .error (.invalid e)
  | .ok () =>
    .ok
      { presetId
        inputs := document.inputs
        secretInputs := document.secretInputs
        bindings := document.bindings
        breakpoints := document.breakpoints
        nodeOverrides := document.nodeOverrides
        compareCandidates := document.compareCandidates
        artifactRequests := document.artifactRequests
        preset_does_not_persist_inline_secrets := h }

def resolvedStateRoot (env : Surroundings fold F) (acc : ProfileAccumulator F) (skillRoot : String) : String :=
  match acc.stateDir.value with
  | none => env.join skillRoot ".gskill"
  | some dir =>
    match env.absolutePath dir with
    | some path => path
    | none =>
      if acc.stateDir.origin.source = .user then env.join env.userConfigParent dir else env.join skillRoot dir

def sortedNames (inputs : JsonObject F) : List String := (inputs.map Prod.fst).mergeSort fun a b => decide (a ≤ b)

def businessFields : List String :=
  ["inputs", "secret_inputs", "bindings", "breakpoints", "node_overrides", "compare_candidates",
    "artifact_requests"]

def businessOrigins (preset : RunPreset fold F) (source : ConfigSource) (sourcePath : Option String) :
    List ValueOrigin :=
  businessFields.map (⟨·, source, sourcePath⟩) ++
    (sortedNames preset.inputs).map fun name => ⟨"inputs." ++ name, source, sourcePath⟩

def originHead (origin : ValueOrigin) : String := .ofList (origin.field.toList.takeWhile (· ≠ '.'))

def overriddenNames (invocation : RunInvocation fold F) : List String :=
  [("artifact_requests", invocation.artifactRequests.isSome), ("bindings", invocation.bindings.isSome),
    ("breakpoints", invocation.breakpoints.isSome), ("compare_candidates", invocation.compareCandidates.isSome),
    ("inputs", invocation.inputs.isSome), ("node_overrides", invocation.nodeOverrides.isSome),
    ("secret_inputs", invocation.secretInputs.isSome)].filterMap fun (name, given) =>
      if given then some name else none

def defaultPreset (fold : Char → List Char) (F : Type) : RunPreset fold F where
  presetId := "defaults"
  preset_does_not_persist_inline_secrets := by
    rw [assertNoInlineSecrets, assertMembers]

/-- The preset that supplies the business values, with the layer it belongs to. -/
def selectedPreset (invocation : RunInvocation fold F)
    (project : Option (ProjectConfigDocument fold F)) (projectConfigPath : String)
    (portableDefaults : Option (RunPreset fold F)) :
    Except ConfigurationError (RunPreset fold F × ConfigSource × Option String) :=
  match invocation.presetId, portableDefaults with
  | some presetId, _ =>
    match project.bind fun document => Dict.find document.presets presetId with
    | none => .error (.unknownPreset presetId)
    | some document => (document.toPreset presetId).map (·, .preset, some projectConfigPath)
  | none, some preset => .ok (preset, .portable, none)
  | none, none => .ok (defaultPreset fold F, .default, none)

def valueOrigins (invocation : RunInvocation fold F) (preset : RunPreset fold F) (source : ConfigSource)
    (sourcePath : Option String) : List ValueOrigin :=
  let names := overriddenNames invocation
  let kept := (businessOrigins preset source sourcePath).filter fun origin => !names.contains (originHead origin)
  let given := names.map fun name => ⟨name, .invocation, none⟩
  let inputs := match invocation.inputs with
    | none => []
    | some inputs => (sortedNames inputs).map fun name => ⟨"inputs." ++ name, .invocation, none⟩
  let run := ⟨"run_id", if invocation.runId.isSome then .invocation else .default, none⟩
  (kept ++ given ++ inputs ++ [run]).mergeSort fun a b => decide (a.field ≤ b.field)

def ProfileAccumulator.toProfile (acc : ProfileAccumulator F) (stateRoot : String) :
    Except ConfigurationError (RuntimeProfile F) :=
  if hprimary : acc.executor.value.kind ∈ acc.fallbackExecutors.value.map ExecutorConfig.kind then
    .error (.invalid "fallback_executors cannot repeat the primary executor")
  else if hdistinct : (acc.fallbackExecutors.value.map ExecutorConfig.kind).Nodup then
    .ok
      { executor := acc.executor.value
        checkpointStore := acc.checkpointStore.value
        stateDir := some stateRoot
        permissions := acc.permissions.value
        requiredCapabilities := acc.requiredCapabilities.value
        fallbackExecutors := acc.fallbackExecutors.value
        fallbacks_are_explicit_and_distinct := ⟨hprimary, hdistinct⟩ }
  else .error (.invalid "fallback_executors cannot contain duplicate executor kinds")

def resolve (env : Surroundings fold F) (invocation : RunInvocation fold F)
    (portableRuntime : Option (RuntimeProfileOverlay F)) (portableDefaults : Option (RunPreset fold F)) :
    Except ConfigurationError (RunRequest fold F) :=
  match env.resolvedDirectory invocation.skillRoot with
  | none => .error (.notDirectory invocation.skillRoot)
  | some skillRoot => do
    let projectConfigPath := env.join skillRoot "gskill.toml"
    let user ← env.userDocument
    let project ← env.projectDocument projectConfigPath
    let acc := (((ProfileAccumulator.defaults.apply portableRuntime .portable none).apply user .user
      (user.map fun _ => env.userConfigPath)).apply (project.map (·.runtime)) .project
      (project.map fun _ => projectConfigPath)).apply (some invocation.runtime) .invocation none
    let stateRoot := resolvedStateRoot env acc skillRoot
    let profile ← acc.toProfile stateRoot
    let (preset, source, sourcePath) ← selectedPreset invocation project projectConfigPath portableDefaults
    .ok
      { runId := match invocation.runId with
          | some id => if id = "" then env.freshRunId else id
          | none => env.freshRunId
        presetId := invocation.presetId
        profile := { profile, skillRoot, stateRoot, fieldOrigins := acc.origins }
        inputs := invocation.inputs.getD preset.inputs
        secretInputs := invocation.secretInputs.getD preset.secretInputs
        bindings := invocation.bindings.getD preset.bindings
        breakpoints := invocation.breakpoints.getD preset.breakpoints
        nodeOverrides := invocation.nodeOverrides.getD preset.nodeOverrides
        compareCandidates := invocation.compareCandidates.getD preset.compareCandidates
        artifactRequests := invocation.artifactRequests.getD preset.artifactRequests
        valueOrigins := valueOrigins invocation preset source sourcePath }

end

end GraphSkillRuntime.RunContracts
