import GraphSkillRuntime.InlineSecrets

/-! Which layer supplies each value of a resolved request, and which layer the recorded origins name. -/

namespace GraphSkillRuntime.RunContracts

open OrderedDict JsonText

variable {fold : Char → List Char} {F : Type} {α : Type}

structure Layer (F : Type) where
  overlay : Option (RuntimeProfileOverlay F)
  source : ConfigSource
  sourcePath : Option String

def Layer.given (layer : Layer F) (get : RuntimeProfileOverlay F → Option α) : Option α := layer.overlay.bind get

def runtimeLayers (env : Surroundings fold F) (invocation : RunInvocation fold F)
    (portableRuntime user : Option (RuntimeProfileOverlay F)) (project : Option (ProjectConfigDocument fold F))
    (projectConfigPath : String) : List (Layer F) :=
  [⟨some invocation.runtime, .invocation, none⟩,
    ⟨project.map (·.runtime), .project, project.map fun _ => projectConfigPath⟩,
    ⟨user, .user, user.map fun _ => env.userConfigPath⟩,
    ⟨portableRuntime, .portable, none⟩]

def FromHighest (layers : List (Layer F)) (get : RuntimeProfileOverlay F → Option α) (default : α) (field : String)
    (s : Sourced α) : Prop :=
  (∃ above layer below value, layers = above ++ layer :: below ∧ (∀ l ∈ above, l.given get = none) ∧
      layer.given get = some value ∧ s = ⟨value, ⟨field, layer.source, layer.sourcePath⟩⟩) ∨
    (∀ l ∈ layers, l.given get = none) ∧ s = ⟨default, ⟨field, .default, none⟩⟩

def originsOf (origins : List ValueOrigin) (field : String) : List ValueOrigin :=
  origins.filter fun origin => decide (origin.field = field)

def RuntimeField (layers : List (Layer F)) (resolved : ResolvedRuntimeProfile F)
    (get : RuntimeProfileOverlay F → Option α) (default : α) (field : String) (value : α) : Prop :=
  ∃ origin, originsOf resolved.fieldOrigins field = [origin] ∧ FromHighest layers get default field ⟨value, origin⟩

structure RuntimePrecedence (env : Surroundings fold F) (layers : List (Layer F)) (skillRoot : String)
    (resolved : ResolvedRuntimeProfile F) : Prop where
  executor : RuntimeField layers resolved (·.executor) .hostNative "runtime.executor" resolved.profile.executor
  checkpointStore : RuntimeField layers resolved (·.checkpointStore) (.sqlite "checkpoints.sqlite3")
    "runtime.checkpoint_store" resolved.profile.checkpointStore
  permissions : RuntimeField layers resolved (·.permissions) {} "runtime.permissions" resolved.profile.permissions
  requiredCapabilities : RuntimeField layers resolved (·.requiredCapabilities) [] "runtime.required_capabilities"
    resolved.profile.requiredCapabilities
  fallbackExecutors : RuntimeField layers resolved (·.fallbackExecutors) [] "runtime.fallback_executors"
    resolved.profile.fallbackExecutors
  stateDir : ∃ dir origin, originsOf resolved.fieldOrigins "runtime.state_dir" = [origin] ∧
    FromHighest layers (fun overlay => overlay.stateDir.map some) none "runtime.state_dir" ⟨dir, origin⟩ ∧
    resolved.profile.stateDir = some resolved.stateRoot ∧
    (dir = none → resolved.stateRoot = env.join skillRoot ".gskill") ∧
    (∀ d path, dir = some d → env.absolutePath d = some path → resolved.stateRoot = path) ∧
    ∀ d, dir = some d → env.absolutePath d = none →
      resolved.stateRoot = env.join (if origin.source = .user then env.userConfigParent else skillRoot) d
  fields : (resolved.fieldOrigins.map (·.field)).Perm ["runtime.executor", "runtime.checkpoint_store",
    "runtime.state_dir", "runtime.permissions", "runtime.required_capabilities", "runtime.fallback_executors"]

inductive SelectedPreset (invocation : RunInvocation fold F) (project : Option (ProjectConfigDocument fold F))
    (projectConfigPath : String) (portableDefaults : Option (RunPreset fold F)) :
    RunPreset fold F → ConfigSource → Option String → Prop where
  | preset {presetId : String} {document : ProjectConfigDocument fold F} {found : PresetDocument fold F}
      {selected : RunPreset fold F} (hid : invocation.presetId = some presetId) (hproject : project = some document)
      (hfound : Dict.find document.presets presetId = some found) (hselected : found.toPreset presetId = .ok selected) :
      SelectedPreset invocation project projectConfigPath portableDefaults selected .preset (some projectConfigPath)
  | portable {defaults : RunPreset fold F} (hid : invocation.presetId = none)
      (hdefaults : portableDefaults = some defaults) :
      SelectedPreset invocation project projectConfigPath portableDefaults defaults .portable none
  | default (hid : invocation.presetId = none) (hdefaults : portableDefaults = none) :
      SelectedPreset invocation project projectConfigPath portableDefaults (defaultPreset fold F) .default none

/-- Value and origin of a business field are those of the invocation if it sets the field, else those of the preset. -/
def BusinessField (origins : List ValueOrigin) (source : ConfigSource) (sourcePath : Option String) (field : String)
    (given : Option α) (kept value : α) : Prop :=
  (∃ v, given = some v ∧ value = v ∧ originsOf origins field = [⟨field, .invocation, none⟩]) ∨
    given = none ∧ value = kept ∧ originsOf origins field = [⟨field, source, sourcePath⟩]

structure BusinessPrecedence (invocation : RunInvocation fold F) (preset : RunPreset fold F) (source : ConfigSource)
    (sourcePath : Option String) (request : RunRequest fold F) : Prop where
  inputs : BusinessField request.valueOrigins source sourcePath "inputs" invocation.inputs preset.inputs
    request.inputs
  secretInputs : BusinessField request.valueOrigins source sourcePath "secret_inputs" invocation.secretInputs
    preset.secretInputs request.secretInputs
  bindings : BusinessField request.valueOrigins source sourcePath "bindings" invocation.bindings preset.bindings
    request.bindings
  breakpoints : BusinessField request.valueOrigins source sourcePath "breakpoints" invocation.breakpoints
    preset.breakpoints request.breakpoints
  nodeOverrides : BusinessField request.valueOrigins source sourcePath "node_overrides" invocation.nodeOverrides
    preset.nodeOverrides request.nodeOverrides
  compareCandidates : BusinessField request.valueOrigins source sourcePath "compare_candidates"
    invocation.compareCandidates preset.compareCandidates request.compareCandidates
  artifactRequests : BusinessField request.valueOrigins source sourcePath "artifact_requests"
    invocation.artifactRequests preset.artifactRequests request.artifactRequests
  key : ∀ k ∈ request.inputs.map Prod.fst, originsOf request.valueOrigins ("inputs." ++ k) =
    [if invocation.inputs.isSome then ⟨"inputs." ++ k, .invocation, none⟩ else ⟨"inputs." ++ k, source, sourcePath⟩]
  noKey : ∀ k, k ∉ request.inputs.map Prod.fst → originsOf request.valueOrigins ("inputs." ++ k) = []

/-- Values and origins of a resolved request follow the order of the layers. -/
def ConfigPrecedence (env : Surroundings fold F) (invocation : RunInvocation fold F)
    (portableRuntime : Option (RuntimeProfileOverlay F)) (portableDefaults : Option (RunPreset fold F))
    (request : RunRequest fold F) : Prop :=
  ∃ skillRoot user project preset source sourcePath,
    env.resolvedDirectory invocation.skillRoot = some skillRoot ∧ env.userDocument = .ok user ∧
    env.projectDocument (env.join skillRoot "gskill.toml") = .ok project ∧
    RuntimePrecedence env (runtimeLayers env invocation portableRuntime user project
      (env.join skillRoot "gskill.toml")) skillRoot request.profile ∧
    SelectedPreset invocation project (env.join skillRoot "gskill.toml") portableDefaults preset source sourcePath ∧
    BusinessPrecedence invocation preset source sourcePath request

def overlayAll (get : RuntimeProfileOverlay F → Option α) (layers : List (Layer F)) (s : Sourced α) : Sourced α :=
  layers.foldr (fun layer s => s.overlay (layer.given get) layer.source layer.sourcePath) s

theorem overlayAll_fromHighest (get : RuntimeProfileOverlay F → Option α) (default : α) (field : String) :
    ∀ layers : List (Layer F),
      FromHighest layers get default field (overlayAll get layers ⟨default, ⟨field, .default, none⟩⟩) ∧
        (overlayAll get layers ⟨default, ⟨field, .default, none⟩⟩).origin.field = field
  | [] => ⟨.inr ⟨by simp, rfl⟩, rfl⟩
  | layer :: layers => by
    obtain ⟨ih, hfield⟩ := overlayAll_fromHighest get default field layers
    have hcons : overlayAll get (layer :: layers) ⟨default, ⟨field, .default, none⟩⟩ =
        (overlayAll get layers ⟨default, ⟨field, .default, none⟩⟩).overlay (layer.given get) layer.source
          layer.sourcePath := rfl
    rw [hcons]
    cases hgiven : layer.given get with
    | some value =>
      refine ⟨.inl ⟨[], layer, layers, value, rfl, by simp, hgiven, ?_⟩, hfield⟩
      rw [Sourced.overlay, hfield]
    | none =>
      refine ⟨?_, hfield⟩
      rcases ih with ⟨above, winner, below, value, rfl, habove, hvalue, hs⟩ | ⟨hnone, hs⟩
      · exact .inl ⟨layer :: above, winner, below, value, rfl, List.forall_mem_cons.mpr ⟨hgiven, habove⟩, hvalue, hs⟩
      · exact .inr ⟨List.forall_mem_cons.mpr ⟨hgiven, hnone⟩, hs⟩

def accumulate (layers : List (Layer F)) : ProfileAccumulator F :=
  layers.foldr (fun layer acc => acc.apply layer.overlay layer.source layer.sourcePath) .defaults

theorem accumulate_eq (layers : List (Layer F)) : accumulate layers =
    { executor := overlayAll (·.executor) layers ProfileAccumulator.defaults.executor
      checkpointStore := overlayAll (·.checkpointStore) layers (@ProfileAccumulator.defaults F).checkpointStore
      stateDir := overlayAll (fun overlay => overlay.stateDir.map some) layers (@ProfileAccumulator.defaults F).stateDir
      permissions := overlayAll (·.permissions) layers (@ProfileAccumulator.defaults F).permissions
      requiredCapabilities :=
        overlayAll (·.requiredCapabilities) layers (@ProfileAccumulator.defaults F).requiredCapabilities
      fallbackExecutors := overlayAll (·.fallbackExecutors) layers ProfileAccumulator.defaults.fallbackExecutors } := by
  induction layers with
  | nil => rfl
  | cons layer layers ih =>
    have hcons : accumulate (layer :: layers) =
        (accumulate layers).apply layer.overlay layer.source layer.sourcePath := rfl
    rw [hcons, ih]
    obtain ⟨overlay, source, sourcePath⟩ := layer
    cases overlay <;> rfl

theorem ProfileAccumulator.toProfile_ok {acc : ProfileAccumulator F} {stateRoot : String} {profile : RuntimeProfile F}
    (h : acc.toProfile stateRoot = .ok profile) :
    profile.executor = acc.executor.value ∧ profile.checkpointStore = acc.checkpointStore.value ∧
      profile.stateDir = some stateRoot ∧ profile.permissions = acc.permissions.value ∧
      profile.requiredCapabilities = acc.requiredCapabilities.value ∧
      profile.fallbackExecutors = acc.fallbackExecutors.value := by
  unfold toProfile at h
  split at h
  · cases h
  · split at h
    · cases h
      exact ⟨rfl, rfl, rfl, rfl, rfl, rfl⟩
    · cases h

theorem originsOf_eq_singleton {origins : List ValueOrigin} (hnodup : (origins.map (·.field)).Nodup)
    {origin : ValueOrigin} (h : origin ∈ origins) {field : String} (hfield : origin.field = field) :
    originsOf origins field = [origin] := by
  subst hfield
  induction origins with
  | nil => cases h
  | cons first origins ih =>
    obtain ⟨hfirst, hnodup⟩ := List.nodup_cons.mp hnodup
    unfold originsOf at ih ⊢
    rcases List.mem_cons.mp h with rfl | h
    · rw [List.filter_cons_of_pos (by simp), List.filter_eq_nil_iff.mpr]
      intro other hother
      simp only [decide_eq_true_eq]
      intro heq
      exact hfirst (List.mem_map.mpr ⟨other, hother, heq⟩)
    · rw [List.filter_cons_of_neg, ih hnodup h]
      simp only [decide_eq_true_eq]
      intro heq
      exact hfirst (List.mem_map.mpr ⟨origin, h, heq.symm⟩)

theorem accumulate_fields (layers : List (Layer F)) : (accumulate layers).origins.map (·.field) =
    ["runtime.checkpoint_store", "runtime.executor", "runtime.fallback_executors", "runtime.permissions",
      "runtime.required_capabilities", "runtime.state_dir"] := by
  rw [accumulate_eq]
  simp only [ProfileAccumulator.origins, List.map_cons, List.map_nil, ProfileAccumulator.defaults]
  simp only [(overlayAll_fromHighest _ _ _ layers).2]

theorem runtimeField_of (layers : List (Layer F)) (get : RuntimeProfileOverlay F → Option α) (default : α)
    (field : String) {s : Sourced α} (hs : s = overlayAll get layers ⟨default, ⟨field, .default, none⟩⟩)
    (hmem : s.origin ∈ (accumulate layers).origins) :
    originsOf (accumulate layers).origins field = [s.origin] ∧ FromHighest layers get default field s := by
  obtain ⟨hhighest, hfield⟩ := overlayAll_fromHighest get default field layers
  rw [← hs] at hhighest hfield
  refine ⟨originsOf_eq_singleton ?_ hmem hfield, hhighest⟩
  rw [accumulate_fields]
  decide

theorem runtimePrecedence (env : Surroundings fold F) (layers : List (Layer F)) (skillRoot : String)
    {profile : RuntimeProfile F}
    (h : (accumulate layers).toProfile (resolvedStateRoot env (accumulate layers) skillRoot) = .ok profile) :
    RuntimePrecedence env layers skillRoot
      { profile, skillRoot, stateRoot := resolvedStateRoot env (accumulate layers) skillRoot
        fieldOrigins := (accumulate layers).origins } := by
  obtain ⟨hexecutor, hstore, hdir, hpermissions, hcapabilities, hfallbacks⟩ := ProfileAccumulator.toProfile_ok h
  have hacc := accumulate_eq layers
  constructor
  · rw [hexecutor]
    exact ⟨_, runtimeField_of layers _ _ _ (congrArg ProfileAccumulator.executor hacc)
      (by simp [ProfileAccumulator.origins])⟩
  · rw [hstore]
    exact ⟨_, runtimeField_of layers _ _ _ (congrArg ProfileAccumulator.checkpointStore hacc)
      (by simp [ProfileAccumulator.origins])⟩
  · rw [hpermissions]
    exact ⟨_, runtimeField_of layers _ _ _ (congrArg ProfileAccumulator.permissions hacc)
      (by simp [ProfileAccumulator.origins])⟩
  · rw [hcapabilities]
    exact ⟨_, runtimeField_of layers _ _ _ (congrArg ProfileAccumulator.requiredCapabilities hacc)
      (by simp [ProfileAccumulator.origins])⟩
  · rw [hfallbacks]
    exact ⟨_, runtimeField_of layers _ _ _ (congrArg ProfileAccumulator.fallbackExecutors hacc)
      (by simp [ProfileAccumulator.origins])⟩
  · obtain ⟨horigins, hhighest⟩ := runtimeField_of layers (fun o => o.stateDir.map some) none "runtime.state_dir"
      (congrArg ProfileAccumulator.stateDir hacc) (by simp [ProfileAccumulator.origins])
    refine ⟨_, _, horigins, hhighest, hdir, ?_, ?_, ?_⟩
    · intro hnone
      rw [resolvedStateRoot, hnone]
    · intro d path hsome hpath
      rw [resolvedStateRoot, hsome]
      simp only [hpath]
    · intro d hsome hrelative
      rw [resolvedStateRoot, hsome]
      simp only [hrelative]
      by_cases huser : (accumulate layers).stateDir.origin.source = .user
      · rw [if_pos huser, if_pos huser]
      · rw [if_neg huser, if_neg huser]
  · rw [accumulate_fields]
    decide

theorem inputs_dot_ne {name field : String} (h : '.' ∉ field.toList) : "inputs." ++ name ≠ field := by
  rintro rfl
  simp at h

theorem businessFields_dotless {field : String} (h : field ∈ businessFields) : '.' ∉ field.toList := by
  simp only [businessFields, List.mem_cons, List.not_mem_nil, or_false] at h
  rcases h with rfl | rfl | rfl | rfl | rfl | rfl | rfl <;> simp

theorem originHead_dotless {field : String} (h : '.' ∉ field.toList) (source : ConfigSource)
    (sourcePath : Option String) : originHead ⟨field, source, sourcePath⟩ = field := by
  have htake : field.toList.takeWhile (· ≠ '.') = field.toList := by
    rw [List.takeWhile_eq_self_iff]
    intro c hc
    simp only [ne_eq, decide_eq_true_eq]
    rintro rfl
    exact h hc
  rw [originHead, htake, String.ofList_toList]

theorem originHead_inputs (name : String) (source : ConfigSource) (sourcePath : Option String) :
    originHead ⟨"inputs." ++ name, source, sourcePath⟩ = "inputs" := by
  simp [originHead]

theorem originsOf_append (origins others : List ValueOrigin) (field : String) :
    originsOf (origins ++ others) field = originsOf origins field ++ originsOf others field := List.filter_append ..

theorem originsOf_map_ne {mk : String → String} {names : List String} {field : String} (source : ConfigSource)
    (sourcePath : Option String) (h : ∀ name ∈ names, mk name ≠ field) :
    originsOf (names.map fun name => ⟨mk name, source, sourcePath⟩) field = [] := by
  apply List.filter_eq_nil_iff.mpr
  intro origin horigin
  obtain ⟨name, hname, rfl⟩ := List.mem_map.mp horigin
  simpa using h name hname

theorem originsOf_map {mk : String → String} (hmk : Function.Injective mk) (names : List String) (name : String)
    (source : ConfigSource) (sourcePath : Option String) :
    originsOf (names.map fun name => ⟨mk name, source, sourcePath⟩) (mk name) =
      List.replicate (names.count name) ⟨mk name, source, sourcePath⟩ := by
  have hfilter : names.filter (fun other => decide (mk other = mk name)) = List.replicate (names.count name) name := by
    rw [← List.filter_beq]
    apply List.filter_congr
    intro other _
    rw [Bool.eq_iff_iff, decide_eq_true_eq, beq_iff_eq]
    exact hmk.eq_iff
  rw [originsOf, List.filter_map]
  change (names.filter fun other => decide (mk other = mk name)).map _ = _
  rw [hfilter, List.map_replicate]

theorem originsOf_names (names : List String) (name : String) (source : ConfigSource) (sourcePath : Option String) :
    originsOf (names.map fun name => ⟨name, source, sourcePath⟩) name =
      List.replicate (names.count name) ⟨name, source, sourcePath⟩ :=
  originsOf_map Function.injective_id names name source sourcePath

theorem overriddenNames_eq (invocation : RunInvocation fold F) : overriddenNames invocation =
    ([("artifact_requests", invocation.artifactRequests.isSome), ("bindings", invocation.bindings.isSome),
      ("breakpoints", invocation.breakpoints.isSome), ("compare_candidates", invocation.compareCandidates.isSome),
      ("inputs", invocation.inputs.isSome), ("node_overrides", invocation.nodeOverrides.isSome),
      ("secret_inputs", invocation.secretInputs.isSome)].filter Prod.snd).map Prod.fst := by
  rw [overriddenNames]
  generalize [("artifact_requests", _), _, _, _, _, _, _] = fields
  induction fields with
  | nil => rfl
  | cons entry fields ih =>
    obtain ⟨name, given⟩ := entry
    cases given <;> simp [ih]

theorem overriddenNames_nodup (invocation : RunInvocation fold F) : (overriddenNames invocation).Nodup := by
  rw [overriddenNames_eq]
  apply List.Nodup.sublist (List.filter_sublist.map Prod.fst)
  simp

theorem overriddenNames_subset (invocation : RunInvocation fold F) : overriddenNames invocation ⊆ businessFields := by
  rw [overriddenNames_eq]
  intro name hname
  have hmem := (List.filter_sublist.map Prod.fst).subset hname
  simp only [List.map_cons, List.map_nil, List.mem_cons, List.not_mem_nil, or_false] at hmem
  rcases hmem with rfl | rfl | rfl | rfl | rfl | rfl | rfl <;> decide

theorem keptOrigins_eq (invocation : RunInvocation fold F) (preset : RunPreset fold F) (source : ConfigSource)
    (sourcePath : Option String) :
    (businessOrigins preset source sourcePath).filter
        (fun origin => !(overriddenNames invocation).contains (originHead origin)) =
      ((businessFields.filter fun field => !(overriddenNames invocation).contains field).map
        fun field => ⟨field, source, sourcePath⟩) ++
      (if invocation.inputs.isSome then [] else
        (sortedNames preset.inputs).map fun name => ⟨"inputs." ++ name, source, sourcePath⟩) := by
  have hinputs : (overriddenNames invocation).contains "inputs" = invocation.inputs.isSome := by
    rw [Bool.eq_iff_iff, List.contains_iff_mem, overriddenNames_eq]
    simp
  rw [businessOrigins, List.filter_append, List.filter_map, List.filter_map]
  apply congrArg₂
  · apply congrArg
    apply List.filter_congr
    intro field hfield
    rw [Function.comp_apply, originHead_dotless (businessFields_dotless hfield)]
  · have hhead : ∀ name ∈ sortedNames preset.inputs,
        ((fun origin => !(overriddenNames invocation).contains (originHead origin)) ∘
          fun name => (⟨"inputs." ++ name, source, sourcePath⟩ : ValueOrigin)) name = !invocation.inputs.isSome := by
      intro name _
      rw [Function.comp_apply, originHead_inputs, hinputs]
    rw [List.filter_congr hhead]
    cases invocation.inputs.isSome <;> simp

/-- The origins of the keys of an `inputs` section. -/
def keyOrigins (inputs : JsonObject F) (source : ConfigSource) (sourcePath : Option String) : List ValueOrigin :=
  (sortedNames inputs).map fun name => ⟨"inputs." ++ name, source, sourcePath⟩

theorem keyOrigins_key (inputs : JsonObject F) (source : ConfigSource) (sourcePath : Option String) (k : String) :
    originsOf (keyOrigins inputs source sourcePath) ("inputs." ++ k) =
      List.replicate ((inputs.map Prod.fst).count k) ⟨"inputs." ++ k, source, sourcePath⟩ := by
  have hinj : Function.Injective fun name : String => "inputs." ++ name :=
    fun _ _ h => (String.append_right_inj _).mp h
  rw [keyOrigins, originsOf_map hinj, sortedNames, (List.mergeSort_perm _ _).count_eq]

theorem keyOrigins_field (inputs : JsonObject F) (source : ConfigSource) (sourcePath : Option String) {field : String}
    (h : '.' ∉ field.toList) : originsOf (keyOrigins inputs source sourcePath) field = [] :=
  originsOf_map_ne source sourcePath fun _ _ => inputs_dot_ne h

def requestKeyOrigins (invocation : RunInvocation fold F) (preset : RunPreset fold F) (source : ConfigSource)
    (sourcePath : Option String) : List ValueOrigin :=
  match invocation.inputs with
  | none => keyOrigins preset.inputs source sourcePath
  | some inputs => keyOrigins inputs .invocation none

theorem originsOf_valueOrigins (invocation : RunInvocation fold F) (preset : RunPreset fold F) (source : ConfigSource)
    (sourcePath : Option String) (field : String) :
    (originsOf (valueOrigins invocation preset source sourcePath) field).Perm
      (originsOf ((businessFields.filter fun name => !(overriddenNames invocation).contains name).map
          fun name => ⟨name, source, sourcePath⟩) field ++
        originsOf ((overriddenNames invocation).map fun name => ⟨name, .invocation, none⟩) field ++
        originsOf (requestKeyOrigins invocation preset source sourcePath) field ++
        originsOf [⟨"run_id", if invocation.runId.isSome then .invocation else .default, none⟩] field) := by
  have hsort := (List.mergeSort_perm (((businessOrigins preset source sourcePath).filter
    fun origin => !(overriddenNames invocation).contains (originHead origin)) ++
      (overriddenNames invocation).map (fun name => (⟨name, .invocation, none⟩ : ValueOrigin)) ++
      (match invocation.inputs with
        | none => []
        | some inputs => (sortedNames inputs).map fun name => ⟨"inputs." ++ name, .invocation, none⟩) ++
      [⟨"run_id", if invocation.runId.isSome then .invocation else .default, none⟩])
    fun a b => decide (a.field ≤ b.field)).filter fun origin => decide (origin.field = field)
  refine hsort.trans ?_
  rw [keptOrigins_eq, ← originsOf_append, ← originsOf_append, ← originsOf_append]
  apply List.Perm.filter
  rw [requestKeyOrigins]
  cases invocation.inputs with
  | none =>
    simp only [Option.isSome_none, Bool.false_eq_true, if_false, List.append_nil, keyOrigins, List.append_assoc]
    apply List.Perm.append_left
    rw [← List.append_assoc, ← List.append_assoc]
    exact List.perm_append_comm.append_right _
  | some inputs =>
    simp only [Option.isSome_some, if_true, List.append_nil, keyOrigins]
    exact .refl _

theorem originsOf_field (invocation : RunInvocation fold F) (preset : RunPreset fold F) (source : ConfigSource)
    (sourcePath : Option String) {field : String} (h : field ∈ businessFields) :
    originsOf (valueOrigins invocation preset source sourcePath) field =
      [if field ∈ overriddenNames invocation then ⟨field, .invocation, none⟩ else ⟨field, source, sourcePath⟩] := by
  have hdot := businessFields_dotless h
  have hperm := originsOf_valueOrigins invocation preset source sourcePath field
  have hkeys : originsOf (requestKeyOrigins invocation preset source sourcePath) field = [] := by
    rw [requestKeyOrigins]
    cases invocation.inputs <;> exact keyOrigins_field _ _ _ hdot
  have hrun : originsOf [⟨"run_id", if invocation.runId.isSome then .invocation else .default, none⟩] field = [] := by
    apply List.filter_eq_nil_iff.mpr
    intro origin horigin
    obtain rfl := List.mem_singleton.mp horigin
    simp only [decide_eq_true_eq]
    rintro rfl
    exact absurd h (by decide)
  have hcount : businessFields.count field = 1 := List.count_eq_one_of_mem (by decide) h
  rw [hkeys, hrun, originsOf_names, originsOf_names, List.append_nil, List.append_nil] at hperm
  by_cases hover : field ∈ overriddenNames invocation
  · have hzero : (businessFields.filter fun name => !(overriddenNames invocation).contains name).count field = 0 := by
      apply List.count_eq_zero_of_not_mem
      simp [hover]
    rw [hzero, List.count_eq_one_of_mem (overriddenNames_nodup invocation) hover] at hperm
    rw [if_pos hover]
    exact List.perm_singleton.mp hperm
  · have hone : (businessFields.filter fun name => !(overriddenNames invocation).contains name).count field = 1 := by
      rw [List.count_filter (by simp [hover]), hcount]
    rw [hone, List.count_eq_zero_of_not_mem hover] at hperm
    rw [if_neg hover]
    exact List.perm_singleton.mp hperm

theorem originsOf_key (invocation : RunInvocation fold F) (preset : RunPreset fold F) (source : ConfigSource)
    (sourcePath : Option String) (k : String) :
    originsOf (valueOrigins invocation preset source sourcePath) ("inputs." ++ k) =
      List.replicate (((invocation.inputs.getD preset.inputs).map Prod.fst).count k)
        (if invocation.inputs.isSome then ⟨"inputs." ++ k, .invocation, none⟩
          else ⟨"inputs." ++ k, source, sourcePath⟩) := by
  have hperm := originsOf_valueOrigins invocation preset source sourcePath ("inputs." ++ k)
  have hfields : ∀ name ∈ businessFields, name ≠ "inputs." ++ k :=
    fun name hname => (inputs_dot_ne (businessFields_dotless hname)).symm
  have hrun : originsOf [⟨"run_id", if invocation.runId.isSome then .invocation else .default, none⟩]
      ("inputs." ++ k) = [] := by
    apply List.filter_eq_nil_iff.mpr
    intro origin horigin
    obtain rfl := List.mem_singleton.mp horigin
    simp only [decide_eq_true_eq]
    exact (inputs_dot_ne (by decide)).symm
  rw [@originsOf_map_ne (fun name => name) _ _ _ _ fun name hname => hfields name (List.mem_of_mem_filter hname),
    @originsOf_map_ne (fun name => name) _ _ _ _ fun name hname => hfields name (overriddenNames_subset _ hname), hrun,
    List.nil_append, List.nil_append, List.append_nil, requestKeyOrigins] at hperm
  apply List.perm_replicate.mp
  refine hperm.trans ?_
  cases invocation.inputs with
  | none => rw [keyOrigins_key]; exact .refl _
  | some inputs => rw [keyOrigins_key]; exact .refl _

theorem businessField_of {origins : List ValueOrigin} {source : ConfigSource} {sourcePath : Option String}
    {field : String} {given : Option α} {kept : α} {names : List String} (hname : field ∈ names ↔ given.isSome = true)
    (horigins : originsOf origins field =
      [if field ∈ names then ⟨field, .invocation, none⟩ else ⟨field, source, sourcePath⟩]) :
    BusinessField origins source sourcePath field given kept (given.getD kept) := by
  cases given with
  | none =>
    rw [if_neg (by simp [hname])] at horigins
    exact .inr ⟨rfl, rfl, horigins⟩
  | some value =>
    rw [if_pos (hname.mpr rfl)] at horigins
    exact .inl ⟨value, rfl, rfl, horigins⟩

theorem selectedPreset_ok {invocation : RunInvocation fold F} {project : Option (ProjectConfigDocument fold F)}
    {projectConfigPath : String} {portableDefaults : Option (RunPreset fold F)} {preset : RunPreset fold F}
    {source : ConfigSource} {sourcePath : Option String}
    (h : selectedPreset invocation project projectConfigPath portableDefaults = .ok (preset, source, sourcePath)) :
    SelectedPreset invocation project projectConfigPath portableDefaults preset source sourcePath := by
  unfold selectedPreset at h
  split at h
  · next presetId hid =>
    split at h
    · cases h
    · next found hfound =>
      obtain ⟨document, hproject, hfind⟩ := Option.bind_eq_some_iff.mp hfound
      cases hselected : found.toPreset presetId with
      | error e =>
        rw [hselected] at h
        cases h
      | ok selected =>
        rw [hselected] at h
        cases h
        exact .preset hid hproject hfind hselected
  · next hid =>
    cases h
    exact .portable hid rfl
  · next hid =>
    cases h
    exact .default hid rfl

theorem config_precedence (env : Surroundings fold F) (invocation : RunInvocation fold F)
    (portableRuntime : Option (RuntimeProfileOverlay F)) (portableDefaults : Option (RunPreset fold F))
    {request : RunRequest fold F} (h : resolve env invocation portableRuntime portableDefaults = .ok request)
    (hkeys : (request.inputs.map Prod.fst).Nodup) :
    ConfigPrecedence env invocation portableRuntime portableDefaults request := by
  rw [resolve] at h
  split at h
  · cases h
  next skillRoot hroot =>
  obtain ⟨user, huser, h⟩ := bind_ok h
  obtain ⟨project, hproject, h⟩ := bind_ok h
  obtain ⟨profile, hprofile, h⟩ := bind_ok h
  obtain ⟨⟨preset, source, sourcePath⟩, hpreset, h⟩ := bind_ok h
  cases h
  refine ⟨skillRoot, user, project, preset, source, sourcePath, hroot, huser, hproject, ?_, selectedPreset_ok hpreset,
    ?_⟩
  · exact runtimePrecedence env (runtimeLayers env invocation portableRuntime user project
      (env.join skillRoot "gskill.toml")) skillRoot hprofile
  have hname : ∀ field, field ∈ overriddenNames invocation ↔
      (field, true) ∈ [("artifact_requests", invocation.artifactRequests.isSome),
        ("bindings", invocation.bindings.isSome), ("breakpoints", invocation.breakpoints.isSome),
        ("compare_candidates", invocation.compareCandidates.isSome), ("inputs", invocation.inputs.isSome),
        ("node_overrides", invocation.nodeOverrides.isSome), ("secret_inputs", invocation.secretInputs.isSome)] := by
    intro field
    rw [overriddenNames_eq, List.mem_map]
    constructor
    · rintro ⟨⟨name, given⟩, hmem, rfl⟩
      obtain ⟨hmem, hgiven⟩ := List.mem_filter.mp hmem
      obtain rfl : given = true := hgiven
      exact hmem
    · intro hmem
      exact ⟨_, List.mem_filter.mpr ⟨hmem, rfl⟩, rfl⟩
  constructor
  case key =>
    intro k hk
    rw [originsOf_key, List.count_eq_one_of_mem hkeys hk]
    rfl
  case noKey =>
    intro k hk
    rw [originsOf_key, List.count_eq_zero_of_not_mem hk]
    rfl
  all_goals
    refine businessField_of ?_ (originsOf_field invocation preset source sourcePath (by decide))
    rw [hname]
    simp [eq_comm (a := true)]

def draftPreset : PresetDocument asciiFold FloatLiteral where
  inputs := [("title", .str "Tides")]
  secretInputs := []
  bindings := [sampleBinding]
  breakpoints := [⟨"root", "draft"⟩]
  nodeOverrides := []
  compareCandidates := []
  artifactRequests := []

def draftInvocation : RunInvocation asciiFold FloatLiteral :=
  { sampleInvocation with
    presetId := some "draft"
    inputs := none
    invocation_does_not_inline_secrets := by simp }

def draftSurroundings : Surroundings asciiFold FloatLiteral :=
  { sampleSurroundings with
    userDocument := .ok (some { stateDir := some "runs" })
    projectDocument := fun _ => .ok (some ⟨{ permissions := some { network := .deny } }, [("draft", draftPreset)]⟩) }

theorem config_precedence_draft : ∃ request, resolve draftSurroundings draftInvocation none none = .ok request ∧
    request.inputs.map Prod.fst = ["title"] ∧
    ConfigPrecedence draftSurroundings draftInvocation none none request := by
  obtain ⟨request, hrequest, hinputs⟩ : ∃ request,
      resolve draftSurroundings draftInvocation none none = .ok request ∧
        request.inputs = [("title", .str "Tides")] := ⟨_, rfl, rfl⟩
  refine ⟨request, hrequest, by rw [hinputs]; rfl, ?_⟩
  apply config_precedence draftSurroundings draftInvocation none none hrequest
  rw [hinputs]
  simp

end GraphSkillRuntime.RunContracts
