import GraphSkillRuntime.RunContracts
import GraphSkillRuntime.Runs

/-! Which names meet literal values in the persisted contracts, and which of the names the checks look at. -/

namespace GraphSkillRuntime.RunContracts

open OrderedDict JsonText

variable {fold : Char → List Char} {F : Type}

inductive Stores : Json F → String → Json F → Prop where
  | member {kvs : List (String × Json F)} {k : String} {v : Json F} (h : (k, v) ∈ kvs) : Stores (.dict kvs) k v
  | inner {kvs : List (String × Json F)} {k j : String} {v w : Json F} (h : (k, v) ∈ kvs) (hv : Stores v j w) :
      Stores (.dict kvs) j w
  | element {xs : List (Json F)} {x w : Json F} {j : String} (h : x ∈ xs) (hx : Stores x j w) : Stores (.list xs) j w

def NoSecret (fold : Char → List Char) (stores : String → Json F → Prop) : Prop :=
  ∀ k v, stores k v → secretShaped fold k = false

theorem noSecret_dict_iff {kvs : List (String × Json F)} : NoSecret fold (Stores (.dict kvs)) ↔
    ∀ e ∈ kvs, secretShaped fold e.1 = false ∧ NoSecret fold (Stores e.2) := by
  constructor
  · rintro h ⟨k, v⟩ he
    exact ⟨h k v (.member he), fun j w hv => h j w (.inner he hv)⟩
  · intro h j w hstores
    cases hstores with
    | member he => exact (h _ he).1
    | inner he hv => exact (h _ he).2 j w hv

theorem noSecret_list_iff {xs : List (Json F)} : NoSecret fold (Stores (.list xs)) ↔
    ∀ x ∈ xs, NoSecret fold (Stores x) := by
  constructor
  · intro h x hx j w hstores
    exact h j w (.element hx hstores)
  · intro h j w hstores
    cases hstores with
    | element hx hstores => exact h _ hx j w hstores

theorem noSecret_scalar {v : Json F} (hdict : ∀ kvs, v ≠ .dict kvs) (hlist : ∀ xs, v ≠ .list xs) :
    NoSecret fold (Stores v) := by
  intro j w hstores
  cases hstores with
  | member => exact absurd rfl (hdict _)
  | inner => exact absurd rfl (hdict _)
  | element => exact absurd rfl (hlist _)

mutual

theorem assertNoInlineSecrets_iff : ∀ (v : Json F) (path : String),
    assertNoInlineSecrets fold v path = .ok () ↔ NoSecret fold (Stores v)
  | .dict kvs, path => by
    rw [assertNoInlineSecrets, assertMembers_iff kvs path, noSecret_dict_iff]
  | .list xs, path => by
    rw [assertNoInlineSecrets, assertElements_iff xs 0 path, noSecret_list_iff]
  | .null, path | .bool _, path | .int _, path | .float _, path | .str _, path =>
    iff_of_true rfl (noSecret_scalar (by simp) (by simp))

theorem assertMembers_iff : ∀ (kvs : List (String × Json F)) (path : String),
    assertMembers fold kvs path = .ok () ↔ ∀ e ∈ kvs, secretShaped fold e.1 = false ∧ NoSecret fold (Stores e.2)
  | [], path => by simp [assertMembers]
  | (key, child) :: kvs, path => by
    have hchild := assertNoInlineSecrets_iff child (path ++ "." ++ key)
    have hrest := assertMembers_iff kvs path
    rw [assertMembers, List.forall_mem_cons, ← hchild, ← hrest]
    cases secretShaped fold key with
    | true => simp
    | false => cases assertNoInlineSecrets fold child (path ++ "." ++ key) <;> simp

theorem assertElements_iff : ∀ (xs : List (Json F)) (index : ℕ) (path : String),
    assertElements fold xs index path = .ok () ↔ ∀ x ∈ xs, NoSecret fold (Stores x)
  | [], index, path => by simp [assertElements]
  | child :: xs, index, path => by
    have hchild := assertNoInlineSecrets_iff child (path ++ "[" ++ toString index ++ "]")
    have hrest := assertElements_iff xs (index + 1) path
    rw [assertElements, List.forall_mem_cons, ← hchild, ← hrest]
    cases assertNoInlineSecrets fold child (path ++ "[" ++ toString index ++ "]") <;> simp

end

def InputBinding.Stores (b : InputBinding fold F) (k : String) (v : Json F) : Prop :=
  (k = b.field ∧ v = b.value) ∨ RunContracts.Stores b.value k v

def NodeOverride.Stores (o : NodeOverride fold F) : String → Json F → Prop := RunContracts.Stores (.dict o.customParams)

def BusinessStores (inputs : JsonObject F) (bindings : List (InputBinding fold F))
    (nodeOverrides : List (NodeOverride fold F)) (k : String) (v : Json F) : Prop :=
  Stores (.dict inputs) k v ∨ (∃ b ∈ bindings, b.Stores k v) ∨ ∃ o ∈ nodeOverrides, o.Stores k v

def RunPreset.Stores (p : RunPreset fold F) : String → Json F → Prop :=
  BusinessStores p.inputs p.bindings p.nodeOverrides

def RunInvocation.Stores (i : RunInvocation fold F) : String → Json F → Prop :=
  BusinessStores (i.inputs.getD []) (i.bindings.getD []) (i.nodeOverrides.getD [])

def RunRequest.Stores (r : RunRequest fold F) : String → Json F → Prop :=
  BusinessStores r.inputs r.bindings r.nodeOverrides

def AgentResult.Stores (a : AgentResult fold F) (k : String) (v : Json F) : Prop :=
  (∃ output, a.output = some output ∧ RunContracts.Stores (.dict output) k v) ∨
    (∃ error, a.error = some error ∧ RunContracts.Stores (.dict error.details) k v) ∨
    RunContracts.Stores (.dict a.provenance) k v

theorem inputBinding_noSecret_iff (b : InputBinding fold F) :
    NoSecret fold b.Stores ↔ secretShaped fold b.field = false := by
  constructor
  · intro h
    exact h b.field b.value (.inl ⟨rfl, rfl⟩)
  · rintro h k v (⟨rfl, rfl⟩ | hstores)
    · exact h
    · exact (assertNoInlineSecrets_iff _ _).mp b.literal_is_not_a_secret k v hstores

theorem nodeOverride_noSecret (o : NodeOverride fold F) : NoSecret fold o.Stores :=
  (assertNoInlineSecrets_iff _ _).mp o.params_do_not_persist_secrets

theorem business_noSecret_iff {inputs : JsonObject F} (bindings : List (InputBinding fold F))
    (nodeOverrides : List (NodeOverride fold F)) (hinputs : NoSecret fold (Stores (.dict inputs))) :
    NoSecret fold (BusinessStores inputs bindings nodeOverrides) ↔
      ∀ b ∈ bindings, secretShaped fold b.field = false := by
  constructor
  · intro h b hb
    apply (inputBinding_noSecret_iff b).mp
    exact fun k v hstores => h k v (.inr (.inl ⟨b, hb, hstores⟩))
  · rintro h k v (hstores | ⟨b, hb, hstores⟩ | ⟨o, ho, hstores⟩)
    · exact hinputs k v hstores
    · exact (inputBinding_noSecret_iff b).mpr (h b hb) k v hstores
    · exact nodeOverride_noSecret o k v hstores

theorem noSecret_empty : NoSecret fold (Stores (.dict ([] : JsonObject F))) := by
  rw [noSecret_dict_iff]
  simp

theorem preset_inputs_noSecret (p : RunPreset fold F) : NoSecret fold (Stores (.dict p.inputs)) :=
  (assertNoInlineSecrets_iff _ _).mp p.preset_does_not_persist_inline_secrets

theorem invocation_inputs_noSecret (i : RunInvocation fold F) {given : JsonObject F} (h : i.inputs = some given) :
    NoSecret fold (Stores (.dict given)) :=
  (assertNoInlineSecrets_iff _ _).mp (i.invocation_does_not_inline_secrets given h)

theorem agentResult_noSecret_iff (a : AgentResult fold F) : NoSecret fold a.Stores ↔
    ∀ error, a.error = some error → NoSecret fold (Stores (.dict error.details)) := by
  obtain ⟨-, -, houtput, hprovenance⟩ := a.terminal_payload_matches_status
  constructor
  · intro h error herror k v hstores
    exact h k v (.inr (.inl ⟨error, herror, hstores⟩))
  · rintro h k v (⟨output, hsome, hstores⟩ | ⟨error, hsome, hstores⟩ | hstores)
    · exact (assertNoInlineSecrets_iff _ _).mp (houtput output hsome) k v hstores
    · exact h error hsome k v hstores
    · exact (assertNoInlineSecrets_iff _ _).mp hprovenance k v hstores

theorem resolve_eq_ok {env : Surroundings fold F} {invocation : RunInvocation fold F}
    {portableRuntime : Option (RuntimeProfileOverlay F)} {portableDefaults : Option (RunPreset fold F)}
    {request : RunRequest fold F} (h : resolve env invocation portableRuntime portableDefaults = .ok request) :
    ∃ skillRoot project preset source, env.resolvedDirectory invocation.skillRoot = some skillRoot ∧
      env.projectDocument (env.join skillRoot "gskill.toml") = .ok project ∧
      selectedPreset invocation project (env.join skillRoot "gskill.toml") portableDefaults =
        .ok (preset, source) ∧
      request.inputs = invocation.inputs.getD preset.inputs ∧
      request.bindings = invocation.bindings.getD preset.bindings ∧
      request.nodeOverrides = invocation.nodeOverrides.getD preset.nodeOverrides := by
  rw [resolve] at h
  split at h
  · cases h
  · next skillRoot hroot =>
    obtain ⟨user, huser, h⟩ := bind_ok h
    obtain ⟨project, hproject, h⟩ := bind_ok h
    obtain ⟨profile, hprofile, h⟩ := bind_ok h
    obtain ⟨⟨preset, source⟩, hpreset, h⟩ := bind_ok h
    cases h
    exact ⟨skillRoot, project, preset, source, hroot, hproject, hpreset, rfl, rfl, rfl⟩

/-- The persisted contracts keep no literal under the name of a secret exactly when no bound field has that shape and,
in a result, the details of the error have none. -/
theorem noSecret_iff (fold : Char → List Char) (F : Type) :
    (∀ b : InputBinding fold F, NoSecret fold b.Stores ↔ secretShaped fold b.field = false) ∧
    (∀ o : NodeOverride fold F, NoSecret fold o.Stores) ∧
    (∀ p : RunPreset fold F, NoSecret fold p.Stores ↔ ∀ b ∈ p.bindings, secretShaped fold b.field = false) ∧
    (∀ i : RunInvocation fold F, NoSecret fold i.Stores ↔
      ∀ b ∈ i.bindings.getD [], secretShaped fold b.field = false) ∧
    (∀ a : AgentResult fold F, NoSecret fold a.Stores ↔
      ∀ error, a.error = some error → NoSecret fold (Stores (.dict error.details))) ∧
    ∀ (env : Surroundings fold F) (i : RunInvocation fold F) (runtime : Option (RuntimeProfileOverlay F))
      (defaults : Option (RunPreset fold F)) (request : RunRequest fold F),
      resolve env i runtime defaults = .ok request →
        ∃ skillRoot project preset source, env.resolvedDirectory i.skillRoot = some skillRoot ∧
          env.projectDocument (env.join skillRoot "gskill.toml") = .ok project ∧
          selectedPreset i project (env.join skillRoot "gskill.toml") defaults = .ok (preset, source) ∧
          (NoSecret fold request.Stores ↔
            ∀ b ∈ i.bindings.getD preset.bindings, secretShaped fold b.field = false) := by
  refine ⟨inputBinding_noSecret_iff, nodeOverride_noSecret, ?_, ?_, agentResult_noSecret_iff, ?_⟩
  · intro p
    exact business_noSecret_iff p.bindings p.nodeOverrides (preset_inputs_noSecret p)
  · intro i
    apply business_noSecret_iff
    cases hinputs : i.inputs with
    | none => exact noSecret_empty
    | some given => exact invocation_inputs_noSecret i hinputs
  · intro env i runtime defaults request h
    obtain ⟨skillRoot, project, preset, source, hroot, hproject, hpreset, hinputs, hbindings, hoverrides⟩ :=
      resolve_eq_ok h
    refine ⟨skillRoot, project, preset, source, hroot, hproject, hpreset, ?_⟩
    rw [RunRequest.Stores, hinputs, hbindings, hoverrides]
    apply business_noSecret_iff
    cases hgiven : i.inputs with
    | none => exact preset_inputs_noSecret preset
    | some given => exact invocation_inputs_noSecret i hgiven

def asciiFold (c : Char) : List Char := [c.toLower]

def sampleBinding : InputBinding asciiFold FloatLiteral :=
  ⟨⟨"root", "draft"⟩, "topic", .str "tides", rfl⟩

def sampleInvocation : RunInvocation asciiFold FloatLiteral where
  skillRoot := "/skills/essay"
  runId := some "run-1"
  presetId := none
  runtime := {}
  inputs := some [("title", .str "Tides")]
  secretInputs := none
  bindings := some [sampleBinding]
  breakpoints := none
  nodeOverrides := none
  compareCandidates := none
  artifactRequests := none
  invocation_does_not_inline_secrets := by
    intro given hgiven
    obtain rfl := Option.some.inj hgiven
    rfl

def sampleSurroundings : Surroundings asciiFold FloatLiteral where
  userConfigPath := "/home/.config/graph-skill-runtime/gskill.toml"
  userConfigParent := "/home/.config/graph-skill-runtime"
  resolvedDirectory := some
  userDocument := .ok none
  projectDocument _ := .ok none
  absolutePath _ := none
  join base name := base ++ "/" ++ name
  freshRunId := "run-0"

theorem resolved_request_noSecret : ∃ request,
    resolve sampleSurroundings sampleInvocation none none = .ok request ∧ NoSecret asciiFold request.Stores := by
  obtain ⟨request, hrequest⟩ : ∃ request, resolve sampleSurroundings sampleInvocation none none = .ok request :=
    ⟨_, rfl⟩
  refine ⟨request, hrequest, ?_⟩
  obtain ⟨-, -, -, -, -, hresolve⟩ := noSecret_iff asciiFold FloatLiteral
  obtain ⟨_, _, _, _, -, -, -, hiff⟩ := hresolve _ _ _ _ _ hrequest
  apply hiff.mpr
  intro b hb
  obtain rfl : b = sampleBinding := List.mem_singleton.mp hb
  decide +kernel

theorem bound_api_key_stored : ∃ b : InputBinding asciiFold FloatLiteral,
    b.field = "api_key" ∧ b.value = .str "sk-1" ∧ ¬ NoSecret asciiFold b.Stores := by
  refine ⟨⟨⟨"root", "draft"⟩, "api_key", .str "sk-1", rfl⟩, rfl, rfl, ?_⟩
  intro h
  have hshape := h "api_key" (.str "sk-1") (.inl ⟨rfl, rfl⟩)
  revert hshape
  decide +kernel

end GraphSkillRuntime.RunContracts
