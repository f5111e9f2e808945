import GraphSkillRuntime.RunContracts
import GraphSkillRuntime.Value

/-!
Run requests as Python compares them, and what is left of one when it has been written as JSON.
-/

namespace GraphSkillRuntime.RunSnapshots

open JsonText RunContracts

inductive FloatClass where
  | finite (q : ℚ)
  | infinite (negative : Bool)
  | nan
  deriving DecidableEq

section Equality

variable {F : Type} (classify : F → FloatClass)

/-- Numbers compare by value whatever their type, so their type is forgotten; the two infinities take the place of the
Booleans. -/
def floatKey (x : F) : Value :=
  match classify x with
  | .finite q => .num q
  | .infinite negative => .bool negative
  | .nan => .null

mutual

def jsonKey : Json F → Value
  | .null => .null
  | .bool b => .num (if b then 1 else 0)
  | .int z => .num z
  | .float x => floatKey classify x
  | .str s => .str s
  | .list xs => .list (elementKeys xs)
  | .dict kvs => .dict ((memberKeys kvs).insertionSort (fun a b => a.1 ≤ b.1))

def elementKeys : List (Json F) → List Value
  | [] => []
  | x :: xs => jsonKey x :: elementKeys xs

def memberKeys : List (String × Json F) → List (String × Value)
  | [] => []
  | (k, v) :: kvs => (k, jsonKey v) :: memberKeys kvs

end

/-- Whether every float of a value is of the kind `p`. -/
def floatIs (p : FloatClass → Bool) (x : F) : Bool := p (classify x)

mutual

def jsonFloats (p : FloatClass → Bool) : Json F → Bool
  | .float x => floatIs classify p x
  | .list xs => elementFloats p xs
  | .dict kvs => memberFloats p kvs
  | _ => true

def elementFloats (p : FloatClass → Bool) : List (Json F) → Bool
  | [] => true
  | x :: xs => jsonFloats p x && elementFloats p xs

def memberFloats (p : FloatClass → Bool) : List (String × Json F) → Bool
  | [] => true
  | (_, v) :: kvs => jsonFloats p v && memberFloats p kvs

end

def isFinite : FloatClass → Bool
  | .finite _ => true
  | _ => false

def isNumber : FloatClass → Bool
  | .nan => false
  | _ => true

theorem isNumber_of_isFinite {c : FloatClass} (h : isFinite c = true) : isNumber c = true := by
  cases c <;> simp_all [isFinite, isNumber]

inductive ExecutorKey where
  | hostNative
  | cli (vendor : Vendor) (agentProfile modelOverride executable : Option String) (timeoutSeconds : Value)
  | embedded (provider model : Option String) (credential : Option SecretReference)
  deriving DecidableEq

def executorKey : ExecutorConfig F → ExecutorKey
  | .hostNative => .hostNative
  | .cli vendor agentProfile modelOverride executable timeoutSeconds =>
    .cli vendor agentProfile modelOverride executable (floatKey classify timeoutSeconds)
  | .embedded provider model credential => .embedded provider model credential

def executorFloats (p : FloatClass → Bool) : ExecutorConfig F → Bool
  | .cli _ _ _ _ timeoutSeconds => floatIs classify p timeoutSeconds
  | _ => true

structure ProfileKey where
  executor : ExecutorKey
  checkpointStore : CheckpointStoreConfig
  stateDir : Option String
  permissions : PermissionPolicy
  requiredCapabilities : List String
  fallbackExecutors : List ExecutorKey
  skillRoot : String
  stateRoot : String
  fieldOrigins : List ValueOrigin
  deriving DecidableEq

def profileKey (p : ResolvedRuntimeProfile F) : ProfileKey where
  executor := executorKey classify p.profile.executor
  checkpointStore := p.profile.checkpointStore
  stateDir := p.profile.stateDir
  permissions := p.profile.permissions
  requiredCapabilities := p.profile.requiredCapabilities
  fallbackExecutors := p.profile.fallbackExecutors.map (executorKey classify)
  skillRoot := p.skillRoot
  stateRoot := p.stateRoot
  fieldOrigins := p.fieldOrigins

def profileFloats (p : FloatClass → Bool) (profile : ResolvedRuntimeProfile F) : Bool :=
  executorFloats classify p profile.profile.executor &&
    profile.profile.fallbackExecutors.all (executorFloats classify p)

variable {fold : Char → List Char}

structure RequestKey where
  runId : String
  presetId : Option String
  profile : ProfileKey
  inputs : Value
  secretInputs : List SecretBinding
  bindings : List (PhaseAddress × String × Value)
  breakpoints : List PhaseAddress
  nodeOverrides : List (PhaseAddress × Option Value × Value)
  compareCandidates : List CompareCandidate
  artifactRequests : List ArtifactRequest
  valueOrigins : List ValueOrigin
  deriving DecidableEq

def requestKey (r : RunRequest fold F) : RequestKey where
  runId := r.runId
  presetId := r.presetId
  profile := profileKey classify r.profile
  inputs := jsonKey classify (.dict r.inputs)
  secretInputs := r.secretInputs
  bindings := r.bindings.map fun b => (b.address, b.field, jsonKey classify b.value)
  breakpoints := r.breakpoints
  nodeOverrides := r.nodeOverrides.map fun o =>
    (o.address, o.timeoutSeconds.map (floatKey classify), jsonKey classify (.dict o.customParams))
  compareCandidates := r.compareCandidates
  artifactRequests := r.artifactRequests
  valueOrigins := r.valueOrigins

def requestFloats (p : FloatClass → Bool) (r : RunRequest fold F) : Bool :=
  profileFloats classify p r.profile && jsonFloats classify p (.dict r.inputs) &&
    r.bindings.all (fun b => jsonFloats classify p b.value) &&
    r.nodeOverrides.all (fun o =>
      (o.timeoutSeconds.all (floatIs classify p)) && jsonFloats classify p (.dict o.customParams))

/-- `==`: a NaN differs from everything. -/
def requestEq (r₁ r₂ : RunRequest fold F) : Bool :=
  decide (requestKey classify r₁ = requestKey classify r₂) && requestFloats classify isNumber r₁ &&
    requestFloats classify isNumber r₂

section Mono

variable {p q : FloatClass → Bool}

mutual

theorem jsonFloats_mono (hpq : ∀ c, p c = true → q c = true) : ∀ v : Json F,
    jsonFloats classify p v = true → jsonFloats classify q v = true
  | .float _, h => hpq _ h
  | .list xs, h => elementFloats_mono hpq xs h
  | .dict kvs, h => memberFloats_mono hpq kvs h
  | .null, _ => rfl
  | .bool _, _ => rfl
  | .int _, _ => rfl
  | .str _, _ => rfl

theorem elementFloats_mono (hpq : ∀ c, p c = true → q c = true) : ∀ xs : List (Json F),
    elementFloats classify p xs = true → elementFloats classify q xs = true
  | [], _ => rfl
  | x :: xs, h => by
    rw [elementFloats, Bool.and_eq_true] at h ⊢
    exact ⟨jsonFloats_mono hpq x h.1, elementFloats_mono hpq xs h.2⟩

theorem memberFloats_mono (hpq : ∀ c, p c = true → q c = true) : ∀ kvs : List (String × Json F),
    memberFloats classify p kvs = true → memberFloats classify q kvs = true
  | [], _ => rfl
  | (k, v) :: kvs, h => by
    rw [memberFloats, Bool.and_eq_true] at h ⊢
    exact ⟨jsonFloats_mono hpq v h.1, memberFloats_mono hpq kvs h.2⟩

end

theorem executorFloats_mono (hpq : ∀ c, p c = true → q c = true) (e : ExecutorConfig F)
    (h : executorFloats classify p e = true) :
    executorFloats classify q e = true := by
  cases e with
  | cli => exact hpq _ h
  | _ => rfl

theorem requestFloats_mono (hpq : ∀ c, p c = true → q c = true) {r : RunRequest fold F}
    (h : requestFloats classify p r = true) :
    requestFloats classify q r = true := by
  simp only [requestFloats, profileFloats, Bool.and_eq_true, List.all_eq_true] at h ⊢
  obtain ⟨⟨⟨⟨hexecutor, hfallback⟩, hinputs⟩, hbindings⟩, hoverrides⟩ := h
  refine ⟨⟨⟨⟨?_, ?_⟩, ?_⟩, ?_⟩, ?_⟩
  · exact executorFloats_mono classify hpq _ hexecutor
  · intro e he
    exact executorFloats_mono classify hpq e (hfallback e he)
  · exact jsonFloats_mono classify hpq _ hinputs
  · intro b hb
    exact jsonFloats_mono classify hpq _ (hbindings b hb)
  · intro o ho
    obtain ⟨ht, hp⟩ := hoverrides o ho
    refine ⟨?_, jsonFloats_mono classify hpq _ hp⟩
    cases hs : o.timeoutSeconds with
    | none => rfl
    | some x =>
      rw [hs] at ht
      exact hpq _ ht

end Mono

theorem requestEq_iff {r₁ r₂ : RunRequest fold F} :
    requestEq classify r₁ r₂ = true ↔ requestKey classify r₁ = requestKey classify r₂ ∧
      requestFloats classify isNumber r₁ = true ∧ requestFloats classify isNumber r₂ = true := by
  simp [requestEq, and_assoc]

theorem requestEq_refl {r : RunRequest fold F} (h : requestFloats classify isFinite r = true) :
    requestEq classify r r = true := by
  have hn : requestFloats classify isNumber r = true :=
    requestFloats_mono classify (fun _ => isNumber_of_isFinite) h
  rw [requestEq_iff]
  exact ⟨rfl, hn, hn⟩

end Equality

/-! What `model_dump_json` keeps: a float that is not finite is written as `null`. -/

section Dump

variable {F : Type} (classify : F → FloatClass)

mutual

def dropJson : Json F → Json F
  | .float x => if floatIs classify isFinite x then .float x else .null
  | .list xs => .list (dropElements xs)
  | .dict kvs => .dict (dropMembers kvs)
  | v => v

def dropElements : List (Json F) → List (Json F)
  | [] => []
  | x :: xs => dropJson x :: dropElements xs

def dropMembers : List (String × Json F) → List (String × Json F)
  | [] => []
  | (k, v) :: kvs => (k, dropJson v) :: dropMembers kvs

end

mutual

theorem assertNoInlineSecrets_drop (fold : Char → List Char) : ∀ (v : Json F) (path : String),
    assertNoInlineSecrets fold (dropJson classify v) path = assertNoInlineSecrets fold v path
  | .float x, path => by
    rw [dropJson]
    split <;> rfl
  | .list xs, path => by
    rw [dropJson, assertNoInlineSecrets, assertNoInlineSecrets]
    exact assertElements_drop fold xs 0 path
  | .dict kvs, path => by
    rw [dropJson, assertNoInlineSecrets, assertNoInlineSecrets]
    exact assertMembers_drop fold kvs path
  | .null, _ => rfl
  | .bool _, _ => rfl
  | .int _, _ => rfl
  | .str _, _ => rfl

theorem assertMembers_drop (fold : Char → List Char) : ∀ (kvs : List (String × Json F)) (path : String),
    assertMembers fold (dropMembers classify kvs) path = assertMembers fold kvs path
  | [], _ => rfl
  | (k, v) :: kvs, path => by
    rw [dropMembers, assertMembers, assertMembers, assertNoInlineSecrets_drop fold v, assertMembers_drop fold kvs]

theorem assertElements_drop (fold : Char → List Char) : ∀ (xs : List (Json F)) (index : ℕ) (path : String),
    assertElements fold (dropElements classify xs) index path = assertElements fold xs index path
  | [], _, _ => rfl
  | x :: xs, index, path => by
    rw [dropElements, assertElements, assertElements, assertNoInlineSecrets_drop fold x, assertElements_drop fold xs]

end

mutual

theorem dropJson_eq : ∀ v : Json F, jsonFloats classify isFinite v = true → dropJson classify v = v
  | .float x, h => by
    rw [jsonFloats] at h
    rw [dropJson, if_pos h]
  | .list xs, h => by rw [dropJson, dropElements_eq xs h]
  | .dict kvs, h => by rw [dropJson, dropMembers_eq kvs h]
  | .null, _ => rfl
  | .bool _, _ => rfl
  | .int _, _ => rfl
  | .str _, _ => rfl

theorem dropElements_eq : ∀ xs : List (Json F), elementFloats classify isFinite xs = true →
    dropElements classify xs = xs
  | [], _ => rfl
  | x :: xs, h => by
    rw [elementFloats, Bool.and_eq_true] at h
    rw [dropElements, dropJson_eq x h.1, dropElements_eq xs h.2]

theorem dropMembers_eq : ∀ kvs : List (String × Json F), memberFloats classify isFinite kvs = true →
    dropMembers classify kvs = kvs
  | [], _ => rfl
  | (k, v) :: kvs, h => by
    rw [memberFloats, Bool.and_eq_true] at h
    rw [dropMembers, dropJson_eq v h.1, dropMembers_eq kvs h.2]

end

variable {fold : Char → List Char}

def dropBinding (b : InputBinding fold F) : InputBinding fold F where
  address := b.address
  field := b.field
  value := dropJson classify b.value
  literal_is_not_a_secret := by
    rw [assertNoInlineSecrets_drop]
    exact b.literal_is_not_a_secret

def dropOverride (o : NodeOverride fold F) : NodeOverride fold F where
  address := o.address
  timeoutSeconds := o.timeoutSeconds.filter (floatIs classify isFinite)
  customParams := dropMembers classify o.customParams
  params_do_not_persist_secrets := by
    have h := o.params_do_not_persist_secrets
    rw [assertNoInlineSecrets] at h ⊢
    rwa [assertMembers_drop]

def dropNonFinite (r : RunRequest fold F) : RunRequest fold F :=
  { r with
    inputs := dropMembers classify r.inputs
    bindings := r.bindings.map (dropBinding classify)
    nodeOverrides := r.nodeOverrides.map (dropOverride classify) }

theorem dropBinding_eq {b : InputBinding fold F} (h : jsonFloats classify isFinite b.value = true) :
    dropBinding classify b = b := by
  cases b
  simp only [dropBinding, InputBinding.mk.injEq, true_and]
  exact dropJson_eq classify _ h

theorem dropOverride_eq {o : NodeOverride fold F} (ht : o.timeoutSeconds.all (floatIs classify isFinite) = true)
    (hp : jsonFloats classify isFinite (.dict o.customParams) = true) : dropOverride classify o = o := by
  cases o with
  | mk address timeoutSeconds customParams h =>
    simp only [dropOverride, NodeOverride.mk.injEq, true_and]
    refine ⟨?_, dropMembers_eq classify _ hp⟩
    cases timeoutSeconds with
    | none => rfl
    | some x => exact Option.filter_eq_some_iff.mpr ⟨rfl, ht⟩

theorem dropNonFinite_eq {r : RunRequest fold F} (h : requestFloats classify isFinite r = true) :
    dropNonFinite classify r = r := by
  simp only [requestFloats, Bool.and_eq_true, List.all_eq_true] at h
  obtain ⟨⟨⟨-, hinputs⟩, hbindings⟩, hoverrides⟩ := h
  cases r
  simp only [dropNonFinite, RunRequest.mk.injEq, true_and, and_true]
  refine ⟨dropMembers_eq classify _ hinputs, ?_, ?_⟩
  · apply List.map_congr_left .. |>.trans (List.map_id _)
    intro b hb
    exact dropBinding_eq classify (hbindings b hb)
  · apply List.map_congr_left .. |>.trans (List.map_id _)
    intro o ho
    exact dropOverride_eq classify (hoverrides o ho).1 (hoverrides o ho).2

end Dump

end GraphSkillRuntime.RunSnapshots
