import GraphSkillRuntime.OrderedDict
import Mathlib.Data.List.Infix
import Mathlib.Logic.Relation

/-!
The store of run artifacts. Contents stand under their hashes; the index of a run lists what has been put for it, until
the run is sealed.
-/

namespace GraphSkillRuntime.RunArtifactStores

open OrderedDict

abbrev Content := List UInt8

structure ObjectRef where
  bytesRef : String
  contentHash : String
  sizeBytes : ℕ
  path : Option String

structure StoredObject where
  content : Content
  contentHash : String

structure RunArtifactIndex where
  runId : String
  objects : List ObjectRef
  isSealed : Bool

inductive StoreError where
  | sealedRunWrite (text : String)
  | keyError (text : String)
  | hashMismatch (text : String)

structure InMemoryRunArtifactStore (μ : Type) where
  runsMetadata : Dict String μ := ∅
  runObjects : Dict String (List ObjectRef) := ∅
  sealedRuns : Dict String Bool := ∅
  objects : Dict String Content := ∅

section

variable {μ : Type} (sha256 : Content → String)

def setdefault {ν : Type} (d : Dict String ν) (key : String) (value : ν) : Dict String ν :=
  if d.contains key then d else d.set key value

def refOf (path : String) (content : Content) : ObjectRef :=
  ⟨"bytes://" ++ sha256 content, sha256 content, content.length, some path⟩

namespace InMemoryRunArtifactStore

variable (s : InMemoryRunArtifactStore μ) (runId : String)

def beginRun (metadata : μ) : InMemoryRunArtifactStore μ :=
  { s with
    runsMetadata := s.runsMetadata.set runId metadata
    runObjects := setdefault s.runObjects runId []
    sealedRuns := setdefault s.sealedRuns runId false }

def isSealed : Bool := (s.sealedRuns.get? runId).getD false

def putObject (path : String) (content : Content) : InMemoryRunArtifactStore μ :=
  { s with
    objects := s.objects.set (sha256 content) content
    runObjects :=
      match s.runObjects.get? runId with
      | some refs => s.runObjects.set runId (refs ++ [refOf sha256 path content])
      | none => s.runObjects }

def putObjects : List (String × Content) → InMemoryRunArtifactStore μ → InMemoryRunArtifactStore μ
  | [], s => s
  | (path, content) :: objects, s => putObjects objects (s.putObject sha256 runId path content)

def putBatch (objects : Dict String Content) : Except StoreError (List ObjectRef × InMemoryRunArtifactStore μ) :=
  if s.isSealed runId then .error (.sealedRunWrite ("Cannot write to sealed run " ++ runId))
  else .ok (objects.entries.map fun e => refOf sha256 e.1 e.2, putObjects sha256 runId objects.entries s)

def sealRun : RunArtifactIndex × InMemoryRunArtifactStore μ :=
  (⟨runId, (s.runObjects.get? runId).getD [], true⟩, { s with sealedRuns := s.sealedRuns.set runId true })

def getObject (hash : String) : Except StoreError StoredObject :=
  match s.objects.get? hash with
  | none => .error (.keyError ("Object " ++ hash ++ " not found"))
  | some content =>
    if sha256 content ≠ hash then
      .error (.hashMismatch ("Hash mismatch: expected " ++ hash ++ ", got " ++ sha256 content))
    else .ok ⟨content, hash⟩

end InMemoryRunArtifactStore

structure World (μ : Type) where
  store : InMemoryRunArtifactStore μ
  puts : String → List (String × Content)

def World.start : World μ := ⟨{}, fun _ => []⟩

def World.putsAfter (w : World μ) (runId : String) (objects : Dict String Content) (other : String) :
    List (String × Content) :=
  if runId = other ∧ w.store.runObjects.contains runId then w.puts other ++ objects.entries else w.puts other

inductive Step (w : World μ) : World μ → Prop
  | opened (runId : String) (metadata : μ) : Step w ⟨w.store.beginRun runId metadata, w.puts⟩
  | put {runId : String} {objects : Dict String Content} {refs : List ObjectRef} {store : InMemoryRunArtifactStore μ}
      (h : w.store.putBatch sha256 runId objects = .ok (refs, store)) : Step w ⟨store, w.putsAfter runId objects⟩
  | closed (runId : String) : Step w ⟨(w.store.sealRun runId).2, w.puts⟩

def Steps : World μ → World μ → Prop := Relation.ReflTransGen (Step sha256)

structure Tracked (w : World μ) : Prop where
  index : ∀ (runId : String) (refs : List ObjectRef), w.store.runObjects.get? runId = some refs →
    refs = (w.puts runId).map fun e => refOf sha256 e.1 e.2
  unbegun : ∀ runId : String, w.store.runObjects.get? runId = none → w.puts runId = []
  hashed : ∀ (hash : String) (content : Content), w.store.objects.get? hash = some content → sha256 content = hash
  kept : ∀ (runId : String), ∀ e ∈ w.puts runId, w.store.objects.contains (sha256 e.2) = true

end

variable {μ : Type} {sha256 : Content → String} {s s' : InMemoryRunArtifactStore μ} {w w' : World μ}

theorem get?_setdefault {ν : Type} (d : Dict String ν) (key other : String) (value : ν) :
    (setdefault d key value).get? other = if key = other ∧ d.get? key = none then some value else d.get? other := by
  unfold setdefault Dict.contains
  cases hkey : d.get? key with
  | none => simp
  | some v => simp

open InMemoryRunArtifactStore

theorem putObjects_sealed (runId : String) (objects : List (String × Content)) (s : InMemoryRunArtifactStore μ) :
    (putObjects sha256 runId objects s).sealedRuns = s.sealedRuns := by
  induction objects generalizing s with
  | nil => rfl
  | cons e objects ih => exact ih _

theorem putObjects_runObjects (runId other : String) (objects : List (String × Content))
    (s : InMemoryRunArtifactStore μ) : (putObjects sha256 runId objects s).runObjects.get? other =
      if runId = other then (s.runObjects.get? other).map (· ++ objects.map fun e => refOf sha256 e.1 e.2)
      else s.runObjects.get? other := by
  induction objects generalizing s with
  | nil => simp [putObjects]
  | cons e objects ih =>
    rw [putObjects, ih]
    unfold putObject
    by_cases hrun : runId = other
    · subst hrun
      rw [if_pos rfl, if_pos rfl]
      cases hrefs : s.runObjects.get? runId with
      | none => simp [hrefs]
      | some refs => simp
    · rw [if_neg hrun, if_neg hrun]
      cases s.runObjects.get? runId with
      | none => rfl
      | some refs => simp [hrun]

theorem putObjects_hashed (runId : String) (objects : List (String × Content)) {s : InMemoryRunArtifactStore μ}
    (hs : ∀ (hash : String) (content : Content), s.objects.get? hash = some content → sha256 content = hash)
    (hash : String) (content : Content)
    (h : (putObjects sha256 runId objects s).objects.get? hash = some content) : sha256 content = hash := by
  induction objects generalizing s with
  | nil => exact hs hash content h
  | cons e objects ih =>
    apply ih _ h
    intro hash' content' h'
    simp only [putObject, Dict.get?_set] at h'
    split_ifs at h' with heq
    · rw [← heq, ← Option.some.inj h']
    · exact hs hash' content' h'

theorem putObjects_kept (runId : String) (objects : List (String × Content)) {s : InMemoryRunArtifactStore μ}
    {hash : String} (h : s.objects.contains hash = true ∨ hash ∈ objects.map fun e => sha256 e.2) :
    (putObjects sha256 runId objects s).objects.contains hash = true := by
  induction objects generalizing s with
  | nil => exact h.resolve_right List.not_mem_nil
  | cons e objects ih =>
    apply ih
    rw [putObject, Dict.contains_set]
    rcases h with hold | hnew
    · exact Or.inl (Or.inr hold)
    · rcases List.mem_cons.mp hnew with rfl | hrest
      · exact Or.inl (Or.inl rfl)
      · exact Or.inr hrest

theorem putBatch_cases {runId : String} {objects : Dict String Content} {refs : List ObjectRef}
    (h : s.putBatch sha256 runId objects = .ok (refs, s')) :
    s.isSealed runId = false ∧ s' = putObjects sha256 runId objects.entries s := by
  unfold putBatch at h
  split_ifs at h with hsealed
  exact ⟨Bool.eq_false_iff.mpr hsealed, (congrArg Prod.snd (Except.ok.inj h)).symm⟩

theorem start_tracked (sha256 : Content → String) : Tracked sha256 (World.start : World μ) :=
  ⟨nofun, fun _ _ => rfl, nofun, nofun⟩

theorem Tracked.put (hw : Tracked sha256 w) (runId : String) (objects : Dict String Content) :
    Tracked sha256 ⟨putObjects sha256 runId objects.entries w.store, w.putsAfter runId objects⟩ := by
  refine ⟨?_, ?_, putObjects_hashed runId _ hw.hashed, ?_⟩
  · intro other refs hrefs
    simp only [putObjects_runObjects] at hrefs
    simp only [World.putsAfter]
    by_cases hrun : runId = other
    · subst hrun
      rw [if_pos rfl] at hrefs
      obtain ⟨old, hold, rfl⟩ := Option.map_eq_some_iff.mp hrefs
      have hbegun : w.store.runObjects.contains runId = true := by
        rw [Dict.contains, hold]
        rfl
      rw [if_pos ⟨rfl, hbegun⟩, List.map_append, ← hw.index runId old hold]
    · rw [if_neg hrun] at hrefs
      rw [if_neg fun hboth => hrun hboth.1]
      exact hw.index other refs hrefs
  · intro other hnone
    simp only [putObjects_runObjects] at hnone
    have hold : w.store.runObjects.get? other = none := by
      split_ifs at hnone
      · exact Option.map_eq_none_iff.mp hnone
      · exact hnone
    have hunbegun : ¬ (runId = other ∧ w.store.runObjects.contains runId = true) := by
      rintro ⟨rfl, hbegun⟩
      rw [Dict.contains, hold] at hbegun
      cases hbegun
    simp only [World.putsAfter]
    rw [if_neg hunbegun]
    exact hw.unbegun other hold
  · intro other e he
    apply putObjects_kept
    simp only [World.putsAfter] at he
    split_ifs at he
    · rcases List.mem_append.mp he with hold | hnew
      · exact Or.inl (hw.kept other e hold)
      · exact Or.inr (List.mem_map_of_mem hnew)
    · exact Or.inl (hw.kept other e he)

theorem Step.tracked (h : Step sha256 w w') (hw : Tracked sha256 w) : Tracked sha256 w' := by
  cases h with
  | opened runId metadata =>
    refine ⟨?_, ?_, hw.hashed, hw.kept⟩
    · intro other refs hrefs
      rw [InMemoryRunArtifactStore.beginRun, get?_setdefault] at hrefs
      split_ifs at hrefs with hnew
      · obtain ⟨rfl, hnone⟩ := hnew
        rw [hw.unbegun runId hnone, ← Option.some.inj hrefs]
        rfl
      · exact hw.index other refs hrefs
    · intro other hnone
      rw [InMemoryRunArtifactStore.beginRun, get?_setdefault] at hnone
      split_ifs at hnone
      exact hw.unbegun other hnone
  | @put runId objects refs store hput =>
    obtain ⟨-, rfl⟩ := putBatch_cases hput
    exact hw.put runId objects
  | closed runId => exact ⟨hw.index, hw.unbegun, hw.hashed, hw.kept⟩

theorem Steps.tracked (h : Steps sha256 w w') (hw : Tracked sha256 w) : Tracked sha256 w' := by
  induction h with
  | refl => exact hw
  | tail _ hstep ih => exact hstep.tracked ih

theorem Step.keeps_sealed (h : Step sha256 w w') {runId : String} (hsealed : w.store.isSealed runId = true) :
    w'.store.isSealed runId = true ∧ w'.puts runId = w.puts runId := by
  cases h with
  | opened other metadata =>
    refine ⟨?_, rfl⟩
    unfold isSealed at hsealed ⊢
    rw [InMemoryRunArtifactStore.beginRun, get?_setdefault]
    split_ifs with hnew
    · obtain ⟨rfl, hnone⟩ := hnew
      rw [hnone] at hsealed
      cases hsealed
    · exact hsealed
  | @put other objects refs store hput =>
    obtain ⟨hopen, rfl⟩ := putBatch_cases hput
    have hother : runId ≠ other := by
      rintro rfl
      rw [hsealed] at hopen
      cases hopen
    constructor
    · unfold isSealed at hsealed ⊢
      rw [putObjects_sealed]
      exact hsealed
    · exact if_neg fun hboth => hother hboth.1.symm
  | closed other =>
    refine ⟨?_, rfl⟩
    unfold isSealed at hsealed ⊢
    rw [InMemoryRunArtifactStore.sealRun, Dict.get?_set]
    split_ifs
    · rfl
    · exact hsealed

theorem Steps.keeps_sealed (h : Steps sha256 w w') {runId : String} (hsealed : w.store.isSealed runId = true) :
    w'.store.isSealed runId = true ∧ w'.puts runId = w.puts runId := by
  induction h with
  | refl => exact ⟨hsealed, rfl⟩
  | tail _ hstep ih =>
    obtain ⟨hlater, hputs⟩ := hstep.keeps_sealed ih.1
    exact ⟨hlater, hputs.trans ih.2⟩

/-- In whatever order runs are begun, written and sealed, the index of a run lists what has been put for it since it was
begun, and each of it stands under its hash; no object is ever found damaged. The index of a sealed run is final. -/
theorem sealed_index_is_final (h : Steps sha256 (World.start : World μ) w) (runId : String) :
    (w.store.sealRun runId).1.objects = (w.puts runId).map (fun e => refOf sha256 e.1 e.2) ∧
    (∀ e ∈ w.puts runId, ∃ content, w.store.getObject sha256 (sha256 e.2) = .ok ⟨content, sha256 e.2⟩ ∧
      sha256 content = sha256 e.2) ∧
    (∀ hash text, w.store.getObject sha256 hash ≠ .error (.hashMismatch text)) ∧
    (w.store.isSealed runId = true → ∀ w', Steps sha256 w w' →
      (w'.store.sealRun runId).1 = (w.store.sealRun runId).1 ∧
        ∀ objects r, w'.store.putBatch sha256 runId objects ≠ .ok r) := by
  have hw := h.tracked (start_tracked sha256)
  have hindex {v : World μ} (hv : Tracked sha256 v) :
      (v.store.sealRun runId).1.objects = (v.puts runId).map fun e => refOf sha256 e.1 e.2 := by
    cases hrefs : v.store.runObjects.get? runId with
    | none => simp [sealRun, hrefs, hv.unbegun runId hrefs]
    | some refs => simpa [sealRun, hrefs] using hv.index runId refs hrefs
  have hget {hash : String} {content : Content} (hcontent : w.store.objects.get? hash = some content) :
      w.store.getObject sha256 hash = .ok ⟨content, hash⟩ := by
    unfold getObject
    simp only [hcontent, hw.hashed hash content hcontent, ne_eq, not_true_eq_false, if_false]
  refine ⟨hindex hw, ?_, ?_, ?_⟩
  · intro e he
    obtain ⟨content, hcontent⟩ := Option.isSome_iff_exists.mp (hw.kept runId e he)
    exact ⟨content, hget hcontent, hw.hashed _ content hcontent⟩
  · intro hash text
    cases hcontent : w.store.objects.get? hash with
    | none =>
      unfold getObject
      rw [hcontent]
      nofun
    | some content =>
      rw [hget hcontent]
      nofun
  · intro hsealed w' hsteps
    obtain ⟨hlater, hputs⟩ := hsteps.keeps_sealed hsealed
    constructor
    · have hsame : (w'.store.sealRun runId).1.objects = (w.store.sealRun runId).1.objects := by
        rw [hindex (hsteps.tracked hw), hindex hw, hputs]
      unfold sealRun at hsame ⊢
      exact congrArg (RunArtifactIndex.mk runId · true) hsame
    · intro objects r hput
      obtain ⟨hopen, -⟩ := putBatch_cases (show w'.store.putBatch sha256 runId objects = .ok (r.1, r.2) from hput)
      rw [hlater] at hopen
      cases hopen

def digestOfA (_ : Content) : String := "ca978112ca1bbdcafac231b39a23dc4da786eff8147c4e72b9807785afee48bb"

def begunRun : World Unit := ⟨World.start.store.beginRun "r" (), fun _ => []⟩

theorem sealed_run_is_not_reopened : ∃ w : World Unit, Steps digestOfA World.start w ∧
    (w.store.sealRun "r").1.objects = [refOf digestOfA "out/a" [97]] ∧
    ∀ objects r, w.store.putBatch digestOfA "r" objects ≠ .ok r := by
  have hopened : Step digestOfA World.start begunRun := .opened "r" ()
  have hput : begunRun.store.putBatch digestOfA "r" (Dict.single "out/a" [97]) = .ok ([refOf digestOfA "out/a" [97]],
      putObjects digestOfA "r" [("out/a", [97])] begunRun.store) := rfl
  have hsealed := ((Relation.ReflTransGen.single hopened).tail (.put hput)).tail (.closed "r")
  have hfinal := (sealed_index_is_final hsealed "r").2.2.2 rfl _ (Relation.ReflTransGen.single (.opened "r" ()))
  refine ⟨_, hsealed.tail (.opened "r" ()), ?_, hfinal.2⟩
  rw [hfinal.1]
  rfl

end GraphSkillRuntime.RunArtifactStores
