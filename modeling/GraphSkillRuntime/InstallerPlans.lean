import GraphSkillRuntime.InstallerFormats
import GraphSkillRuntime.Runs

/-! What an install and an uninstall plan for one resource, and for the targets of a request. -/

namespace GraphSkillRuntime.Installer

open OrderedDict JsonText

variable {F : Type} {host : Installation F} {files : Files} {m : Mutation} {owned : Option ManifestEntry}

theorem readBounded_eq_ok {files : Files} {path : Path} {limit : ℕ} {current : Option Bytes}
    (h : readBounded files path limit = .ok current) :
    files path = current := by
  rw [readBounded] at h
  cases hfile : files path with
  | none => simpa [hfile] using h
  | some content =>
    rw [hfile] at h
    simp only at h
    split at h
    · cases h
    · simpa using h

theorem readBounded_mono {path : Path} {limit limit' : ℕ} (hle : limit ≤ limit') {content : Option Bytes}
    (h : readBounded files path limit = .ok content) : readBounded files path limit' = .ok content := by
  rw [readBounded] at h ⊢
  cases hfile : files path with
  | none => simpa [hfile] using h
  | some current =>
    rw [hfile] at h
    simp only at h ⊢
    split_ifs at h ⊢ with hlt hlt'
    · omega
    · exact h

theorem readInstallManifest_eq_ok {path : Path} {manifest : Option (Bytes × InstallManifest)} :
    readInstallManifest host files path = .ok manifest ↔
      readBounded files path maxManifestBytes = .ok (manifest.map Prod.fst) ∧
        ∀ content m, manifest = some (content, m) → host.readManifest content = some m := by
  rw [readInstallManifest]
  cases hread : readBounded files path maxManifestBytes with
  | error e => simp
  | ok content =>
    cases content with
    | none =>
      cases manifest with
      | none => simp
      | some manifest => simp
    | some content =>
      cases hm : host.readManifest content with
      | none =>
        cases manifest with
        | none => simp [hm]
        | some manifest =>
          obtain ⟨content', m⟩ := manifest
          simp only [hm, reduceCtorEq, Option.map_some, Except.ok.injEq, Option.some.injEq, Prod.mk.injEq, false_iff,
            not_and, not_forall]
          rintro rfl
          exact ⟨content, m, ⟨rfl, rfl⟩, by simp [hm]⟩
      | some m =>
        cases manifest with
        | none => simp [hm]
        | some manifest =>
          obtain ⟨content', m'⟩ := manifest
          simp only [hm, Except.ok.injEq, Option.some.injEq, Prod.mk.injEq, Option.map_some]
          constructor
          · rintro ⟨rfl, rfl⟩
            exact ⟨rfl, by rintro _ _ ⟨rfl, rfl⟩; exact hm⟩
          · rintro ⟨rfl, h⟩
            have := h content m' ⟨rfl, rfl⟩
            rw [hm, Option.some.injEq] at this
            exact ⟨rfl, this⟩

theorem readBounded_eq_ok_iff {path : Path} {limit : ℕ} {content : Bytes} (h : files path = some content) :
    (∃ before, readBounded files path limit = .ok before) ↔ content.length ≤ limit := by
  rw [readBounded, h]
  by_cases hlt : limit < content.length
  · simp [hlt]
  · simp [hlt, Nat.not_lt.mp hlt]

theorem decodeJsonDocument_some {text : Bytes} {document : Document F} :
    decodeJsonDocument host (some text) = .ok document ↔ host.loads text = some document := by
  rw [decodeJsonDocument]
  cases host.loads text <;> simp

theorem distinct_of_decode {before : Option Bytes} {document : Document F}
    (h : decodeJsonDocument host before = .ok document) : (Json.dict document).Distinct := by
  cases before with
  | none =>
    cases h
    exact distinct_nil
  | some text => exact host.loads_distinct text document (decodeJsonDocument_some.mp h)

theorem decode_pretty {document : Document F} (h : (Json.dict document).Distinct) :
    decodeJsonDocument host (some (host.pretty document)) = .ok document :=
  decodeJsonDocument_some.mpr (host.loads_pretty document h)

section Install

variable {resourceId : String} {path : Path}

def Owns (owned : Option ManifestEntry) (hash : Bytes) : Prop :=
  ∃ entry, owned = some entry ∧ hash = entry.contentSha256

def changeAction (before after : Option Bytes) : IntegrationAction :=
  if before = after then .unchanged else .update

theorem planInstallFile_eq_ok {content : Bytes} :
    planInstallFile host files resourceId path content owned = .ok m ↔
      ∃ before, readBounded files path maxConfigBytes = .ok before ∧
        (∀ current, before = some current → Owns owned (host.sha256 current)) ∧
        m = installMutation host (.file resourceId path content)
          (if before = none then .create else changeAction before (some content)) before (some content)
          (ownedEntry host (.file resourceId path content) false []) := by
  rw [planInstallFile]
  cases hread : readBounded files path maxConfigBytes with
  | error e => simp [bind, Except.bind]
  | ok before =>
    cases before with
    | none => cases owned <;> simp [bind, Except.bind, eq_comm]
    | some current =>
      cases owned with
      | none => simp [bind, Except.bind, Owns]
      | some entry =>
        by_cases hsha : host.sha256 current = entry.contentSha256
        · simp [bind, Except.bind, Owns, hsha, changeAction, eq_comm]
        · simp [bind, Except.bind, Owns, hsha]

theorem planInstallJson_eq_ok {target : IntegrationTarget} {selector : List String} {value : Json F} :
    planInstallJson host files target resourceId path selector value owned = .ok m ↔
      ¬ (target = .opencode ∧ (files (jsoncSibling path)).isSome) ∧
      ∃ before document created, readBounded files path maxConfigBytes = .ok before ∧
        decodeJsonDocument host before = .ok document ∧
        createdParents owned selector document = .ok created ∧
        (∀ current, lookupJson document selector = some current →
          Owns owned (host.sha256 (host.canonical current))) ∧
        ((∃ current, lookupJson document selector = some current ∧
            host.sha256 (host.canonical current) = host.sha256 (host.canonical value) ∧
            m = installMutation host (.jsonEntry resourceId path selector value) .unchanged before before
              (ownedEntry host (.jsonEntry resourceId path selector value) (createsContainer owned before) created)) ∨
          (∀ current, lookupJson document selector = some current →
            host.sha256 (host.canonical current) ≠ host.sha256 (host.canonical value)) ∧
          ∃ document', setJson selector value document = .ok document' ∧
            m = installMutation host (.jsonEntry resourceId path selector value)
              (if lookupJson document selector = none then .create
                else changeAction before (some (host.pretty document')))
              before (some (host.pretty document'))
              (ownedEntry host (.jsonEntry resourceId path selector value)
                (createsContainer owned before) created)) := by
  rw [planInstallJson]
  by_cases hjsonc : target = .opencode ∧ (files (jsoncSibling path)).isSome
  · simp [hjsonc]
  rw [if_neg hjsonc]
  simp only [hjsonc, not_false_eq_true, true_and]
  cases hread : readBounded files path maxConfigBytes with
  | error e => simp [bind, Except.bind]
  | ok before =>
    cases hdecode : decodeJsonDocument host before with
    | error e => simp [bind, Except.bind, hdecode]
    | ok document =>
      cases owned with
      | none =>
        cases hmissing : missingJsonParents selector document with
        | error e => simp [bind, Except.bind, hdecode, hmissing, createdParents, ofSelector]
        | ok created =>
          cases hlookup : lookupJson document selector with
          | some current => simp [bind, Except.bind, hdecode, hmissing, createdParents, ofSelector, hlookup, Owns]
          | none =>
            cases hset : setJson selector value document with
            | error e => simp [bind, Except.bind, hdecode, hmissing, createdParents, ofSelector, hlookup, hset]
            | ok document' =>
              simp [bind, Except.bind, hdecode, hmissing, createdParents, ofSelector, hlookup, hset, eq_comm]
      | some entry =>
        cases hlookup : lookupJson document selector with
        | none =>
          cases hset : setJson selector value document with
          | error e => simp [bind, Except.bind, hdecode, createdParents, ofSelector, hlookup, hset]
          | ok document' => simp [bind, Except.bind, hdecode, createdParents, ofSelector, hlookup, hset, eq_comm]
        | some current =>
          by_cases hsha : host.sha256 (host.canonical current) = entry.contentSha256
          · by_cases hsame : entry.contentSha256 = host.sha256 (host.canonical value)
            · simp [bind, Except.bind, hdecode, createdParents, hlookup, Owns, hsha, hsame, contentHash, eq_comm]
            · cases hset : setJson selector value document with
              | error e =>
                simp [bind, Except.bind, hdecode, createdParents, ofSelector, hlookup, hset, Owns, hsha, hsame,
                  contentHash]
              | ok document' =>
                simp [bind, Except.bind, hdecode, createdParents, ofSelector, hlookup, hset, Owns, hsha, hsame,
                  contentHash, changeAction, eq_comm]
          · simp [bind, Except.bind, hdecode, createdParents, hlookup, Owns, hsha]

theorem planInstallText_eq_ok {marker : Marker} {content : Bytes} :
    planInstallText host files resourceId path marker content owned = .ok m ↔
      ∃ before bounds, readBounded files path maxConfigBytes = .ok before ∧
        (∀ raw, before = some raw → (host.tomlServers raw).isSome) ∧
        markerBounds (before.getD []) marker = .ok bounds ∧
        ((bounds = none ∧ tomlHasGskillServer host (before.getD []) = .ok false ∧
            m = installMutation host (.textBlock resourceId path marker content) .create before
              (some (appendTextBlock before content))
              (ownedEntry host (.textBlock resourceId path marker content) (createsContainer owned before) [])) ∨
          ∃ start stop, bounds = some (start, stop) ∧
            Owns owned (host.sha256 (((before.getD []).take stop).drop start)) ∧
            m = installMutation host (.textBlock resourceId path marker content)
              (changeAction before (some ((before.getD []).take start ++ content ++ (before.getD []).drop stop)))
              before (some ((before.getD []).take start ++ content ++ (before.getD []).drop stop))
              (ownedEntry host (.textBlock resourceId path marker content) (createsContainer owned before) [])) := by
  rw [planInstallText]
  cases hread : readBounded files path maxConfigBytes with
  | error e => simp [bind, Except.bind]
  | ok before =>
    by_cases htoml : before.isSome ∧ (host.tomlServers (before.getD [])).isNone
    · obtain ⟨raw, rfl⟩ := Option.isSome_iff_exists.mp htoml.1
      have hraw : host.tomlServers raw = none := by simpa using htoml
      simp [bind, Except.bind, hraw]
    have hvalid : ∀ raw, before = some raw → (host.tomlServers raw).isSome := by
      rintro raw rfl
      simpa [Option.isSome_iff_ne_none] using htoml
    rw [Option.isNone_iff_eq_none] at htoml
    cases hbounds : markerBounds (before.getD []) marker with
    | error e => simp [bind, Except.bind, htoml, textBounds, hbounds]
    | ok bounds =>
      cases bounds with
      | none =>
        cases hserver : tomlHasGskillServer host (before.getD []) with
        | error e => cases owned <;> simp [bind, Except.bind, htoml, textBounds, hbounds, hserver]
        | ok has =>
          cases has with
          | true => cases owned <;> simp [bind, Except.bind, htoml, textBounds, hbounds, hserver]
          | false =>
            cases owned <;>
              simp [bind, Except.bind, htoml, textBounds, hbounds, hserver, eq_comm (b := m)] <;> exact fun _ => hvalid
      | some bounds =>
        obtain ⟨start, stop⟩ := bounds
        cases owned with
        | none => simp [bind, Except.bind, htoml, textBounds, hbounds, Owns]
        | some entry =>
          by_cases hsha : host.sha256 (((before.getD []).take stop).drop start) = entry.contentSha256
          · simp [bind, Except.bind, htoml, textBounds, hbounds, Owns, hsha, changeAction, eq_comm (b := m)]
            exact fun _ => hvalid
          · simp [bind, Except.bind, htoml, textBounds, hbounds, Owns, hsha]

end Install

theorem planInstallResource_eq_ok {target : IntegrationTarget} {r : Resource F}
    (h : planInstallResource host files target r owned = .ok m) :
    ∃ action before after created parents, readBounded files r.path maxConfigBytes = .ok before ∧
      m = installMutation host r action before after (ownedEntry host r created parents) ∧
      (action = .unchanged → after = before) := by
  have unchanged {before after : Option Bytes} (h : changeAction before after = .unchanged) : after = before := by
    rw [changeAction] at h
    split at h
    · next heq => exact heq.symm
    · cases h
  cases r with
  | file id path content =>
    obtain ⟨before, hread, -, rfl⟩ := planInstallFile_eq_ok.mp h
    refine ⟨_, before, _, _, _, hread, rfl, fun haction => ?_⟩
    split at haction
    · cases haction
    · exact unchanged haction
  | jsonEntry id path selector value =>
    obtain ⟨-, before, document, created, hread, -, -, -, ⟨current, -, -, rfl⟩ | ⟨-, document', -, rfl⟩⟩ :=
      planInstallJson_eq_ok.mp h
    · exact ⟨_, before, _, _, _, hread, rfl, fun _ => rfl⟩
    · refine ⟨_, before, _, _, _, hread, rfl, fun haction => ?_⟩
      split at haction
      · cases haction
      · exact unchanged haction
  | textBlock id path marker content =>
    obtain ⟨before, bounds, hread, -, -, ⟨-, -, rfl⟩ | ⟨start, stop, -, -, rfl⟩⟩ := planInstallText_eq_ok.mp h
    · exact ⟨_, before, _, _, _, hread, rfl, fun haction => by cases haction⟩
    · exact ⟨_, before, _, _, _, hread, rfl, unchanged⟩

section Uninstall

variable {entry : ManifestEntry}

def uninstallMutation (entry : ManifestEntry) (action : IntegrationAction) (before after : Option Bytes) :
    Mutation where
  resourceId := entry.resourceId
  kind := entry.kind
  path := entry.path
  selector := entry.selector
  action
  contentSha256 := some entry.contentSha256
  before
  after
  manifestEntry := none

theorem planUninstallEntry_eq_ok :
    planUninstallEntry host files entry = .ok m ↔
      ∃ before action after, readBounded files entry.path maxConfigBytes = .ok before ∧
        uninstallState host entry before = .ok (action, after) ∧ m = uninstallMutation entry action before after := by
  rw [planUninstallEntry]
  cases hread : readBounded files entry.path maxConfigBytes with
  | error e => simp [bind, Except.bind]
  | ok before =>
    cases hstate : uninstallState host entry before with
    | error e => simp [bind, Except.bind, hstate]
    | ok result =>
      obtain ⟨action, after⟩ := result
      simp [bind, Except.bind, hstate, uninstallMutation, eq_comm (b := m)]

theorem planUninstallEntry_of_content {content : Bytes} {m : Mutation}
    (h : files entry.path = some content) :
    planUninstallEntry host files entry = .ok m ↔ content.length ≤ maxConfigBytes ∧
      ∃ action after, uninstallState host entry (some content) = .ok (action, after) ∧
        m = uninstallMutation entry action (some content) after := by
  rw [planUninstallEntry_eq_ok]
  constructor
  · rintro ⟨before, action, after, hread, hstate, rfl⟩
    obtain rfl : some content = before := h.symm.trans (readBounded_eq_ok hread)
    exact ⟨(readBounded_eq_ok_iff h).mp ⟨_, hread⟩, action, after, hstate, rfl⟩
  · rintro ⟨hle, action, after, hstate, rfl⟩
    obtain ⟨before, hread⟩ := (readBounded_eq_ok_iff h).mpr hle
    obtain rfl : some content = before := h.symm.trans (readBounded_eq_ok hread)
    exact ⟨_, action, after, hread, hstate, rfl⟩

theorem uninstallFileState_eq_ok {before after : Option Bytes} {action : IntegrationAction} :
    uninstallFileState host entry before = .ok (action, after) ↔
      (∀ content, before = some content → host.sha256 content = entry.contentSha256) ∧ after = none ∧
        action = if before = none then .unchanged else .remove := by
  cases before with
  | none => simp [uninstallFileState, eq_comm (b := action), eq_comm (b := after), and_comm]
  | some content =>
    by_cases hsha : host.sha256 content = entry.contentSha256
    · simp [uninstallFileState, hsha, eq_comm (b := action), eq_comm (b := after), and_comm]
    · simp [uninstallFileState, hsha]

theorem uninstallJsonState_eq_ok {selector : List String} {before after : Option Bytes} {action : IntegrationAction} :
    uninstallJsonState host entry selector before = .ok (action, after) ↔
      ∃ document, decodeJsonDocument host before = .ok document ∧
        ((lookupJson document selector = none ∨ before = none) ∧ action = .unchanged ∧ after = before ∨
          ∃ current removed, before ≠ none ∧ lookupJson document selector = some current ∧
            host.sha256 (host.canonical current) = entry.contentSha256 ∧
            removeJson selector document = .ok removed ∧ action = .remove ∧
            after = if entry.containerCreated = true ∧
                pruneCreatedJsonParents entry.createdJsonParents removed = [] then none
              else some (host.pretty (pruneCreatedJsonParents entry.createdJsonParents removed))) := by
  cases before with
  | none => simp [uninstallJsonState, decodeJsonDocument, eq_comm (b := action), eq_comm (b := after)]
  | some content =>
    rw [uninstallJsonState]
    cases hdecode : decodeJsonDocument host (some content) with
    | error e => simp [bind, Except.bind]
    | ok document =>
      cases hlookup : lookupJson document selector with
      | none => simp [bind, Except.bind, hlookup, eq_comm (b := action), eq_comm (b := after)]
      | some current =>
        by_cases hsha : host.sha256 (host.canonical current) = entry.contentSha256
        · cases hremove : removeJson selector document with
          | error e => simp [bind, Except.bind, hlookup, hsha, hremove, ofSelector]
          | ok removed =>
            simp only [bind, Except.bind, hlookup, hsha, hremove, ofSelector, ne_eq, not_true,
              if_false]
            by_cases hempty : entry.containerCreated = true ∧
                pruneCreatedJsonParents entry.createdJsonParents removed = []
            · simp [if_pos hempty, hlookup, hsha, hremove, eq_comm (b := action), eq_comm (b := after)]
            · simp [if_neg hempty, hlookup, hsha, hremove, eq_comm (b := action), eq_comm (b := after)]
        · simp [bind, Except.bind, hlookup, hsha]

theorem uninstallTextState_eq_ok {marker : Marker} {before after : Option Bytes} {action : IntegrationAction} :
    uninstallTextState host entry marker before = .ok (action, after) ↔
      ∃ bounds, markerBounds (before.getD []) marker = .ok bounds ∧
        (bounds = none ∧ action = .unchanged ∧ after = before ∨
          ∃ content start stop, before = some content ∧ bounds = some (start, stop) ∧
            host.sha256 ((content.take stop).drop start) = entry.contentSha256 ∧ action = .remove ∧
            after = if entry.containerCreated && isBlank (removeTextBlock content (start, stop)) then none
              else some (removeTextBlock content (start, stop))) := by
  cases before with
  | none =>
    simp [uninstallTextState, markerBounds, find?, Marker.beginLine, Marker.endLine, eq_comm (b := action),
      eq_comm (b := after)]
  | some content =>
    rw [uninstallTextState]
    cases hbounds : markerBounds content marker with
    | error e => simp [bind, Except.bind, textBounds, hbounds]
    | ok bounds =>
      cases bounds with
      | none => simp [bind, Except.bind, textBounds, hbounds, eq_comm (b := action), eq_comm (b := after)]
      | some bounds =>
        obtain ⟨start, stop⟩ := bounds
        by_cases hsha : host.sha256 ((content.take stop).drop start) = entry.contentSha256
        · simp [bind, Except.bind, textBounds, hbounds, hsha, eq_comm (b := action), eq_comm (b := after)]
        · simp [bind, Except.bind, textBounds, hbounds, hsha]

theorem uninstallState_unchanged {before after : Option Bytes} {action : IntegrationAction}
    (h : uninstallState host entry before = .ok (action, after)) (haction : action = .unchanged) : after = before := by
  subst haction
  rw [uninstallState] at h
  split at h
  · obtain ⟨-, rfl, haction⟩ := uninstallFileState_eq_ok.mp h
    split at haction
    · next heq => exact heq.symm
    · cases haction
  · obtain ⟨document, -, ⟨-, -, rfl⟩ | ⟨_, _, -, -, -, -, haction, -⟩⟩ := uninstallJsonState_eq_ok.mp h
    · rfl
    · cases haction
  · obtain ⟨bounds, -, ⟨-, -, rfl⟩ | ⟨_, _, _, -, -, -, haction, -⟩⟩ := uninstallTextState_eq_ok.mp h
    · rfl
    · cases haction
  · cases h

end Uninstall

section Targets

theorem filterMap_getRight?_eq_nil {α β γ : Type} {f : α → β ⊕ γ} {xs : List α} :
    (xs.map f).filterMap Sum.getRight? = [] ↔ ∃ ys, List.Forall₂ (fun x y => f x = .inl y) xs ys := by
  induction xs with
  | nil => exact ⟨fun _ => ⟨[], .nil⟩, fun _ => rfl⟩
  | cons x xs ih =>
    rw [List.map_cons, List.filterMap_cons]
    constructor
    · intro h
      cases hx : f x with
      | inl y =>
        rw [hx] at h
        obtain ⟨ys, hys⟩ := ih.mp h
        exact ⟨y :: ys, .cons hx hys⟩
      | inr z =>
        rw [hx] at h
        cases h
    · rintro ⟨_, _ | ⟨hx, hys⟩⟩
      rw [hx]
      exact ih.mpr ⟨_, hys⟩

theorem filterMap_getLeft? {α β γ : Type} {f : α → β ⊕ γ} {xs : List α} {ys : List β}
    (h : List.Forall₂ (fun x y => f x = .inl y) xs ys) : (xs.map f).filterMap Sum.getLeft? = ys := by
  induction h with
  | nil => rfl
  | cons hx _ ih =>
    rw [List.map_cons, List.filterMap_cons, hx, ih]
    rfl

def ManifestEntry.Matches (entry : ManifestEntry) (r : Resource F) : Prop :=
  entry.resourceId = r.resourceId ∧ entry.kind = (resourceIdentity r).1 ∧ entry.path = r.path ∧
    entry.selector = (resourceIdentity r).2

theorem entryOf_eq_some {entries : List ManifestEntry} (hunique : (entries.map ManifestEntry.resourceId).Nodup)
    {id : String} {entry : ManifestEntry} :
    entryOf entries id = some entry ↔ entry ∈ entries ∧ entry.resourceId = id := by
  induction entries with
  | nil => simp [entryOf]
  | cons e entries ih =>
    rw [List.map_cons, List.nodup_cons] at hunique
    have hrest := ih hunique.2
    rw [entryOf] at hrest ⊢
    rw [List.find?_cons]
    by_cases hid : e.resourceId = id
    · simp only [hid, decide_true, Option.some.injEq, List.mem_cons]
      constructor
      · rintro rfl
        exact ⟨.inl rfl, hid⟩
      · rintro ⟨rfl | hmem, heq⟩
        · rfl
        · exact absurd (hid ▸ heq ▸ List.mem_map_of_mem hmem) hunique.1
    · simp only [hid, decide_false, hrest, List.mem_cons]
      constructor
      · exact fun h => ⟨.inr h.1, h.2⟩
      · rintro ⟨rfl | hmem, heq⟩
        · exact absurd heq hid
        · exact ⟨hmem, heq⟩

theorem resourceMismatch_eq_none {entries : List ManifestEntry}
    (hunique : (entries.map ManifestEntry.resourceId).Nodup) {r : Resource F} :
    resourceMismatch entries r = none ↔ ∃ entry ∈ entries, entry.Matches r := by
  rw [resourceMismatch]
  cases hentry : entryOf entries r.resourceId with
  | none =>
    simp only [reduceCtorEq, false_iff, not_exists, not_and]
    intro entry hmem hmatches
    have hsome := (entryOf_eq_some hunique).mpr ⟨hmem, hmatches.1⟩
    rw [hentry] at hsome
    cases hsome
  | some entry =>
    have hmem := (entryOf_eq_some hunique).mp hentry
    have hmatches : (∃ entry ∈ entries, entry.Matches r) ↔ entry.Matches r := by
      constructor
      · rintro ⟨entry', hmem', hmatches⟩
        have hsome := (entryOf_eq_some hunique).mpr ⟨hmem', hmatches.1⟩
        rw [hentry] at hsome
        obtain rfl := Option.some.inj hsome
        exact hmatches
      · exact fun h => ⟨entry, hmem.1, h⟩
    rw [hmatches, ManifestEntry.Matches]
    simp only [hmem.2, true_and]
    split_ifs <;> simp_all

def Lists (m : InstallManifest) (scope : IntegrationScope) (target : IntegrationTarget)
    (resources : List (Resource F)) : Prop :=
  m.target = target ∧ m.scope = scope ∧ (∀ entry ∈ m.entries, ∃ r ∈ resources, entry.Matches r) ∧
    ∀ r ∈ resources, ∃ entry ∈ m.entries, entry.Matches r

theorem validateManifest_eq_none {m : InstallManifest} (hunique : m.uniqueResources) {scope : IntegrationScope}
    {target : IntegrationTarget} {resources : List (Resource F)} :
    validateManifest m scope target resources = none ↔ Lists m scope target resources := by
  rw [validateManifest, Lists]
  have hfind : resources.findSome? (resourceMismatch m.entries) = none ↔
      ∀ r ∈ resources, ∃ entry ∈ m.entries, entry.Matches r := by
    rw [List.findSome?_eq_none_iff]
    exact forall₂_congr fun r _ => resourceMismatch_eq_none hunique
  -- an entry matches the resource of its id
  have matches_of_id (h : ∀ r ∈ resources, ∃ entry ∈ m.entries, entry.Matches r) {entry : ManifestEntry}
      (hentry : entry ∈ m.entries) {r : Resource F} (hr : r ∈ resources) (hid : entry.resourceId = r.resourceId) :
      entry.Matches r := by
    obtain ⟨entry', hentry', hmatches⟩ := h r hr
    have heq := (entryOf_eq_some hunique).mpr ⟨hentry, rfl⟩
    rw [(entryOf_eq_some hunique).mpr ⟨hentry', hmatches.1.trans hid.symm⟩] at heq
    obtain rfl := Option.some.inj heq
    exact hmatches
  split_ifs with htarget hids
  · refine iff_of_false (by simp) ?_
    rintro ⟨rfl, rfl, -⟩
    simp at htarget
  · rw [hfind]
    rw [not_or, not_not, not_not] at htarget
    constructor
    · intro h
      refine ⟨htarget.1, htarget.2, fun entry hentry => ?_, h⟩
      obtain ⟨r, hr, hid⟩ := List.mem_map.mp (hids.1 entry hentry)
      exact ⟨r, hr, matches_of_id h hentry hr hid.symm⟩
    · exact fun h => h.2.2.2
  · refine iff_of_false (by simp) ?_
    rintro ⟨-, -, hentries, hresources⟩
    refine hids ⟨fun entry hentry => ?_, fun r hr => ?_⟩
    · obtain ⟨r, hr, hmatches⟩ := hentries entry hentry
      exact List.mem_map.mpr ⟨r, hr, hmatches.1.symm⟩
    · obtain ⟨entry, hentry, hmatches⟩ := hresources r hr
      exact List.mem_map.mpr ⟨entry, hentry, hmatches.1⟩

theorem planInstallOrConflict_eq_inl {target : IntegrationTarget} {entries : List ManifestEntry} {r : Resource F} :
    planInstallOrConflict host files target entries r = .inl m ↔
      planInstallResource host files target r (entryOf entries r.resourceId) = .ok m := by
  rw [planInstallOrConflict]
  cases planInstallResource host files target r (entryOf entries r.resourceId) <;> simp

theorem planUninstallOrConflict_eq_inl (target : IntegrationTarget) {entry : ManifestEntry} :
    planUninstallOrConflict host files target entry = .inl m ↔ planUninstallEntry host files entry = .ok m := by
  rw [planUninstallOrConflict]
  cases planUninstallEntry host files entry <;> simp

variable {request : IntegrationRequest} {assets : AssetBundle} {target : IntegrationTarget} {t : PreparedTarget}
  {operation : IntegrationOperation} {prepared : List PreparedTarget}

def writtenManifest (request : IntegrationRequest) (assets : AssetBundle) (target : IntegrationTarget)
    (mutations : List Mutation) : InstallManifest where
  assetVersion := assets.assetVersion
  target
  scope := request.scope
  entries := mutations.filterMap Mutation.manifestEntry

def cleanTarget (host : Installation F) (request : IntegrationRequest) (target : IntegrationTarget)
    (manifest : Option (Bytes × InstallManifest)) (manifestAfter : Option Bytes) (mutations : List Mutation) :
    PreparedTarget where
  target
  manifestPath := manifestPath host request target
  manifestBefore := manifest.map Prod.fst
  manifestAfter
  mutations
  conflicts := []

def Usable (host : Installation F) (files : Files) (request : IntegrationRequest) (target : IntegrationTarget)
    (resources : List (Resource F)) (manifest : Option (Bytes × InstallManifest)) : Prop :=
  readInstallManifest host files (manifestPath host request target) = .ok manifest ∧
    ∀ content m, manifest = some (content, m) → validateManifest m request.scope target resources = none

theorem usable_iff_of_file {resources : List (Resource F)} {manifest : Option (Bytes × InstallManifest)}
    {content : Bytes} {m : InstallManifest} (hfile : files (manifestPath host request target) = some content)
    (hread : host.readManifest content = some m) :
    Usable host files request target resources manifest ↔ manifest = some (content, m) ∧
      content.length ≤ maxManifestBytes ∧ validateManifest m request.scope target resources = none := by
  rw [Usable, readInstallManifest_eq_ok]
  constructor
  · rintro ⟨⟨hbounded, hm⟩, hvalid⟩
    have hbefore := hfile.symm.trans (readBounded_eq_ok hbounded)
    obtain ⟨⟨content', m'⟩, rfl, hcontent⟩ := Option.map_eq_some_iff.mp hbefore.symm
    obtain rfl : content' = content := hcontent
    obtain rfl : m = m' := Option.some.inj (hread.symm.trans (hm _ m' rfl))
    exact ⟨rfl, (readBounded_eq_ok_iff hfile).mp ⟨_, hbounded⟩, hvalid _ m rfl⟩
  · rintro ⟨rfl, hle, hvalid⟩
    obtain ⟨before, hbounded⟩ := (readBounded_eq_ok_iff hfile).mpr hle
    have hbefore := hfile.symm.trans (readBounded_eq_ok hbounded)
    refine ⟨⟨?_, ?_⟩, ?_⟩
    · rw [hbounded, ← hbefore]
      rfl
    · rintro _ _ heq
      cases heq
      exact hread
    · rintro _ _ heq
      cases heq
      exact hvalid

theorem length_filterMap_manifestEntry {entries : List ManifestEntry} {resources : List (Resource F)}
    {mutations : List Mutation}
    (h : List.Forall₂ (fun r m => planInstallResource host files target r (entryOf entries r.resourceId) = .ok m)
      resources mutations) : (mutations.filterMap Mutation.manifestEntry).length = resources.length := by
  induction h with
  | nil => rfl
  | cons hplan _ ih =>
    obtain ⟨action, before, after, created, parents, -, rfl, -⟩ := planInstallResource_eq_ok hplan
    rw [List.filterMap_cons, List.length_cons, ← ih]
    rfl

theorem withManifest_clean {plan : List (Resource F) → Option (Bytes × InstallManifest) → PreparedTarget} :
    (withManifest host files request assets target plan = .ok t ∧ t.conflicts = []) ↔
      ∃ resources manifest, validatedResources host target assets request = .ok resources ∧
        Usable host files request target resources manifest ∧ plan resources manifest = t ∧ t.conflicts = [] := by
  have refusal {before : Option Bytes} {reason : Refusal} :
      ¬ ((.ok (refused target (manifestPath host request target) before reason) : Except Refusal PreparedTarget) =
        .ok t ∧ t.conflicts = []) := by
    rintro ⟨h, hnone⟩
    obtain rfl := Except.ok.inj h
    cases hnone
  rw [withManifest]
  cases hresources : validatedResources host target assets request with
  | error e => simp [bind, Except.bind]
  | ok resources =>
    simp only [bind, Except.bind, Except.ok.injEq, exists_and_left, exists_eq_left', Usable]
    cases hread : readInstallManifest host files (manifestPath host request target) with
    | error e => exact iff_of_false refusal (by simp)
    | ok manifest =>
      simp only [Except.ok.injEq, and_assoc, exists_eq_left']
      cases manifest with
      | none => simp
      | some manifest =>
        obtain ⟨content, m⟩ := manifest
        cases hvalidate : validateManifest m request.scope target resources with
        | some mismatch =>
          simp only [hvalidate]
          refine iff_of_false refusal ?_
          rintro ⟨hvalid, -⟩
          rw [hvalid content m rfl] at hvalidate
          cases hvalidate
        | none => simp [hvalidate]

theorem prepareInstallTarget_clean :
    (prepareInstallTarget host files request assets target = .ok t ∧ t.conflicts = []) ↔
      ∃ resources manifest mutations, validatedResources host target assets request = .ok resources ∧
        Usable host files request target resources manifest ∧
        List.Forall₂ (fun r m => planInstallResource host files target r
          (entryOf (ownedEntries manifest) r.resourceId) = .ok m) resources mutations ∧
        t = cleanTarget host request target manifest
          (some (host.manifestBytes (writtenManifest request assets target mutations))) mutations := by
  have build {resources : List (Resource F)} {manifest : Option (Bytes × InstallManifest)}
      {mutations : List Mutation} (h : List.Forall₂ (fun r m => planInstallResource host files target r
        (entryOf (ownedEntries manifest) r.resourceId) = .ok m) resources mutations) :
      installTarget host files request assets target resources manifest = cleanTarget host request target manifest
        (some (host.manifestBytes (writtenManifest request assets target mutations))) mutations := by
    have hlength := length_filterMap_manifestEntry h
    have hplanned := h.imp fun _ _ => planInstallOrConflict_eq_inl.mpr
    rw [installTarget, filterMap_getLeft? hplanned, filterMap_getRight?_eq_nil.mpr ⟨_, hplanned⟩, if_pos hlength]
    rfl
  rw [prepareInstallTarget, withManifest_clean]
  constructor
  · rintro ⟨resources, manifest, hresources, husable, rfl, hnone⟩
    obtain ⟨mutations, hplanned⟩ := filterMap_getRight?_eq_nil.mp hnone
    have hmutations := hplanned.imp fun _ _ => planInstallOrConflict_eq_inl.mp
    exact ⟨resources, manifest, mutations, hresources, husable, hmutations, build hmutations⟩
  · rintro ⟨resources, manifest, mutations, hresources, husable, hmutations, rfl⟩
    exact ⟨resources, manifest, hresources, husable, build hmutations, rfl⟩

theorem prepareUninstallTarget_clean :
    (prepareUninstallTarget host files request assets target = .ok t ∧ t.conflicts = []) ↔
      ∃ resources manifest mutations, validatedResources host target assets request = .ok resources ∧
        Usable host files request target resources manifest ∧
        List.Forall₂ (fun entry m => planUninstallEntry host files entry = .ok m) (ownedEntries manifest) mutations ∧
        t = cleanTarget host request target manifest none mutations := by
  have build {manifest : Option (Bytes × InstallManifest)} {mutations : List Mutation}
      (h : List.Forall₂ (fun entry m => planUninstallEntry host files entry = .ok m) (ownedEntries manifest)
        mutations) :
      uninstallTarget host files request target manifest = cleanTarget host request target manifest none mutations := by
    have hplanned := h.imp fun _ _ => (planUninstallOrConflict_eq_inl target).mpr
    rw [uninstallTarget, filterMap_getLeft? hplanned, filterMap_getRight?_eq_nil.mpr ⟨_, hplanned⟩]
    rfl
  rw [prepareUninstallTarget, withManifest_clean]
  constructor
  · rintro ⟨resources, manifest, hresources, husable, rfl, hnone⟩
    obtain ⟨mutations, hplanned⟩ := filterMap_getRight?_eq_nil.mp hnone
    have hmutations := hplanned.imp fun _ _ => (planUninstallOrConflict_eq_inl target).mp
    exact ⟨resources, manifest, mutations, hresources, husable, hmutations, build hmutations⟩
  · rintro ⟨resources, manifest, mutations, hresources, husable, hmutations, rfl⟩
    exact ⟨resources, manifest, hresources, husable, build hmutations, rfl⟩

theorem prepare_clean : (prepare host operation files request assets = .ok prepared ∧ canApply prepared = true) ↔
    List.Forall₂ (fun target t => prepareTarget host operation files request assets target = .ok t ∧ t.conflicts = [])
      request.targets prepared := by
  rw [prepare, mapM_ok_iff, canApply, List.all_eq_true]
  simp only [List.isEmpty_iff]
  constructor
  · rintro ⟨hplans, hnone⟩
    generalize request.targets = targets at hplans ⊢
    induction hplans with
    | nil => exact .nil
    | cons hplan _ ih =>
      rw [List.forall_mem_cons] at hnone
      exact .cons ⟨hplan, hnone.1⟩ (ih hnone.2)
  · intro h
    refine ⟨h.imp fun _ _ => And.left, fun t ht => ?_⟩
    obtain ⟨_, -, -, hnone⟩ := exists_mem_of_forall₂ h ht
    exact hnone

end Targets

def sampleResource : Resource FloatLiteral :=
  .textBlock "mcp:gskill" sampleConfig codexMarker (renderBlock codexMarker sampleBody)

noncomputable def samplePlan (text : Bytes) : PreparedTarget :=
  cleanTarget sampleHost sampleRequest .codex none
    (some (sampleHost.manifestBytes (sampleManifest false)))
    [installMutation sampleHost sampleResource .create (some text)
      (some (appendTextBlock (some text) (renderBlock codexMarker sampleBody)))
      (ownedEntry sampleHost sampleResource false [])]

theorem validatedResources_sample :
    validatedResources sampleHost .codex serverBundle sampleRequest = .ok [sampleResource] := by
  simp [validatedResources, render, serverBundle, mcpProjection, hostLayout, sampleRequest, validateResources, placed,
    sampleResource, sampleConfig, sampleHost, ManifestTexts.formats, Except.map]

theorem contentHash_sample : contentHash sampleHost sampleResource = sampleDigest := by
  simp [contentHash, sampleResource, sampleHost, ManifestTexts.formats, sampleSha256]

theorem writtenManifest_sample (action : IntegrationAction) (before after : Option Bytes) (created : Bool) :
    writtenManifest sampleRequest serverBundle .codex [installMutation sampleHost sampleResource action before after
      (ownedEntry sampleHost sampleResource created [])] = sampleManifest created := by
  simp only [writtenManifest, installMutation, ownedEntry, contentHash_sample, List.filterMap_cons, List.filterMap_nil]
  rfl

theorem prepare_sample (text : Bytes) (hlength : text.length ≤ maxConfigBytes) (h : Unmarked text codexMarker) :
    prepare sampleHost .install (sampleFiles text) sampleRequest serverBundle = .ok [samplePlan text] ∧
      canApply [samplePlan text] = true := by
  have hread : readBounded (sampleFiles text) sampleConfig maxConfigBytes = .ok (some text) := by
    simp [readBounded, sampleFiles, Nat.not_lt.mpr hlength]
  have hserver : tomlHasGskillServer sampleHost text = .ok false := by
    have hfind : find? codexMarker.beginLine text = none := find?_eq_none.mpr h.1
    rw [tomlHasGskillServer]
    split
    · rfl
    · simp [sampleHost, ManifestTexts.formats, sampleServers, hfind]
  have husable : Usable sampleHost (sampleFiles text) sampleRequest .codex [sampleResource] none := by
    refine ⟨?_, by simp⟩
    simp [readInstallManifest, readBounded, sampleFiles, manifestPath, sampleRequest, sampleConfig]
  refine prepare_clean.mpr (.cons (prepareInstallTarget_clean.mpr ⟨[sampleResource], none, _,
    validatedResources_sample, husable, .cons (planInstallText_eq_ok.mpr ⟨some text, none, hread, ?_,
      markerBounds_eq_none.mpr h, .inl ⟨rfl, hserver, rfl⟩⟩) .nil, ?_⟩) .nil)
  · rintro raw -
    simp only [sampleHost, ManifestTexts.formats, sampleServers]
    split <;> rfl
  · rw [samplePlan, ← writtenManifest_sample]
    rfl

end GraphSkillRuntime.Installer
