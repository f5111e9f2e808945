import GraphSkillRuntime.InstallerOwnership

/-!
What an install of one bundle leaves open to another: when the second bundle can be installed over the
first, and when it can be installed after an uninstall.
-/

namespace GraphSkillRuntime.Installer

open JsonText OrderedDict

variable {F : Type} {host : Installation F} {files files' : Files} {request : IntegrationRequest}
  {assets assets' : AssetBundle} {target : IntegrationTarget} {r s : Resource F} {created : Bool}
  {parents : List (List String)}

def Resource.SameIdentity (r s : Resource F) : Prop :=
  r.resourceId = s.resourceId ∧ resourceIdentity r = resourceIdentity s ∧ r.path = s.path

def SameInventory (rs ss : List (Resource F)) : Prop :=
  (∀ r ∈ rs, ∃ s ∈ ss, r.SameIdentity s) ∧ ∀ s ∈ ss, ∃ r ∈ rs, r.SameIdentity s

def Readable (files : Files) (entry : ManifestEntry) : Prop :=
  ∀ text, files entry.path = some text → text.length ≤ maxConfigBytes ∧
    ∀ marker, entry.selector = .marker marker → ∃ bounds, markerBounds text marker = .ok bounds

def Parses (host : Installation F) (files : Files) (entry : ManifestEntry) : Prop :=
  ∀ marker text, entry.selector = .marker marker → files entry.path = some text → (host.tomlServers text).isSome

/-- What an uninstall leaves of the file takes the resource again. -/
def LeavesRoom (host : Installation F) (files : Files) (entry : ManifestEntry) : Prop :=
  match entry.selector with
  | .whole => True
  | .keys selector =>
    ∀ text document removed, files entry.path = some text → host.loads text = some document →
      removeJson selector document = .ok removed →
      (entry.containerCreated = true ∧ pruneCreatedJsonParents entry.createdJsonParents removed = []) ∨
        (host.pretty (pruneCreatedJsonParents entry.createdJsonParents removed)).length ≤ maxConfigBytes
  | .marker marker =>
    ∀ text start stop, files entry.path = some text → markerBounds text marker = .ok (some (start, stop)) →
      (entry.containerCreated && isBlank (removeTextBlock text (start, stop))) = true ∨
        (host.tomlServers (removeTextBlock text (start, stop))).isSome ∧
          Unmarked (removeTextBlock text (start, stop)) marker ∧
          tomlHasGskillServer host (removeTextBlock text (start, stop)) = .ok false

theorem readBounded_some {path : Path} {text : Bytes} {limit : ℕ} (h : files path = some text)
    (hle : text.length ≤ limit) : readBounded files path limit = .ok (some text) := by
  simp [readBounded, h, Nat.not_lt.mpr hle]

theorem readBounded_none {path : Path} {limit : ℕ} (h : files path = none) :
    readBounded files path limit = .ok none := by
  simp [readBounded, h]

theorem length_le_of_readBounded {path : Path} {text : Bytes} {limit : ℕ} {before : Option Bytes}
    (h : files path = some text) (hread : readBounded files path limit = .ok before) : text.length ≤ limit :=
  (readBounded_eq_ok_iff h).mp ⟨before, hread⟩

theorem eq_some_of_readBounded {path : Path} {text : Bytes} {limit : ℕ} {before : Option Bytes}
    (h : files path = some text) (hread : readBounded files path limit = .ok before) : before = some text :=
  (readBounded_eq_ok hread).symm.trans h

theorem planInstallResource_over (hwf : s.WellFormed) (h : Holds host files r) (hsame : r.SameIdentity s)
    (hjsonc : target = .opencode → (resourceIdentity s).1 = .jsonEntry → files (jsoncSibling s.path) = none) :
    (∃ m, planInstallResource host files target s (some (ownedEntry host r created parents)) = .ok m) ↔
      Readable files (ownedEntry host r created parents) ∧ Parses host files (ownedEntry host r created parents) := by
  obtain ⟨hid, hidentity, hpath⟩ := hsame
  cases r with
  | file id path content =>
    cases s with
    | jsonEntry | textBlock => cases hidentity
    | file id' path' content' =>
      obtain rfl : path = path' := hpath
      replace h : files path = some content := h
      constructor
      · rintro ⟨m, hm⟩
        obtain ⟨before, hread, -⟩ := planInstallFile_eq_ok.mp hm
        refine ⟨fun text htext => ⟨length_le_of_readBounded htext hread, ?_⟩, ?_⟩
        · rintro marker heq
          cases heq
        · rintro marker text heq
          cases heq
      · rintro ⟨hreadable, -⟩
        refine ⟨_, planInstallFile_eq_ok.mpr ⟨some content, readBounded_some h (hreadable content h).1, ?_, rfl⟩⟩
        rintro current heq
        cases heq
        exact ⟨_, rfl, rfl⟩
  | jsonEntry id path selector value =>
    cases s with
    | file | textBlock => cases hidentity
    | jsonEntry id' path' selector' value' =>
      obtain rfl : path = path' := hpath
      obtain rfl : selector = selector' := by
        cases hidentity
        rfl
      obtain ⟨text, document, current, hfile, hloads, hlookup, hhash⟩ := h
      constructor
      · rintro ⟨m, hm⟩
        obtain ⟨-, before, _, _, hread, -⟩ := planInstallJson_eq_ok.mp hm
        refine ⟨fun text htext => ⟨length_le_of_readBounded htext hread, ?_⟩, ?_⟩
        · rintro marker heq
          cases heq
        · rintro marker text heq
          cases heq
      · rintro ⟨hreadable, -⟩
        have hread := readBounded_some hfile (hreadable text hfile).1
        have hnone : ¬ (target = .opencode ∧ (files (jsoncSibling path)).isSome) := by
          rintro ⟨htarget, hsome⟩
          have habsent : files (jsoncSibling path) = none := hjsonc htarget rfl
          rw [habsent] at hsome
          cases hsome
        have howns : ∀ current', lookupJson document selector = some current' →
            Owns (some (ownedEntry host (.jsonEntry id path selector value) created parents))
              (host.sha256 (host.canonical current')) := by
          intro current' hcurrent
          obtain rfl : current = current' := Option.some.inj (hlookup.symm.trans hcurrent)
          exact ⟨_, rfl, hhash⟩
        by_cases hunchanged : host.sha256 (host.canonical current) = host.sha256 (host.canonical value')
        · exact ⟨_, planInstallJson_eq_ok.mpr ⟨hnone, _, _, _, hread, decodeJsonDocument_some.mpr hloads, rfl, howns,
            .inl ⟨current, hlookup, hunchanged, rfl⟩⟩⟩
        · obtain ⟨document', hset⟩ := exists_setJson_of_open (open_of_lookupJson hwf.1 hlookup) value'
          refine ⟨_, planInstallJson_eq_ok.mpr ⟨hnone, _, _, _, hread, decodeJsonDocument_some.mpr hloads, rfl, howns,
            .inr ⟨fun current' hcurrent => ?_, document', hset, rfl⟩⟩⟩
          rwa [← Option.some.inj (hlookup.symm.trans hcurrent)]
  | textBlock id path marker content =>
    cases s with
    | file | jsonEntry => cases hidentity
    | textBlock id' path' marker' content' =>
      obtain rfl : path = path' := hpath
      obtain rfl : marker = marker' := by
        cases hidentity
        rfl
      obtain ⟨text, hfile, hslice⟩ := h
      constructor
      · rintro ⟨m, hm⟩
        obtain ⟨before, bounds, hread, hparses, hbounds, -⟩ := planInstallText_eq_ok.mp hm
        obtain rfl := eq_some_of_readBounded hfile hread
        refine ⟨fun text' htext => ?_, fun _ text' _ htext => ?_⟩
        · obtain rfl : text = text' := Option.some.inj (hfile.symm.trans htext)
          refine ⟨length_le_of_readBounded hfile hread, ?_⟩
          rintro _ heq
          cases heq
          exact ⟨bounds, hbounds⟩
        · obtain rfl : text = text' := Option.some.inj (hfile.symm.trans htext)
          exact hparses text rfl
      · rintro ⟨hreadable, hparses⟩
        obtain ⟨hle, hmarkers⟩ := hreadable text hfile
        obtain ⟨bounds, hbounds⟩ := hmarkers marker rfl
        obtain ⟨start, stop, rfl, hcontent⟩ := hslice bounds hbounds
        refine ⟨_, planInstallText_eq_ok.mpr ⟨_, _, readBounded_some hfile hle, ?_, hbounds,
          .inr ⟨start, stop, rfl, ⟨_, rfl, ?_⟩, rfl⟩⟩⟩
        · rintro raw heq
          cases heq
          exact hparses marker text rfl hfile
        · rw [Option.getD_some, hcontent]
          rfl

section

variable {id : String} {path : Path} {selector : List String} {value : Json F} {marker : Marker} {content : Bytes}

theorem uninstallState_file : uninstallState host (ownedEntry host (.file id path content) created parents) =
    uninstallFileState host (ownedEntry host (.file id path content) created parents) := rfl

theorem uninstallState_json :
    uninstallState host (ownedEntry host (.jsonEntry id path selector value) created parents) =
      uninstallJsonState host (ownedEntry host (.jsonEntry id path selector value) created parents) selector := rfl

theorem uninstallState_text :
    uninstallState host (ownedEntry host (.textBlock id path marker content) created parents) =
      uninstallTextState host (ownedEntry host (.textBlock id path marker content) created parents) marker := rfl

end

theorem exists_planUninstallEntry {entry : ManifestEntry} {before after : Option Bytes} {action : IntegrationAction}
    (hread : readBounded files entry.path maxConfigBytes = .ok before)
    (hstate : uninstallState host entry before = .ok (action, after)) :
    ∃ m, planUninstallEntry host files entry = .ok m :=
  ⟨_, planUninstallEntry_eq_ok.mpr ⟨before, action, after, hread, hstate, rfl⟩⟩

theorem planUninstallEntry_over (hwf : r.WellFormed) (h : Holds host files r) :
    (∃ m, planUninstallEntry host files (ownedEntry host r created parents) = .ok m) ↔
      Readable files (ownedEntry host r created parents) := by
  cases r with
  | file id path content =>
    replace h : files path = some content := h
    constructor
    · rintro ⟨m, hm⟩
      obtain ⟨before, _, _, hread, -⟩ := planUninstallEntry_eq_ok.mp hm
      refine fun text htext => ⟨length_le_of_readBounded htext hread, ?_⟩
      rintro marker heq
      cases heq
    · intro hreadable
      apply exists_planUninstallEntry (readBounded_some h (hreadable content h).1)
      rw [uninstallState_file]
      refine uninstallFileState_eq_ok.mpr ⟨?_, rfl, rfl⟩
      rintro current heq
      cases heq
      rfl
  | jsonEntry id path selector value =>
    obtain ⟨text, document, current, hfile, hloads, hlookup, hhash⟩ := h
    constructor
    · rintro ⟨m, hm⟩
      obtain ⟨before, _, _, hread, -⟩ := planUninstallEntry_eq_ok.mp hm
      refine fun text htext => ⟨length_le_of_readBounded htext hread, ?_⟩
      rintro marker heq
      cases heq
    · intro hreadable
      obtain ⟨k, ks, rfl⟩ := List.exists_cons_of_ne_nil hwf.1
      obtain ⟨removed, hremoved⟩ := exists_removeJson k ks document
      apply exists_planUninstallEntry (readBounded_some hfile (hreadable text hfile).1)
      rw [uninstallState_json]
      exact uninstallJsonState_eq_ok.mpr ⟨document, decodeJsonDocument_some.mpr hloads,
        .inr ⟨current, removed, by simp, hlookup, hhash, hremoved, rfl, rfl⟩⟩
  | textBlock id path marker content =>
    obtain ⟨text, hfile, hslice⟩ := h
    constructor
    · rintro ⟨m, hm⟩
      obtain ⟨before, action, after, hread, hstate, -⟩ := planUninstallEntry_eq_ok.mp hm
      obtain rfl := eq_some_of_readBounded hfile hread
      rw [uninstallState_text] at hstate
      obtain ⟨bounds, hbounds, -⟩ := uninstallTextState_eq_ok.mp hstate
      intro text' htext
      obtain rfl : text = text' := Option.some.inj (hfile.symm.trans htext)
      refine ⟨length_le_of_readBounded hfile hread, ?_⟩
      rintro _ heq
      cases heq
      exact ⟨bounds, hbounds⟩
    · intro hreadable
      obtain ⟨hle, hmarkers⟩ := hreadable text hfile
      obtain ⟨bounds, hbounds⟩ := hmarkers marker rfl
      obtain ⟨start, stop, rfl, hcontent⟩ := hslice bounds hbounds
      apply exists_planUninstallEntry (readBounded_some hfile hle)
      rw [uninstallState_text]
      refine uninstallTextState_eq_ok.mpr ⟨_, hbounds, .inr ⟨text, start, stop, rfl, rfl, ?_, rfl, rfl⟩⟩
      rw [hcontent]
      rfl

theorem removeTextBlock_length_le (content : Bytes) (start stop : ℕ) (h : start ≤ stop) :
    (removeTextBlock content (start, stop)).length ≤ content.length := by
  rw [removeTextBlock, List.length_append, List.length_take, List.length_drop]
  omega

theorem planInstallResource_after (hr : r.WellFormed) (h : Holds host files r) (hsame : r.SameIdentity s)
    {m : Mutation} (hm : planUninstallEntry host files (ownedEntry host r created parents) = .ok m)
    (hafter : files' r.path = m.after)
    (hjsonc : target = .opencode → (resourceIdentity s).1 = .jsonEntry → files' (jsoncSibling s.path) = none) :
    (∃ m', planInstallResource host files' target s none = .ok m') ↔
      LeavesRoom host files (ownedEntry host r created parents) := by
  obtain ⟨hid, hidentity, hpath⟩ := hsame
  obtain ⟨before, action, after, hread, hstate, rfl⟩ := planUninstallEntry_eq_ok.mp hm
  cases r with
  | file id path content =>
    cases s with
    | jsonEntry | textBlock => cases hidentity
    | file id' path' content' =>
      obtain rfl : path = path' := hpath
      rw [uninstallState_file] at hstate
      obtain ⟨-, rfl, -⟩ := uninstallFileState_eq_ok.mp hstate
      refine iff_of_true ⟨_, planInstallFile_eq_ok.mpr ⟨none, readBounded_none hafter, ?_, rfl⟩⟩ trivial
      rintro current heq
      cases heq
  | jsonEntry id path selector value =>
    cases s with
    | file | textBlock => cases hidentity
    | jsonEntry id' path' selector' value' =>
      obtain rfl : path = path' := hpath
      obtain rfl : selector = selector' := by
        cases hidentity
        rfl
      obtain ⟨text, document, current, hfile, hloads, hlookup, hhash⟩ := h
      obtain rfl := eq_some_of_readBounded hfile hread
      rw [uninstallState_json] at hstate
      obtain ⟨document', hdecode, hcase⟩ := uninstallJsonState_eq_ok.mp hstate
      obtain rfl : document = document' :=
        Option.some.inj (hloads.symm.trans (decodeJsonDocument_some.mp hdecode))
      have hdistinct := distinct_of_decode hdecode
      obtain ⟨hnone | hnone, -⟩ | ⟨current', removed, -, -, -, hremoved, -, rfl⟩ := hcase
      · rw [hlookup] at hnone
        cases hnone
      · cases hnone
      have hvacated : Vacated selector (pruneCreatedJsonParents parents removed) :=
        vacated_pruneCreatedJsonParents parents (distinct_removeJson hdistinct hremoved)
          ⟨open_removeJson (open_of_lookupJson hr.1 hlookup) hremoved, lookupJson_removeJson hdistinct hremoved⟩
      have hdistinct' := distinct_pruneCreatedJsonParents parents (distinct_removeJson hdistinct hremoved)
      have habsent : ¬ (target = .opencode ∧ (files' (jsoncSibling path)).isSome) := by
        rintro ⟨htarget, hsome⟩
        have hnone : files' (jsoncSibling path) = none := hjsonc htarget rfl
        rw [hnone] at hsome
        cases hsome
      have hplan {before : Option Bytes} {rest : Document F}
          (hread' : readBounded files' path maxConfigBytes = .ok before)
          (hrest : decodeJsonDocument host before = .ok rest) (hvacated : Vacated selector rest) :
          ∃ m', planInstallJson host files' target id' path selector value' none = .ok m' := by
        obtain ⟨missing, hmissing⟩ := exists_missingJsonParents_of_open hvacated.1
        obtain ⟨document', hset⟩ := exists_setJson_of_open hvacated.1 value'
        refine ⟨_, planInstallJson_eq_ok.mpr ⟨habsent, _, _, missing, hread', hrest, ?_, ?_,
          .inr ⟨?_, document', hset, rfl⟩⟩⟩
        · rw [createdParents, hmissing]
          rfl
        · rw [hvacated.2]
          simp
        · rw [hvacated.2]
          simp
      by_cases hempty : created = true ∧ pruneCreatedJsonParents parents removed = []
      · refine iff_of_true ?_ ?_
        · replace hafter : files' path = none := hafter.trans (if_pos hempty)
          rw [hempty.2] at hvacated
          exact hplan (readBounded_none hafter) rfl hvacated
        · intro text' document' removed' htext hdocument hremove
          obtain rfl : text = text' := Option.some.inj (hfile.symm.trans htext)
          obtain rfl : document = document' := Option.some.inj (hloads.symm.trans hdocument)
          obtain rfl : removed = removed' := Except.ok.inj (hremoved.symm.trans hremove)
          exact .inl hempty
      · replace hafter : files' path = some (host.pretty (pruneCreatedJsonParents parents removed)) :=
          hafter.trans (if_neg hempty)
        constructor
        · rintro ⟨m', hm'⟩ text' document' removed' htext hdocument hremove
          obtain rfl : text = text' := Option.some.inj (hfile.symm.trans htext)
          obtain rfl : document = document' := Option.some.inj (hloads.symm.trans hdocument)
          obtain rfl : removed = removed' := Except.ok.inj (hremoved.symm.trans hremove)
          obtain ⟨-, before, _, _, hread', -⟩ := planInstallJson_eq_ok.mp hm'
          exact .inr (length_le_of_readBounded hafter hread')
        · intro hroom
          have hle := (hroom text document removed hfile hloads hremoved).resolve_left hempty
          exact hplan (readBounded_some hafter hle) (decode_pretty hdistinct') hvacated
  | textBlock id path marker content =>
    cases s with
    | file | jsonEntry => cases hidentity
    | textBlock id' path' marker' content' =>
      obtain rfl : path = path' := hpath
      obtain rfl : marker = marker' := by
        cases hidentity
        rfl
      obtain ⟨text, hfile, hslice⟩ := h
      obtain rfl := eq_some_of_readBounded hfile hread
      rw [uninstallState_text] at hstate
      obtain ⟨bounds, hbounds, hcase⟩ := uninstallTextState_eq_ok.mp hstate
      obtain ⟨start, stop, rfl, -⟩ := hslice bounds hbounds
      obtain ⟨hnone, -⟩ | ⟨content', start', stop', heq, hbounds', -, -, rfl⟩ := hcase
      · cases hnone
      cases heq
      cases hbounds'
      by_cases hblank : (created && isBlank (removeTextBlock text (start, stop))) = true
      · refine iff_of_true ?_ ?_
        · replace hafter : files' path = none := hafter.trans (if_pos hblank)
          refine ⟨_, planInstallText_eq_ok.mpr ⟨none, none, readBounded_none hafter, ?_, ?_,
            .inl ⟨rfl, rfl, rfl⟩⟩⟩
          · rintro raw heq
            cases heq
          · exact markerBounds_eq_none.mpr (Unmarked.nil marker)
        · intro text' start' stop' htext hmarkers
          obtain rfl : text = text' := Option.some.inj (hfile.symm.trans htext)
          cases hbounds.symm.trans hmarkers
          exact .inl hblank
      · replace hafter : files' path = some (removeTextBlock text (start, stop)) := hafter.trans (if_neg hblank)
        constructor
        · rintro ⟨m', hm'⟩ text' start' stop' htext hmarkers
          obtain rfl : text = text' := Option.some.inj (hfile.symm.trans htext)
          cases hbounds.symm.trans hmarkers
          obtain ⟨before, bounds, hread', hparses, hmarked, hcase⟩ := planInstallText_eq_ok.mp hm'
          obtain rfl := eq_some_of_readBounded hafter hread'
          obtain ⟨rfl, hserver, -⟩ | ⟨_, _, -, ⟨_, howned, -⟩, -⟩ := hcase
          · exact .inr ⟨hparses _ rfl, markerBounds_eq_none.mp hmarked, hserver⟩
          · cases howned
        · intro hroom
          obtain ⟨hparses, hunmarked, hserver⟩ := (hroom text start stop hfile hbounds).resolve_left hblank
          have hle : (removeTextBlock text (start, stop)).length ≤ maxConfigBytes :=
            (removeTextBlock_length_le text start stop (markerBounds_le hbounds)).trans
              (length_le_of_readBounded hfile hread)
          refine ⟨_, planInstallText_eq_ok.mpr ⟨_, none, readBounded_some hafter hle, ?_, ?_, .inl ⟨rfl, hserver, rfl⟩⟩⟩
          · rintro raw heq
            cases heq
            exact hparses
          · exact markerBounds_eq_none.mpr hunmarked

def manifestAt (host : Installation F) (files : Files) (request : IntegrationRequest) (target : IntegrationTarget) :
    Option InstallManifest :=
  (files (manifestPath host request target)).bind host.readManifest

def EveryEntry (host : Installation F) (files : Files) (request : IntegrationRequest) (target : IntegrationTarget)
    (P : ManifestEntry → Prop) : Prop :=
  ∀ m, manifestAt host files request target = some m → ∀ entry ∈ m.entries, P entry

def ReadableTarget (host : Installation F) (files : Files) (request : IntegrationRequest)
    (target : IntegrationTarget) : Prop :=
  (∀ content, files (manifestPath host request target) = some content → content.length ≤ maxManifestBytes) ∧
    EveryEntry host files request target (Readable files)

theorem ownedEntry_matches_iff : (ownedEntry host r created parents).Matches s ↔ r.SameIdentity s := by
  simp only [ManifestEntry.Matches, ownedEntry, Resource.SameIdentity, Prod.ext_iff]
  tauto

theorem lists_iff_sameInventory {m : InstallManifest} {rs ss : List (Resource F)} (htarget : m.target = target)
    (hscope : m.scope = request.scope) (h : Records host rs m.entries) :
    Lists m request.scope target ss ↔ SameInventory rs ss := by
  have hentry {r : Resource F} (hr : r ∈ rs) : ∃ entry ∈ m.entries, ∀ s : Resource F,
      entry.Matches s ↔ r.SameIdentity s := by
    obtain ⟨entry, hmem, created, parents, rfl⟩ := exists_mem_of_forall₂ h.flip hr
    exact ⟨_, hmem, fun s => ownedEntry_matches_iff⟩
  have hresource {entry : ManifestEntry} (hentry : entry ∈ m.entries) : ∃ r ∈ rs, ∀ s : Resource F,
      entry.Matches s ↔ r.SameIdentity s := by
    obtain ⟨r, hmem, created, parents, rfl⟩ := exists_mem_of_forall₂ h hentry
    exact ⟨r, hmem, fun s => ownedEntry_matches_iff⟩
  constructor
  · rintro ⟨-, -, hentries, hresources⟩
    constructor
    · intro r hr
      obtain ⟨entry, hmem, hiff⟩ := hentry hr
      obtain ⟨s, hs, hmatches⟩ := hentries entry hmem
      exact ⟨s, hs, (hiff s).mp hmatches⟩
    · intro s hs
      obtain ⟨entry, hmem, hmatches⟩ := hresources s hs
      obtain ⟨r, hr, hiff⟩ := hresource hmem
      exact ⟨r, hr, (hiff s).mp hmatches⟩
  · rintro ⟨hleft, hright⟩
    refine ⟨htarget, hscope, fun entry hmem => ?_, fun s hs => ?_⟩
    · obtain ⟨r, hr, hiff⟩ := hresource hmem
      obtain ⟨s, hs, hsame⟩ := hleft r hr
      exact ⟨s, hs, (hiff s).mpr hsame⟩
    · obtain ⟨r, hr, hsame⟩ := hright s hs
      obtain ⟨entry, hmem, hiff⟩ := hentry hr
      exact ⟨entry, hmem, (hiff s).mpr hsame⟩

theorem Records.valid {m : InstallManifest} (hversion : m.assetVersion = assets.assetVersion)
    (hresources : validatedResources host target assets request =
      .ok (render host target assets request.scope request.root))
    (h : Records host (render host target assets request.scope request.root) m.entries) : m.Valid := by
  have hids : m.entries.map ManifestEntry.resourceId =
      (render host target assets request.scope request.root).map Resource.resourceId := by
    refine map_eq_of_forall₂ h ?_
    rintro r _ ⟨created, parents, rfl⟩
    rfl
  refine ⟨hversion ▸ assets.versioned, ?_, fun entry hentry => ?_⟩
  · rw [InstallManifest.uniqueResources, hids]
    exact resourceIds_nodup hresources
  · obtain ⟨r, hr, created, parents, rfl⟩ := exists_mem_of_forall₂ h hentry
    exact ⟨resourceId_ne_empty hr, contentHash_digest r⟩

theorem Settled.manifest (h : Settled host files request assets) (htarget : target ∈ request.targets) :
    ∃ m, manifestAt host files request target = some m ∧ m.uniqueResources ∧
      Records host (render host target assets request.scope request.root) m.entries ∧
      ∀ (ss : List (Resource F)) (manifest : Option (Bytes × InstallManifest)),
        Usable host files request target ss manifest ↔
          (∀ content, files (manifestPath host request target) = some content → content.length ≤ maxManifestBytes) ∧
            manifest = some (host.manifestBytes m, m) ∧
            SameInventory (render host target assets request.scope request.root) ss := by
  obtain ⟨m, hfile, hversion, hm, hscope, hrecords⟩ := h.manifests target htarget
  have hvalid : m.Valid := hrecords.valid hversion (h.resources target htarget)
  have hunique := hvalid.2.1
  have hread := host.readManifest_bytes m hvalid
  refine ⟨m, by rw [manifestAt, hfile, Option.bind_some, hread], hunique, hrecords, fun ss manifest => ?_⟩
  rw [usable_iff_of_file hfile hread, validateManifest_eq_none hunique, lists_iff_sameInventory hm hscope hrecords]
  constructor
  · rintro ⟨rfl, hle, hsame⟩
    refine ⟨?_, rfl, hsame⟩
    rintro content hcontent
    rwa [← Option.some.inj (hfile.symm.trans hcontent)]
  · rintro ⟨hle, rfl, hsame⟩
    exact ⟨rfl, hle _ hfile, hsame⟩

def Applicable (host : Installation F) (operation : IntegrationOperation) (files : Files)
    (request : IntegrationRequest) (assets : AssetBundle) : Prop :=
  ∃ prepared, prepare host operation files request assets = .ok prepared ∧ canApply prepared = true

theorem applicable_iff {operation : IntegrationOperation} : Applicable host operation files request assets ↔
    ∀ target ∈ request.targets, ∃ t, prepareTarget host operation files request assets target = .ok t ∧
      t.conflicts = [] := by
  simp only [Applicable, prepare_clean, exists_forall₂_iff]

def Projects (host : Installation F) (request : IntegrationRequest) (assets : AssetBundle) : Prop :=
  ∀ target ∈ request.targets, ∃ resources, validatedResources host target assets request = .ok resources

def SameProjection (host : Installation F) (request : IntegrationRequest) (assets assets' : AssetBundle)
    (target : IntegrationTarget) : Prop :=
  SameInventory (render host target assets request.scope request.root)
    (render host target assets' request.scope request.root)

theorem entryOf_ownedEntry {m : InstallManifest} (hunique : m.uniqueResources)
    (hmem : ownedEntry host r created parents ∈ m.entries) (hsame : r.SameIdentity s) :
    entryOf m.entries s.resourceId = some (ownedEntry host r created parents) :=
  (entryOf_eq_some hunique).mpr ⟨hmem, hsame.1⟩

theorem Settled.jsonc_none (h : Settled host files request assets) (htarget : target ∈ request.targets)
    (hs : s ∈ render host target assets' request.scope request.root) (hopencode : target = .opencode)
    (hjson : (resourceIdentity s).1 = .jsonEntry) : files (jsoncSibling s.path) = none := by
  subst hopencode
  rcases mem_render hs with ⟨id, path, content, rfl, -⟩ | rfl
  · cases hjson
  · rw [mcpProjection_path]
    exact h.jsonc htarget

theorem install_over_iff (h : Settled host files request assets) (htarget : target ∈ request.targets)
    (hvalid : ∃ resources, validatedResources host target assets' request = .ok resources) :
    (∃ t, prepareTarget host .install files request assets' target = .ok t ∧ t.conflicts = []) ↔
      (SameProjection host request assets assets' target ∧ ReadableTarget host files request target) ∧
        EveryEntry host files request target (Parses host files) := by
  obtain ⟨resources, hresources⟩ := hvalid
  obtain rfl := validatedResources_eq hresources
  obtain ⟨m, hm, hunique, hrecords, husable⟩ := h.manifest htarget
  have hover {r s : Resource F} {created : Bool} {parents : List (List String)}
      (hr : r ∈ render host target assets request.scope request.root)
      (hs : s ∈ render host target assets' request.scope request.root) (hsame : r.SameIdentity s)
      (hmem : ownedEntry host r created parents ∈ m.entries) :
      (∃ mutation, planInstallResource host files target s (entryOf m.entries s.resourceId) = .ok mutation) ↔
        Readable files (ownedEntry host r created parents) ∧
          Parses host files (ownedEntry host r created parents) := by
    rw [entryOf_ownedEntry hunique hmem hsame]
    exact planInstallResource_over (render_wellFormed hs) (h.holds target htarget r hr) hsame
      (h.jsonc_none htarget hs)
  constructor
  · rintro ⟨t, ht⟩
    obtain ⟨resources', manifest, mutations, hresources', hmanifest, hplans, -⟩ := prepareInstallTarget_clean.mp ht
    obtain rfl := validatedResources_eq hresources'
    obtain ⟨hle, rfl, hsame⟩ := (husable _ _).mp hmanifest
    have hentry {entry : ManifestEntry} (hmem : entry ∈ m.entries) :
        Readable files entry ∧ Parses host files entry := by
      obtain ⟨r, hr, created, parents, rfl⟩ := exists_mem_of_forall₂ hrecords hmem
      obtain ⟨s, hs, hrs⟩ := hsame.1 r hr
      obtain ⟨mutation, -, hplan⟩ := exists_mem_of_forall₂ hplans.flip hs
      exact (hover hr hs hrs hmem).mp ⟨mutation, hplan⟩
    refine ⟨⟨hsame, hle, fun m' hm' entry hmem => ?_⟩, fun m' hm' entry hmem => ?_⟩
    · cases hm.symm.trans hm'
      exact (hentry hmem).1
    · cases hm.symm.trans hm'
      exact (hentry hmem).2
  · rintro ⟨⟨hsame, hle, hreadable⟩, hparses⟩
    have hplan : ∀ s ∈ render host target assets' request.scope request.root, ∃ mutation,
        planInstallResource host files target s (entryOf m.entries s.resourceId) = .ok mutation := by
      intro s hs
      obtain ⟨r, hr, hrs⟩ := hsame.2 s hs
      obtain ⟨entry, hmem, created, parents, rfl⟩ := exists_mem_of_forall₂ hrecords.flip hr
      exact (hover hr hs hrs hmem).mpr ⟨hreadable m hm _ hmem, hparses m hm _ hmem⟩
    obtain ⟨mutations, hmutations⟩ := exists_forall₂_iff.mpr hplan
    exact ⟨_, prepareInstallTarget_clean.mpr ⟨_, _, mutations, hresources, (husable _ _).mpr ⟨hle, rfl, hsame⟩,
      hmutations, rfl⟩⟩

theorem uninstall_over_iff (h : Settled host files request assets) (htarget : target ∈ request.targets)
    (hvalid : ∃ resources, validatedResources host target assets' request = .ok resources) :
    (∃ t, prepareTarget host .uninstall files request assets' target = .ok t ∧ t.conflicts = []) ↔
      SameProjection host request assets assets' target ∧ ReadableTarget host files request target := by
  obtain ⟨resources, hresources⟩ := hvalid
  obtain rfl := validatedResources_eq hresources
  obtain ⟨m, hm, -, hrecords, husable⟩ := h.manifest htarget
  have hover {entry : ManifestEntry} (hmem : entry ∈ m.entries) :
      (∃ mutation, planUninstallEntry host files entry = .ok mutation) ↔ Readable files entry := by
    obtain ⟨r, hr, created, parents, rfl⟩ := exists_mem_of_forall₂ hrecords hmem
    exact planUninstallEntry_over (render_wellFormed hr) (h.holds target htarget r hr)
  constructor
  · rintro ⟨t, ht⟩
    obtain ⟨resources', manifest, mutations, hresources', hmanifest, hplans, -⟩ := prepareUninstallTarget_clean.mp ht
    obtain rfl := validatedResources_eq hresources'
    obtain ⟨hle, rfl, hsame⟩ := (husable _ _).mp hmanifest
    refine ⟨hsame, hle, fun m' hm' entry hmem => ?_⟩
    cases hm.symm.trans hm'
    obtain ⟨mutation, -, hplan⟩ := exists_mem_of_forall₂ hplans.flip hmem
    exact (hover hmem).mp ⟨mutation, hplan⟩
  · rintro ⟨hsame, hle, hreadable⟩
    obtain ⟨mutations, hmutations⟩ := exists_forall₂_iff.mpr fun entry hmem =>
      (hover hmem).mpr (hreadable m hm entry hmem)
    exact ⟨_, prepareUninstallTarget_clean.mpr ⟨_, _, mutations, hresources, (husable _ _).mpr ⟨hle, rfl, hsame⟩,
      hmutations, rfl⟩⟩

theorem install_after_iff (h : Settled host files request assets) {prepared : List PreparedTarget}
    (hplans : List.Forall₂ (fun target t => prepareTarget host .uninstall files request assets' target = .ok t ∧
      t.conflicts = []) request.targets prepared)
    (hfinal : CarriedOut files prepared files') (htarget : target ∈ request.targets) :
    (∃ t, prepareTarget host .install files' request assets' target = .ok t ∧ t.conflicts = []) ↔
      EveryEntry host files request target (LeavesRoom host files) := by
  obtain ⟨m, hm, -, hrecords, husable⟩ := h.manifest htarget
  obtain ⟨t, htp, ht⟩ := exists_mem_of_forall₂ hplans.flip htarget
  obtain ⟨resources, manifest, mutations, hresources, hmanifest, hmutations, rfl⟩ := prepareUninstallTarget_clean.mp ht
  obtain rfl := validatedResources_eq hresources
  obtain ⟨-, rfl, hsame⟩ := (husable _ _).mp hmanifest
  have hgone : files' (manifestPath host request target) = none := hfinal.manifests _ htp
  have hjsonc (hopencode : target = .opencode) :
      files' (jsoncSibling (hostLayout target request.scope request.root).configPath) = none := by
    subst hopencode
    rw [hfinal.others]
    · exact h.jsonc htarget
    · exact fun t ht => jsoncSibling_ne_of_fits ((targets_of_prepare hplans).2 t ht)
  have hafter {r s : Resource F} {created : Bool} {parents : List (List String)}
      (hr : r ∈ render host target assets request.scope request.root)
      (hs : s ∈ render host target assets' request.scope request.root) (hrs : r.SameIdentity s)
      (hmem : ownedEntry host r created parents ∈ m.entries) :
      (∃ mutation, planInstallResource host files' target s none = .ok mutation) ↔
        LeavesRoom host files (ownedEntry host r created parents) := by
    obtain ⟨mutation, hmutation, hplan⟩ := exists_mem_of_forall₂ hmutations.flip hmem
    have hpath : mutation.path = r.path := by
      obtain ⟨_, _, _, -, -, rfl⟩ := planUninstallEntry_eq_ok.mp hplan
      rfl
    refine planInstallResource_after (render_wellFormed hr) (h.holds target htarget r hr) hrs hplan
      (hpath ▸ hfinal.mutations _ htp mutation hmutation) fun hopencode hjson => ?_
    rcases mem_render hs with ⟨id, path, content, rfl, -⟩ | rfl
    · cases hjson
    · rw [mcpProjection_path]
      exact hjsonc hopencode
  have husable' (manifest : Option (Bytes × InstallManifest)) : Usable host files' request target
      (render host target assets' request.scope request.root) manifest ↔ manifest = none := by
    rw [Usable, readInstallManifest_eq_ok, readBounded_none hgone]
    constructor
    · rintro ⟨⟨hnone, -⟩, -⟩
      exact Option.map_eq_none_iff.mp (Except.ok.inj hnone).symm
    · rintro rfl
      simp
  constructor
  · rintro ⟨t, ht⟩ m' hm' entry hmem
    cases hm.symm.trans hm'
    obtain ⟨resources', manifest, mutations', hresources', hmanifest', hplans', -⟩ := prepareInstallTarget_clean.mp ht
    obtain rfl := validatedResources_eq hresources'
    obtain rfl := (husable' _).mp hmanifest'
    obtain ⟨r, hr, created, parents, rfl⟩ := exists_mem_of_forall₂ hrecords hmem
    obtain ⟨s, hs, hrs⟩ := hsame.1 r hr
    obtain ⟨mutation, -, hplan⟩ := exists_mem_of_forall₂ hplans'.flip hs
    exact (hafter hr hs hrs hmem).mp ⟨mutation, hplan⟩
  · intro hroom
    have hplan : ∀ s ∈ render host target assets' request.scope request.root, ∃ mutation,
        planInstallResource host files' target s none = .ok mutation := by
      intro s hs
      obtain ⟨r, hr, hrs⟩ := hsame.2 s hs
      obtain ⟨entry, hmem, created, parents, rfl⟩ := exists_mem_of_forall₂ hrecords.flip hr
      exact (hafter hr hs hrs hmem).mpr (hroom m hm _ hmem)
    obtain ⟨mutations', hmutations'⟩ := exists_forall₂_iff.mpr hplan
    exact ⟨_, prepareInstallTarget_clean.mpr ⟨_, none, mutations', hresources, (husable' _).mpr rfl, hmutations', rfl⟩⟩

/-- With the bundle an install can apply, or an uninstall can and then an install. -/
def CanProceed (host : Installation F) (request : IntegrationRequest) (assets : AssetBundle) (files : Files) : Prop :=
  Applicable host .install files request assets ∨
    ∃ n changed d, run host .uninstall request assets { files } = (.completed (.applied n changed), d) ∧
      Applicable host .install d.files request assets

theorem settled_of_run {n : ℕ} {changed : Bool} {d : Disk}
    (h : run host .install request assets { files } = (.completed (.applied n changed), d)) :
    Settled host d.files request assets := by
  obtain ⟨prepared, hprepare, hcan⟩ := prepare_of_run_completed h
  have hplans := prepare_clean.mp ⟨hprepare, hcan⟩
  obtain ⟨n', d', hrun, hfinal⟩ := run_carriedOut hplans
  obtain ⟨-, rfl⟩ := Prod.ext_iff.mp (h.symm.trans hrun)
  exact .of_plans hplans hfinal

/-- After an install of one bundle, the next bundle gets in exactly when it projects the same resources, what was
written can be read again, and the configurations parse or leave room after an uninstall. -/
theorem canProceed_iff {n : ℕ} {changed : Bool} {d : Disk}
    (hrun : run host .install request assets { files } = (.completed (.applied n changed), d))
    (hvalid : Projects host request assets') :
    CanProceed host request assets' d.files ↔
      (∀ target ∈ request.targets, SameProjection host request assets assets' target ∧
        ReadableTarget host d.files request target) ∧
      ((∀ target ∈ request.targets, EveryEntry host d.files request target (Parses host d.files)) ∨
        ∀ target ∈ request.targets, EveryEntry host d.files request target (LeavesRoom host d.files)) := by
  have h := settled_of_run hrun
  have hinstall : Applicable host .install d.files request assets' ↔
      (∀ target ∈ request.targets, SameProjection host request assets assets' target ∧
        ReadableTarget host d.files request target) ∧
      ∀ target ∈ request.targets, EveryEntry host d.files request target (Parses host d.files) := by
    rw [applicable_iff, ← forall₂_and]
    exact forall₂_congr fun target htarget => install_over_iff h htarget (hvalid target htarget)
  have huninstall : Applicable host .uninstall d.files request assets' ↔
      ∀ target ∈ request.targets, SameProjection host request assets assets' target ∧
        ReadableTarget host d.files request target := by
    rw [applicable_iff]
    exact forall₂_congr fun target htarget => uninstall_over_iff h htarget (hvalid target htarget)
  have hafter {prepared : List PreparedTarget} {files' : Files}
      (hplans : List.Forall₂ (fun target t => prepareTarget host .uninstall d.files request assets' target = .ok t ∧
        t.conflicts = []) request.targets prepared) (hfinal : CarriedOut d.files prepared files') :
      Applicable host .install files' request assets' ↔
        ∀ target ∈ request.targets, EveryEntry host d.files request target (LeavesRoom host d.files) := by
    rw [applicable_iff]
    exact forall₂_congr fun target htarget => install_after_iff h hplans hfinal htarget
  constructor
  · rintro (hcan | ⟨n', changed', d', hrun', hcan⟩)
    · exact ⟨(hinstall.mp hcan).1, .inl (hinstall.mp hcan).2⟩
    · have happlicable := prepare_of_run_completed hrun'
      obtain ⟨prepared, hprepare⟩ := happlicable
      have hplans := prepare_clean.mp hprepare
      obtain ⟨_, d'', hrun'', hfinal⟩ := run_carriedOut hplans
      obtain ⟨-, rfl⟩ := Prod.ext_iff.mp (hrun'.symm.trans hrun'')
      exact ⟨huninstall.mp ⟨prepared, hprepare⟩, .inr ((hafter hplans hfinal).mp hcan)⟩
  · rintro ⟨hsame, hparses | hroom⟩
    · exact .inl (hinstall.mpr ⟨hsame, hparses⟩)
    · obtain ⟨prepared, hprepare⟩ := huninstall.mpr hsame
      have hplans := prepare_clean.mp hprepare
      obtain ⟨n', d', hrun', hfinal⟩ := run_carriedOut hplans
      exact .inr ⟨n', _, d', hrun', (hafter hplans hfinal).mpr hroom⟩

theorem SameInventory.refl (rs : List (Resource F)) : SameInventory rs rs :=
  ⟨fun r hr => ⟨r, hr, rfl, rfl, rfl⟩, fun r hr => ⟨r, hr, rfl, rfl, rfl⟩⟩

theorem run_sample : ∃ n changed d,
    run sampleHost .install sampleRequest serverBundle { files := sampleFiles (utf8 "a = 1\n") } =
      (.completed (.applied n changed), d) ∧
    Installed sampleHost (sampleFiles (utf8 "a = 1\n")) sampleRequest serverBundle d.files := by
  obtain ⟨hprepare, hcan⟩ := prepare_sample (utf8 "a = 1\n") (by decide +kernel)
    (markerBounds_eq_none.mp (by decide +kernel))
  exact run_install_fresh (fresh_sample _) hprepare hcan

theorem readable_sample {n : ℕ} {changed : Bool} {d : Disk}
    (hrun : run sampleHost .install sampleRequest serverBundle { files := sampleFiles (utf8 "a = 1\n") } =
      (.completed (.applied n changed), d))
    (h : Installed sampleHost (sampleFiles (utf8 "a = 1\n")) sampleRequest serverBundle d.files) :
    ∀ target ∈ sampleRequest.targets, ReadableTarget sampleHost d.files sampleRequest target ∧
      EveryEntry sampleHost d.files sampleRequest target (Parses sampleHost d.files) := by
  have hconfig : d.files sampleConfig =
      some (appendTextBlock (some (utf8 "a = 1\n")) (renderBlock codexMarker sampleBody)) := by
    have hcontent := h.contents .codex (List.mem_singleton_self _) sampleResource (by rw [render_sample]; simp)
    simpa [freshContent, sampleResource, sampleFiles, Resource.path] using hcontent
  have hentry {entry : ManifestEntry} {m : InstallManifest}
      (hm : manifestAt sampleHost d.files sampleRequest .codex = some m) (hmem : entry ∈ m.entries) :
      entry.path = sampleConfig ∧ entry.selector = .marker codexMarker := by
    obtain ⟨m', hm', -, hrecords, -⟩ := (settled_of_run hrun).manifest (List.mem_singleton_self IntegrationTarget.codex)
    cases hm.symm.trans hm'
    obtain ⟨r, hr, created, parents, rfl⟩ := exists_mem_of_forall₂ hrecords hmem
    rw [render_sample, List.mem_singleton] at hr
    subst hr
    exact ⟨rfl, rfl⟩
  intro target htarget
  obtain rfl : target = .codex := List.mem_singleton.mp htarget
  refine ⟨⟨fun content hcontent => ?_, fun m hm entry hmem text htext => ?_⟩, fun m hm entry hmem marker text _ _ => ?_⟩
  · have hmanifest := h.manifests .codex htarget
    rw [freshManifest_sample, manifestBytes_sample] at hmanifest
    obtain rfl : sampleManifestText false = content := Option.some.inj (hmanifest.symm.trans hcontent)
    exact length_sampleManifestText
  · obtain ⟨hpath, hselector⟩ := hentry hm hmem
    rw [hpath, hconfig] at htext
    obtain rfl := Option.some.inj htext
    refine ⟨by decide +kernel, fun marker hmarker => ?_⟩
    obtain rfl : codexMarker = marker := by simpa [hselector] using hmarker
    exact ⟨some (7, (appendTextBlock (some (utf8 "a = 1\n")) (renderBlock codexMarker sampleBody)).length),
      by decide +kernel⟩
  · show (sampleServers text).isSome = true
    rw [sampleServers]
    split <;> rfl

theorem canProceed_sample : ∃ n changed d,
    run sampleHost .install sampleRequest serverBundle { files := sampleFiles (utf8 "a = 1\n") } =
      (.completed (.applied n changed), d) ∧ CanProceed sampleHost sampleRequest serverBundle d.files := by
  obtain ⟨n, changed, d, hrun, h⟩ := run_sample
  have hreadable := readable_sample hrun h
  refine ⟨n, changed, d, hrun, (canProceed_iff hrun ?_).mpr ⟨fun target htarget => ⟨.refl _, ?_⟩, .inl ?_⟩⟩
  · exact fun target htarget => ⟨_, h.resources target htarget⟩
  · exact (hreadable target htarget).1
  · exact fun target htarget => (hreadable target htarget).2

def skillBundle : AssetBundle where
  assetVersion := "1.1.0"
  versioned := by decide
  skills := [⟨"moirai", utf8 "# Moirai\n", []⟩]
  roles := []
  skillIds := List.nodup_singleton _
  roleIds := List.nodup_nil
  hostNames := List.nodup_nil
  names := by decide

/-- A bundle that adds a skill can neither be installed nor uninstalled over the installed one. -/
theorem added_skill_stuck : ∃ n changed d,
    run sampleHost .install sampleRequest serverBundle { files := sampleFiles (utf8 "a = 1\n") } =
      (.completed (.applied n changed), d) ∧ Projects sampleHost sampleRequest skillBundle ∧
    ¬ CanProceed sampleHost sampleRequest skillBundle d.files := by
  obtain ⟨n, changed, d, hrun, -⟩ := run_sample
  have hvalid : ∃ resources, validatedResources sampleHost .codex skillBundle sampleRequest = .ok resources :=
    ⟨_, rfl⟩
  have hsettled := settled_of_run hrun
  have hcodex : IntegrationTarget.codex ∈ sampleRequest.targets := List.mem_singleton_self _
  have hdiffer : ¬ SameProjection sampleHost sampleRequest serverBundle skillBundle .codex := by
    rintro ⟨-, hright⟩
    obtain ⟨r, hr, hid, -⟩ := hright (.file "skill:moirai:SKILL.md" _ _) (List.mem_cons_self)
    rw [render_sample, List.mem_singleton] at hr
    subst hr
    revert hid
    decide
  refine ⟨n, changed, d, hrun, ?_, ?_⟩
  · intro target htarget
    obtain rfl : target = .codex := List.mem_singleton.mp htarget
    exact hvalid
  · rintro (hinstall | ⟨_, _, d', huninstall, -⟩)
    · exact hdiffer ((install_over_iff hsettled hcodex hvalid).mp (applicable_iff.mp hinstall _ hcodex)).1.1
    · have happlicable := applicable_iff.mp (prepare_of_run_completed huninstall) _ hcodex
      exact hdiffer ((uninstall_over_iff hsettled hcodex hvalid).mp happlicable).1

end GraphSkillRuntime.Installer
