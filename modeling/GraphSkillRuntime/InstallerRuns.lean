import GraphSkillRuntime.InstallerFrames

/-! The installer over whole runs: operations with any bundles and any failures, and others who write at any time. -/

namespace GraphSkillRuntime.Installer

open OrderedDict JsonText

def Disk.foreign (d : Disk) : List (Path × Option Bytes) :=
  (d.writes.filter fun w => w.author = .other).map fun w => (w.path, w.content)

section Sessions

variable {F : Type} (host : Installation F)

/-- What happens to the files: an edit of somebody else's, or an operation, with what others write and which
accesses fail while it is under way. -/
inductive Event where
  | edit (path : Path) (content : Option Bytes)
  | operation (operation : IntegrationOperation) (request : IntegrationRequest) (assets : AssetBundle)
      (script : List Moment)

structure Session where
  files : Files
  others : List (Path × Option Bytes)
  installs : List (IntegrationRequest × AssetBundle)

def Session.step (s : Session) : Event → Session
  | .edit path content =>
    { s with files := Function.update s.files path content, others := (path, content) :: s.others }
  | .operation operation request assets script =>
    let d := (run host operation request assets { files := s.files, script }).2
    { files := d.files
      others := d.foreign ++ s.others
      installs := if operation = .install then (request, assets) :: s.installs else s.installs }

inductive Reachable (initial : Files) : Session → Prop
  | start : Reachable initial ⟨initial, [], []⟩
  | step {s : Session} (h : Reachable initial s) (e : Event) : Reachable initial (s.step host e)

def IsManifest (path : Path) : Prop := ∃ request target, path = manifestPath host request target

def Session.Issued (s : Session) (path : Path) (text : Bytes) : Prop :=
  ∃ i ∈ s.installs, ∃ target ∈ i.1.targets, ∃ m : InstallManifest, path = manifestPath host i.1 target ∧
    text = host.manifestBytes m ∧ m.Valid ∧ Records host (render host target i.2 i.1.scope i.1.root) m.entries

def Session.PutByOthers (s : Session) (initial : Files) (path : Path) (text : Bytes) : Prop :=
  initial path = some text ∨ (path, some text) ∈ s.others

def Session.Untampered (s : Session) (initial : Files) : Prop :=
  ∀ path, IsManifest host path → ∀ text, s.PutByOthers initial path text → host.readManifest text = none

def hashAt (files : Files) (path : Path) : Selector → Option Bytes
  | .whole => (files path).map host.sha256
  | .keys ks => do
    let document ← host.loads (← files path)
    let value ← lookupJson document ks
    return host.sha256 (host.canonical value)
  | .marker m => do
    let text ← files path
    match markerBounds text m with
    | .ok (some (start, stop)) => some (host.sha256 ((text.take stop).drop start))
    | _ => none

def recordedParents (files : Files) (request : IntegrationRequest) (target : IntegrationTarget) (r : Resource F) :
    List (List String) :=
  (((manifestAt host files request target).bind fun m => entryOf m.entries r.resourceId).map
    ManifestEntry.createdJsonParents).getD []

end Sessions

section Writes

variable {F : Type} {host : Installation F} {files : Files} {operation : IntegrationOperation}
  {request : IntegrationRequest} {assets : AssetBundle} {prepared : List PreparedTarget} {script : List Moment}
  {outcome : Outcome} {d : Disk} {path : Path} {content : Option Bytes}

theorem Disk.Replays.files_cases (h : d.Replays files) (path : Path) :
    d.files path = files path ∨ (path, d.files path) ∈ d.foreign ∨ d.files path ∈ d.installerWrites path := by
  have hfile := h path
  cases hlast : (d.writes.filter fun w => w.path = path).getLast? with
  | none =>
    rw [hlast] at hfile
    exact .inl hfile
  | some w =>
    rw [hlast] at hfile
    obtain ⟨hw, hpath⟩ := List.mem_filter.mp (List.mem_of_getLast? hlast)
    obtain rfl : w.path = path := by simpa using hpath
    rw [hfile]
    cases hauthor : w.author with
    | other => exact .inr (.inl (List.mem_map.mpr ⟨w, List.mem_filter.mpr ⟨hw, by simpa using hauthor⟩, rfl⟩))
    | installer =>
      exact .inr (.inr (List.mem_map.mpr ⟨w, List.mem_filter.mpr ⟨hw, by simpa using hauthor⟩, rfl⟩))

theorem apply_writes {result : ApplyResult} (h : apply prepared { files, script } = (result, d)) :
    d.Replays files ∧ ∀ path, ∀ content ∈ d.installerWrites path,
      ∃ c ∈ changes prepared, c.path = path ∧ (content = c.after ∨ content = c.before) := by
  rw [apply] at h
  rcases happly : applySteps (steps prepared) [] { files, script } with ⟨⟨made, touched⟩, d₁⟩
  obtain ⟨htouched, -, more, hmore, hinit⟩ := applySteps_spec (touched_nil files script) happly
  obtain rfl : touched = more := hmore
  have mem {c : Change} {path : Path} (hc : c ∈ changesAt touched path) : c ∈ changes prepared ∧ c.path = path := by
    obtain ⟨hc, hpath⟩ := List.mem_filter.mp hc
    exact ⟨hinit.subset hc, by simpa using hpath⟩
  rw [happly] at h
  cases made with
  | ok =>
    obtain ⟨-, rfl⟩ := Prod.mk.inj h
    refine ⟨htouched.replays, fun path content hcontent => ?_⟩
    rw [htouched.writes] at hcontent
    obtain ⟨c, hc, rfl⟩ := List.mem_map.mp hcontent
    exact ⟨c, (mem hc).1, (mem hc).2, .inl rfl⟩
  | error e =>
    rcases hrestore : restore touched.reverse d₁ with ⟨failures, d₂⟩
    simp only [hrestore] at h
    obtain ⟨-, rfl⟩ := Prod.mk.inj h
    obtain ⟨hadvances, hpaths⟩ := restore_spec files hrestore
    refine ⟨hadvances.replays htouched.replays, fun path content hcontent => ?_⟩
    obtain ⟨restored, hsub, hwrites, -⟩ := hpaths path
    rw [hwrites, htouched.writes, List.mem_append] at hcontent
    rcases hcontent with hcontent | hcontent
    · obtain ⟨c, hc, rfl⟩ := List.mem_map.mp hcontent
      exact ⟨c, (mem hc).1, (mem hc).2, .inl rfl⟩
    · obtain ⟨c, hc, rfl⟩ := List.mem_map.mp hcontent
      have hc' : c ∈ changesAt touched path := by
        have := hsub.subset hc
        rwa [changesAt_reverse, List.mem_reverse] at this
      exact ⟨c, (mem hc').1, (mem hc').2, .inr rfl⟩

theorem mem_changes (hplans : List.Forall₂ (fun target t => prepareTarget host operation files request assets target =
      .ok t ∧ t.conflicts = []) request.targets prepared) {c : Change} (h : c ∈ changes prepared) :
    c.before = files c.path ∧ ∃ t ∈ prepared, c.path = t.manifestPath ∧ c.after = t.manifestAfter ∨
      ∃ m ∈ t.mutations, c.path = m.path ∧ c.after = m.after := by
  obtain ⟨-, hfits⟩ := targets_of_prepare hplans
  obtain ⟨s, hs, rfl⟩ := List.mem_map.mp h
  rcases List.mem_append.mp (List.mem_of_mem_filter hs) with hs | hs
  · obtain ⟨t, ht, hs⟩ := List.mem_flatMap.mp hs
    obtain ⟨m, hm, -, hpath, hbefore, hafter⟩ := mem_mutationSteps hs
    refine ⟨?_, t, ht, .inr ⟨m, hm, hpath, hafter⟩⟩
    rw [hbefore, hpath]
    exact (readBounded_eq_ok ((hfits t ht).before m hm)).symm
  · obtain ⟨t, ht, rfl⟩ := List.mem_map.mp hs
    exact ⟨(readBounded_eq_ok (hfits t ht).manifestBefore).symm, t, ht, .inl ⟨rfl, rfl⟩⟩

theorem run_cases {before : Disk} (hrun : run host operation request assets before = (outcome, d)) :
    d = before ∨ ∃ prepared, List.Forall₂ (fun target t => prepareTarget host operation before.files request assets
      target = .ok t ∧ t.conflicts = []) request.targets prepared ∧ ∃ result, apply prepared before = (result, d) := by
  rw [run] at hrun
  cases hprepare : prepare host operation before.files request assets with
  | error reason =>
    simp only [hprepare] at hrun
    exact .inl (Prod.mk.inj hrun).2.symm
  | ok prepared =>
    simp only [hprepare] at hrun
    by_cases hcan : canApply prepared = true
    · rw [if_pos hcan] at hrun
      rcases happly : apply prepared before with ⟨result, d'⟩
      rw [happly] at hrun
      obtain ⟨-, rfl⟩ := Prod.mk.inj hrun
      exact .inr ⟨prepared, prepare_clean.mp ⟨hprepare, hcan⟩, result, happly⟩
    · rw [if_neg hcan] at hrun
      exact .inl (Prod.mk.inj hrun).2.symm

theorem run_writes (hrun : run host operation request assets { files, script } = (outcome, d)) :
    d.Replays files ∧ ∀ path, ∀ content ∈ d.installerWrites path, ∃ prepared,
      List.Forall₂ (fun target t => prepareTarget host operation files request assets target = .ok t ∧
        t.conflicts = []) request.targets prepared ∧
      ∃ t ∈ prepared, path = t.manifestPath ∧ (content = t.manifestAfter ∨ content = files path) ∨
        ∃ m ∈ t.mutations, path = m.path ∧ (content = m.after ∨ content = files path) := by
  rcases run_cases hrun with rfl | ⟨prepared, hplans, result, happly⟩
  · exact ⟨(touched_nil files script).replays, fun path content hcontent => by cases hcontent⟩
  · obtain ⟨hreplays, hwrites⟩ := apply_writes happly
    refine ⟨hreplays, fun path content hcontent => ⟨prepared, hplans, ?_⟩⟩
    obtain ⟨c, hc, rfl, hcases⟩ := hwrites path content hcontent
    obtain ⟨hbefore, t, ht, ⟨hpath, hafter⟩ | ⟨m, hm, hpath, hafter⟩⟩ := mem_changes hplans hc
    all_goals rw [show c.before = files c.path from hbefore] at hcases
    · exact ⟨t, ht, .inl ⟨hpath, hafter ▸ hcases⟩⟩
    · exact ⟨t, ht, .inr ⟨m, hm, hpath, hafter ▸ hcases⟩⟩

theorem run_quiet_foreign (hrun : run host operation request assets { files } = (outcome, d)) : d.foreign = [] := by
  rcases run_cases hrun with rfl | ⟨prepared, hplans, result, happly⟩
  · rfl
  · obtain ⟨htargets, hfits⟩ := targets_of_prepare hplans
    have hnodup : (prepared.map PreparedTarget.target).Nodup := htargets ▸ request.unique
    rw [apply_quiet (steps_nodup hnodup hfits) (steps_before hfits)] at happly
    obtain ⟨-, rfl⟩ := Prod.mk.inj happly
    rw [Disk.foreign, List.map_eq_nil_iff, List.filter_eq_nil_iff]
    intro w hw
    obtain ⟨c, -, rfl⟩ := List.mem_map.mp hw
    simp [Change.write]

end Writes

section Ownership

variable {F : Type} {host : Installation F} {files : Files} {m : Mutation} {owned : Option ManifestEntry}
  {target : IntegrationTarget}

theorem planInstallResource_owns {r : Resource F} (h : planInstallResource host files target r owned = .ok m)
    {hash : Bytes} (hhash : hashAt host files r.path (resourceIdentity r).2 = some hash) : Owns owned hash := by
  cases r with
  | file id path content =>
    obtain ⟨before, hread, howns, -⟩ := planInstallFile_eq_ok.mp h
    obtain ⟨current, hcurrent, rfl⟩ := Option.map_eq_some_iff.mp hhash
    exact howns current ((readBounded_eq_ok hread).symm.trans hcurrent)
  | jsonEntry id path selector value =>
    obtain ⟨-, before, document, created, hread, hdecode, -, howns, -⟩ := planInstallJson_eq_ok.mp h
    obtain rfl := readBounded_eq_ok hread
    simp only [hashAt, resourceIdentity, Resource.path, Option.bind_eq_bind, Option.bind_eq_some_iff,
      Option.pure_def, Option.some.injEq] at hhash
    obtain ⟨text, htext, doc, hdoc, current, hcurrent, rfl⟩ := hhash
    rw [htext, decodeJsonDocument_some] at hdecode
    obtain rfl := Option.some.inj (hdoc.symm.trans hdecode)
    exact howns current hcurrent
  | textBlock id path marker content =>
    obtain ⟨before, bounds, hread, -, hbounds, hcase⟩ := planInstallText_eq_ok.mp h
    obtain rfl := readBounded_eq_ok hread
    simp only [hashAt, resourceIdentity, Resource.path, Option.bind_eq_bind, Option.bind_eq_some_iff] at hhash
    obtain ⟨text, htext, hhash⟩ := hhash
    rw [htext, Option.getD_some] at hbounds
    rw [hbounds] at hhash
    rcases hcase with ⟨rfl, -, -⟩ | ⟨start, stop, rfl, howns, -⟩
    · cases hhash
    · rw [htext] at howns
      obtain rfl := Option.some.inj hhash
      exact howns

theorem planUninstallEntry_owns {entry : ManifestEntry} {r : Resource F} (hmatches : entry.Matches r)
    (h : planUninstallEntry host files entry = .ok m) {hash : Bytes}
    (hhash : hashAt host files entry.path entry.selector = some hash) : hash = entry.contentSha256 := by
  obtain ⟨before, action, after, hread, hstate, -⟩ := planUninstallEntry_eq_ok.mp h
  obtain rfl := readBounded_eq_ok hread
  obtain ⟨-, hkind, -, hselector⟩ := hmatches
  rw [uninstallState] at hstate
  cases r with
  | file id path content =>
    simp only [hkind, hselector, resourceIdentity] at hstate
    rw [hselector] at hhash
    obtain ⟨current, hcurrent, rfl⟩ := Option.map_eq_some_iff.mp hhash
    exact (uninstallFileState_eq_ok.mp hstate).1 current hcurrent
  | jsonEntry id path selector value =>
    simp only [hkind, hselector, resourceIdentity] at hstate
    rw [hselector] at hhash
    simp only [hashAt, resourceIdentity, Option.bind_eq_bind, Option.bind_eq_some_iff,
      Option.pure_def, Option.some.injEq] at hhash
    obtain ⟨text, htext, doc, hdoc, current, hcurrent, rfl⟩ := hhash
    obtain ⟨document, hdecode, hcase⟩ := uninstallJsonState_eq_ok.mp hstate
    rw [htext, decodeJsonDocument_some] at hdecode
    obtain rfl := Option.some.inj (hdoc.symm.trans hdecode)
    rcases hcase with ⟨hnone | hnone, -⟩ | ⟨current', _, -, hcurrent', howned, -⟩
    · cases hcurrent.symm.trans hnone
    · cases htext.symm.trans hnone
    · obtain rfl := Option.some.inj (hcurrent.symm.trans hcurrent')
      exact howned
  | textBlock id path marker content =>
    simp only [hkind, hselector, resourceIdentity] at hstate
    rw [hselector] at hhash
    simp only [hashAt, resourceIdentity, Option.bind_eq_bind, Option.bind_eq_some_iff] at hhash
    obtain ⟨text, htext, hhash⟩ := hhash
    obtain ⟨bounds, hbounds, hcase⟩ := uninstallTextState_eq_ok.mp hstate
    rw [htext, Option.getD_some] at hbounds
    rw [hbounds] at hhash
    rcases hcase with ⟨rfl, -⟩ | ⟨content', start, stop, hcontent, rfl, howned, -⟩
    · cases hhash
    · obtain rfl := Option.some.inj (htext.symm.trans hcontent)
      obtain rfl := Option.some.inj hhash
      exact howned

end Ownership

section Invariants

variable {F : Type} {host : Installation F} {initial : Files} {s : Session} {files : Files}
  {operation : IntegrationOperation} {request : IntegrationRequest} {assets : AssetBundle}
  {prepared : List PreparedTarget} {script : List Moment} {t : PreparedTarget} {target : IntegrationTarget}
  {path : Path} {text : Bytes}

theorem clean_of_mem (hplans : List.Forall₂ (fun target t => prepareTarget host operation files request assets target =
      .ok t ∧ t.conflicts = []) request.targets prepared) (ht : t ∈ prepared) :
    ∃ target ∈ request.targets, prepareTarget host operation files request assets target = .ok t ∧
      t.conflicts = [] ∧ t.manifestPath = manifestPath host request target := by
  obtain ⟨target, htarget, hplan, hnone⟩ := exists_mem_of_forall₂ hplans ht
  obtain ⟨rfl, hfits⟩ := fits_of_prepare hplan hnone
  exact ⟨t.target, htarget, hplan, hnone, hfits.manifestPath⟩

theorem entry_of_owner {resources : List (Resource F)} {manifest : Option (Bytes × InstallManifest)}
    (hresources : validatedResources host target assets request = .ok resources)
    (husable : Usable host files request target resources manifest) {r : Resource F} (hr : r ∈ resources)
    {entry : ManifestEntry} (howned : entryOf (ownedEntries manifest) r.resourceId = some entry) :
    entry ∈ ownedEntries manifest ∧ entry.Matches r := by
  obtain ⟨hentry, hid⟩ := (entryOf_eq_some husable.uniqueResources).mp howned
  obtain ⟨r', hr', hmatches⟩ := husable.matches hentry
  obtain rfl : r' = r := List.inj_on_of_nodup_map (resourceIds_nodup hresources) hr' hr (hmatches.1.symm.trans hid)
  exact ⟨hentry, hmatches⟩

inductive Planned (host : Installation F) (files : Files) (target : IntegrationTarget) (entries : List ManifestEntry)
    (r : Resource F) (m : Mutation) : IntegrationOperation → Prop
  | install (h : planInstallResource host files target r (entryOf entries r.resourceId) = .ok m) :
      Planned host files target entries r m .install
  | uninstall {entry : ManifestEntry} (hentry : entry ∈ entries) (hmatches : entry.Matches r)
      (h : planUninstallEntry host files entry = .ok m) : Planned host files target entries r m .uninstall

theorem exists_planned (hplan : prepareTarget host operation files request assets target = .ok t)
    (hnone : t.conflicts = []) {m : Mutation} (hm : m ∈ t.mutations) :
    ∃ manifest, validatedResources host target assets request =
        .ok (render host target assets request.scope request.root) ∧
      Usable host files request target (render host target assets request.scope request.root) manifest ∧
      ∃ r ∈ render host target assets request.scope request.root, r.path = m.path ∧
        Planned host files target (ownedEntries manifest) r m operation := by
  cases operation with
  | install =>
    obtain ⟨resources, manifest, mutations, hresources, husable, hmutations, rfl⟩ :=
      prepareInstallTarget_clean.mp ⟨hplan, hnone⟩
    obtain rfl := validatedResources_eq hresources
    obtain ⟨r, hr, hr'⟩ := exists_mem_of_forall₂ hmutations hm
    refine ⟨manifest, hresources, husable, r, hr, ?_, .install hr'⟩
    obtain ⟨_, _, _, _, _, -, rfl, -⟩ := planInstallResource_eq_ok hr'
    rfl
  | uninstall =>
    obtain ⟨resources, manifest, mutations, hresources, husable, hmutations, rfl⟩ :=
      prepareUninstallTarget_clean.mp ⟨hplan, hnone⟩
    obtain rfl := validatedResources_eq hresources
    obtain ⟨entry, hentry, hentry'⟩ := exists_mem_of_forall₂ hmutations hm
    obtain ⟨r, hr, hmatches⟩ := husable.matches hentry
    refine ⟨manifest, hresources, husable, r, hr, ?_, .uninstall hentry hmatches hentry'⟩
    obtain ⟨_, _, _, -, -, rfl⟩ := planUninstallEntry_eq_ok.mp hentry'
    exact hmatches.2.2.1.symm

theorem issued_of_install (hplan : prepareInstallTarget host files request assets target = .ok t)
    (hnone : t.conflicts = []) : ∃ m : InstallManifest, t.manifestPath = manifestPath host request target ∧
      t.manifestAfter = some (host.manifestBytes m) ∧ m.Valid ∧
      Records host (render host target assets request.scope request.root) m.entries := by
  obtain ⟨resources, manifest, mutations, hresources, -, hmutations, rfl⟩ :=
    prepareInstallTarget_clean.mp ⟨hplan, hnone⟩
  obtain rfl := validatedResources_eq hresources
  have hrecords := records_of_plans hmutations
  exact ⟨writtenManifest request assets target mutations, rfl, rfl, hrecords.valid rfl hresources, hrecords⟩

theorem mutation_path_ne (hplans : List.Forall₂ (fun target t => prepareTarget host operation files request assets
      target = .ok t ∧ t.conflicts = []) request.targets prepared) (ht : t ∈ prepared) {m : Mutation}
    (hm : m ∈ t.mutations) (hpath : IsManifest host path) : path ≠ m.path := by
  obtain ⟨resources, hresources, hpaths⟩ := ((targets_of_prepare hplans).2 t ht).resources
  obtain ⟨r, hr, hrpath⟩ := List.mem_map.mp (hpaths m hm)
  obtain ⟨request', u, rfl⟩ := hpath
  exact fun heq => path_ne_manifestPath hresources hr request' u (hrpath.trans heq.symm)

theorem manifest_of_step (hpath : IsManifest host path)
    (htext : (s.step host (.operation operation request assets script)).files path = some text) :
    s.files path = some text ∨
      (path, some text) ∈ (s.step host (.operation operation request assets script)).others ∨
      operation = .install ∧ ∃ target ∈ request.targets, ∃ t, prepareInstallTarget host s.files request assets target =
        .ok t ∧ t.conflicts = [] ∧ path = t.manifestPath ∧ t.manifestAfter = some text := by
  rcases hrun : run host operation request assets { files := s.files, script } with ⟨outcome, d⟩
  obtain ⟨hreplays, hwrites⟩ := run_writes hrun
  simp only [Session.step, hrun] at htext ⊢
  rcases hreplays.files_cases path with hsame | hforeign | hwritten
  · exact .inl (hsame ▸ htext)
  · rw [htext] at hforeign
    exact .inr (.inl (List.mem_append_left _ hforeign))
  · rw [htext] at hwritten
    obtain ⟨prepared, hplans, t, ht, ⟨hmanifest, hcontent⟩ | ⟨m, hm, hmpath, -⟩⟩ := hwrites path _ hwritten
    · rcases hcontent with hafter | hbefore
      · obtain ⟨target, htarget, hplan, hnone, -⟩ := clean_of_mem hplans ht
        cases operation with
        | install => exact .inr (.inr ⟨rfl, target, htarget, t, hplan, hnone, hmanifest, hafter.symm⟩)
        | uninstall =>
          obtain ⟨_, _, _, -, -, -, rfl⟩ := prepareUninstallTarget_clean.mp ⟨hplan, hnone⟩
          cases hafter
      · exact .inl hbefore.symm
    · exact absurd hmpath (mutation_path_ne hplans ht hm hpath)

theorem Session.others_mono (s : Session) (e : Event) : s.others ⊆ (s.step host e).others := by
  cases e with
  | edit path content => exact List.subset_cons_self _ _
  | operation operation request assets script => exact List.subset_append_right _ _

theorem Session.installs_mono (s : Session) (e : Event) : s.installs ⊆ (s.step host e).installs := by
  cases e with
  | edit path content => exact List.Subset.refl _
  | operation operation request assets script =>
    simp only [Session.step]
    split
    · exact List.subset_cons_self _ _
    · exact List.Subset.refl _

theorem Session.PutByOthers.step (h : s.PutByOthers initial path text) (e : Event) :
    (s.step host e).PutByOthers initial path text :=
  h.imp id fun hmem => s.others_mono e hmem

theorem Session.Issued.step (h : s.Issued host path text) (e : Event) : (s.step host e).Issued host path text := by
  obtain ⟨i, hi, rest⟩ := h
  exact ⟨i, s.installs_mono e hi, rest⟩

theorem Reachable.sourced (h : Reachable host initial s) (hpath : IsManifest host path)
    (htext : s.files path = some text) : s.Issued host path text ∨ s.PutByOthers initial path text := by
  induction h with
  | start => exact .inr (.inl htext)
  | @step s _ e ih =>
    have before (h : s.files path = some text) :
        (s.step host e).Issued host path text ∨ (s.step host e).PutByOthers initial path text :=
      (ih h).imp (fun h => h.step e) fun h => h.step e
    cases e with
    | edit path' content =>
      by_cases heq : path = path'
      · subst heq
        obtain rfl : content = some text := by simpa [Session.step] using htext
        exact .inr (.inr List.mem_cons_self)
      · exact before (by simpa [Session.step, heq] using htext)
    | operation operation request assets script =>
      rcases manifest_of_step hpath htext with
        hsame | hothers | ⟨rfl, target, htarget, t, hplan, hnone, hmanifest, hafter⟩
      · exact before hsame
      · exact .inr (.inr hothers)
      · obtain ⟨m, hmpath, hbytes, hvalid, hrecords⟩ := issued_of_install hplan hnone
        refine .inl ⟨(request, assets), by simp [Session.step], target, htarget, m, hmanifest.trans hmpath, ?_, hvalid,
          hrecords⟩
        exact Option.some.inj (hafter.symm.trans hbytes)

def OnTheWay (host : Installation F) (files : Files) : Prop :=
  ∀ path, IsManifest host path → ∀ text m, files path = some text → host.readManifest text = some m →
    ∀ entry ∈ m.entries, ∀ ks, entry.selector = .keys ks → ∀ p ∈ entry.createdJsonParents, p <+: ks

theorem mem_ownedEntries_iff {resources : List (Resource F)} {manifest : Option (Bytes × InstallManifest)}
    (husable : Usable host files request target resources manifest) {entry : ManifestEntry} :
    entry ∈ ownedEntries manifest ↔ ∃ text m, files (manifestPath host request target) = some text ∧
      host.readManifest text = some m ∧ entry ∈ m.entries := by
  obtain ⟨hbounded, hread⟩ := readInstallManifest_eq_ok.mp husable.1
  have hfile := readBounded_eq_ok hbounded
  cases manifest with
  | none =>
    rw [hfile]
    simp [ownedEntries]
  | some manifest =>
    obtain ⟨text, m⟩ := manifest
    have hm := hread text m rfl
    rw [hfile]
    simp [ownedEntries, hm]

theorem OnTheWay.owned (h : OnTheWay host files) {resources : List (Resource F)}
    {manifest : Option (Bytes × InstallManifest)} (husable : Usable host files request target resources manifest)
    {entry : ManifestEntry} (hentry : entry ∈ ownedEntries manifest) :
    ∀ ks, entry.selector = .keys ks → ∀ p ∈ entry.createdJsonParents, p <+: ks := by
  obtain ⟨text, m, hfile, hread, hentry⟩ := (mem_ownedEntries_iff husable).mp hentry
  exact h _ ⟨request, target, rfl⟩ text m hfile hread entry hentry

theorem OnTheWay.planned (h : OnTheWay host files) {resources : List (Resource F)}
    (hresources : validatedResources host target assets request = .ok resources)
    {manifest : Option (Bytes × InstallManifest)} (husable : Usable host files request target resources manifest)
    {r : Resource F} (hr : r ∈ resources) {m : Mutation}
    (hplan : planInstallResource host files target r (entryOf (ownedEntries manifest) r.resourceId) = .ok m)
    {entry : ManifestEntry} (hentry : m.manifestEntry = some entry) {ks : List String}
    (hks : entry.selector = .keys ks) : ∀ p ∈ entry.createdJsonParents, p <+: ks := by
  cases r with
  | file id path content =>
    obtain ⟨_, -, -, rfl⟩ := planInstallFile_eq_ok.mp hplan
    obtain rfl := Option.some.inj hentry
    cases hks
  | textBlock id path marker content =>
    obtain ⟨_, _, -, -, -, ⟨-, -, rfl⟩ | ⟨_, _, -, -, rfl⟩⟩ := planInstallText_eq_ok.mp hplan <;>
      obtain rfl := Option.some.inj hentry <;> cases hks
  | jsonEntry id path selector value =>
    obtain ⟨-, before, document, created, -, -, hcreated, -, hcase⟩ := planInstallJson_eq_ok.mp hplan
    have hfields : entry.selector = .keys selector ∧ entry.createdJsonParents = created := by
      rcases hcase with ⟨_, -, -, rfl⟩ | ⟨-, _, -, rfl⟩ <;> obtain rfl := Option.some.inj hentry <;> exact ⟨rfl, rfl⟩
    obtain rfl : selector = ks := by simpa [hfields.1] using hks
    rw [hfields.2]
    intro p hp
    cases howned : entryOf (ownedEntries manifest) (Resource.jsonEntry (F := F) id path selector value).resourceId with
    | none =>
      rw [howned] at hcreated
      cases hmissing : missingJsonParents selector document with
      | error e =>
        rw [createdParents, hmissing] at hcreated
        cases hcreated
      | ok ps =>
        rw [createdParents, hmissing] at hcreated
        obtain rfl := Except.ok.inj hcreated
        exact missingJsonParents_prefix hmissing hp
    | some owner =>
      rw [howned] at hcreated
      obtain rfl := Except.ok.inj hcreated
      obtain ⟨hmem, hmatches⟩ := entry_of_owner hresources husable hr howned
      exact h.owned husable hmem selector hmatches.2.2.2 p hp

theorem OnTheWay.installed (h : OnTheWay host files) (hplan : prepareInstallTarget host files request assets target =
      .ok t) (hnone : t.conflicts = []) (hafter : t.manifestAfter = some text) {m : InstallManifest}
    (hread : host.readManifest text = some m) {entry : ManifestEntry} (hentry : entry ∈ m.entries) :
    ∀ ks, entry.selector = .keys ks → ∀ p ∈ entry.createdJsonParents, p <+: ks := by
  obtain ⟨resources, manifest, mutations, hresources, husable, hmutations, rfl⟩ :=
    prepareInstallTarget_clean.mp ⟨hplan, hnone⟩
  obtain rfl := validatedResources_eq hresources
  have hvalid : (writtenManifest request assets target mutations).Valid :=
    (records_of_plans hmutations).valid rfl hresources
  obtain rfl : host.manifestBytes (writtenManifest request assets target mutations) = text := Option.some.inj hafter
  obtain rfl := Option.some.inj (hread.symm.trans (host.readManifest_bytes _ hvalid))
  obtain ⟨mutation, hmem, hmutation⟩ := List.mem_filterMap.mp hentry
  obtain ⟨r, hr, hr'⟩ := exists_mem_of_forall₂ hmutations hmem
  exact fun ks hks => h.planned hresources husable hr hr' hmutation hks

theorem Reachable.onTheWay (h : Reachable host initial s) (huntampered : s.Untampered host initial) :
    OnTheWay host s.files := by
  induction h with
  | start =>
    intro path hpath text m htext hread
    cases (huntampered path hpath text (.inl htext)).symm.trans hread
  | @step s _ e ih =>
    have hbefore := ih fun path hpath text hput => huntampered path hpath text (hput.step e)
    intro path hpath text m htext hread entry hentry
    cases e with
    | edit path' content =>
      by_cases heq : path = path'
      · subst heq
        obtain rfl : content = some text := by simpa [Session.step] using htext
        cases (huntampered path hpath text (.inr List.mem_cons_self)).symm.trans hread
      · exact hbefore path hpath text m (by simpa [Session.step, heq] using htext) hread entry hentry
    | operation operation request assets script =>
      rcases manifest_of_step hpath htext with hsame | hothers | ⟨-, target, -, t, hplan, hnone, -, hafter⟩
      · exact hbefore path hpath text m hsame hread entry hentry
      · cases (huntampered path hpath text (.inr hothers)).symm.trans hread
      · exact hbefore.installed hplan hnone hafter hread hentry

end Invariants

section Samples

noncomputable def sampleSession : Session :=
  ((⟨sampleFiles (utf8 "a = 1\n"), [], []⟩ : Session).step sampleHost
    (.operation .install sampleRequest serverBundle [{}, {}, { fails := true }])).step sampleHost
      (.operation .install sampleRequest serverBundle [])

theorem sampleSession_reachable : Reachable sampleHost (sampleFiles (utf8 "a = 1\n")) sampleSession :=
  (Reachable.start.step _).step _

theorem failed_sample : (run sampleHost .install sampleRequest serverBundle
    { files := sampleFiles (utf8 "a = 1\n"), script := [{}, {}, { fails := true }] }).2.files =
      sampleFiles (utf8 "a = 1\n") := by
  obtain ⟨hprepare, hcan⟩ := prepare_sample (utf8 "a = 1\n") (by decide +kernel)
    (markerBounds_eq_none.mp (by decide +kernel))
  have happly := apply_sample (utf8 "a = 1\n") rfl (by decide +kernel) []
  rw [List.append_nil] at happly
  have hlength : ¬ maxConfigBytes <
      (appendTextBlock (some (utf8 "a = 1\n")) (renderBlock codexMarker sampleBody)).length := by decide +kernel
  rw [run, hprepare]
  simp only [hcan, if_true, happly, restore, restoreChange, Disk.read, Disk.pass, readBounded, Function.update_self,
    hlength, if_false, ne_eq, not_true_eq_false, Disk.writeOrRemove, Disk.write, Function.update_idem]
  funext path
  by_cases hpath : path = sampleConfig
  · simp [hpath, sampleFiles]
  · simp [hpath, sampleFiles]

theorem sampleSession_files {outcome : Outcome} {d : Disk}
    (hrun : run sampleHost .install sampleRequest serverBundle { files := sampleFiles (utf8 "a = 1\n") } =
      (outcome, d)) : sampleSession.files = d.files := by
  simp only [sampleSession, Session.step, failed_sample, hrun]

theorem uninstall_sample : ∃ outcome d content,
    run sampleHost .uninstall sampleRequest serverBundle { files := sampleSession.files } = (outcome, d) ∧
      content ∈ d.installerWrites sampleConfig := by
  obtain ⟨n, changed, d, hrun, h⟩ := run_sample
  have hmem : sampleResource ∈ render sampleHost .codex serverBundle sampleRequest.scope sampleRequest.root := by
    rw [render_sample]
    exact List.mem_singleton_self _
  have huninstallable : ∀ target ∈ sampleRequest.targets,
      Uninstallable sampleHost (sampleFiles (utf8 "a = 1\n")) sampleRequest serverBundle target := by
    intro target htarget
    obtain rfl : target = .codex := List.mem_singleton.mp htarget
    exact uninstallable_sample (by decide +kernel)
  obtain ⟨n', changed', d', hrun', hcontents, -⟩ := run_uninstall_installed h huninstallable
  rw [sampleSession_files hrun]
  refine ⟨_, d', d'.files sampleConfig, hrun', ?_⟩
  have hchange : d'.files sampleConfig ≠ d.files sampleConfig := by
    intro heq
    have hafter := h.contents .codex (List.mem_singleton_self _) sampleResource hmem
    have hback := (hcontents .codex (List.mem_singleton_self _) sampleResource hmem).2.mpr <| by
      intro text htext
      obtain rfl : utf8 "a = 1\n" = text := by simpa [sampleFiles, sampleResource] using htext
      exact .inr (by decide +kernel)
    have hsame := hafter.symm.trans (heq.symm.trans hback)
    revert hsame
    simp only [sampleResource, freshContent, Resource.path, sampleFiles, if_true, Option.some.injEq]
    decide +kernel
  rcases (run_writes hrun').1.files_cases sampleConfig with hsame | hforeign | hwritten
  · exact absurd hsame hchange
  · rw [run_quiet_foreign hrun'] at hforeign
    cases hforeign
  · exact hwritten

end Samples

section Ownership

variable {F : Type} {host : Installation F} {initial files : Files} {s : Session} {operation : IntegrationOperation}
  {request : IntegrationRequest} {assets : AssetBundle} {script : List Moment} {outcome : Outcome} {d : Disk}
  {path : Path} {content : Option Bytes}

theorem place_of_write (hrun : run host operation request assets { files, script } = (outcome, d))
    (hwrite : content ∈ d.installerWrites path) : ∃ target ∈ request.targets, path = manifestPath host request target ∨
      ∃ manifest m, validatedResources host target assets request =
          .ok (render host target assets request.scope request.root) ∧
        Usable host files request target (render host target assets request.scope request.root) manifest ∧
        ∃ r ∈ render host target assets request.scope request.root, r.path = path ∧
          Planned host files target (ownedEntries manifest) r m operation := by
  obtain ⟨prepared, hplans, t, ht, hcase⟩ := (run_writes hrun).2 path content hwrite
  obtain ⟨target, htarget, hplan, hnone, hmanifest⟩ := clean_of_mem hplans ht
  refine ⟨target, htarget, ?_⟩
  rcases hcase with ⟨hpath, -⟩ | ⟨m, hm, rfl, -⟩
  · exact .inl (hpath.trans hmanifest)
  · obtain ⟨manifest, hresources, husable, r, hr, hrpath, hplanned⟩ := exists_planned hplan hnone hm
    exact .inr ⟨manifest, m, hresources, husable, r, hr, hrpath, hplanned⟩

/-- In every run, whatever fails and whatever others write, an operation writes only manifests of its own and files
that hold a resource; and what stands in the place of that resource, if anything does, is what the manifest lists that
an install of the run issued there last, unless somebody else put that manifest there. -/
theorem operation_writes_owned (hs : Reachable host initial s)
    (hrun : run host operation request assets { files := s.files, script } = (outcome, d))
    (hwrite : content ∈ d.installerWrites path) :
    ∃ target ∈ request.targets, path = manifestPath host request target ∨
      ∃ r ∈ render host target assets request.scope request.root, r.path = path ∧
        ∀ hash, hashAt host s.files path (resourceIdentity r).2 = some hash →
          ∃ text m entry, s.files (manifestPath host request target) = some text ∧
            host.readManifest text = some m ∧ entry ∈ m.entries ∧ entry.Matches r ∧ entry.contentSha256 = hash ∧
            (s.Issued host (manifestPath host request target) text ∨
              s.PutByOthers initial (manifestPath host request target) text) := by
  obtain ⟨target, htarget, hpath | ⟨manifest, m, hresources, husable, r, hr, rfl, hplanned⟩⟩ :=
    place_of_write hrun hwrite
  · exact ⟨target, htarget, .inl hpath⟩
  · refine ⟨target, htarget, .inr ⟨r, hr, rfl, fun hash hhash => ?_⟩⟩
    obtain ⟨entry, hentry, hmatches, rfl⟩ : ∃ entry ∈ ownedEntries manifest, entry.Matches r ∧
        entry.contentSha256 = hash := by
      cases hplanned with
      | install h =>
        obtain ⟨entry, howned, rfl⟩ := planInstallResource_owns h hhash
        obtain ⟨hentry, hmatches⟩ := entry_of_owner hresources husable hr howned
        exact ⟨entry, hentry, hmatches, rfl⟩
      | @uninstall entry hentry hmatches h =>
        rw [← hmatches.2.2.1, ← hmatches.2.2.2] at hhash
        exact ⟨entry, hentry, hmatches, (planUninstallEntry_owns hmatches h hhash).symm⟩
    obtain ⟨text, m, hfile, hread, hmem⟩ := (mem_ownedEntries_iff husable).mp hentry
    exact ⟨text, m, entry, hfile, hread, hmem, hmatches, rfl, hs.sourced ⟨request, target, rfl⟩ hfile⟩

theorem operation_writes_owned_sample : ∃ outcome d content,
    run sampleHost .uninstall sampleRequest serverBundle { files := sampleSession.files } = (outcome, d) ∧
      content ∈ d.installerWrites sampleConfig ∧
      ∃ target ∈ sampleRequest.targets, sampleConfig = manifestPath sampleHost sampleRequest target ∨
        ∃ r ∈ render sampleHost target serverBundle sampleRequest.scope sampleRequest.root, r.path = sampleConfig ∧
          ∀ hash, hashAt sampleHost sampleSession.files sampleConfig (resourceIdentity r).2 = some hash →
            ∃ text m entry, sampleSession.files (manifestPath sampleHost sampleRequest target) = some text ∧
              sampleHost.readManifest text = some m ∧ entry ∈ m.entries ∧ entry.Matches r ∧
              entry.contentSha256 = hash ∧
              (sampleSession.Issued sampleHost (manifestPath sampleHost sampleRequest target) text ∨
                sampleSession.PutByOthers (sampleFiles (utf8 "a = 1\n"))
                  (manifestPath sampleHost sampleRequest target) text) := by
  obtain ⟨outcome, d, content, hrun, hwrite⟩ := uninstall_sample
  exact ⟨outcome, d, content, hrun, hwrite, operation_writes_owned sampleSession_reachable hrun hwrite⟩

end Ownership

section Frames

variable {F : Type} {host : Installation F} {initial : Files} {s : Session} {files : Files}
  {operation : IntegrationOperation} {request : IntegrationRequest} {assets : AssetBundle}
  {prepared : List PreparedTarget} {script : List Moment} {target : IntegrationTarget} {outcome : Outcome} {d : Disk}

theorem resources_of_plans (hplans : List.Forall₂ (fun target t => prepareTarget host operation files request assets
      target = .ok t ∧ t.conflicts = []) request.targets prepared) (htarget : target ∈ request.targets) :
    validatedResources host target assets request =
      .ok (render host target assets request.scope request.root) := by
  obtain ⟨t, -, hplan, hnone⟩ := exists_mem_of_forall₂ hplans.flip htarget
  obtain ⟨rfl, hfits⟩ := fits_of_prepare hplan hnone
  obtain ⟨resources, hresources, -⟩ := hfits.resources
  exact validatedResources_eq hresources ▸ hresources

theorem planned_of_write (hrun : run host operation request assets { files, script } = (outcome, d))
    (htarget : target ∈ request.targets) {r : Resource F}
    (hr : r ∈ render host target assets request.scope request.root) {content : Option Bytes}
    (hwrite : content ∈ d.installerWrites r.path) :
    content = files r.path ∨ ∃ manifest m,
      Usable host files request target (render host target assets request.scope request.root) manifest ∧
      Planned host files target (ownedEntries manifest) r m operation ∧ content = m.after := by
  obtain ⟨prepared, hplans, t, ht, hcase⟩ := (run_writes hrun).2 _ content hwrite
  have hresources := resources_of_plans hplans htarget
  obtain ⟨u, -, hplan, hnone, hmanifest⟩ := clean_of_mem hplans ht
  rcases hcase with ⟨hpath, -⟩ | ⟨m, hm, hpath, hafter | hsame⟩
  · exact absurd (hpath.trans hmanifest) (path_ne_manifestPath hresources hr request u)
  · obtain ⟨manifest, hresources', husable, r', hr', hpath', hplanned⟩ := exists_planned hplan hnone hm
    obtain rfl : u = target := target_eq_of_path (placed_of_mem hresources' hr') (placed_of_mem hresources hr)
      (hpath'.trans hpath.symm)
    obtain rfl : r' = r := List.inj_on_of_nodup_map (paths_nodup hresources) hr' hr (hpath'.trans hpath.symm)
    exact .inr ⟨manifest, m, husable, hplanned, hafter⟩
  · exact .inl hsame

theorem recordedParents_eq {resources : List (Resource F)} {manifest : Option (Bytes × InstallManifest)}
    (husable : Usable host files request target resources manifest) {entry : ManifestEntry}
    (hentry : entry ∈ ownedEntries manifest) {r : Resource F} (hmatches : entry.Matches r) :
    recordedParents host files request target r = entry.createdJsonParents := by
  obtain ⟨text, m, hfile, hread, hmem⟩ := (mem_ownedEntries_iff husable).mp hentry
  have hunique := (host.readManifest_valid text m hread).2.1
  have howned : entryOf m.entries r.resourceId = some entry := (entryOf_eq_some hunique).mpr ⟨hmem, hmatches.1⟩
  simp [recordedParents, manifestAt, hfile, hread, howned]

theorem planned_leaves {manifest : Option (Bytes × InstallManifest)} {r : Resource F} {m : Mutation}
    (husable : Usable host files request target (render host target assets request.scope request.root) manifest)
    (hr : r ∈ render host target assets request.scope request.root)
    (hplanned : Planned host files target (ownedEntries manifest) r m operation) :
    Leaves host (recordedParents host files request target r) r (files r.path) m.after := by
  cases hplanned with
  | install h => exact planInstallResource_leaves (render_wellFormed hr) h
  | uninstall hentry hmatches h =>
    rw [recordedParents_eq husable hentry hmatches]
    exact planUninstallEntry_leaves hmatches h

theorem planned_leaves_on_the_way (honTheWay : OnTheWay host files) {manifest : Option (Bytes × InstallManifest)}
    {r : Resource F} {m : Mutation}
    (husable : Usable host files request target (render host target assets request.scope request.root) manifest)
    (hr : r ∈ render host target assets request.scope request.root)
    (hplanned : Planned host files target (ownedEntries manifest) r m operation) :
    Leaves host [] r (files r.path) m.after := by
  cases hplanned with
  | install h => exact planInstallResource_leaves (render_wellFormed hr) h
  | uninstall hentry hmatches h =>
    refine (planUninstallEntry_leaves hmatches h).of_onTheWay fun selector hselector => ?_
    exact honTheWay.owned husable hentry selector (hmatches.2.2.2.trans hselector)

/-- In every run, whatever fails and whatever others write, what an operation writes to a file keeps the values of a
shared JSON document apart from its own entry and the parents on record, and the text of a shared configuration around
its own block, of the content it was planned on; where nobody else puts a manifest in place, it keeps the values apart
from its own entry; it writes no file that is neither a manifest of its own nor holds a resource; and a file that
nobody else writes meanwhile stands as it was or as the operation wrote it. -/
theorem operation_leaves_others (hs : Reachable host initial s)
    (hrun : run host operation request assets { files := s.files, script } = (outcome, d)) :
    (∀ target ∈ request.targets, ∀ r ∈ render host target assets request.scope request.root,
      ∀ content ∈ d.installerWrites r.path,
        Leaves host (recordedParents host s.files request target r) r (s.files r.path) content ∧
          (s.Untampered host initial → Leaves host [] r (s.files r.path) content)) ∧
    (∀ path, (∀ target ∈ request.targets, path ≠ manifestPath host request target ∧
      ∀ r ∈ render host target assets request.scope request.root, path ≠ r.path) → d.installerWrites path = []) ∧
    ∀ path, d.files path = s.files path ∨ (path, d.files path) ∈ d.foreign ∨
      d.files path ∈ d.installerWrites path := by
  refine ⟨fun target htarget r hr content hcontent => ?_, fun path hpath => ?_, (run_writes hrun).1.files_cases⟩
  · rcases planned_of_write hrun htarget hr hcontent with rfl | ⟨manifest, m, husable, hplanned, rfl⟩
    · exact ⟨.refl r _, fun _ => .refl r _⟩
    · exact ⟨planned_leaves husable hr hplanned, fun huntampered =>
        planned_leaves_on_the_way (hs.onTheWay huntampered) husable hr hplanned⟩
  · refine List.eq_nil_iff_forall_not_mem.mpr fun content hcontent => ?_
    obtain ⟨target, htarget, rfl | ⟨_, _, -, -, r, hr, rfl, -⟩⟩ := place_of_write hrun hcontent
    · exact (hpath target htarget).1 rfl
    · exact (hpath target htarget).2 r hr rfl

theorem operation_leaves_others_sample : ∃ outcome d content,
    run sampleHost .uninstall sampleRequest serverBundle { files := sampleSession.files } = (outcome, d) ∧
      content ∈ d.installerWrites sampleConfig ∧
      (∀ target ∈ sampleRequest.targets,
        ∀ r ∈ render sampleHost target serverBundle sampleRequest.scope sampleRequest.root,
          ∀ content ∈ d.installerWrites r.path,
            Leaves sampleHost (recordedParents sampleHost sampleSession.files sampleRequest target r) r
              (sampleSession.files r.path) content ∧
            (sampleSession.Untampered sampleHost (sampleFiles (utf8 "a = 1\n")) →
              Leaves sampleHost [] r (sampleSession.files r.path) content)) ∧
      (∀ path, (∀ target ∈ sampleRequest.targets, path ≠ manifestPath sampleHost sampleRequest target ∧
        ∀ r ∈ render sampleHost target serverBundle sampleRequest.scope sampleRequest.root, path ≠ r.path) →
          d.installerWrites path = []) ∧
      ∀ path, d.files path = sampleSession.files path ∨ (path, d.files path) ∈ d.foreign ∨
        d.files path ∈ d.installerWrites path := by
  obtain ⟨outcome, d, content, hrun, hwrite⟩ := uninstall_sample
  exact ⟨outcome, d, content, hrun, hwrite, operation_leaves_others sampleSession_reachable hrun⟩

end Frames

section Again

variable {F : Type} {host : Installation F} {files files' : Files} {request : IntegrationRequest}
  {assets : AssetBundle} {target : IntegrationTarget} {owned : Option ManifestEntry} {m m' : Mutation}
  {r : Resource F}

theorem planInstallResource_again (hholds : Holds host files r)
    (h : planInstallResource host files target r owned = .ok m) : m.action = .unchanged := by
  have same (text : Option Bytes) : changeAction text text = .unchanged := by simp [changeAction]
  cases r with
  | file id path content =>
    obtain ⟨before, hread, -, rfl⟩ := planInstallFile_eq_ok.mp h
    obtain rfl := readBounded_eq_ok hread
    rw [show files path = some content from hholds]
    exact same _
  | jsonEntry id path selector value =>
    obtain ⟨-, before, document, created, hread, hdecode, -, -, hcase⟩ := planInstallJson_eq_ok.mp h
    obtain ⟨text, doc, current, htext, hloads, hcurrent, hhash⟩ := hholds
    obtain rfl := readBounded_eq_ok hread
    rw [htext, decodeJsonDocument_some] at hdecode
    obtain rfl := Option.some.inj (hloads.symm.trans hdecode)
    rcases hcase with ⟨_, -, -, rfl⟩ | ⟨hother, -⟩
    · rfl
    · exact absurd hhash (hother current hcurrent)
  | textBlock id path marker content =>
    obtain ⟨before, bounds, hread, -, hbounds, hcase⟩ := planInstallText_eq_ok.mp h
    obtain ⟨text, htext, hblock⟩ := hholds
    obtain rfl := readBounded_eq_ok hread
    rw [htext, Option.getD_some] at hbounds
    obtain ⟨start, stop, rfl, hslice⟩ := hblock bounds hbounds
    rcases hcase with ⟨hnone, -⟩ | ⟨_, _, hsome, -, rfl⟩
    · cases hnone
    · obtain ⟨rfl, rfl⟩ := Prod.mk.inj (Option.some.inj hsome)
      obtain ⟨u, old, v, rfl, rfl, rfl⟩ := split_at_block hbounds
      rw [slice_middle] at hslice
      subst hslice
      simp only [installMutation, htext, Option.getD_some, replace_middle]
      exact same _

theorem planInstallResource_entry (h : planInstallResource host files target r owned = .ok m) {entry : ManifestEntry}
    (hentry : m.manifestEntry = some entry) (h' : planInstallResource host files' target r (some entry) = .ok m') :
    m'.manifestEntry = some entry := by
  cases r with
  | file id path content =>
    obtain ⟨_, -, -, rfl⟩ := planInstallFile_eq_ok.mp h
    obtain ⟨_, -, -, rfl⟩ := planInstallFile_eq_ok.mp h'
    exact hentry
  | jsonEntry id path selector value =>
    obtain ⟨-, _, _, created, -, -, -, -, hcase⟩ := planInstallJson_eq_ok.mp h
    obtain ⟨-, _, _, created', -, -, hcreated', -, hcase'⟩ := planInstallJson_eq_ok.mp h'
    obtain rfl := Except.ok.inj hcreated'
    rcases hcase with ⟨_, -, -, rfl⟩ | ⟨-, _, -, rfl⟩ <;>
      obtain rfl := Option.some.inj hentry <;>
      rcases hcase' with ⟨_, -, -, rfl⟩ | ⟨-, _, -, rfl⟩ <;> rfl
  | textBlock id path marker content =>
    obtain ⟨_, _, -, -, -, hcase⟩ := planInstallText_eq_ok.mp h
    obtain ⟨_, _, -, -, -, hcase'⟩ := planInstallText_eq_ok.mp h'
    rcases hcase with ⟨-, -, rfl⟩ | ⟨_, _, -, -, rfl⟩ <;>
      obtain rfl := Option.some.inj hentry <;>
      rcases hcase' with ⟨-, -, rfl⟩ | ⟨_, _, -, -, rfl⟩ <;> rfl

theorem applySteps_unwritten {ss : List Step} {touched : List Change} (hwritten : ∀ s ∈ ss, s.written = false)
    (hbefore : ∀ s ∈ ss, readBounded files s.path maxConfigBytes = .ok s.before) :
    applySteps ss touched { files } = ((.ok (), touched), { files }) := by
  induction ss with
  | nil => rfl
  | cons s ss ih =>
    have hread : Disk.assertUnchanged { files } s.path s.before = (.ok (), { files }) := by
      simp [Disk.assertUnchanged, Disk.read, Disk.pass, hbefore s List.mem_cons_self]
    simp only [applySteps, hread, hwritten s List.mem_cons_self, Bool.false_eq_true, if_false]
    exact ih (fun s' hs' => hwritten s' (List.mem_cons_of_mem _ hs'))
      fun s' hs' => hbefore s' (List.mem_cons_of_mem _ hs')

theorem filterMap_eq_of_map {mutations : List Mutation} {resources : List (Resource F)}
    {g : Resource F → Option ManifestEntry} (h : mutations.map Mutation.manifestEntry = resources.map g) :
    mutations.filterMap Mutation.manifestEntry = resources.filterMap g := by
  have hid := congrArg (List.filterMap id) h
  rwa [List.filterMap_map, List.filterMap_map] at hid

theorem entries_again {manifest : Option (Bytes × InstallManifest)} {mutations mutations' : List Mutation}
    (hresources : validatedResources host target assets request =
      .ok (render host target assets request.scope request.root))
    (h : List.Forall₂ (fun r m => planInstallResource host files target r
      (entryOf (ownedEntries manifest) r.resourceId) = .ok m) (render host target assets request.scope request.root)
      mutations)
    (h' : List.Forall₂ (fun r m => planInstallResource host files' target r
      (entryOf (writtenManifest request assets target mutations).entries r.resourceId) = .ok m)
      (render host target assets request.scope request.root) mutations') :
    mutations'.filterMap Mutation.manifestEntry = mutations.filterMap Mutation.manifestEntry := by
  have hvalid : (writtenManifest request assets target mutations).Valid :=
    (records_of_plans h).valid rfl hresources
  set entries := (writtenManifest request assets target mutations).entries with hentries
  have hfound {r : Resource F} {m : Mutation} (hm : m ∈ mutations)
      (hplan : planInstallResource host files target r (entryOf (ownedEntries manifest) r.resourceId) = .ok m) :
      m.manifestEntry = entryOf entries r.resourceId := by
    obtain ⟨_, _, _, created, parents, -, rfl, -⟩ := planInstallResource_eq_ok hplan
    refine ((entryOf_eq_some hvalid.2.1).mpr ⟨?_, rfl⟩).symm
    exact List.mem_filterMap.mpr ⟨_, hm, rfl⟩
  have hfirst : mutations.map Mutation.manifestEntry = (render host target assets request.scope request.root).map
      fun r => entryOf entries r.resourceId :=
    map_eq_of_forall₂ (forall₂_imp_mem h fun r _ m hm hplan => (⟨hm, hplan⟩ : _ ∧ _))
      fun r m hplan => hfound hplan.1 hplan.2
  have hsecond : mutations'.map Mutation.manifestEntry = (render host target assets request.scope request.root).map
      fun r => entryOf entries r.resourceId := by
    refine map_eq_of_forall₂ (forall₂_imp_mem h' fun r hr m _ hplan => (⟨hr, hplan⟩ : _ ∧ _)) fun r m' hplan' => ?_
    obtain ⟨m, hm, hplan⟩ := exists_mem_of_forall₂ h.flip hplan'.1
    obtain ⟨_, _, _, created, parents, -, heq, -⟩ := planInstallResource_eq_ok hplan
    have hentry : m.manifestEntry = some (ownedEntry host r created parents) := by rw [heq]; rfl
    have howned := (hfound hm hplan).symm.trans hentry
    rw [howned] at hplan' ⊢
    exact planInstallResource_entry hplan hentry hplan'.2
  rw [filterMap_eq_of_map hfirst, filterMap_eq_of_map hsecond]

theorem prepareInstallTarget_again {t : PreparedTarget}
    (h : prepareInstallTarget host files request assets target = .ok t) (hnone : t.conflicts = [])
    (hmanifest : files' t.manifestPath = t.manifestAfter)
    (hholds : ∀ r ∈ render host target assets request.scope request.root, Holds host files' r) :
    ∃ t', prepareInstallTarget host files' request assets target = .ok t' ∧
      (∀ m ∈ t'.mutations, m.action = .unchanged) ∧ (t'.conflicts = [] → t'.manifestAfter = t'.manifestBefore) := by
  obtain ⟨resources, manifest, mutations, hresources, -, hmutations, rfl⟩ := prepareInstallTarget_clean.mp ⟨h, hnone⟩
  obtain rfl := validatedResources_eq hresources
  set written := writtenManifest request assets target mutations with hwritten
  have hvalid : written.Valid := (records_of_plans hmutations).valid rfl hresources
  have hread := host.readManifest_bytes written hvalid
  replace hmanifest : files' (manifestPath host request target) = some (host.manifestBytes written) := hmanifest
  rw [prepareInstallTarget, withManifest, hresources]
  simp only [bind, Except.bind, readInstallManifest, readBounded, hmanifest]
  by_cases hle : maxManifestBytes < (host.manifestBytes written).length
  · rw [if_pos hle]
    exact ⟨_, rfl, by simp [refused], by simp [refused]⟩
  · rw [if_neg hle]
    simp only [hread]
    cases hcheck : validateManifest written request.scope target
        (render host target assets request.scope request.root) with
    | some mismatch => exact ⟨_, rfl, by simp [refused], by simp [refused]⟩
    | none =>
      refine ⟨_, rfl, fun m hm => ?_, fun hclean => ?_⟩
      · obtain ⟨planned, hplanned, hleft⟩ := List.mem_filterMap.mp hm
        obtain ⟨r, hr, rfl⟩ := List.mem_map.mp hplanned
        exact planInstallResource_again (hholds r hr)
          (planInstallOrConflict_eq_inl.mp (Sum.getLeft?_eq_some_iff.mp hleft))
      · obtain ⟨mutations', hmutations'⟩ := filterMap_getRight?_eq_nil.mp hclean
        have hplans' : List.Forall₂ (fun r m => planInstallResource host files' target r
            (entryOf written.entries r.resourceId) = .ok m)
            (render host target assets request.scope request.root) mutations' :=
          hmutations'.imp fun r m hr => planInstallOrConflict_eq_inl.mp hr
        have hentries : ((((render host target assets request.scope request.root).map
            (planInstallOrConflict host files' target written.entries)).filterMap Sum.getLeft?).filterMap
              Mutation.manifestEntry) = written.entries :=
          (congrArg (List.filterMap Mutation.manifestEntry) (filterMap_getLeft? hmutations')).trans
            (entries_again hresources hmutations hplans')
        have hlength : written.entries.length = (render host target assets request.scope request.root).length :=
          length_filterMap_manifestEntry hmutations
        simp only [installTarget, ownedEntries, hentries, hlength, if_true]
        rfl

/-- A successful install followed at once by the same install plans to change nothing and writes nothing. It
reports no change where what the first one left is within the limits, with one block between the markers and a TOML
text that parses, and is refused where it is not. -/
theorem reinstall_writes_nothing {n : ℕ} {changed : Bool} {d : Disk}
    (hrun : run host .install request assets { files } = (.completed (.applied n changed), d)) :
    ∃ prepared, prepare host .install d.files request assets = .ok prepared ∧
      (∀ t ∈ prepared, ∀ m ∈ t.mutations, m.action = .unchanged) ∧
      run host .install request assets { files := d.files } =
        (if canApply prepared then .completed (.applied 0 false) else .conflict, { files := d.files }) ∧
      (canApply prepared = true ↔ ∀ target ∈ request.targets, ReadableTarget host d.files request target ∧
        EveryEntry host d.files request target (Parses host d.files)) := by
  obtain ⟨prepared, hprepare, hcan⟩ := prepare_of_run_completed hrun
  have hplans := prepare_clean.mp ⟨hprepare, hcan⟩
  obtain ⟨_, d', hrun', hfinal⟩ := run_carriedOut hplans
  obtain ⟨-, rfl⟩ := Prod.mk.inj (hrun.symm.trans hrun')
  have hsettled := Settled.of_plans hplans hfinal
  have hagain : ∀ target ∈ request.targets, ∃ t', prepareTarget host .install d.files request assets target = .ok t' ∧
      (∀ m ∈ t'.mutations, m.action = .unchanged) ∧
      (t'.conflicts = [] → t'.manifestAfter = t'.manifestBefore) := by
    intro target htarget
    obtain ⟨t, ht, hplan, hnone⟩ := exists_mem_of_forall₂ hplans.flip htarget
    exact prepareInstallTarget_again hplan hnone (hfinal.manifests t ht) (hsettled.holds target htarget)
  obtain ⟨prepared', hprepared', hall⟩ : ∃ prepared', prepare host .install d.files request assets = .ok prepared' ∧
      ∀ t ∈ prepared', (∀ m ∈ t.mutations, m.action = .unchanged) ∧
        (t.conflicts = [] → t.manifestAfter = t.manifestBefore) := by
    obtain ⟨prepared', hprepared'⟩ := exists_forall₂_iff.mpr hagain
    refine ⟨prepared', mapM_ok_iff.mpr (hprepared'.imp fun _ _ h => h.1), fun t ht => ?_⟩
    obtain ⟨target, -, -, h⟩ := exists_mem_of_forall₂ hprepared' ht
    exact h
  have hcanApply : canApply prepared' = true ↔ ∀ target ∈ request.targets, ReadableTarget host d.files request target ∧
      EveryEntry host d.files request target (Parses host d.files) := by
    have happlicable : canApply prepared' = true ↔ Applicable host .install d.files request assets :=
      ⟨fun h => ⟨prepared', hprepared', h⟩, fun ⟨prepared'', hprepared'', h⟩ =>
        Except.ok.inj (hprepared'.symm.trans hprepared'') ▸ h⟩
    rw [happlicable, applicable_iff]
    refine forall₂_congr fun target htarget => ?_
    rw [install_over_iff hsettled htarget ⟨_, hsettled.resources target htarget⟩]
    simp [SameProjection, SameInventory.refl]
  refine ⟨prepared', hprepared', fun t ht => (hall t ht).1, ?_, hcanApply⟩
  rw [run, hprepared']
  by_cases hcan' : canApply prepared' = true
  · have hplans' := prepare_clean.mp ⟨hprepared', hcan'⟩
    have hsteps : ∀ t ∈ prepared', t.mutationSteps = [] := by
      intro t ht
      simp only [PreparedTarget.mutationSteps, List.map_eq_nil_iff, List.filter_eq_nil_iff]
      simpa using (hall t ht).1
    have hflat : prepared'.flatMap PreparedTarget.mutationSteps = [] := List.flatMap_eq_nil_iff.mpr hsteps
    have hunwritten : ∀ s ∈ steps prepared', s.written = false := by
      intro s hs
      rw [steps, hflat, List.nil_append] at hs
      obtain ⟨t, ht, rfl⟩ := List.mem_map.mp hs
      obtain ⟨_, -, -, hnone, -⟩ := clean_of_mem hplans' ht
      simp [PreparedTarget.manifestStep, (hall t ht).2 hnone]
    have hbefore : ∀ s ∈ steps prepared', readBounded d.files s.path maxConfigBytes = .ok s.before := by
      intro s hs
      rw [steps, hflat, List.nil_append] at hs
      obtain ⟨t, ht, rfl⟩ := List.mem_map.mp hs
      exact ((targets_of_prepare hplans').2 t ht).manifestBefore
    simp only [hcan', if_true, apply, applySteps_unwritten hunwritten hbefore, hflat, List.length_nil,
      List.isEmpty_nil, Bool.not_true]
  · simp only [hcan', Bool.false_eq_true, if_false]

theorem reinstall_sample : ∃ d : Disk,
    (∃ n changed, run sampleHost .install sampleRequest serverBundle { files := sampleFiles (utf8 "a = 1\n") } =
      (.completed (.applied n changed), d)) ∧
    (∃ prepared, prepare sampleHost .install d.files sampleRequest serverBundle = .ok prepared ∧
      ∀ t ∈ prepared, ∀ m ∈ t.mutations, m.action = .unchanged) ∧
    run sampleHost .install sampleRequest serverBundle { files := d.files } =
      (.completed (.applied 0 false), { files := d.files }) := by
  obtain ⟨n, changed, d, hrun, h⟩ := run_sample
  obtain ⟨prepared, hprepare, hunchanged, hrun', hcan⟩ := reinstall_writes_nothing hrun
  rw [if_pos (hcan.mpr (readable_sample hrun h))] at hrun'
  exact ⟨d, ⟨n, changed, hrun⟩, ⟨prepared, hprepare, hunchanged⟩, hrun'⟩

end Again

end GraphSkillRuntime.Installer
