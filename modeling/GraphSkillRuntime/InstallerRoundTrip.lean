import GraphSkillRuntime.InstallerPaths

/-! An install into untouched surroundings followed by an uninstall. -/

namespace GraphSkillRuntime.Installer

open OrderedDict JsonText

variable {F : Type} {host : Installation F} {files files' : Files} {request : IntegrationRequest}
  {assets : AssetBundle} {target : IntegrationTarget}

def documentAt (host : Installation F) (files : Files) (path : Path) : Document F :=
  match decodeJsonDocument host (files path) with
  | .ok document => document
  | .error _ => []

def freshEntry (host : Installation F) (files : Files) : Resource F → ManifestEntry
  | r@(.file _ _ _) => ownedEntry host r false []
  | r@(.jsonEntry _ path selector _) =>
    ownedEntry host r (files path).isNone <|
      match missingJsonParents selector (documentAt host files path) with
      | .ok parents => parents
      | .error _ => []
  | r@(.textBlock _ path _ _) => ownedEntry host r (files path).isNone []

def freshManifest (host : Installation F) (files : Files) (request : IntegrationRequest) (assets : AssetBundle)
    (target : IntegrationTarget) : InstallManifest where
  assetVersion := assets.assetVersion
  target
  scope := request.scope
  entries := (render host target assets request.scope request.root).map (freshEntry host files)

def freshContent (host : Installation F) (files : Files) : Resource F → Bytes
  | .file _ _ content => content
  | .jsonEntry _ path selector value =>
    match setJson selector value (documentAt host files path) with
    | .ok document => host.pretty document
    | .error _ => []
  | .textBlock _ path _ content => appendTextBlock (files path) content

def Removable (host : Installation F) (files : Files) (r : Resource F) : Prop :=
  (freshContent host files r).length ≤ maxConfigBytes ∧
    match r with
    | .textBlock _ _ marker content => Sole content marker
    | _ => True

/-- No parent of the entry is `null`; the text has no bytes, or ends with one line ending. -/
def Returns (host : Installation F) (files : Files) : Resource F → Prop
  | .file _ _ _ => True
  | .jsonEntry _ path selector _ => NoNullParent selector (documentAt host files path)
  | .textBlock _ path _ _ => ∀ text, files path = some text → text = [] ∨ EndsOneLine text

def Vacant (host : Installation F) (files : Files) : Resource F → Prop
  | .file _ path _ => files path = none
  | .jsonEntry _ path selector value =>
    ∃ document parents document', decodeJsonDocument host (files path) = .ok document ∧
      lookupJson document selector = none ∧ missingJsonParents selector document = .ok parents ∧
      setJson selector value document = .ok document'
  | .textBlock _ path marker _ => Unmarked ((files path).getD []) marker

theorem planInstallResource_fresh {r : Resource F} {m : Mutation}
    (h : planInstallResource host files target r none = .ok m) :
    Vacant host files r ∧ m.path = r.path ∧ m.after = some (freshContent host files r) ∧
      m.manifestEntry = some (freshEntry host files r) := by
  have notOwned {hash : Bytes} : ¬ Owns none hash := by
    rintro ⟨entry, h, -⟩
    cases h
  cases r with
  | file id path content =>
    obtain ⟨before, hread, howns, rfl⟩ := planInstallFile_eq_ok.mp h
    obtain rfl := readBounded_eq_ok hread
    refine ⟨?_, rfl, rfl, rfl⟩
    cases hfile : files path with
    | none => exact hfile
    | some current => exact absurd (howns current hfile) notOwned
  | jsonEntry id path selector value =>
    rw [planInstallResource] at h
    obtain ⟨-, before, document, parents, hread, hdecode, hparents, howns, hcase⟩ := planInstallJson_eq_ok.mp h
    obtain rfl := readBounded_eq_ok hread
    have hlookup : lookupJson document selector = none := by
      cases hlookup : lookupJson document selector with
      | none => rfl
      | some current => exact absurd (howns current hlookup) notOwned
    have hdocument : documentAt host files path = document := by rw [documentAt, hdecode]
    have hmissing : missingJsonParents selector document = .ok parents := by
      cases hmissing : missingJsonParents selector document with
      | ok parents' => simpa [createdParents, hmissing, ofSelector] using hparents
      | error e => simp [createdParents, hmissing, ofSelector] at hparents
    rcases hcase with ⟨current, hcurrent, -⟩ | ⟨-, document', hset, rfl⟩
    · rw [hlookup] at hcurrent
      cases hcurrent
    · refine ⟨⟨document, parents, document', hdecode, hlookup, hmissing, hset⟩, rfl, ?_, ?_⟩
      · simp [installMutation, freshContent, hdocument, hset]
      · simp [installMutation, freshEntry, hdocument, hmissing, createsContainer]
  | textBlock id path marker content =>
    obtain ⟨before, bounds, hread, -, hbounds, ⟨rfl, -, rfl⟩ | ⟨start, stop, -, howns, -⟩⟩ :=
      planInstallText_eq_ok.mp h
    · obtain rfl := readBounded_eq_ok hread
      exact ⟨markerBounds_eq_none.mp hbounds, rfl, rfl, rfl⟩
    · exact absurd howns notOwned

/-! The uninstall of a resource that was installed so. -/

/-- A document is the same whatever its layout; everything else is the same byte for byte. -/
def SameContent (host : Installation F) (r : Resource F) (before after : Option Bytes) : Prop :=
  match r with
  | .jsonEntry _ _ _ _ =>
    after.isSome = before.isSome ∧ decodeJsonDocument host after = decodeJsonDocument host before
  | _ => after = before

def Undoes (host : Installation F) (files files' : Files) (r : Resource F) : Prop :=
  ((∃ m, planUninstallEntry host files' (freshEntry host files r) = .ok m) ↔ Removable host files r) ∧
    ∀ m, planUninstallEntry host files' (freshEntry host files r) = .ok m →
      m.path = r.path ∧ (files r.path = none → m.after = none) ∧
        (SameContent host r (files r.path) m.after ↔ Returns host files r)

theorem undoes_of_state {r : Resource F} (action : IntegrationAction) (after : Option Bytes)
    (hpath : (freshEntry host files r).path = r.path) (h : files' r.path = some (freshContent host files r))
    (hremovable : Removable host files r ↔ (freshContent host files r).length ≤ maxConfigBytes)
    (hstate : uninstallState host (freshEntry host files r) (some (freshContent host files r)) = .ok (action, after))
    (hnone : files r.path = none → after = none)
    (hsame : SameContent host r (files r.path) after ↔ Returns host files r) : Undoes host files files' r := by
  rw [← hpath] at h
  constructor
  · rw [hremovable]
    constructor
    · rintro ⟨m, hm⟩
      exact ((planUninstallEntry_of_content h).mp hm).1
    · intro hle
      exact ⟨_, (planUninstallEntry_of_content h).mpr ⟨hle, action, after, hstate, rfl⟩⟩
  · intro m hm
    obtain ⟨-, action', after', hstate', rfl⟩ := (planUninstallEntry_of_content h).mp hm
    rw [hstate] at hstate'
    cases hstate'
    exact ⟨hpath, hnone, hsame⟩

theorem undoes_file {id : String} {path : Path} {content : Bytes}
    (hvacant : Vacant host files (.file id path content)) (h : files' path = some content) :
    Undoes host files files' (.file id path content) := by
  refine undoes_of_state .remove none rfl h ?_ ?_ (fun _ => rfl) ?_
  · simp [Removable]
  · simp [uninstallState, uninstallFileState, freshEntry, ownedEntry, resourceIdentity, contentHash, freshContent]
  · exact iff_of_true (Eq.symm hvacant) trivial

theorem undoes_json {id : String} {path : Path} {selector : List String} {value : Json F}
    (hwf : (Resource.jsonEntry id path selector value).WellFormed)
    (hvacant : Vacant host files (.jsonEntry id path selector value))
    (h : files' path = some (freshContent host files (.jsonEntry id path selector value))) :
    Undoes host files files' (.jsonEntry id path selector value) := by
  obtain ⟨hselector, hvalue⟩ := hwf
  obtain ⟨document, parents, document', hdecode, hlookup, hmissing, hset⟩ := hvacant
  have hdocument : documentAt host files path = document := by rw [documentAt, hdecode]
  have hdistinct := distinct_of_decode hdecode
  have hdistinct' := distinct_setJson hdistinct hvalue hset
  obtain ⟨removed, hremoved⟩ : ∃ removed, removeJson selector document' = .ok removed := by
    cases selector with
    | nil => exact absurd rfl hselector
    | cons k ks => exact exists_removeJson k ks document'
  have hpruned : pruneCreatedJsonParents parents removed = document ↔ NoNullParent selector document := by
    rw [pruneCreatedJsonParents_eq (missingJsonParents_sorted hmissing).2]
    exact prune_remove_set_iff hlookup hset hmissing hremoved
  have hdistinctPruned := distinct_pruneCreatedJsonParents parents (distinct_removeJson hdistinct' hremoved)
  have hentry : freshEntry host files (.jsonEntry id path selector value) =
      ownedEntry host (.jsonEntry id path selector value) (files path).isNone parents := by
    rw [freshEntry, hdocument, hmissing]
  have hcontent : freshContent host files (.jsonEntry id path selector value) = host.pretty document' := by
    rw [freshContent, hdocument, hset]
  -- without a file there is no parent that could be `null`
  have hnone (hfile : files path = none) : pruneCreatedJsonParents parents removed = [] := by
    rw [hfile] at hdecode
    cases hdecode
    rw [hpruned]
    cases selector with
    | nil => exact absurd rfl hselector
    | cons k ks => exact noNullParent_nil k ks
  refine undoes_of_state .remove (if (files path).isNone = true ∧
      pruneCreatedJsonParents parents removed = [] then none
    else some (host.pretty (pruneCreatedJsonParents parents removed))) rfl h ?_ ?_ (fun hfile => ?_) ?_
  · simp [Removable]
  · rw [hentry, hcontent]
    refine uninstallJsonState_eq_ok.mpr ⟨document', decode_pretty hdistinct', .inr ⟨value, removed, ?_⟩⟩
    exact ⟨by simp, lookupJson_setJson hset, rfl, hremoved, rfl, rfl⟩
  · replace hfile : files path = none := hfile
    rw [if_pos ⟨by rw [hfile]; rfl, hnone hfile⟩]
  · rw [SameContent, Returns, hdocument]
    cases hfile : files path with
    | none =>
      have hdoc := hnone hfile
      rw [hfile] at hdecode
      cases hdecode
      rw [Resource.path, hfile, if_pos ⟨rfl, hdoc⟩]
      exact iff_of_true ⟨rfl, rfl⟩ (hpruned.mp hdoc)
    | some text =>
      rw [Resource.path, if_neg (by simp), decode_pretty hdistinctPruned, hdecode, hfile]
      simp [hpruned]

theorem undoes_text {id : String} {path : Path} {marker : Marker} {content : Bytes}
    (hwf : (Resource.textBlock (F := F) id path marker content).WellFormed)
    (hvacant : Vacant host files (.textBlock id path marker content))
    (h : files' path = some (appendTextBlock (files path) content)) :
    Undoes host files files' (.textBlock id path marker content) := by
  obtain ⟨body, rfl⟩ := hwf
  have hbounds := markerBounds_appendTextBlock (renderBlock marker body) hvacant
  rcases markerBounds_renderBlock marker body with hsole | hduplicated
  · rw [hsole] at hbounds
    have hlength : (renderBlock marker body).length + (lead (files path)).length =
        (appendTextBlock (files path) (renderBlock marker body)).length := by
      rw [appendTextBlock_eq, List.length_append, Nat.add_comm]
    have hremaining := removeTextBlock_appendTextBlock (files path) (renderBlock marker body)
    simp only [Except.map, Option.map_some, shift, Nat.zero_add, hlength] at hbounds
    refine undoes_of_state .remove
      (if (files path).isNone && isBlank
          ((lead (files path)).take ((lead (files path)).length - trailingBreak (lead (files path)))) then none
        else some ((lead (files path)).take ((lead (files path)).length - trailingBreak (lead (files path)))))
      rfl h ?_ ?_ (fun hfile => ?_) ?_
    · simp [Removable, hsole]
    · refine uninstallTextState_eq_ok.mpr ⟨some ((lead (files path)).length,
        (appendTextBlock (files path) (renderBlock marker body)).length), ?_, .inr ⟨_, _, _, rfl, rfl, ?_, rfl, ?_⟩⟩
      · exact hbounds
      · rw [freshContent, List.take_length, appendTextBlock_eq, List.drop_left]
        rfl
      · rw [freshContent, hremaining]
        rfl
    · replace hfile : files path = none := hfile
      rw [hfile]
      rfl
    · simp only [SameContent, Returns, Resource.path]
      cases hfile : files path with
      | none =>
        refine iff_of_true rfl ?_
        rintro text heq
        cases heq
      | some text =>
        simp only [Option.isNone_some, Bool.false_and, Bool.false_eq_true, if_false, Option.some.injEq]
        by_cases htext : text = []
        · subst htext
          refine iff_of_true rfl ?_
          rintro _ rfl
          exact .inl rfl
        · rw [take_lead_eq_iff htext]
          constructor
          · rintro hone _ rfl
            exact .inr hone
          · intro hall
            exact (hall text rfl).resolve_left htext
  · -- with markers of the block's own kind in its body, an uninstall cannot tell where it ends
    rw [hduplicated] at hbounds
    have hfails {m : Mutation} : ¬ planUninstallEntry host files'
        (freshEntry host files (.textBlock id path marker (renderBlock marker body))) = .ok m := by
      intro hm
      obtain ⟨-, action, after, hstate, -⟩ := (planUninstallEntry_of_content h).mp hm
      rw [show uninstallState host (freshEntry host files (.textBlock id path marker (renderBlock marker body))) =
        uninstallTextState host (freshEntry host files (.textBlock id path marker (renderBlock marker body))) marker
        from rfl] at hstate
      obtain ⟨bounds, hok, -⟩ := uninstallTextState_eq_ok.mp hstate
      rw [Option.getD_some, hbounds] at hok
      cases hok
    refine ⟨iff_of_false (not_exists.mpr fun _ => hfails) ?_, fun m hm => absurd hm hfails⟩
    rintro ⟨-, hsole⟩
    replace hsole : markerBounds (renderBlock marker body) marker = _ := hsole
    rw [hduplicated] at hsole
    cases hsole

theorem undoes_fresh {r : Resource F} (hwf : r.WellFormed) (hvacant : Vacant host files r)
    (h : files' r.path = some (freshContent host files r)) : Undoes host files files' r := by
  cases r with
  | file id path content => exact undoes_file hvacant h
  | jsonEntry id path selector value => exact undoes_json hwf hvacant h
  | textBlock id path marker content => exact undoes_text hwf hvacant h

def Fresh (host : Installation F) (files : Files) (request : IntegrationRequest) : Prop :=
  ∀ target ∈ request.targets, files (manifestPath host request target) = none

structure Installed (host : Installation F) (files : Files) (request : IntegrationRequest) (assets : AssetBundle)
    (files' : Files) : Prop where
  resources : ∀ target ∈ request.targets,
    validatedResources host target assets request = .ok (render host target assets request.scope request.root)
  vacant : ∀ target ∈ request.targets, ∀ r ∈ render host target assets request.scope request.root,
    Vacant host files r
  contents : ∀ target ∈ request.targets, ∀ r ∈ render host target assets request.scope request.root,
    files' r.path = some (freshContent host files r)
  manifests : ∀ target ∈ request.targets, files' (manifestPath host request target) =
    some (host.manifestBytes (freshManifest host files request assets target))
  others : ∀ p, (∀ target ∈ request.targets, p ≠ manifestPath host request target ∧
    ∀ r ∈ render host target assets request.scope request.root, p ≠ r.path) → files' p = files p

variable {prepared : List PreparedTarget}

theorem filterMap_manifestEntry {resources : List (Resource F)} {mutations : List Mutation}
    (h : List.Forall₂ (fun r m => planInstallResource host files target r none = .ok m) resources mutations) :
    mutations.filterMap Mutation.manifestEntry = resources.map (freshEntry host files) := by
  induction h with
  | nil => rfl
  | cons hplan _ ih => rw [List.filterMap_cons, (planInstallResource_fresh hplan).2.2.2, ih, List.map_cons]

theorem prepareInstallTarget_fresh {t : PreparedTarget} (hfresh : files (manifestPath host request target) = none)
    (h : prepareInstallTarget host files request assets target = .ok t) (hnone : t.conflicts = []) :
    validatedResources host target assets request = .ok (render host target assets request.scope request.root) ∧
      ∃ mutations, List.Forall₂ (fun r m => planInstallResource host files target r none = .ok m)
          (render host target assets request.scope request.root) mutations ∧
        t = cleanTarget host request target none
          (some (host.manifestBytes (freshManifest host files request assets target))) mutations := by
  obtain ⟨resources, manifest, mutations, hresources, husable, hplans, rfl⟩ :=
    prepareInstallTarget_clean.mp ⟨h, hnone⟩
  obtain rfl := validatedResources_eq hresources
  obtain rfl : manifest = none := by
    have hread := (readInstallManifest_eq_ok.mp husable.1).1
    have hbefore := readBounded_eq_ok hread
    rw [hfresh] at hbefore
    exact Option.map_eq_none_iff.mp hbefore.symm
  refine ⟨hresources, mutations, hplans, ?_⟩
  rw [writtenManifest, filterMap_manifestEntry hplans]
  rfl

theorem run_install_fresh (hfresh : Fresh host files request)
    (hprepare : prepare host .install files request assets = .ok prepared) (hcan : canApply prepared = true) :
    ∃ n changed d, run host .install request assets { files } = (.completed (.applied n changed), d) ∧
      Installed host files request assets d.files := by
  have hplans := prepare_clean.mp ⟨hprepare, hcan⟩
  obtain ⟨n, d, hrun, hfinal⟩ := run_carriedOut hplans
  have plan {target : IntegrationTarget} (htarget : target ∈ request.targets) :
      ∃ t ∈ prepared, prepareInstallTarget host files request assets target = .ok t ∧ t.conflicts = [] :=
    exists_mem_of_forall₂ hplans.flip htarget
  refine ⟨n, _, d, hrun, ?_, ?_, ?_, ?_, ?_⟩
  · intro target htarget
    obtain ⟨t, -, ht, hnone⟩ := plan htarget
    exact (prepareInstallTarget_fresh (hfresh target htarget) ht hnone).1
  · intro target htarget r hr
    obtain ⟨t, -, ht, hnone⟩ := plan htarget
    obtain ⟨-, mutations, hmutations, rfl⟩ := prepareInstallTarget_fresh (hfresh target htarget) ht hnone
    obtain ⟨m, -, hm⟩ := exists_mem_of_forall₂ hmutations.flip hr
    exact (planInstallResource_fresh hm).1
  · intro target htarget r hr
    obtain ⟨t, htp, ht, hnone⟩ := plan htarget
    obtain ⟨-, mutations, hmutations, rfl⟩ := prepareInstallTarget_fresh (hfresh target htarget) ht hnone
    obtain ⟨m, hmem, hm⟩ := exists_mem_of_forall₂ hmutations.flip hr
    obtain ⟨-, hpath, hafter, -⟩ := planInstallResource_fresh hm
    rw [← hpath, hfinal.mutations _ htp m hmem, hafter]
  · intro target htarget
    obtain ⟨t, htp, ht, hnone⟩ := plan htarget
    obtain ⟨-, mutations, -, rfl⟩ := prepareInstallTarget_fresh (hfresh target htarget) ht hnone
    exact hfinal.manifests _ htp
  · intro p hp
    refine hfinal.others p fun t ht => ?_
    obtain ⟨target, htarget, hplan, hnone⟩ := exists_mem_of_forall₂ hplans ht
    obtain ⟨-, mutations, hmutations, rfl⟩ := prepareInstallTarget_fresh (hfresh target htarget) hplan hnone
    refine ⟨(hp target htarget).1, fun m hm => ?_⟩
    obtain ⟨r, hr, hrm⟩ := exists_mem_of_forall₂ hmutations hm
    rw [(planInstallResource_fresh hrm).2.1]
    exact (hp target htarget).2 r hr

theorem freshEntry_matches (r : Resource F) : (freshEntry host files r).Matches r := by
  cases r <;> exact ⟨rfl, rfl, rfl, rfl⟩

theorem freshEntry_contentSha256 (r : Resource F) :
    (freshEntry host files r).contentSha256 = contentHash host r := by
  cases r <;> rfl

theorem contentHash_digest (r : Resource F) : isDigest (contentHash host r) = true := by
  cases r <;> exact host.sha256_digest _

theorem freshManifest_usable (h : Installed host files request assets files') (htarget : target ∈ request.targets)
    {manifest : Option (Bytes × InstallManifest)} :
    Usable host files' request target (render host target assets request.scope request.root) manifest ↔
      manifest = some (host.manifestBytes (freshManifest host files request assets target),
          freshManifest host files request assets target) ∧
        (host.manifestBytes (freshManifest host files request assets target)).length ≤ maxManifestBytes := by
  have hids : ((freshManifest host files request assets target).entries.map ManifestEntry.resourceId) =
      (render host target assets request.scope request.root).map Resource.resourceId := by
    rw [freshManifest, List.map_map]
    exact List.map_congr_left fun r _ => (freshEntry_matches r).1
  have hunique : (freshManifest host files request assets target).uniqueResources := by
    rw [InstallManifest.uniqueResources, hids]
    exact resourceIds_nodup (h.resources target htarget)
  have hvalid : (freshManifest host files request assets target).Valid := by
    refine ⟨assets.versioned, hunique, fun entry hentry => ?_⟩
    obtain ⟨r, hr, rfl⟩ := List.mem_map.mp hentry
    rw [(freshEntry_matches r).1, freshEntry_contentSha256]
    exact ⟨resourceId_ne_empty hr, contentHash_digest r⟩
  have hlists : Lists (freshManifest host files request assets target) request.scope target
      (render host target assets request.scope request.root) := by
    refine ⟨rfl, rfl, fun entry hentry => ?_, fun r hr => ?_⟩
    · obtain ⟨r, hr, rfl⟩ := List.mem_map.mp hentry
      exact ⟨r, hr, freshEntry_matches r⟩
    · exact ⟨_, List.mem_map_of_mem hr, freshEntry_matches r⟩
  rw [usable_iff_of_file (h.manifests target htarget) (host.readManifest_bytes _ hvalid)]
  simp only [(validateManifest_eq_none hunique).mpr hlists, and_true]

/-- The manifest can be read again, and every resource can be removed. -/
def Uninstallable (host : Installation F) (files : Files) (request : IntegrationRequest) (assets : AssetBundle)
    (target : IntegrationTarget) : Prop :=
  (host.manifestBytes (freshManifest host files request assets target)).length ≤ maxManifestBytes ∧
    ∀ r ∈ render host target assets request.scope request.root, Removable host files r

theorem prepareUninstallTarget_installed (h : Installed host files request assets files')
    (htarget : target ∈ request.targets) {t : PreparedTarget} :
    (prepareUninstallTarget host files' request assets target = .ok t ∧ t.conflicts = []) ↔
      (host.manifestBytes (freshManifest host files request assets target)).length ≤ maxManifestBytes ∧
        ∃ mutations, List.Forall₂ (fun r m => planUninstallEntry host files' (freshEntry host files r) = .ok m)
            (render host target assets request.scope request.root) mutations ∧
          t = cleanTarget host request target (some
            (host.manifestBytes (freshManifest host files request assets target),
            freshManifest host files request assets target)) none mutations := by
  rw [prepareUninstallTarget_clean]
  constructor
  · rintro ⟨resources, manifest, mutations, hresources, husable, hplans, rfl⟩
    obtain rfl := validatedResources_eq hresources
    obtain ⟨rfl, hle⟩ := (freshManifest_usable h htarget).mp husable
    exact ⟨hle, mutations, List.forall₂_map_left_iff.mp hplans, rfl⟩
  · rintro ⟨hle, mutations, hplans, rfl⟩
    exact ⟨_, _, mutations, h.resources target htarget, (freshManifest_usable h htarget).mpr ⟨rfl, hle⟩,
      List.forall₂_map_left_iff.mpr hplans, rfl⟩

theorem undoes_of_installed (h : Installed host files request assets files') (htarget : target ∈ request.targets)
    {r : Resource F} (hr : r ∈ render host target assets request.scope request.root) :
    Undoes host files files' r :=
  undoes_fresh (render_wellFormed hr) (h.vacant target htarget r hr) (h.contents target htarget r hr)

theorem prepare_uninstall_iff (h : Installed host files request assets files') :
    (∃ prepared, prepare host .uninstall files' request assets = .ok prepared ∧ canApply prepared = true) ↔
      ∀ target ∈ request.targets, Uninstallable host files request assets target := by
  simp only [prepare_clean, exists_forall₂_iff]
  refine forall₂_congr fun target htarget => ?_
  simp only [prepareTarget, prepareUninstallTarget_installed h htarget, Uninstallable]
  constructor
  · rintro ⟨t, hle, mutations, hplans, -⟩
    refine ⟨hle, fun r hr => ?_⟩
    exact (undoes_of_installed h htarget hr).1.mp (exists_forall₂_iff.mp ⟨mutations, hplans⟩ r hr)
  · rintro ⟨hle, hremovable⟩
    obtain ⟨mutations, hplans⟩ := exists_forall₂_iff.mpr fun r hr =>
      (undoes_of_installed h htarget hr).1.mpr (hremovable r hr)
    exact ⟨_, hle, mutations, hplans, rfl⟩

def configResource (host : Installation F) (request : IntegrationRequest) (target : IntegrationTarget) : Resource F :=
  mcpProjection host target (hostLayout target request.scope request.root).configPath

theorem configResource_mem (target : IntegrationTarget) :
    configResource host request target ∈ render host target assets request.scope request.root := by
  simp [render, configResource]

/-- Install and uninstall are carried out, and give the shared configurations back and leave no new file. -/
def Restores (host : Installation F) (request : IntegrationRequest) (assets : AssetBundle) (files : Files) : Prop :=
  ∃ n changed d n' changed' d',
    run host .install request assets { files } = (.completed (.applied n changed), d) ∧
    run host .uninstall request assets { files := d.files } = (.completed (.applied n' changed'), d') ∧
    (∀ target ∈ request.targets,
      SameContent host (configResource host request target)
        (files (hostLayout target request.scope request.root).configPath)
        (d'.files (hostLayout target request.scope request.root).configPath)) ∧
    ∀ p, files p = none → d'.files p = none

theorem run_uninstall_installed (h : Installed host files request assets files')
    (huninstallable : ∀ target ∈ request.targets, Uninstallable host files request assets target) :
    ∃ n changed d, run host .uninstall request assets { files := files' } = (.completed (.applied n changed), d) ∧
      (∀ target ∈ request.targets, ∀ r ∈ render host target assets request.scope request.root,
        (files r.path = none → d.files r.path = none) ∧
          (SameContent host r (files r.path) (d.files r.path) ↔ Returns host files r)) ∧
      (∀ target ∈ request.targets, d.files (manifestPath host request target) = none) ∧
      ∀ p, (∀ target ∈ request.targets, p ≠ manifestPath host request target ∧
        ∀ r ∈ render host target assets request.scope request.root, p ≠ r.path) → d.files p = files p := by
  obtain ⟨prepared, hprepare, hcan⟩ := (prepare_uninstall_iff h).mpr huninstallable
  have hplans := prepare_clean.mp ⟨hprepare, hcan⟩
  obtain ⟨n, d, hrun, hfinal⟩ := run_carriedOut hplans
  refine ⟨n, _, d, hrun, fun target htarget r hr => ?_, fun target htarget => ?_, fun p hp => ?_⟩
  · obtain ⟨t, htp, hplan⟩ := exists_mem_of_forall₂ hplans.flip htarget
    obtain ⟨-, mutations, hmutations, rfl⟩ := (prepareUninstallTarget_installed h htarget).mp hplan
    obtain ⟨m, hmem, hm⟩ := exists_mem_of_forall₂ hmutations.flip hr
    obtain ⟨hpath, hnone, hsame⟩ := (undoes_of_installed h htarget hr).2 m hm
    rw [← hpath, hfinal.mutations _ htp m hmem, hpath]
    exact ⟨hnone, hsame⟩
  · obtain ⟨t, htp, hplan⟩ := exists_mem_of_forall₂ hplans.flip htarget
    obtain ⟨-, mutations, -, rfl⟩ := (prepareUninstallTarget_installed h htarget).mp hplan
    exact hfinal.manifests _ htp
  · rw [hfinal.others, h.others p hp]
    intro t ht
    obtain ⟨target, htarget, hplan⟩ := exists_mem_of_forall₂ hplans ht
    obtain ⟨-, mutations, hmutations, rfl⟩ := (prepareUninstallTarget_installed h htarget).mp hplan
    refine ⟨(hp target htarget).1, fun m hm => ?_⟩
    obtain ⟨r, hr, hrm⟩ := exists_mem_of_forall₂ hmutations hm
    rw [((undoes_of_installed h htarget hr).2 m hrm).1]
    exact (hp target htarget).2 r hr

theorem prepare_of_run_completed {operation : IntegrationOperation} {d d' : Disk} {result : ApplyResult}
    (h : run host operation request assets d = (.completed result, d')) :
    ∃ prepared, prepare host operation d.files request assets = .ok prepared ∧ canApply prepared = true := by
  rw [run] at h
  cases hprepare : prepare host operation d.files request assets with
  | error e => simp [hprepare] at h
  | ok prepared =>
    rw [hprepare] at h
    by_cases hcan : canApply prepared = true
    · exact ⟨prepared, rfl, hcan⟩
    · simp [hcan] at h

theorem configResource_path (target : IntegrationTarget) : (configResource host request target).path =
    (hostLayout target request.scope request.root).configPath :=
  mcpProjection_path _ _

theorem Restores.returns (hfresh : Fresh host files request)
    (hprepare : prepare host .install files request assets = .ok prepared) (hcan : canApply prepared = true)
    (hrestores : Restores host request assets files) : ∀ target ∈ request.targets,
      Uninstallable host files request assets target ∧ Returns host files (configResource host request target) := by
  obtain ⟨n, changed, d, hinstall, h⟩ := run_install_fresh hfresh hprepare hcan
  obtain ⟨_, _, _, n', changed', d', hinstall', huninstall, hconfigs, -⟩ := hrestores
  rw [hinstall] at hinstall'
  obtain ⟨-, rfl⟩ := Prod.mk.inj hinstall'
  have huninstallable := (prepare_uninstall_iff h).mp (prepare_of_run_completed (d := { files := d.files }) huninstall)
  obtain ⟨_, _, _, hrun, hresources, -⟩ := run_uninstall_installed h huninstallable
  rw [huninstall] at hrun
  obtain ⟨-, rfl⟩ := Prod.mk.inj hrun
  intro target htarget
  have hconfig := (hresources target htarget _ (configResource_mem target)).2
  rw [configResource_path] at hconfig
  exact ⟨huninstallable target htarget, hconfig.mp (hconfigs target htarget)⟩

/-- An install on which no conflict is reported and an uninstall after it give everything back exactly when what was
written can be read again, the markers of a block are not in its body, no parent of a JSON entry was `null` and a
text had no bytes or ended with one line ending. -/
theorem install_uninstall_restores_iff (hfresh : Fresh host files request)
    (hprepare : prepare host .install files request assets = .ok prepared) (hcan : canApply prepared = true) :
    Restores host request assets files ↔ ∀ target ∈ request.targets,
      Uninstallable host files request assets target ∧ Returns host files (configResource host request target) := by
  refine ⟨Restores.returns hfresh hprepare hcan, fun hall => ?_⟩
  obtain ⟨n, changed, d, hinstall, h⟩ := run_install_fresh hfresh hprepare hcan
  obtain ⟨n', changed', d', hrun, hresources, hmanifests, hothers⟩ :=
    run_uninstall_installed h fun target htarget => (hall target htarget).1
  refine ⟨n, changed, d, n', changed', d', hinstall, hrun, fun target htarget => ?_, fun p hp => ?_⟩
  · have hconfig := (hresources target htarget _ (configResource_mem target)).2
    rw [configResource_path] at hconfig
    exact hconfig.mpr (hall target htarget).2
  · by_cases hout : ∀ target ∈ request.targets, p ≠ manifestPath host request target ∧
        ∀ r ∈ render host target assets request.scope request.root, p ≠ r.path
    · rw [hothers p hout, hp]
    · push Not at hout
      obtain ⟨target, htarget, hin⟩ := hout
      by_cases hmanifest : p = manifestPath host request target
      · rw [hmanifest]
        exact hmanifests target htarget
      · obtain ⟨r, hr, rfl⟩ := hin hmanifest
        exact (hresources target htarget r hr).1 hp

theorem fresh_sample (text : Bytes) : Fresh sampleHost (sampleFiles text) sampleRequest := by
  intro target htarget
  simp [sampleFiles, manifestPath, sampleRequest, sampleConfig]

theorem render_sample :
    render sampleHost .codex serverBundle sampleRequest.scope sampleRequest.root = [sampleResource] :=
  (validatedResources_eq validatedResources_sample).symm

theorem freshManifest_sample (text : Bytes) :
    freshManifest sampleHost (sampleFiles text) sampleRequest serverBundle .codex = sampleManifest false := by
  have hentry : freshEntry sampleHost (sampleFiles text) sampleResource =
      ownedEntry sampleHost sampleResource false [] := by
    simp [freshEntry, sampleResource, sampleFiles]
  rw [freshManifest, render_sample, List.map_singleton, hentry, ownedEntry, contentHash_sample]
  rfl

theorem manifestBytes_sample (created : Bool) :
    sampleHost.manifestBytes (sampleManifest created) = sampleManifestText created := by
  have hne : sampleManifest true ≠ sampleManifest false := by simp [sampleManifest]
  cases created <;> simp [sampleHost, ManifestTexts.formats, ManifestTexts.bytes, sampleTexts, hne]

theorem uninstallable_sample {text : Bytes}
    (hlength : (appendTextBlock (some text) (renderBlock codexMarker sampleBody)).length ≤ maxConfigBytes) :
    Uninstallable sampleHost (sampleFiles text) sampleRequest serverBundle .codex := by
  refine ⟨?_, fun r hr => ?_⟩
  · rw [freshManifest_sample, manifestBytes_sample]
    exact length_sampleManifestText
  · rw [render_sample, List.mem_singleton] at hr
    subst hr
    refine ⟨?_, ?_⟩
    · simpa [freshContent, sampleResource, sampleFiles] using hlength
    · change markerBounds _ _ = _
      decide +kernel

theorem configResource_sample : configResource sampleHost sampleRequest .codex = sampleResource := by
  have h := @configResource_mem _ sampleHost sampleRequest serverBundle .codex
  rwa [render_sample, List.mem_singleton] at h

theorem install_uninstall_restores_sample :
    Restores sampleHost sampleRequest serverBundle (sampleFiles (utf8 "a = 1\n")) := by
  obtain ⟨hprepare, hcan⟩ := prepare_sample (utf8 "a = 1\n") (by decide +kernel)
    (markerBounds_eq_none.mp (by decide +kernel))
  refine (install_uninstall_restores_iff (fresh_sample _) hprepare hcan).mpr fun target htarget => ?_
  obtain rfl : target = .codex := List.mem_singleton.mp htarget
  refine ⟨uninstallable_sample (by decide +kernel), ?_⟩
  rw [configResource_sample]
  intro text htext
  obtain rfl : utf8 "a = 1\n" = text := by simpa [sampleFiles] using htext
  exact .inr (by decide +kernel)

/-- A configuration without a final line ending has one after an install and an uninstall. -/
theorem missing_line_ending_not_restored :
    Fresh sampleHost (sampleFiles (utf8 "a = 1")) sampleRequest ∧
      (∃ prepared, prepare sampleHost .install (sampleFiles (utf8 "a = 1")) sampleRequest serverBundle = .ok prepared ∧
        canApply prepared = true) ∧
      ¬ Restores sampleHost sampleRequest serverBundle (sampleFiles (utf8 "a = 1")) := by
  obtain ⟨hprepare, hcan⟩ := prepare_sample (utf8 "a = 1") (by decide +kernel)
    (markerBounds_eq_none.mp (by decide +kernel))
  refine ⟨fresh_sample _, ⟨_, hprepare, hcan⟩, fun hrestores => ?_⟩
  have hreturns := (hrestores.returns (fresh_sample _) hprepare hcan .codex (List.mem_singleton_self _)).2
  rw [configResource_sample] at hreturns
  have hone := hreturns (utf8 "a = 1") (by simp [sampleFiles])
  revert hone
  decide +kernel

end GraphSkillRuntime.Installer
