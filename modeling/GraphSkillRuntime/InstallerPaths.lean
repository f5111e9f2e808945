import GraphSkillRuntime.InstallerApply

/-!
The paths of a request: no two resources share one, and no resource shares one with a manifest. So an
operation without conflicts that nobody disturbs is carried out as planned.
-/

namespace GraphSkillRuntime.Installer

open JsonText

variable {F : Type} {host : Installation F} {files : Files}

theorem validateResources_eq_ok {layout : HostLayout} {ids : List String} {addresses : List (Path × Selector)}
    {rs rs' : List (Resource F)} (h : validateResources layout ids addresses rs = .ok rs') :
    rs' = rs ∧ (∀ r ∈ rs, placed layout r = true) ∧
      (∀ r ∈ rs, r.resourceId ∉ ids) ∧ (rs.map Resource.resourceId).Nodup ∧
      (∀ r ∈ rs, address r ∉ addresses) ∧ (rs.map address).Nodup := by
  induction rs generalizing ids addresses rs' with
  | nil =>
    cases h
    simp
  | cons r rs ih =>
    rw [validateResources] at h
    split_ifs at h with hplaced hid haddress
    obtain ⟨rest, hrest, rfl⟩ := map_eq_ok h
    obtain ⟨rfl, hplaces, hids, hidsNodup, haddresses, haddressesNodup⟩ := ih hrest
    refine ⟨rfl, ?_, ?_, ?_, ?_, ?_⟩
    · intro s hs
      rcases List.mem_cons.mp hs with rfl | hs
      · simpa using hplaced
      · exact hplaces s hs
    · intro s hs
      rcases List.mem_cons.mp hs with rfl | hs
      · simpa using hid
      · exact fun hmem => hids s hs (List.mem_cons_of_mem _ hmem)
    · rw [List.map_cons, List.nodup_cons]
      refine ⟨fun hmem => ?_, hidsNodup⟩
      obtain ⟨s, hs, heq⟩ := List.mem_map.mp hmem
      exact hids s hs (heq ▸ List.mem_cons_self)
    · intro s hs
      rcases List.mem_cons.mp hs with rfl | hs
      · simpa using haddress
      · exact fun hmem => haddresses s hs (List.mem_cons_of_mem _ hmem)
    · rw [List.map_cons, List.nodup_cons]
      refine ⟨fun hmem => ?_, haddressesNodup⟩
      obtain ⟨s, hs, heq⟩ := List.mem_map.mp hmem
      exact haddresses s hs (heq ▸ List.mem_cons_self)

/-! Each target has its own places below the root. -/

def places (target : IntegrationTarget) (scope : IntegrationScope) : List String :=
  match target, scope with
  | .claude, .user => [".claude", ".claude.json"]
  | .claude, .project => [".claude", ".mcp.json"]
  | .codex, _ => [".agents", ".codex"]
  | .copilot, .user => [".copilot"]
  | .copilot, .project => [".github"]
  | .cursor, _ => [".cursor"]
  | .gemini, _ => [".gemini"]
  | .opencode, .user => [".config"]
  | .opencode, .project => [".opencode"]

theorem places_disjoint {t u : IntegrationTarget} {scope : IntegrationScope} {c : String}
    (ht : c ∈ places t scope) (hu : c ∈ places u scope) : t = u := by
  cases t <;> cases u <;> cases scope <;> grind [places]

theorem layout_places (target : IntegrationTarget) (scope : IntegrationScope) (root : Path) :
    let layout := hostLayout target scope root
    (∃ c ∈ places target scope, root ++ [c] <+: layout.skillRoot) ∧
      (∃ c ∈ places target scope, root ++ [c] <+: layout.agentRoot) ∧
      ∃ c ∈ places target scope, root ++ [c] <+: layout.configPath := by
  cases target <;> cases scope <;> simp [hostLayout, places]

theorem config_outside_roots (target : IntegrationTarget) (scope : IntegrationScope) (root : Path) :
    let layout := hostLayout target scope root
    ¬ layout.skillRoot <+: layout.configPath ∧ ¬ layout.agentRoot <+: layout.configPath := by
  cases target <;> cases scope <;> simp [hostLayout]

theorem exists_place {target : IntegrationTarget} {scope : IntegrationScope} {root : Path} {r : Resource F}
    (h : placed (hostLayout target scope root) r = true) : ∃ c ∈ places target scope, root ++ [c] <+: r.path := by
  obtain ⟨⟨c, hc, hskill⟩, ⟨c', hc', hagent⟩, hconfig⟩ := layout_places target scope root
  cases r with
  | file id path content =>
    simp only [placed, Bool.or_eq_true, List.isPrefixOf_iff_prefix] at h
    rcases h with h | h
    · exact ⟨c, hc, hskill.trans h⟩
    · exact ⟨c', hc', hagent.trans h⟩
  | jsonEntry id path selector value =>
    simp only [placed, beq_iff_eq] at h
    exact h ▸ hconfig
  | textBlock id path marker content =>
    simp only [placed, beq_iff_eq] at h
    exact h ▸ hconfig

theorem target_eq_of_path {t u : IntegrationTarget} {scope : IntegrationScope} {root : Path} {r s : Resource F}
    (hr : placed (hostLayout t scope root) r = true) (hs : placed (hostLayout u scope root) s = true)
    (h : r.path = s.path) : t = u := by
  obtain ⟨c, hc, hcr⟩ := exists_place hr
  obtain ⟨c', hc', hcs⟩ := exists_place hs
  have heq : root ++ [c] = root ++ [c'] := by
    apply List.IsPrefix.eq_of_length
    · exact List.prefix_of_prefix_length_le hcr (h ▸ hcs) (by simp)
    · simp
  have hcc : c = c' := by simpa using heq
  exact places_disjoint hc (hcc ▸ hc')

theorem mcpProjection_path (target : IntegrationTarget) (path : Path) :
    (mcpProjection host target path).path = path := by
  cases target <;> rfl

theorem mem_render {target : IntegrationTarget} {assets : AssetBundle} {scope : IntegrationScope} {root : Path}
    {r : Resource F} (h : r ∈ render host target assets scope root) :
    (∃ id path content, r = .file id path content ∧
      ((∃ skillId name, path = (hostLayout target scope root).skillRoot ++ [skillId, name] ∧ name = "SKILL.md") ∨
        (∃ skillId name, path = (hostLayout target scope root).skillRoot ++ [skillId, "references", name]) ∨
        ∃ name, path = (hostLayout target scope root).agentRoot ++ [name ++ agentSuffix target])) ∨
      r = mcpProjection host target (hostLayout target scope root).configPath := by
  simp only [render, List.mem_append, List.mem_flatMap, List.mem_map, List.mem_singleton] at h
  rcases h with (⟨skill, -, h⟩ | ⟨role, -, rfl⟩) | rfl
  · rw [skillResources, List.mem_cons, List.mem_map] at h
    rcases h with rfl | ⟨⟨name, content⟩, -, rfl⟩
    · exact .inl ⟨_, _, _, rfl, .inl ⟨_, _, rfl, rfl⟩⟩
    · exact .inl ⟨_, _, _, rfl, .inr (.inl ⟨_, _, rfl⟩)⟩
  · exact .inl ⟨_, _, _, rfl, .inr (.inr ⟨_, rfl⟩)⟩
  · exact .inr rfl

theorem resourceId_ne_empty {target : IntegrationTarget} {assets : AssetBundle} {scope : IntegrationScope}
    {root : Path} {r : Resource F} (h : r ∈ render host target assets scope root) : r.resourceId ≠ "" := by
  have hne {s t : String} (hs : s ≠ "") : s ++ t ≠ "" := fun h => hs (String.append_eq_empty_iff.mp h).1
  simp only [render, List.mem_append, List.mem_flatMap, List.mem_map, List.mem_singleton] at h
  rcases h with (⟨skill, -, h⟩ | ⟨role, -, rfl⟩) | rfl
  · rw [skillResources, List.mem_cons, List.mem_map] at h
    rcases h with rfl | ⟨⟨name, content⟩, -, rfl⟩
    · exact hne (hne (by decide))
    · exact hne (hne (hne (by decide)))
  · exact hne (by decide)
  · cases target <;> simp [mcpProjection, Resource.resourceId]

/-- An entry has an address and can be read back, and a block has markers around it. -/
def Resource.WellFormed : Resource F → Prop
  | .file _ _ _ => True
  | .jsonEntry _ _ selector value => selector ≠ [] ∧ value.Distinct
  | .textBlock _ _ marker content => ∃ body, content = renderBlock marker body

theorem render_wellFormed {scope : IntegrationScope} {root : Path} {r : Resource F}
    (h : r ∈ render host target assets scope root) : r.WellFormed := by
  rcases mem_render h with ⟨id, path, content, rfl, -⟩ | rfl
  · trivial
  · cases target <;>
      simp [mcpProjection, Resource.WellFormed, Json.Distinct, distinctMembers, distinctElements]

section Validated

variable {target : IntegrationTarget} {assets : AssetBundle} {request : IntegrationRequest}
  {resources : List (Resource F)}

theorem validatedResources_eq (h : validatedResources host target assets request = .ok resources) :
    resources = render host target assets request.scope request.root :=
  (validateResources_eq_ok h).1

theorem placed_of_mem (h : validatedResources host target assets request = .ok resources) {r : Resource F}
    (hr : r ∈ resources) : placed (hostLayout target request.scope request.root) r = true := by
  obtain ⟨rfl, hplaced, -⟩ := validateResources_eq_ok h
  exact hplaced r hr

theorem resourceIds_nodup (h : validatedResources host target assets request = .ok resources) :
    (resources.map Resource.resourceId).Nodup := by
  obtain ⟨rfl, -, -, hids, -⟩ := validateResources_eq_ok h
  exact hids

theorem paths_nodup (h : validatedResources host target assets request = .ok resources) :
    (resources.map Resource.path).Nodup := by
  have hplaced {r : Resource F} (hr : r ∈ resources) := placed_of_mem h hr
  obtain ⟨rfl, -, -, -, -, haddresses⟩ := validateResources_eq_ok h
  obtain ⟨hskill, hagent⟩ := config_outside_roots target request.scope request.root
  -- a file lies inside the roots, and the configuration does not
  have outside {id : String} {path : Path} {content : Bytes}
      (hr : Resource.file id path content ∈ render host target assets request.scope request.root)
      (hpath : path = (hostLayout target request.scope request.root).configPath) : False := by
    have := hplaced hr
    simp only [placed, Bool.or_eq_true, List.isPrefixOf_iff_prefix, hpath] at this
    exact this.elim hskill hagent
  have hmap : (render host target assets request.scope request.root).map Resource.path =
      ((render host target assets request.scope request.root).map address).map Prod.fst := by
    rw [List.map_map]
    rfl
  rw [hmap]
  refine List.Nodup.map_on ?_ haddresses
  intro x hx y hy heq
  obtain ⟨r, hr, rfl⟩ := List.mem_map.mp hx
  obtain ⟨s, hs, rfl⟩ := List.mem_map.mp hy
  replace heq : r.path = s.path := heq
  rcases mem_render hr with ⟨_, _, _, rfl, -⟩ | rfl <;> rcases mem_render hs with ⟨_, _, _, rfl, -⟩ | rfl
  · exact Prod.ext heq rfl
  · rw [mcpProjection_path] at heq
    exact (outside hr heq).elim
  · rw [mcpProjection_path] at heq
    exact (outside hs heq.symm).elim
  · rfl

theorem append_suffix_ne (name : String) (target : IntegrationTarget) :
    name ++ agentSuffix target ≠ "install-manifest.json" := by
  intro h
  have hlast := congrArg (fun s : String => s.toList.getLast?) h
  cases target <;> simp [agentSuffix] at hlast

theorem path_ne_manifestPath (h : validatedResources host target assets request = .ok resources) {r : Resource F}
    (hr : r ∈ resources) (request' : IntegrationRequest) (t : IntegrationTarget) :
    r.path ≠ manifestPath host request' t := by
  obtain rfl := validatedResources_eq h
  have ends (base : Path) : (base ++ ["integrations", "moirai", t.value, "install-manifest.json"]).reverse =
      "install-manifest.json" :: t.value :: "moirai" :: "integrations" :: base.reverse := by simp
  intro heq
  replace heq := congrArg List.reverse heq
  rw [manifestPath, ends] at heq
  rcases mem_render hr with ⟨id, path, content, rfl, hpath⟩ | rfl
  · rcases hpath with ⟨skillId, name, rfl, rfl⟩ | ⟨skillId, name, rfl⟩ | ⟨name, rfl⟩
    · simp [Resource.path] at heq
    · simp only [Resource.path, List.reverse_append, List.reverse_cons, List.reverse_nil, List.nil_append,
        List.cons_append, List.cons.injEq] at heq
      cases t <;> simp [IntegrationTarget.value] at heq
    · simp only [Resource.path, List.reverse_append, List.reverse_cons, List.reverse_nil, List.nil_append,
        List.cons_append, List.cons.injEq] at heq
      exact append_suffix_ne name target heq.1
  · rw [mcpProjection_path] at heq
    cases target <;> cases hscope : request.scope <;> simp [hostLayout, hscope] at heq

theorem manifestPath_injective {t u : IntegrationTarget}
    (h : manifestPath host request t = manifestPath host request u) : t = u := by
  simp only [manifestPath, List.append_cancel_left_eq, List.cons.injEq] at h
  revert h
  cases t <;> cases u <;> simp [IntegrationTarget.value]

end Validated

section Requests

variable {request : IntegrationRequest} {assets : AssetBundle} {target : IntegrationTarget} {t : PreparedTarget}
  {operation : IntegrationOperation} {prepared : List PreparedTarget}

structure Fits (host : Installation F) (files : Files) (request : IntegrationRequest) (assets : AssetBundle)
    (t : PreparedTarget) : Prop where
  manifestPath : t.manifestPath = Installer.manifestPath host request t.target
  manifestBefore : readBounded files t.manifestPath maxConfigBytes = .ok t.manifestBefore
  paths : (t.mutations.map Mutation.path).Nodup
  resources : ∃ resources, validatedResources host t.target assets request = .ok resources ∧
    ∀ m ∈ t.mutations, m.path ∈ resources.map Resource.path
  before : ∀ m ∈ t.mutations, readBounded files m.path maxConfigBytes = .ok m.before
  unchanged : ∀ m ∈ t.mutations, m.action = .unchanged → m.after = m.before

theorem manifestBefore_of_usable {resources : List (Resource F)} {manifest : Option (Bytes × InstallManifest)}
    (h : Usable host files request target resources manifest) :
    readBounded files (manifestPath host request target) maxConfigBytes = .ok (manifest.map Prod.fst) :=
  readBounded_mono (by decide) (readInstallManifest_eq_ok.mp h.1).1

theorem Usable.uniqueResources {resources : List (Resource F)} {manifest : Option (Bytes × InstallManifest)}
    (h : Usable host files request target resources manifest) :
    ((ownedEntries manifest).map ManifestEntry.resourceId).Nodup := by
  cases manifest with
  | none => exact List.nodup_nil
  | some manifest =>
    obtain ⟨content, m⟩ := manifest
    exact (host.readManifest_valid content m ((readInstallManifest_eq_ok.mp h.1).2 content m rfl)).2.1

theorem Usable.matches {resources : List (Resource F)} {manifest : Option (Bytes × InstallManifest)}
    (h : Usable host files request target resources manifest) {entry : ManifestEntry}
    (hentry : entry ∈ ownedEntries manifest) : ∃ r ∈ resources, entry.Matches r := by
  cases manifest with
  | none => cases hentry
  | some manifest =>
    obtain ⟨content, m⟩ := manifest
    exact ((validateManifest_eq_none h.uniqueResources).mp (h.2 content m rfl)).2.2.1 entry hentry

theorem entry_paths_nodup {resources : List (Resource F)} {manifest : Option (Bytes × InstallManifest)}
    (hresources : validatedResources host target assets request = .ok resources)
    (h : Usable host files request target resources manifest) :
    ((ownedEntries manifest).map ManifestEntry.path).Nodup := by
  refine List.Nodup.map_on ?_ h.uniqueResources.of_map
  intro e he e' he' heq
  obtain ⟨r, hr, hid, -, hpath, -⟩ := h.matches he
  obtain ⟨r', hr', hid', -, hpath', -⟩ := h.matches he'
  have hrr : r = r' := List.inj_on_of_nodup_map (paths_nodup hresources) hr hr'
    (hpath.symm.trans (heq.trans hpath'))
  exact List.inj_on_of_nodup_map h.uniqueResources he he' (hid.trans (hrr ▸ hid'.symm))

theorem fits_of_install (h : prepareInstallTarget host files request assets target = .ok t) (hnone : t.conflicts = []) :
    t.target = target ∧ Fits host files request assets t := by
  obtain ⟨resources, manifest, mutations, hresources, husable, hplans, rfl⟩ := prepareInstallTarget_clean.mp ⟨h, hnone⟩
  have hpaths : mutations.map Mutation.path = resources.map Resource.path :=
    map_eq_of_forall₂ hplans fun r m hplan => by
      obtain ⟨action, before, after, created, parents, -, rfl, -⟩ := planInstallResource_eq_ok hplan
      rfl
  have plan (m : Mutation) (hm : m ∈ mutations) : ∃ r owned, planInstallResource host files target r owned = .ok m := by
    obtain ⟨r, -, hr⟩ := exists_mem_of_forall₂ hplans hm
    exact ⟨r, _, hr⟩
  refine ⟨rfl, rfl, manifestBefore_of_usable husable, ?_, ⟨resources, hresources, fun m hm => ?_⟩, fun m hm => ?_,
    fun m hm => ?_⟩
  · rw [cleanTarget, hpaths]
    exact paths_nodup hresources
  · rw [← hpaths]
    exact List.mem_map_of_mem hm
  · obtain ⟨r, owned, hr⟩ := plan m hm
    obtain ⟨action, before, after, created, parents, hread, rfl, -⟩ := planInstallResource_eq_ok hr
    exact hread
  · obtain ⟨r, owned, hr⟩ := plan m hm
    obtain ⟨action, before, after, created, parents, -, rfl, hunchanged⟩ := planInstallResource_eq_ok hr
    exact hunchanged

theorem fits_of_uninstall (h : prepareUninstallTarget host files request assets target = .ok t)
    (hnone : t.conflicts = []) : t.target = target ∧ Fits host files request assets t := by
  obtain ⟨resources, manifest, mutations, hresources, husable, hplans, rfl⟩ :=
    prepareUninstallTarget_clean.mp ⟨h, hnone⟩
  have hpaths : mutations.map Mutation.path = (ownedEntries manifest).map ManifestEntry.path :=
    map_eq_of_forall₂ hplans fun entry m hplan => by
      obtain ⟨before, action, after, -, -, rfl⟩ := planUninstallEntry_eq_ok.mp hplan
      rfl
  refine ⟨rfl, rfl, manifestBefore_of_usable husable, ?_, ⟨resources, hresources, fun m hm => ?_⟩, fun m hm => ?_,
    fun m hm => ?_⟩
  · rw [cleanTarget, hpaths]
    exact entry_paths_nodup hresources husable
  · have hpath : m.path ∈ (ownedEntries manifest).map ManifestEntry.path := hpaths ▸ List.mem_map_of_mem hm
    obtain ⟨entry, hentry, hpath⟩ := List.mem_map.mp hpath
    obtain ⟨r, hr, -, -, hr', -⟩ := husable.matches hentry
    rw [← hpath, hr']
    exact List.mem_map_of_mem hr
  · obtain ⟨entry, -, hplan⟩ := exists_mem_of_forall₂ hplans hm
    obtain ⟨before, action, after, hread, -, rfl⟩ := planUninstallEntry_eq_ok.mp hplan
    exact hread
  · obtain ⟨entry, -, hplan⟩ := exists_mem_of_forall₂ hplans hm
    obtain ⟨before, action, after, -, hstate, rfl⟩ := planUninstallEntry_eq_ok.mp hplan
    exact uninstallState_unchanged hstate

theorem fits_of_prepare (h : prepareTarget host operation files request assets target = .ok t)
    (hnone : t.conflicts = []) : t.target = target ∧ Fits host files request assets t := by
  cases operation with
  | install => exact fits_of_install h hnone
  | uninstall => exact fits_of_uninstall h hnone

theorem mem_mutationSteps {s : Step} (h : s ∈ t.mutationSteps) :
    ∃ m ∈ t.mutations, m.action ≠ .unchanged ∧ s.path = m.path ∧ s.before = m.before ∧ s.after = m.after := by
  obtain ⟨m, hm, rfl⟩ := List.mem_map.mp h
  obtain ⟨hm, haction⟩ := List.mem_filter.mp hm
  exact ⟨m, hm, by simpa using haction, rfl, rfl, rfl⟩

theorem mutationSteps_paths (t : PreparedTarget) :
    (t.mutationSteps.map fun s => s.path).Sublist (t.mutations.map Mutation.path) := by
  rw [PreparedTarget.mutationSteps, List.map_map]
  exact List.filter_sublist.map Mutation.path

theorem steps_nodup (htargets : (prepared.map PreparedTarget.target).Nodup)
    (hfits : ∀ t ∈ prepared, Fits host files request assets t) : ((steps prepared).map fun s => s.path).Nodup := by
  have inResources {t : PreparedTarget} (ht : t ∈ prepared) {p : Path} (hp : p ∈ t.mutationSteps.map fun s => s.path) :
      ∃ resources, validatedResources host t.target assets request = .ok resources ∧
        ∃ r ∈ resources, r.path = p := by
    obtain ⟨resources, hresources, hmem⟩ := (hfits t ht).resources
    obtain ⟨m, hm, rfl⟩ := List.mem_map.mp ((mutationSteps_paths t).subset hp)
    exact ⟨resources, hresources, List.mem_map.mp (hmem m hm)⟩
  have hmanifests : (prepared.map PreparedTarget.manifestStep).map (fun s => s.path) =
      (prepared.map PreparedTarget.target).map (manifestPath host request) := by
    rw [List.map_map, List.map_map]
    exact List.map_congr_left fun t ht => (hfits t ht).manifestPath
  rw [steps, List.map_append, hmanifests, List.map_flatMap, List.nodup_append']
  refine ⟨List.nodup_flatMap.mpr ⟨fun t ht => ?_, ?_⟩, ?_, ?_⟩
  · exact (mutationSteps_paths t).nodup (hfits t ht).paths
  · have hpairs : prepared.Pairwise fun t u => t.target ≠ u.target := List.pairwise_map.mp htargets
    refine hpairs.imp_of_mem fun {t u} ht hu hne p hpt hpu => ?_
    obtain ⟨rs, hrs, r, hr, rfl⟩ := inResources ht hpt
    obtain ⟨ss, hss, s, hs, heq⟩ := inResources hu hpu
    exact hne (target_eq_of_path (placed_of_mem hrs hr) (placed_of_mem hss hs) heq.symm)
  · exact htargets.map fun t u h => manifestPath_injective h
  · intro p hp hmanifest
    obtain ⟨t, ht, hpt⟩ := List.mem_flatMap.mp hp
    obtain ⟨resources, hresources, r, hr, rfl⟩ := inResources ht hpt
    obtain ⟨u, -, heq⟩ := List.mem_map.mp hmanifest
    exact path_ne_manifestPath hresources hr request u heq.symm

structure CarriedOut (files : Files) (prepared : List PreparedTarget) (files' : Files) : Prop where
  mutations : ∀ t ∈ prepared, ∀ m ∈ t.mutations, files' m.path = m.after
  manifests : ∀ t ∈ prepared, files' t.manifestPath = t.manifestAfter
  others : ∀ p, (∀ t ∈ prepared, p ≠ t.manifestPath ∧ ∀ m ∈ t.mutations, p ≠ m.path) → files' p = files p

theorem settle_carriedOut (htargets : (prepared.map PreparedTarget.target).Nodup)
    (hfits : ∀ t ∈ prepared, Fits host files request assets t) :
    CarriedOut files prepared (settle files (changes prepared)) := by
  have hnodup := steps_nodup htargets hfits
  have hmap : (changes prepared).map Change.path =
      ((steps prepared).filter Step.written).map fun s => s.path := by
    rw [changes, List.map_map]
    rfl
  have hchanges : ((changes prepared).map Change.path).Nodup := by
    rw [hmap]
    exact (List.filter_sublist.map fun s : Step => s.path).nodup hnodup
  -- a step is the only one at its path, so a path whose step is not written is not written at all
  have written {s : Step} (hs : s ∈ steps prepared) (hkept : s.written = false → s.after = files s.path) :
      settle files (changes prepared) s.path = s.after := by
    cases hwritten : s.written with
    | true =>
      have hmem : s.toChange ∈ changes prepared :=
        List.mem_map.mpr ⟨s, List.mem_filter.mpr ⟨hs, hwritten⟩, rfl⟩
      exact settle_of_mem hchanges hmem files
    | false =>
      rw [settle_of_notMem ?_ files, hkept hwritten]
      rw [hmap]
      intro hmem
      obtain ⟨s', hs', hpath⟩ := List.mem_map.mp hmem
      obtain ⟨hs', hwritten'⟩ := List.mem_filter.mp hs'
      obtain rfl := List.inj_on_of_nodup_map hnodup hs' hs hpath
      rw [hwritten] at hwritten'
      cases hwritten'
  have outside {p : Path} (h : ∀ s ∈ steps prepared, s.path ≠ p) : settle files (changes prepared) p = files p := by
    refine settle_of_notMem (fun hmem => ?_) files
    rw [hmap] at hmem
    obtain ⟨s, hs, hpath⟩ := List.mem_map.mp hmem
    exact h s (List.mem_of_mem_filter hs) hpath
  refine ⟨fun t ht m hm => ?_, fun t ht => ?_, fun p hp => outside fun s hs hpath => ?_⟩
  · by_cases haction : m.action = .unchanged
    · -- a change that is none has no step
      have hfit := hfits t ht
      rw [outside, readBounded_eq_ok (hfit.before m hm), hfit.unchanged m hm haction]
      intro s hs hpath
      obtain ⟨resources, hresources, hmem⟩ := hfit.resources
      obtain ⟨r, hr, hrpath⟩ := List.mem_map.mp (hmem m hm)
      rcases List.mem_append.mp hs with hs | hs
      · obtain ⟨u, hu, hsu⟩ := List.mem_flatMap.mp hs
        obtain ⟨m', hm', haction', hpath', -⟩ := mem_mutationSteps hsu
        obtain ⟨resources', hresources', hmem'⟩ := (hfits u hu).resources
        obtain ⟨r', hr', hrpath'⟩ := List.mem_map.mp (hmem' m' hm')
        have heq : m'.path = m.path := hpath'.symm.trans hpath
        have htu : u.target = t.target :=
          target_eq_of_path (placed_of_mem hresources' hr') (placed_of_mem hresources hr)
            (hrpath'.trans (heq.trans hrpath.symm))
        obtain rfl := List.inj_on_of_nodup_map htargets hu ht htu
        obtain rfl := List.inj_on_of_nodup_map hfit.paths hm' hm heq
        exact haction' haction
      · obtain ⟨u, hu, rfl⟩ := List.mem_map.mp hs
        refine path_ne_manifestPath hresources hr request u.target ?_
        rw [hrpath, ← hpath, ← (hfits u hu).manifestPath]
        rfl
    · have hstep : ({ path := m.path, before := m.before, after := m.after, written := true } : Step) ∈
          steps prepared := by
        refine List.mem_append_left _ (List.mem_flatMap.mpr ⟨t, ht, ?_⟩)
        exact List.mem_map.mpr ⟨m, List.mem_filter.mpr ⟨hm, by simpa using haction⟩, rfl⟩
      exact written hstep (by simp)
  · have hstep : t.manifestStep ∈ steps prepared := List.mem_append_right _ (List.mem_map_of_mem ht)
    refine written hstep fun hkept => ?_
    have hbefore := readBounded_eq_ok (hfits t ht).manifestBefore
    have heq : t.manifestAfter = t.manifestBefore := by simpa [PreparedTarget.manifestStep] using hkept
    exact heq.trans hbefore.symm
  · rcases List.mem_append.mp hs with hs | hs
    · obtain ⟨t, ht, hst⟩ := List.mem_flatMap.mp hs
      obtain ⟨m, hm, -, hpath', -⟩ := mem_mutationSteps hst
      exact (hp t ht).2 m hm (hpath.symm.trans hpath')
    · obtain ⟨t, ht, rfl⟩ := List.mem_map.mp hs
      exact (hp t ht).1 hpath.symm

theorem targets_of_prepare
    (h : List.Forall₂ (fun target t => prepareTarget host operation files request assets target = .ok t ∧
      t.conflicts = []) request.targets prepared) :
    prepared.map PreparedTarget.target = request.targets ∧ ∀ t ∈ prepared, Fits host files request assets t := by
  refine ⟨?_, fun t ht => ?_⟩
  · rw [map_eq_of_forall₂ h fun target t hplan => (fits_of_prepare hplan.1 hplan.2).1, List.map_id']
  · obtain ⟨target, -, hplan, hnone⟩ := exists_mem_of_forall₂ h ht
    exact (fits_of_prepare hplan hnone).2

theorem steps_before (hfits : ∀ t ∈ prepared, Fits host files request assets t) :
    ∀ s ∈ steps prepared, readBounded files s.path maxConfigBytes = .ok s.before := by
  intro s hs
  rcases List.mem_append.mp hs with hs | hs
  · obtain ⟨t, ht, hst⟩ := List.mem_flatMap.mp hs
    obtain ⟨m, hm, -, hpath, hbefore, -⟩ := mem_mutationSteps hst
    rw [hpath, hbefore]
    exact (hfits t ht).before m hm
  · obtain ⟨t, ht, rfl⟩ := List.mem_map.mp hs
    exact (hfits t ht).manifestBefore

theorem run_carriedOut
    (h : List.Forall₂ (fun target t => prepareTarget host operation files request assets target = .ok t ∧
      t.conflicts = []) request.targets prepared) :
    ∃ n d, run host operation request assets { files } =
        (.completed (.applied n (!(changes prepared).isEmpty)), d) ∧ CarriedOut files prepared d.files := by
  obtain ⟨htargets, hfits⟩ := targets_of_prepare h
  obtain ⟨hprepare, hcan⟩ := prepare_clean.mpr h
  have hnodup : (prepared.map PreparedTarget.target).Nodup := htargets ▸ request.unique
  refine ⟨(prepared.flatMap PreparedTarget.mutationSteps).length,
    { files := settle files (changes prepared), writes := (changes prepared).map Change.write }, ?_,
    settle_carriedOut hnodup hfits⟩
  rw [run, hprepare]
  simp only [hcan, if_true, apply_quiet (steps_nodup hnodup hfits) (steps_before hfits)]

end Requests

end GraphSkillRuntime.Installer
