import GraphSkillRuntime.InstallerRoundTrip

/-!
What a successful install leaves behind, whatever was there before: every projected resource holds what
was written, and the manifest lists the resources with the hashes of their contents.
-/

namespace GraphSkillRuntime.Installer

open JsonText OrderedDict

variable {F : Type} {host : Installation F} {files files' : Files} {request : IntegrationRequest}
  {assets : AssetBundle} {target : IntegrationTarget} {owned : Option ManifestEntry} {m : Mutation}

/-- The resource has its content in place; a block is found by its markers whenever they are well formed. -/
def Holds (host : Installation F) (files : Files) : Resource F → Prop
  | .file _ path content => files path = some content
  | .jsonEntry _ path selector value =>
    ∃ text document current, files path = some text ∧ host.loads text = some document ∧
      lookupJson document selector = some current ∧
      host.sha256 (host.canonical current) = host.sha256 (host.canonical value)
  | .textBlock _ path marker content =>
    ∃ text, files path = some text ∧ ∀ bounds, markerBounds text marker = .ok bounds →
      ∃ start stop, bounds = some (start, stop) ∧ (text.take stop).drop start = content

theorem holds_json {id : String} {path : Path} {selector : List String} {value : Json F}
    (hwf : (Resource.jsonEntry id path selector value).WellFormed)
    (h : planInstallJson host files target id path selector value owned = .ok m) (hafter : files' path = m.after) :
    Holds host files' (.jsonEntry id path selector value) := by
  obtain ⟨hne, hvalue⟩ := hwf
  obtain ⟨-, before, document, created, -, hdecode, -, -, hcase⟩ := planInstallJson_eq_ok.mp h
  rcases hcase with ⟨current, hlookup, hhash, rfl⟩ | ⟨-, document', hset, rfl⟩
  · cases before with
    | none =>
      cases hdecode
      obtain ⟨k, ks, rfl⟩ := List.exists_cons_of_ne_nil hne
      cases hlookup
    | some text => exact ⟨text, document, current, hafter, decodeJsonDocument_some.mp hdecode, hlookup, hhash⟩
  · refine ⟨_, document', value, hafter, ?_, lookupJson_setJson hset, rfl⟩
    exact host.loads_pretty _ (distinct_setJson (distinct_of_decode hdecode) hvalue hset)

theorem slice_of_bounds {m : Marker} {body u v : Bytes} {n : ℕ} (hn : n = u.length)
    (h : markerBounds (u ++ renderBlock m body ++ v) m =
      (markerBounds (renderBlock m body) m).map (Option.map (shift n))) {bounds : Option (ℕ × ℕ)}
    (hbounds : markerBounds (u ++ renderBlock m body ++ v) m = .ok bounds) :
    ∃ start stop, bounds = some (start, stop) ∧
      ((u ++ renderBlock m body ++ v).take stop).drop start = renderBlock m body := by
  subst hn
  rw [h] at hbounds
  rcases markerBounds_renderBlock m body with hsole | hduplicated
  · rw [hsole] at hbounds
    cases hbounds
    refine ⟨_, _, rfl, ?_⟩
    have hlength : (renderBlock m body).length + u.length = (u ++ renderBlock m body).length := by
      rw [List.length_append, Nat.add_comm]
    rw [hlength, List.take_left, Nat.zero_add, List.drop_left]
  · rw [hduplicated] at hbounds
    cases hbounds

theorem holds_text {id : String} {path : Path} {marker : Marker} {content : Bytes}
    (hwf : (Resource.textBlock (F := F) id path marker content).WellFormed)
    (h : planInstallText host files id path marker content owned = .ok m) (hafter : files' path = m.after) :
    Holds host files' (.textBlock id path marker content) := by
  obtain ⟨body, rfl⟩ := hwf
  obtain ⟨before, bounds, -, -, hbounds, hcase⟩ := planInstallText_eq_ok.mp h
  rcases hcase with ⟨rfl, -, rfl⟩ | ⟨start, stop, rfl, -, rfl⟩
  · refine ⟨_, hafter, fun bounds h => ?_⟩
    have happend := markerBounds_appendTextBlock (renderBlock marker body) (markerBounds_eq_none.mp hbounds)
    rw [appendTextBlock_eq] at happend h ⊢
    rw [← List.append_nil (lead before ++ renderBlock marker body)] at happend h ⊢
    exact slice_of_bounds rfl happend h
  · refine ⟨_, hafter, fun bounds h => ?_⟩
    obtain ⟨hle, hreplace⟩ := markerBounds_replace hbounds body
    refine slice_of_bounds ?_ hreplace h
    rw [List.length_take, Nat.min_eq_left hle]

theorem planInstallResource_holds {r : Resource F} (hwf : r.WellFormed)
    (h : planInstallResource host files target r owned = .ok m) (hafter : files' r.path = m.after) :
    Holds host files' r := by
  cases r with
  | file id path content =>
    obtain ⟨before, -, -, rfl⟩ := planInstallFile_eq_ok.mp h
    exact hafter
  | jsonEntry id path selector value => exact holds_json hwf h hafter
  | textBlock id path marker content => exact holds_text hwf h hafter

def Records (host : Installation F) (resources : List (Resource F)) (entries : List ManifestEntry) : Prop :=
  List.Forall₂ (fun r entry => ∃ created parents, entry = ownedEntry host r created parents) resources entries

theorem records_of_plans {entries : List ManifestEntry} {resources : List (Resource F)} {mutations : List Mutation}
    (h : List.Forall₂ (fun r m => planInstallResource host files target r (entryOf entries r.resourceId) = .ok m)
      resources mutations) : Records host resources (mutations.filterMap Mutation.manifestEntry) := by
  induction h with
  | nil => exact .nil
  | cons hplan _ ih =>
    obtain ⟨action, before, after, created, parents, -, rfl, -⟩ := planInstallResource_eq_ok hplan
    exact .cons ⟨created, parents, rfl⟩ ih

structure Settled (host : Installation F) (files : Files) (request : IntegrationRequest) (assets : AssetBundle) :
    Prop where
  resources : ∀ target ∈ request.targets,
    validatedResources host target assets request = .ok (render host target assets request.scope request.root)
  holds : ∀ target ∈ request.targets, ∀ r ∈ render host target assets request.scope request.root,
    Holds host files r
  manifests : ∀ target ∈ request.targets, ∃ m : InstallManifest,
    files (manifestPath host request target) = some (host.manifestBytes m) ∧ m.assetVersion = assets.assetVersion ∧
      m.target = target ∧ m.scope = request.scope ∧
      Records host (render host target assets request.scope request.root) m.entries
  jsonc : .opencode ∈ request.targets →
    files (jsoncSibling (hostLayout .opencode request.scope request.root).configPath) = none

theorem jsoncSibling_ne {resources : List (Resource F)}
    (h : validatedResources host target assets request = .ok resources) :
    jsoncSibling (hostLayout .opencode request.scope request.root).configPath ≠ manifestPath host request target ∧
      ∀ r ∈ resources, jsoncSibling (hostLayout .opencode request.scope request.root).configPath ≠ r.path := by
  constructor
  · intro heq
    replace heq := congrArg List.getLast? heq
    simp [jsoncSibling, manifestPath] at heq
  · intro r hr heq
    obtain ⟨c, hc, hunder⟩ := exists_place (placed_of_mem h hr)
    rw [← heq] at hunder
    obtain rfl : target = .opencode := by
      cases hscope : request.scope with
      | user =>
        rw [hscope] at hc hunder
        obtain rfl : c = ".config" := by
          simpa [jsoncSibling, hostLayout, List.append_assoc] using hunder
        exact places_disjoint (c := ".config") hc (List.mem_singleton_self _)
      | project =>
        rw [hscope] at hc hunder
        obtain rfl : c = ".opencode" := by
          simpa [jsoncSibling, hostLayout, List.append_assoc] using hunder
        exact places_disjoint (c := ".opencode") hc (List.mem_singleton_self _)
    have hplaced := placed_of_mem h hr
    cases r <;> cases hscope : request.scope <;>
      simp [placed, hostLayout, hscope, jsoncSibling, Resource.path] at hplaced heq <;> simp [← heq] at hplaced

theorem jsoncSibling_ne_of_fits {t : PreparedTarget} (h : Fits host files request assets t) :
    jsoncSibling (hostLayout .opencode request.scope request.root).configPath ≠ t.manifestPath ∧
      ∀ m ∈ t.mutations, jsoncSibling (hostLayout .opencode request.scope request.root).configPath ≠ m.path := by
  obtain ⟨resources, hresources, hpaths⟩ := h.resources
  obtain ⟨hmanifest, hothers⟩ := jsoncSibling_ne hresources
  refine ⟨h.manifestPath ▸ hmanifest, fun m hm heq => ?_⟩
  obtain ⟨r, hr, hpath⟩ := List.mem_map.mp (hpaths m hm)
  exact hothers r hr (heq.trans hpath.symm)

theorem Settled.of_plans {prepared : List PreparedTarget}
    (hplans : List.Forall₂ (fun target t => prepareTarget host .install files request assets target = .ok t ∧
      t.conflicts = []) request.targets prepared)
    (hfinal : CarriedOut files prepared files') : Settled host files' request assets := by
  have plan {target : IntegrationTarget} (htarget : target ∈ request.targets) :
      ∃ t ∈ prepared, prepareInstallTarget host files request assets target = .ok t ∧ t.conflicts = [] :=
    exists_mem_of_forall₂ hplans.flip htarget
  refine ⟨?_, ?_, ?_, ?_⟩
  · intro target htarget
    obtain ⟨t, -, ht⟩ := plan htarget
    obtain ⟨resources, -, -, hresources, -⟩ := prepareInstallTarget_clean.mp ht
    exact validatedResources_eq hresources ▸ hresources
  · intro target htarget r hr
    obtain ⟨t, htp, ht⟩ := plan htarget
    obtain ⟨resources, manifest, mutations, hresources, -, hmutations, rfl⟩ := prepareInstallTarget_clean.mp ht
    obtain rfl := validatedResources_eq hresources
    obtain ⟨m, hm, hplan⟩ := exists_mem_of_forall₂ hmutations.flip hr
    have hpath : m.path = r.path := by
      obtain ⟨_, _, _, _, _, -, rfl, -⟩ := planInstallResource_eq_ok hplan
      rfl
    exact planInstallResource_holds (render_wellFormed hr) hplan (hpath ▸ hfinal.mutations _ htp m hm)
  · intro target htarget
    obtain ⟨t, htp, ht⟩ := plan htarget
    obtain ⟨resources, manifest, mutations, hresources, -, hmutations, rfl⟩ := prepareInstallTarget_clean.mp ht
    obtain rfl := validatedResources_eq hresources
    exact ⟨writtenManifest request assets target mutations, hfinal.manifests _ htp, rfl, rfl, rfl,
      records_of_plans hmutations⟩
  · intro hopencode
    obtain ⟨t, htp, ht⟩ := plan hopencode
    obtain ⟨resources, manifest, mutations, hresources, -, hmutations, rfl⟩ := prepareInstallTarget_clean.mp ht
    obtain rfl := validatedResources_eq hresources
    rw [hfinal.others]
    · obtain ⟨m, -, hplan⟩ := exists_mem_of_forall₂ hmutations.flip
        (@configResource_mem _ host request assets .opencode)
      have hnone := (planInstallJson_eq_ok.mp hplan).1
      simpa [configResource] using hnone
    · exact fun t ht => jsoncSibling_ne_of_fits ((targets_of_prepare hplans).2 t ht)

end GraphSkillRuntime.Installer
