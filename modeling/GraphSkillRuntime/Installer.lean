import GraphSkillRuntime.ConfigBlocks
import GraphSkillRuntime.JsonSelectors

/-!
The installer of optional host integrations: what the renderers project, how an install and an uninstall
are planned against the files and the ownership manifest, and how a plan is applied and rolled back.
-/

namespace GraphSkillRuntime.Installer

open OrderedDict JsonText

abbrev Path := List String

inductive IntegrationTarget where
  | claude | codex | copilot | cursor | gemini | opencode
  deriving DecidableEq

def IntegrationTarget.value : IntegrationTarget → String
  | claude => "claude"
  | codex => "codex"
  | copilot => "copilot"
  | cursor => "cursor"
  | gemini => "gemini"
  | opencode => "opencode"

inductive IntegrationScope where
  | user
  | project
  deriving DecidableEq

inductive ResourceKind where
  | file | jsonEntry | textBlock
  deriving DecidableEq

inductive IntegrationAction where
  | create | update | remove | unchanged
  deriving DecidableEq

structure IntegrationRequest where
  targets : List IntegrationTarget
  scope : IntegrationScope
  /-- The home directory for the user scope, and the project root for the project scope. -/
  root : Path
  nonempty : targets ≠ []
  unique : targets.Nodup

structure SkillAsset where
  id : String
  file : Bytes
  references : List (String × Bytes)

/-- `rendered` is what the renderer of each host makes of the role. -/
structure RoleAsset where
  id : String
  hostName : String
  rendered : IntegrationTarget → Bytes

def isAssetName (s : String) : Bool :=
  (s.toList.splitOn '-').all fun word => word ≠ [] && word.all fun c => c.isLower || c.isDigit

structure AssetBundle where
  assetVersion : String
  versioned : assetVersion ≠ ""
  skills : List SkillAsset
  roles : List RoleAsset
  skillIds : (skills.map SkillAsset.id).Nodup
  roleIds : (roles.map RoleAsset.id).Nodup
  hostNames : (roles.map RoleAsset.hostName).Nodup
  names : ∀ name ∈ roles.map RoleAsset.id ++ roles.map RoleAsset.hostName ++ skills.map SkillAsset.id,
    isAssetName name = true

inductive Resource (F : Type) where
  | file (resourceId : String) (path : Path) (content : Bytes)
  | jsonEntry (resourceId : String) (path : Path) (selector : List String) (value : Json F)
  | textBlock (resourceId : String) (path : Path) (marker : Marker) (content : Bytes)

namespace Resource

variable {F : Type}

def resourceId : Resource F → String
  | file id _ _ | jsonEntry id _ _ _ | textBlock id _ _ _ => id

def path : Resource F → Path
  | file _ path _ | jsonEntry _ path _ _ | textBlock _ path _ _ => path

end Resource

inductive Selector where
  | whole
  | keys (ks : List String)
  | marker (m : Marker)
  deriving DecidableEq

def resourceIdentity {F : Type} : Resource F → ResourceKind × Selector
  | .file _ _ _ => (.file, .whole)
  | .jsonEntry _ _ selector _ => (.jsonEntry, .keys selector)
  | .textBlock _ _ marker _ => (.textBlock, .marker marker)

structure HostLayout where
  skillRoot : Path
  agentRoot : Path
  configPath : Path

def hostLayout (target : IntegrationTarget) (scope : IntegrationScope) (root : Path) : HostLayout :=
  let under (base : Path) (config : Path) : HostLayout := ⟨base ++ ["skills"], base ++ ["agents"], config⟩
  match target, scope with
  | .claude, .user => under (root ++ [".claude"]) (root ++ [".claude.json"])
  | .claude, .project => under (root ++ [".claude"]) (root ++ [".mcp.json"])
  | .codex, _ =>
    ⟨root ++ [".agents", "skills"], root ++ [".codex", "agents"], root ++ [".codex", "config.toml"]⟩
  | .copilot, .user => under (root ++ [".copilot"]) (root ++ [".copilot", "mcp-config.json"])
  | .copilot, .project => under (root ++ [".github"]) (root ++ [".github", "mcp.json"])
  | .cursor, _ => under (root ++ [".cursor"]) (root ++ [".cursor", "mcp.json"])
  | .gemini, _ => under (root ++ [".gemini"]) (root ++ [".gemini", "settings.json"])
  | .opencode, .user => under (root ++ [".config", "opencode"]) (root ++ [".config", "opencode", "opencode.json"])
  | .opencode, .project => under (root ++ [".opencode"]) (root ++ [".opencode", "opencode.json"])

def agentName (target : IntegrationTarget) (role : RoleAsset) : String :=
  match target with
  | .codex => .ofList (role.hostName.toList.map fun c => if c = '-' then '_' else c)
  | _ => role.hostName

def agentSuffix : IntegrationTarget → String
  | .codex => ".toml"
  | _ => ".md"

def codexMarker : Marker where
  name := "graph-skill-runtime:moirai:gskill-mcp".toUTF8.data.toList
  oneLine := by decide

/-! The ownership manifest, and the formats the installer reads and writes. -/

structure ManifestEntry where
  resourceId : String
  kind : ResourceKind
  path : Path
  selector : Selector
  contentSha256 : Bytes
  containerCreated : Bool
  createdJsonParents : List (List String)

structure InstallManifest where
  assetVersion : String
  target : IntegrationTarget
  scope : IntegrationScope
  entries : List ManifestEntry

def isDigest (b : Bytes) : Bool :=
  b.length = 64 && b.all fun c => (48 ≤ c && c ≤ 57) || (97 ≤ c && c ≤ 102)

def InstallManifest.uniqueResources (m : InstallManifest) : Prop := (m.entries.map ManifestEntry.resourceId).Nodup

def InstallManifest.Valid (m : InstallManifest) : Prop :=
  m.assetVersion ≠ "" ∧ m.uniqueResources ∧
    ∀ entry ∈ m.entries, entry.resourceId ≠ "" ∧ isDigest entry.contentSha256 = true

/-- The `mcp_servers` of a TOML document. -/
inductive TomlServers where
  | absent
  | table (hasGskill : Bool)
  | notTable

/-- The libraries the installer calls: `json` with the duplicate-key check, the manifest model, `tomllib`,
`tomli_w` and `hashlib`. What is written can be read back. -/
structure Formats (F : Type) where
  loads : Bytes → Option (Document F)
  pretty : Document F → Bytes
  canonical : Json F → Bytes
  readManifest : Bytes → Option InstallManifest
  manifestBytes : InstallManifest → Bytes
  tomlServers : Bytes → Option TomlServers
  tomlBody : String → Bytes
  sha256 : Bytes → Bytes
  loads_distinct : ∀ b doc, loads b = some doc → (Json.dict doc).Distinct
  loads_pretty : ∀ doc, (Json.dict doc).Distinct → loads (pretty doc) = some doc
  readManifest_bytes : ∀ m : InstallManifest, m.Valid → readManifest (manifestBytes m) = some m
  readManifest_valid : ∀ b m, readManifest b = some m → m.Valid
  sha256_digest : ∀ b, isDigest (sha256 b) = true

structure Installation (F : Type) extends Formats F where
  userStateRoot : Path
  pythonExecutable : String

inductive Mismatch where
  | target
  | inventory
  | kind (resourceId : String)
  | path (resourceId : String)
  | selector (resourceId : String)
  deriving DecidableEq

inductive Refusal where
  | outsideRoots (path : Path)
  | unownedConfig (path : Path)
  | duplicateResource (resourceId : String)
  | duplicateAddress (path : Path)
  | inaccessible (path : Path)
  | tooLarge (path : Path)
  | manifestInvalid
  | manifestMismatch (m : Mismatch)
  | fileNotOwned
  | fileModified
  | jsoncExists
  | jsonInvalid
  | selector (e : SelectorError)
  | entryNotOwned
  | entryModified
  | tomlInvalid
  | markers (e : MarkerError)
  | serversNotTable
  | blockNotOwned
  | serverNotOwned
  | blockModified
  | changedAfterPlanning (path : Path)

def maxConfigBytes : ℕ := 4 * 1024 * 1024

def maxManifestBytes : ℕ := 1024 * 1024

abbrev Files := Path → Option Bytes

def readBounded (files : Files) (path : Path) (limit : ℕ) : Except Refusal (Option Bytes) :=
  match files path with
  | none => .ok none
  | some content => if limit < content.length then .error (.tooLarge path) else .ok (some content)

section

variable {F : Type} (host : Installation F)

def mcpProjection (target : IntegrationTarget) (configPath : Path) : Resource F :=
  let id := "mcp:gskill"
  let text (s : String) : Json F := .str s
  let command := text host.pythonExecutable
  let args := [text "-m", text "graph_skill_runtime", text "mcp"]
  match target with
  | .codex => .textBlock id configPath codexMarker (renderBlock codexMarker (host.tomlBody host.pythonExecutable))
  | .copilot =>
    .jsonEntry id configPath ["mcpServers", "gskill"]
      (.dict [("type", text "local"), ("command", command), ("args", .list args), ("tools", .list [text "*"])])
  | .opencode =>
    .jsonEntry id configPath ["mcp", "servers", "gskill"]
      (.dict [("type", text "local"), ("command", .list (command :: args))])
  | .claude | .cursor | .gemini =>
    .jsonEntry id configPath ["mcpServers", "gskill"] (.dict [("command", command), ("args", .list args)])

def skillResources (skillRoot : Path) (skill : SkillAsset) : List (Resource F) :=
  .file ("skill:" ++ skill.id ++ ":SKILL.md") (skillRoot ++ [skill.id, "SKILL.md"]) skill.file ::
    skill.references.map fun (filename, content) =>
      .file ("skill:" ++ skill.id ++ ":reference:" ++ filename)
        (skillRoot ++ [skill.id, "references", filename]) content

def roleResource (target : IntegrationTarget) (agentRoot : Path) (role : RoleAsset) : Resource F :=
  .file ("role:" ++ role.id) (agentRoot ++ [agentName target role ++ agentSuffix target]) (role.rendered target)

def render (target : IntegrationTarget) (assets : AssetBundle) (scope : IntegrationScope) (root : Path) :
    List (Resource F) :=
  let layout := hostLayout target scope root
  assets.skills.flatMap (skillResources layout.skillRoot) ++
    assets.roles.map (roleResource target layout.agentRoot) ++ [mcpProjection host target layout.configPath]

def placed (layout : HostLayout) : Resource F → Bool
  | .file _ path _ => layout.skillRoot.isPrefixOf path || layout.agentRoot.isPrefixOf path
  | .jsonEntry _ path _ _ | .textBlock _ path _ _ => path == layout.configPath

def misplaced : Resource F → Refusal
  | .file _ path _ => .outsideRoots path
  | .jsonEntry _ path _ _ | .textBlock _ path _ _ => .unownedConfig path

def address (r : Resource F) : Path × Selector := (r.path, (resourceIdentity r).2)

def validateResources (layout : HostLayout) :
    List String → List (Path × Selector) → List (Resource F) → Except Refusal (List (Resource F))
  | _, _, [] => .ok []
  | ids, addresses, r :: rs =>
    if !placed layout r then .error (misplaced r)
    else if ids.contains r.resourceId then .error (.duplicateResource r.resourceId)
    else if addresses.contains (address r) then .error (.duplicateAddress r.path)
    else (validateResources layout (r.resourceId :: ids) (address r :: addresses) rs).map (r :: ·)

def validatedResources (target : IntegrationTarget) (assets : AssetBundle) (request : IntegrationRequest) :
    Except Refusal (List (Resource F)) :=
  validateResources (hostLayout target request.scope request.root) [] []
    (render host target assets request.scope request.root)

def manifestPath (request : IntegrationRequest) (target : IntegrationTarget) : Path :=
  (match request.scope with
    | .user => host.userStateRoot
    | .project => request.root ++ [".gskill"]) ++
      ["integrations", "moirai", target.value, "install-manifest.json"]

structure Mutation where
  resourceId : String
  kind : ResourceKind
  path : Path
  selector : Selector
  action : IntegrationAction
  contentSha256 : Option Bytes
  before : Option Bytes
  after : Option Bytes
  manifestEntry : Option ManifestEntry

def contentHash : Resource F → Bytes
  | .file _ _ content | .textBlock _ _ _ content => host.sha256 content
  | .jsonEntry _ _ _ value => host.sha256 (host.canonical value)

def ownedEntry (r : Resource F) (containerCreated : Bool) (createdJsonParents : List (List String)) :
    ManifestEntry where
  resourceId := r.resourceId
  kind := (resourceIdentity r).1
  path := r.path
  selector := (resourceIdentity r).2
  contentSha256 := contentHash host r
  containerCreated
  createdJsonParents

def installMutation (r : Resource F) (action : IntegrationAction) (before after : Option Bytes)
    (entry : ManifestEntry) : Mutation where
  resourceId := r.resourceId
  kind := (resourceIdentity r).1
  path := r.path
  selector := (resourceIdentity r).2
  action
  contentSha256 := some (contentHash host r)
  before
  after
  manifestEntry := some entry

def planInstallFile (files : Files) (resourceId : String) (path : Path) (content : Bytes)
    (owned : Option ManifestEntry) : Except Refusal Mutation := do
  let r : Resource F := .file resourceId path content
  let before ← readBounded files path maxConfigBytes
  let mutation (action : IntegrationAction) : Mutation :=
    installMutation host r action before (some content) (ownedEntry host r false [])
  match owned, before with
  | _, none => .ok (mutation .create)
  | none, some _ => .error .fileNotOwned
  | some entry, some current =>
    if host.sha256 current ≠ entry.contentSha256 then .error .fileModified
    else .ok (mutation (if current = content then .unchanged else .update))

def decodeJsonDocument (content : Option Bytes) : Except Refusal (Document F) :=
  match content with
  | none => .ok []
  | some content =>
    match host.loads content with
    | some doc => .ok doc
    | none => .error .jsonInvalid

def ofSelector {α : Type} : Except SelectorError α → Except Refusal α
  | .ok a => .ok a
  | .error e => .error (.selector e)

/-- `path.with_suffix(".jsonc")` of the OpenCode configuration. -/
def jsoncSibling (path : Path) : Path := path.dropLast ++ ["opencode.jsonc"]

def createsContainer (owned : Option ManifestEntry) (before : Option Bytes) : Bool :=
  match owned with
  | some entry => entry.containerCreated
  | none => before.isNone

def createdParents (owned : Option ManifestEntry) (selector : List String) (document : Document F) :
    Except Refusal (List (List String)) :=
  match owned with
  | some entry => .ok entry.createdJsonParents
  | none => ofSelector (missingJsonParents selector document)

def planInstallJson (files : Files) (target : IntegrationTarget) (resourceId : String) (path : Path)
    (selector : List String) (value : Json F) (owned : Option ManifestEntry) : Except Refusal Mutation := do
  let r : Resource F := .jsonEntry resourceId path selector value
  if target = .opencode ∧ (files (jsoncSibling path)).isSome then .error .jsoncExists
  else
    let before ← readBounded files path maxConfigBytes
    let document ← decodeJsonDocument host before
    let current := lookupJson document selector
    let created ← createdParents owned selector document
    let entry := ownedEntry host r (createsContainer owned before) created
    let write : Except Refusal Mutation := do
      let document ← ofSelector (setJson selector value document)
      let after := host.pretty document
      .ok (installMutation host r
        (if current.isNone then .create else if before = some after then .unchanged else .update)
        before (some after) entry)
    match owned, current with
    | none, some _ => .error .entryNotOwned
    | some owned, some current =>
      if host.sha256 (host.canonical current) ≠ owned.contentSha256 then .error .entryModified
      else if host.sha256 (host.canonical current) = contentHash host r then
        .ok (installMutation host r .unchanged before before entry)
      else write
    | _, none => write

/-- `tomllib` has read the text already, unless the file is absent. -/
def tomlHasGskillServer (content : Bytes) : Except Refusal Bool :=
  if content = [] then .ok false
  else
    match host.tomlServers content with
    | none => .error .tomlInvalid
    | some .absent => .ok false
    | some (.table hasGskill) => .ok hasGskill
    | some .notTable => .error .serversNotTable

def textBounds (content : Bytes) (marker : Marker) : Except Refusal (Option (ℕ × ℕ)) :=
  match markerBounds content marker with
  | .ok bounds => .ok bounds
  | .error e => .error (.markers e)

def planInstallText (files : Files) (resourceId : String) (path : Path) (marker : Marker) (content : Bytes)
    (owned : Option ManifestEntry) : Except Refusal Mutation := do
  let r : Resource F := .textBlock resourceId path marker content
  let before ← readBounded files path maxConfigBytes
  let raw := before.getD []
  if before.isSome ∧ (host.tomlServers raw).isNone then .error .tomlInvalid
  else
    let bounds ← textBounds raw marker
    let mutation (action : IntegrationAction) (after : Bytes) : Mutation :=
      installMutation host r action before (some after) (ownedEntry host r (createsContainer owned before) [])
    match owned, bounds with
    | none, some _ => .error .blockNotOwned
    | _, none =>
      if ← tomlHasGskillServer host raw then .error .serverNotOwned
      else .ok (mutation .create (appendTextBlock before content))
    | some owned, some (start, stop) =>
      if host.sha256 ((raw.take stop).drop start) ≠ owned.contentSha256 then .error .blockModified
      else
        let after := raw.take start ++ content ++ raw.drop stop
        .ok (mutation (if before = some after then .unchanged else .update) after)

def planInstallResource (files : Files) (target : IntegrationTarget) (r : Resource F)
    (owned : Option ManifestEntry) : Except Refusal Mutation :=
  match r with
  | .file id path content => planInstallFile host files id path content owned
  | .jsonEntry id path selector value => planInstallJson host files target id path selector value owned
  | .textBlock id path marker content => planInstallText host files id path marker content owned

def uninstallFileState (entry : ManifestEntry) (before : Option Bytes) :
    Except Refusal (IntegrationAction × Option Bytes) :=
  match before with
  | none => .ok (.unchanged, none)
  | some content => if host.sha256 content ≠ entry.contentSha256 then .error .fileModified else .ok (.remove, none)

def uninstallJsonState (entry : ManifestEntry) (selector : List String) (before : Option Bytes) :
    Except Refusal (IntegrationAction × Option Bytes) :=
  match before with
  | none => .ok (.unchanged, none)
  | some content => do
    let document ← decodeJsonDocument host (some content)
    match lookupJson document selector with
    | none => .ok (.unchanged, some content)
    | some current =>
      if host.sha256 (host.canonical current) ≠ entry.contentSha256 then .error .entryModified
      else
        let document ← ofSelector (removeJson selector document)
        let document := pruneCreatedJsonParents entry.createdJsonParents document
        if entry.containerCreated = true ∧ document = [] then .ok (.remove, none)
        else .ok (.remove, some (host.pretty document))

/-- Nothing but ASCII white space, as `bytes.strip` has it. -/
def isBlank (content : Bytes) : Bool := content.all fun b => b = 32 || (9 ≤ b && b ≤ 13)

def uninstallTextState (entry : ManifestEntry) (marker : Marker) (before : Option Bytes) :
    Except Refusal (IntegrationAction × Option Bytes) :=
  match before with
  | none => .ok (.unchanged, none)
  | some content => do
    match ← textBounds content marker with
    | none => .ok (.unchanged, some content)
    | some (start, stop) =>
      if host.sha256 ((content.take stop).drop start) ≠ entry.contentSha256 then .error .blockModified
      else
        let remaining := removeTextBlock content (start, stop)
        .ok (.remove, if entry.containerCreated && isBlank remaining then none else some remaining)

def uninstallState (entry : ManifestEntry) (before : Option Bytes) :
    Except Refusal (IntegrationAction × Option Bytes) :=
  match entry.kind, entry.selector with
  | .file, _ => uninstallFileState host entry before
  | .jsonEntry, .keys selector => uninstallJsonState host entry selector before
  | .textBlock, .marker marker => uninstallTextState host entry marker before
  | _, _ => .error .manifestInvalid

def planUninstallEntry (files : Files) (entry : ManifestEntry) : Except Refusal Mutation := do
  let before ← readBounded files entry.path maxConfigBytes
  let (action, after) ← uninstallState host entry before
  .ok { resourceId := entry.resourceId, kind := entry.kind, path := entry.path, selector := entry.selector,
        action, contentSha256 := some entry.contentSha256, before, after, manifestEntry := none }

/-- The content of the manifest and what it says; an unreadable one is a conflict. -/
def readInstallManifest (files : Files) (path : Path) : Except Refusal (Option (Bytes × InstallManifest)) :=
  match readBounded files path maxManifestBytes with
  | .error e => .error e
  | .ok none => .ok none
  | .ok (some content) =>
    match host.readManifest content with
    | some m => .ok (some (content, m))
    | none => .error .manifestInvalid

def entryOf (entries : List ManifestEntry) (resourceId : String) : Option ManifestEntry :=
  entries.find? fun entry => entry.resourceId = resourceId

def resourceMismatch (entries : List ManifestEntry) (r : Resource F) : Option Mismatch :=
  match entryOf entries r.resourceId with
  | none => some .inventory
  | some entry =>
    if entry.kind ≠ (resourceIdentity r).1 then some (.kind entry.resourceId)
    else if entry.path ≠ r.path then some (.path entry.resourceId)
    else if entry.selector ≠ (resourceIdentity r).2 then some (.selector entry.resourceId)
    else none

def validateManifest (m : InstallManifest) (scope : IntegrationScope) (target : IntegrationTarget)
    (resources : List (Resource F)) : Option Mismatch :=
  if m.target ≠ target ∨ m.scope ≠ scope then some .target
  else if ¬ ((∀ entry ∈ m.entries, entry.resourceId ∈ resources.map Resource.resourceId) ∧
      ∀ r ∈ resources, r.resourceId ∈ m.entries.map ManifestEntry.resourceId) then some .inventory
  else resources.findSome? (resourceMismatch m.entries)

structure IntegrationConflict where
  target : IntegrationTarget
  resourceId : String
  path : Path
  reason : Refusal

structure PreparedTarget where
  target : IntegrationTarget
  manifestPath : Path
  manifestBefore : Option Bytes
  manifestAfter : Option Bytes
  mutations : List Mutation
  conflicts : List IntegrationConflict

def refused (target : IntegrationTarget) (path : Path) (before : Option Bytes) (reason : Refusal) :
    PreparedTarget :=
  { target, manifestPath := path, manifestBefore := before, manifestAfter := none, mutations := []
    conflicts := [⟨target, "manifest", path, reason⟩] }

def planInstallOrConflict (files : Files) (target : IntegrationTarget) (entries : List ManifestEntry)
    (r : Resource F) : Mutation ⊕ IntegrationConflict :=
  match planInstallResource host files target r (entryOf entries r.resourceId) with
  | .ok mutation => .inl mutation
  | .error reason => .inr ⟨target, r.resourceId, r.path, reason⟩

def ownedEntries (manifest : Option (Bytes × InstallManifest)) : List ManifestEntry :=
  match manifest with
  | some (_, m) => m.entries
  | none => []

def installTarget (files : Files) (request : IntegrationRequest) (assets : AssetBundle)
    (target : IntegrationTarget) (resources : List (Resource F))
    (manifest : Option (Bytes × InstallManifest)) : PreparedTarget :=
  let planned := resources.map (planInstallOrConflict host files target (ownedEntries manifest))
  let mutations := planned.filterMap Sum.getLeft?
  let entries := mutations.filterMap Mutation.manifestEntry
  { target
    manifestPath := manifestPath host request target
    manifestBefore := manifest.map Prod.fst
    manifestAfter :=
      if entries.length = resources.length then
        some (host.manifestBytes
          { assetVersion := assets.assetVersion, target, scope := request.scope, entries })
      else none
    mutations
    conflicts := planned.filterMap Sum.getRight? }

def planUninstallOrConflict (files : Files) (target : IntegrationTarget) (entry : ManifestEntry) :
    Mutation ⊕ IntegrationConflict :=
  match planUninstallEntry host files entry with
  | .ok mutation => .inl mutation
  | .error reason => .inr ⟨target, entry.resourceId, entry.path, reason⟩

def uninstallTarget (files : Files) (request : IntegrationRequest) (target : IntegrationTarget)
    (manifest : Option (Bytes × InstallManifest)) : PreparedTarget :=
  let planned := (ownedEntries manifest).map (planUninstallOrConflict host files target)
  { target
    manifestPath := manifestPath host request target
    manifestBefore := manifest.map Prod.fst
    manifestAfter := none
    mutations := planned.filterMap Sum.getLeft?
    conflicts := planned.filterMap Sum.getRight? }

def withManifest (files : Files) (request : IntegrationRequest) (assets : AssetBundle) (target : IntegrationTarget)
    (plan : List (Resource F) → Option (Bytes × InstallManifest) → PreparedTarget) :
    Except Refusal PreparedTarget := do
  let resources ← validatedResources host target assets request
  let path := manifestPath host request target
  match readInstallManifest host files path with
  | .error reason => .ok (refused target path none reason)
  | .ok none => .ok (plan resources none)
  | .ok (some (content, m)) =>
    match validateManifest m request.scope target resources with
    | some mismatch => .ok (refused target path (some content) (.manifestMismatch mismatch))
    | none => .ok (plan resources (some (content, m)))

def prepareInstallTarget (files : Files) (request : IntegrationRequest) (assets : AssetBundle)
    (target : IntegrationTarget) : Except Refusal PreparedTarget :=
  withManifest host files request assets target (installTarget host files request assets target)

def prepareUninstallTarget (files : Files) (request : IntegrationRequest) (assets : AssetBundle)
    (target : IntegrationTarget) : Except Refusal PreparedTarget :=
  withManifest host files request assets target fun _ => uninstallTarget host files request target

inductive IntegrationOperation where
  | install
  | uninstall
  deriving DecidableEq

def prepareTarget (operation : IntegrationOperation) (files : Files) (request : IntegrationRequest)
    (assets : AssetBundle) (target : IntegrationTarget) : Except Refusal PreparedTarget :=
  match operation with
  | .install => prepareInstallTarget host files request assets target
  | .uninstall => prepareUninstallTarget host files request assets target

/-- The targets of the request in order; a renderer that breaks its contract stops the call. -/
def prepare (operation : IntegrationOperation) (files : Files) (request : IntegrationRequest)
    (assets : AssetBundle) : Except Refusal (List PreparedTarget) :=
  request.targets.mapM (prepareTarget host operation files request assets)

def canApply (prepared : List PreparedTarget) : Bool := prepared.all fun t => t.conflicts.isEmpty

end

inductive Author where
  | installer
  | other
  deriving DecidableEq

/-- One change of a file; a single change is atomic. -/
structure Write where
  author : Author
  path : Path
  content : Option Bytes

/-- What others write before the installer's next access to a file, and whether that access fails. -/
structure Moment where
  others : List (Path × Option Bytes) := []
  fails : Bool := false

/-- The files while an operation is applied, with every write so far and what is still to happen. -/
structure Disk where
  files : Files
  writes : List Write := []
  script : List Moment := []

namespace Disk

def write (d : Disk) (author : Author) (path : Path) (content : Option Bytes) : Disk :=
  { d with files := Function.update d.files path content, writes := d.writes ++ [⟨author, path, content⟩] }

def pass (d : Disk) : Bool × Disk :=
  match d.script with
  | [] => (false, d)
  | moment :: script =>
    (moment.fails,
      moment.others.foldl (fun d w => d.write .other w.1 w.2) { d with script := script })

def read (d : Disk) (path : Path) (limit : ℕ) : Except Refusal (Option Bytes) × Disk :=
  match d.pass with
  | (true, d) => (.error (.inaccessible path), d)
  | (false, d) => (readBounded d.files path limit, d)

def assertUnchanged (d : Disk) (path : Path) (expected : Option Bytes) : Except Refusal Unit × Disk :=
  match d.read path maxConfigBytes with
  | (.error e, d) => (.error e, d)
  | (.ok current, d) => (if current = expected then .ok () else .error (.changedAfterPlanning path), d)

def writeOrRemove (d : Disk) (path : Path) (content : Option Bytes) : Except Refusal Unit × Disk :=
  match d.pass with
  | (true, d) => (.error (.inaccessible path), d)
  | (false, d) => (.ok (), d.write .installer path content)

end Disk

/-- A path with its content before the operation and the content the operation gives it. -/
structure Change where
  path : Path
  before : Option Bytes
  after : Option Bytes
  deriving DecidableEq

structure Step extends Change where
  written : Bool

def PreparedTarget.mutationSteps (t : PreparedTarget) : List Step :=
  (t.mutations.filter fun m => m.action ≠ .unchanged).map fun m =>
    { path := m.path, before := m.before, after := m.after, written := true }

def PreparedTarget.manifestStep (t : PreparedTarget) : Step :=
  { path := t.manifestPath, before := t.manifestBefore, after := t.manifestAfter
    written := t.manifestAfter ≠ t.manifestBefore }

def steps (prepared : List PreparedTarget) : List Step :=
  prepared.flatMap PreparedTarget.mutationSteps ++ prepared.map PreparedTarget.manifestStep

def applySteps : List Step → List Change → Disk → (Except Refusal Unit × List Change) × Disk
  | [], touched, d => ((.ok (), touched), d)
  | s :: rest, touched, d =>
    match d.assertUnchanged s.path s.before with
    | (.error e, d) => ((.error e, touched), d)
    | (.ok (), d) =>
      if s.written then
        match d.writeOrRemove s.path s.after with
        | (.error e, d) => ((.error e, touched), d)
        | (.ok (), d) => applySteps rest (touched ++ [s.toChange]) d
      else applySteps rest touched d

def restoreChange (c : Change) (d : Disk) : Option Path × Disk :=
  match d.read c.path maxConfigBytes with
  | (.error _, d) => (some c.path, d)
  | (.ok current, d) =>
    if current ≠ c.after then (some c.path, d)
    else
      match d.writeOrRemove c.path c.before with
      | (.error _, d) => (some c.path, d)
      | (.ok (), d) => (none, d)

def restore : List Change → Disk → List Path × Disk
  | [], d => ([], d)
  | c :: rest, d =>
    let (failure, d) := restoreChange c d
    let (failures, d) := restore rest d
    (failure.toList ++ failures, d)

inductive ApplyResult where
  | applied (changes : ℕ) (changed : Bool)
  | failed (reason : Refusal) (touched : List Change) (rollbackFailures : List Path)

def apply (prepared : List PreparedTarget) (d : Disk) : ApplyResult × Disk :=
  match applySteps (steps prepared) [] d with
  | ((.ok (), touched), d) =>
    (.applied (prepared.flatMap PreparedTarget.mutationSteps).length (!touched.isEmpty), d)
  | ((.error reason, touched), d) =>
    let (failures, d) := restore touched.reverse d
    (.failed reason touched failures, d)

inductive Outcome where
  | raised (reason : Refusal)
  | conflict
  | completed (result : ApplyResult)

section

variable {F : Type} (host : Installation F)

/-- `install` and `uninstall`. -/
def run (operation : IntegrationOperation) (request : IntegrationRequest) (assets : AssetBundle) (d : Disk) :
    Outcome × Disk :=
  match prepare host operation d.files request assets with
  | .error reason => (.raised reason, d)
  | .ok prepared =>
    if canApply prepared then
      let (result, d) := apply prepared d
      (.completed result, d)
    else (.conflict, d)

end

end GraphSkillRuntime.Installer
