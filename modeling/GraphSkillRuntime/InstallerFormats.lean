import GraphSkillRuntime.Installer
import GraphSkillRuntime.PyData
import Mathlib.Data.Countable.Basic
import Mathlib.Logic.Equiv.List

/-! Formats that meet the laws: JSON text for the documents, and any injective text for the manifests. -/

namespace GraphSkillRuntime.Installer

open OrderedDict JsonText

theorem strings_countable : Countable String := by
  have : Countable Char := Function.Injective.countable (f := Char.toNat) fun _ _ => Char.toNat_inj.mp
  exact Function.Injective.countable (f := String.toList) fun _ _ => String.toList_inj.mp

theorem bytes_countable : Countable Bytes := by
  have : Countable UInt8 := Function.Injective.countable (f := UInt8.toNat) fun _ _ => UInt8.toNat_inj.mp
  infer_instance

def ResourceKind.index : ResourceKind → ℕ
  | file => 0
  | jsonEntry => 1
  | textBlock => 2

def IntegrationTarget.index : IntegrationTarget → ℕ
  | claude => 0
  | codex => 1
  | copilot => 2
  | cursor => 3
  | gemini => 4
  | opencode => 5

def Selector.parts : Selector → Option (List String ⊕ Bytes)
  | whole => none
  | keys ks => some (.inl ks)
  | marker m => some (.inr m.name)

theorem Selector.parts_injective : Function.Injective Selector.parts := by
  intro s t h
  cases s <;> cases t <;> simp [Selector.parts] at h ⊢
  · exact h
  · next m m' =>
    cases m
    cases m'
    cases h
    rfl

theorem entries_countable : Countable ManifestEntry := by
  have := strings_countable
  have := bytes_countable
  refine Function.Injective.countable (f := fun e : ManifestEntry => (e.resourceId, e.kind.index, e.path,
    e.selector.parts, e.contentSha256, e.containerCreated, e.createdJsonParents)) ?_
  rintro ⟨id, kind, path, selector, hash, container, parents⟩
    ⟨id', kind', path', selector', hash', container', parents'⟩ h
  simp only [Prod.mk.injEq] at h
  obtain ⟨rfl, hkind, rfl, hselector, rfl, rfl, rfl⟩ := h
  obtain rfl := Selector.parts_injective hselector
  obtain rfl : kind = kind' := by
    cases kind <;> cases kind' <;> first | rfl | cases hkind
  rfl

theorem manifests_countable : Countable InstallManifest := by
  have := strings_countable
  have := entries_countable
  refine Function.Injective.countable (f := fun m : InstallManifest => (m.assetVersion, m.target.index,
    decide (m.scope = .user), m.entries)) ?_
  rintro ⟨version, target, scope, entries⟩ ⟨version', target', scope', entries'⟩ h
  simp only [Prod.mk.injEq] at h
  obtain ⟨rfl, htarget, hscope, rfl⟩ := h
  obtain rfl : target = target' := by
    cases target <;> cases target' <;> first | rfl | cases htarget
  obtain rfl : scope = scope' := by
    cases scope <;> cases scope' <;> first | rfl | cases hscope
  rfl

/-- Texts for some manifests; those of the others can be told apart from them by their first byte. -/
structure ManifestTexts where
  text : InstallManifest → Option Bytes
  injective : ∀ m m' b, text m = some b → text m' = some b → m = m'
  head : ∀ m b, text m = some b → b.head? ≠ some 0

namespace ManifestTexts

variable (T : ManifestTexts)

noncomputable def index : InstallManifest → ℕ := manifests_countable.exists_injective_nat'.choose

theorem index_injective : Function.Injective index := manifests_countable.exists_injective_nat'.choose_spec

noncomputable def bytes (m : InstallManifest) : Bytes := (T.text m).getD (List.replicate (index m + 1) 0)

theorem bytes_injective : Function.Injective T.bytes := by
  intro m m' h
  rw [bytes, bytes] at h
  cases hm : T.text m with
  | none =>
    cases hm' : T.text m' with
    | none =>
      have hlength := congrArg List.length h
      simp only [hm, hm', Option.getD_none, List.length_replicate] at hlength
      exact index_injective (by omega)
    | some b' =>
      rw [hm, hm', Option.getD_none, Option.getD_some] at h
      exact absurd (by rw [← h]; rfl) (T.head m' b' hm')
  | some b =>
    cases hm' : T.text m' with
    | none =>
      rw [hm, hm', Option.getD_none, Option.getD_some] at h
      exact absurd (by rw [h]; rfl) (T.head m b hm)
    | some b' =>
      rw [hm, hm', Option.getD_some, Option.getD_some] at h
      exact T.injective m m' b hm (h ▸ hm')

open Classical in
noncomputable def read (b : Bytes) : Option InstallManifest :=
  if h : ∃ m : InstallManifest, m.Valid ∧ T.bytes m = b then some h.choose else none

theorem read_bytes (m : InstallManifest) (hm : m.Valid) : T.read (T.bytes m) = some m := by
  have h : ∃ m' : InstallManifest, m'.Valid ∧ T.bytes m' = T.bytes m := ⟨m, hm, rfl⟩
  rw [read, dif_pos h, T.bytes_injective h.choose_spec.2]

theorem read_valid (b : Bytes) (m : InstallManifest) (h : T.read b = some m) : m.Valid := by
  rw [read] at h
  split at h
  · next hex =>
    obtain rfl := Option.some.inj h
    exact hex.choose_spec.1
  · cases h

end ManifestTexts

def utf8 (s : String) : Bytes := s.toUTF8.data.toList

theorem utf8_append (s t : String) : utf8 (s ++ t) = utf8 s ++ utf8 t := by
  simp [utf8]

theorem fromUTF8?_utf8 (s : String) : String.fromUTF8? ⟨(utf8 s).toArray⟩ = some s := by
  have h : (⟨(utf8 s).toArray⟩ : ByteArray) = s.toUTF8 := by simp [utf8]
  rw [h, String.fromUTF8?, String.toUTF8_eq_toByteArray, dif_pos s.isValidUTF8]
  rfl

def prettyText (doc : Document FloatLiteral) : Bytes := utf8 (.ofList (dumps PyData.literalFormat (.dict doc)))

open Classical in
noncomputable def loadsText (b : Bytes) : Option (Document FloatLiteral) :=
  match (String.fromUTF8? ⟨b.toArray⟩).bind fun s => loads PyData.literalFormat s.toList with
  | some (.dict doc) => if (Json.dict doc).Distinct then some doc else none
  | _ => none

theorem loadsText_prettyText (doc : Document FloatLiteral) (h : (Json.dict doc).Distinct) :
    loadsText (prettyText doc) = some doc := by
  rw [loadsText, prettyText, fromUTF8?_utf8, Option.bind_some, String.toList_ofList, loads_dumps PyData.literalFormat h]
  exact if_pos h

theorem loadsText_distinct (b : Bytes) (doc : Document FloatLiteral) (h : loadsText b = some doc) :
    (Json.dict doc).Distinct := by
  rw [loadsText] at h
  split at h
  · next doc' _ =>
    split at h
    · next hdistinct =>
      obtain rfl := Option.some.inj h
      exact hdistinct
    · cases h
  · cases h

noncomputable def ManifestTexts.formats (T : ManifestTexts) (tomlServers : Bytes → Option TomlServers)
    (tomlBody : String → Bytes) (sha256 : Bytes → Bytes) (hsha256 : ∀ b, isDigest (sha256 b) = true) :
    Formats FloatLiteral where
  loads := loadsText
  pretty := prettyText
  canonical v := utf8 (.ofList (dumps PyData.literalFormat v))
  readManifest := T.read
  manifestBytes := T.bytes
  tomlServers
  tomlBody
  sha256
  loads_distinct := loadsText_distinct
  loads_pretty := loadsText_prettyText
  readManifest_bytes := T.read_bytes
  readManifest_valid := T.read_valid
  sha256_digest := hsha256

/-! An installation for one project with Codex. -/

def sampleBody : Bytes :=
  utf8 ("[mcp_servers.gskill]\ncommand = \"/usr/bin/python3\"\n" ++
    "args = [\n    \"-m\",\n    \"graph_skill_runtime\",\n    \"mcp\",\n]")

def sampleDigest : Bytes := utf8 "64109411aa4fe62fc52a3754eddc0ec1ffb7219a617a468b109931e36a3b9f4d"

def sampleConfig : Path := ["work", ".codex", "config.toml"]

def sampleManifest (containerCreated : Bool) : InstallManifest where
  assetVersion := "1.0.0"
  target := .codex
  scope := .project
  entries := [
    { resourceId := "mcp:gskill", kind := .textBlock, path := sampleConfig, selector := .marker codexMarker
      contentSha256 := sampleDigest, containerCreated, createdJsonParents := [] }]

def sampleManifestText (containerCreated : Bool) : Bytes :=
  utf8 ("\x7b\n  \"schema_version\": \"gskill.install-manifest.v1\",\n  \"integration_id\": \"moirai\",\n" ++
    "  \"asset_version\": \"1.0.0\",\n  \"target\": \"codex\",\n  \"scope\": \"project\",\n  \"entries\": [\n" ++
    "    \x7b\n      \"resource_id\": \"mcp:gskill\",\n      \"resource_kind\": \"text_block\",\n" ++
    "      \"path\": \"/work/.codex/config.toml\",\n" ++
    "      \"selector\": [\n        \"graph-skill-runtime:moirai:gskill-mcp\"\n      ],\n" ++
    "      \"content_sha256\": \"64109411aa4fe62fc52a3754eddc0ec1ffb7219a617a468b109931e36a3b9f4d\",\n" ++
    "      \"container_created\": " ++ (if containerCreated then "true" else "false") ++
    ",\n      \"created_json_parents\": []\n    \x7d\n  ]\n\x7d\n")

theorem sampleManifestText_ne : sampleManifestText false ≠ sampleManifestText true := by
  intro h
  have hlength := congrArg List.length h
  simp only [sampleManifestText, utf8_append, List.length_append, if_true, Bool.false_eq_true, if_false] at hlength
  have hshorter : (utf8 "true").length < (utf8 "false").length := by decide +kernel
  omega

theorem length_sampleManifestText : (sampleManifestText false).length ≤ maxManifestBytes := by
  rw [sampleManifestText]
  simp only [utf8_append, List.length_append]
  decide +kernel

theorem sampleManifestText_head (containerCreated : Bool) : (sampleManifestText containerCreated).head? ≠ some 0 := by
  simp only [sampleManifestText, utf8_append, List.append_assoc]
  rw [List.head?_append]
  cases containerCreated <;> decide +kernel

open Classical in
noncomputable def sampleTexts : ManifestTexts where
  text m :=
    if m = sampleManifest false then some (sampleManifestText false)
    else if m = sampleManifest true then some (sampleManifestText true)
    else none
  injective m m' b hm hm' := by
    have hne := sampleManifestText_ne
    split_ifs at hm hm' <;> simp_all
  head m b hm := by
    split_ifs at hm
    · exact Option.some.inj hm ▸ sampleManifestText_head false
    · exact Option.some.inj hm ▸ sampleManifestText_head true

/-- Texts that hold the block have the server; the others are taken to be without servers. -/
def sampleServers (text : Bytes) : Option TomlServers :=
  if (find? codexMarker.beginLine text).isSome then some (.table true) else some .absent

def sampleSha256 (content : Bytes) : Bytes :=
  if content = renderBlock codexMarker sampleBody then sampleDigest else List.replicate 64 48

noncomputable def sampleHost : Installation FloatLiteral where
  toFormats := sampleTexts.formats sampleServers (fun _ => sampleBody) sampleSha256 (by
    intro b
    rw [sampleSha256]
    split <;> decide +kernel)
  userStateRoot := ["home", ".gskill"]
  pythonExecutable := "/usr/bin/python3"

def sampleRequest : IntegrationRequest where
  targets := [.codex]
  scope := .project
  root := ["work"]
  nonempty := by simp
  unique := by simp

def serverBundle : AssetBundle where
  assetVersion := "1.0.0"
  versioned := by decide
  skills := []
  roles := []
  skillIds := List.nodup_nil
  roleIds := List.nodup_nil
  hostNames := List.nodup_nil
  names := by simp

def sampleFiles (text : Bytes) : Files := fun path => if path = sampleConfig then some text else none

end GraphSkillRuntime.Installer
