import GraphSkillRuntime.ByteFrames
import GraphSkillRuntime.Value
import Mathlib.Data.List.Sort
import Mathlib.Data.List.Forall2
import Mathlib.Data.String.Basic

namespace GraphSkillRuntime.ExecutionFingerprint

open OrderedDict ByteFrames

/-- A bytes object in memory; no address space reaches 256 ^ 7 bytes. -/
structure Bytes where
  data : List UInt8
  fits : data.length < 256 ^ 7

theorem Bytes.ext {a b : Bytes} (h : a.data = b.data) : a = b := by
  cases a
  cases b
  cases h
  rfl

def bytes? (data : List UInt8) : Option Bytes :=
  if h : data.length < 256 ^ 7 then some ⟨data, h⟩ else none

/-- The code outside this module. `none` is a raised exception. -/
structure Libraries (Doc : Type) where
  parseMarkdownParts : Bytes → Option (Dict String Value × String)
  dumpsCompact : Dict String Value → Option String
  safeLoad : Bytes → Option Doc
  dumpsSorted : Doc → Option String
  readGraphYaml : Bytes → Option Doc

structure SourceTree where
  files : List (String × Bytes)
  distinct : (files.map Prod.fst).Nodup
  noNul : ∀ f ∈ files, '\x00' ∉ f.1.toList

def ignoredPart (part : List Char) : Bool := part.head? == some '.' || part == "__pycache__".toList

def ignoredSuffix (path : String) : Bool :=
  [".pyc", ".pyo", ".pyd"].any (fun suffix => suffix.toList.isSuffixOf path.toList)

def included (path : String) : Bool := !(path.toList.splitOn '/').any ignoredPart && !ignoredSuffix path

def SourceTree.artifactFiles (t : SourceTree) : List (String × Bytes) :=
  (t.files.filter (fun f => included f.1)).insertionSort (fun f g => f.1 ≤ g.1)

def SourceTree.artifactRelativePaths (t : SourceTree) : List String := t.artifactFiles.map Prod.fst

/-- The arguments of the fingerprint: the source tree and the runtime-config fingerprint. -/
structure Source where
  tree : SourceTree
  runtime : Option String
  runtimeFits : ∀ r, runtime = some r → (encode r).length < 256 ^ 7

section

variable {Doc : Type} (L : Libraries Doc)

def stableFrontmatter (frontmatter : Dict String Value) : Dict String Value :=
  match dictAt frontmatter "metadata" with
  | some metadata => frontmatter.set "metadata" (Value.ofDict (metadata.erase "ui"))
  | none => frontmatter

def canonicalSkillEntry (content : Bytes) : Option Bytes := do
  let parts ← L.parseMarkdownParts content
  let frontmatter ← L.dumpsCompact (stableFrontmatter parts.1)
  bytes? (encode ("---\n" ++ frontmatter ++ "\n---\n" ++ parts.2))

def canonicalGraph (content : Bytes) : Option Bytes := do
  let document ← L.safeLoad content
  let text ← L.dumpsSorted document
  bytes? (encode text)

def endsGraphYaml (path : String) : Bool := "graph.yaml".toList.isSuffixOf path.toList

def fingerprintFileContent (path : String) (content : Bytes) : Bytes :=
  if path = "SKILL.md" then (canonicalSkillEntry L content).getD content
  else if endsGraphYaml path then (canonicalGraph L content).getD content
  else content

def fileFrame (f : String × Bytes) : List UInt8 × List UInt8 :=
  (encode f.1, (fingerprintFileContent L f.1 f.2).data)

/-- The runtime fingerprint as its truth value has it: the empty text counts as none. -/
def active (runtime : Option String) : Option String := runtime.filter (fun r => r ≠ "")

def runtimeFrames (runtime : Option String) : List (List UInt8 × List UInt8) :=
  (active runtime).toList.map (fun r => (encode "runtime_config", encode r))

/-- What `_execution_fingerprint` feeds to the hasher. -/
def executionBytes (s : Source) : List UInt8 :=
  (s.tree.artifactFiles.map (fileFrame L) ++ runtimeFrames s.runtime).flatMap frame

def IsGraphFile (path : String) : Prop := path = "graph.yaml" ∨ "/graph.yaml".toList <:+ path.toList

structure SameProgram (x y : Source) : Prop where
  paths : x.tree.artifactRelativePaths = y.tree.artifactRelativePaths
  files : ∀ p b c, (p, b) ∈ x.tree.artifactFiles → (p, c) ∈ y.tree.artifactFiles →
    p ≠ "SKILL.md" → ¬IsGraphFile p → b = c
  graphs : ∀ p b c, (p, b) ∈ x.tree.artifactFiles → (p, c) ∈ y.tree.artifactFiles →
    IsGraphFile p → L.readGraphYaml b = L.readGraphYaml c
  runtime : x.runtime = y.runtime

def FingerprintSound (x y : Source) : Prop := executionBytes L x = executionBytes L y → SameProgram L x y

def Alike (fs gs : List (String × Bytes)) : Prop :=
  List.Forall₂ (fun f g => f.1 = g.1 ∧ fingerprintFileContent L f.1 f.2 = fingerprintFileContent L g.1 g.2) fs gs

/-- The last file of `x` is named as the runtime entry and holds the runtime fingerprint of `y`. -/
def Shadows (x y : Source) : Prop :=
  active x.runtime = none ∧ ∃ fs content r, active y.runtime = some r ∧
    x.tree.artifactFiles = fs ++ [("runtime_config", content)] ∧ content.data = encode r ∧
    Alike L fs y.tree.artifactFiles

/-- Contents of one path ending in `graph.yaml` that the program reads alike. -/
def ReadAlike (path : String) (b c : Bytes) : Prop :=
  (IsGraphFile path → L.readGraphYaml b = L.readGraphYaml c) ∧
    (endsGraphYaml path = true → ¬IsGraphFile path → b = c)

/-- Neither source shadows the runtime entry of the other, and sources that differ in no canonical content are read
alike and agree on whether the runtime fingerprint is absent or empty. -/
structure Apart (x y : Source) : Prop where
  left : ¬Shadows L x y
  right : ¬Shadows L y x
  alike : Alike L x.tree.artifactFiles y.tree.artifactFiles → active x.runtime = active y.runtime →
    x.runtime = y.runtime ∧
      ∀ p b c, (p, b) ∈ x.tree.artifactFiles → (p, c) ∈ y.tree.artifactFiles → ReadAlike L p b c

theorem SourceTree.mem_files {t : SourceTree} {f : String × Bytes} (h : f ∈ t.artifactFiles) : f ∈ t.files := by
  rw [SourceTree.artifactFiles, List.mem_insertionSort] at h
  exact List.mem_of_mem_filter h

theorem SourceTree.eq_of_path {t : SourceTree} {p : String} {b c : Bytes} (hb : (p, b) ∈ t.artifactFiles)
    (hc : (p, c) ∈ t.artifactFiles) : b = c := by
  have := List.inj_on_of_nodup_map t.distinct (t.mem_files hb) (t.mem_files hc) rfl
  exact congrArg Prod.snd this

theorem alike_iff {fs gs : List (String × Bytes)} : Alike L fs gs ↔ fs.map (fileFrame L) = gs.map (fileFrame L) := by
  rw [← List.forall₂_eq_eq_eq, List.forall₂_map_left_iff, List.forall₂_map_right_iff]
  constructor
  · intro h
    apply h.imp
    rintro f g ⟨hpath, hcontent⟩
    rw [fileFrame, fileFrame, hcontent, hpath]
  · intro h
    apply h.imp
    intro f g hframe
    obtain ⟨hpath, hcontent⟩ := Prod.mk.inj hframe
    exact ⟨encode_injective hpath, Bytes.ext hcontent⟩

theorem Alike.paths {fs gs : List (String × Bytes)} (h : Alike L fs gs) : fs.map Prod.fst = gs.map Prod.fst := by
  rw [← List.forall₂_eq_eq_eq, List.forall₂_map_left_iff, List.forall₂_map_right_iff]
  exact h.imp (fun _ _ hfg => hfg.1)

theorem Alike.content {x y : SourceTree} {p : String} {b c : Bytes} (h : Alike L x.artifactFiles y.artifactFiles)
    (hb : (p, b) ∈ x.artifactFiles) (hc : (p, c) ∈ y.artifactFiles) :
    fingerprintFileContent L p b = fingerprintFileContent L p c := by
  have hmem := List.mem_map_of_mem hb (f := fileFrame L)
  rw [(alike_iff L).mp h] at hmem
  obtain ⟨⟨q, d⟩, hd, hframe⟩ := List.mem_map.mp hmem
  obtain ⟨hpath, hcontent⟩ := Prod.mk.inj hframe
  obtain rfl : q = p := encode_injective hpath
  obtain rfl : d = c := y.eq_of_path hd hc
  exact (Bytes.ext hcontent).symm

theorem fileFrame_readable {t : SourceTree} {f : String × Bytes} (h : f ∈ t.artifactFiles) :
    Readable (fileFrame L f) :=
  ⟨zero_notMem_encode (t.noNul f (t.mem_files h)), (fingerprintFileContent L f.1 f.2).fits⟩

theorem active_eq_some {runtime : Option String} {r : String} (h : active runtime = some r) : runtime = some r :=
  (Option.filter_eq_some_iff.mp h).1

theorem frames_readable (s : Source) :
    ∀ f ∈ s.tree.artifactFiles.map (fileFrame L) ++ runtimeFrames s.runtime, Readable f := by
  intro f hf
  rcases List.mem_append.mp hf with hf | hf
  · obtain ⟨g, hg, rfl⟩ := List.mem_map.mp hf
    exact fileFrame_readable L hg
  · obtain ⟨r, hr, rfl⟩ := List.mem_map.mp hf
    have hr' := active_eq_some (Option.mem_toList.mp hr)
    exact ⟨zero_notMem_encode (by decide), s.runtimeFits r hr'⟩

theorem executionBytes_eq_iff (x y : Source) :
    executionBytes L x = executionBytes L y ↔
      x.tree.artifactFiles.map (fileFrame L) ++ runtimeFrames x.runtime =
        y.tree.artifactFiles.map (fileFrame L) ++ runtimeFrames y.runtime :=
  ⟨frames_injective (frames_readable L x) (frames_readable L y), fun h => by rw [executionBytes, executionBytes, h]⟩

theorem fingerprintFileContent_graph {content : Bytes} {document : Doc} {text : String}
    (hload : L.safeLoad content = some document) (hdumps : L.dumpsSorted document = some text)
    (hfits : (encode text).length < 256 ^ 7) :
    fingerprintFileContent L "graph.yaml" content = ⟨encode text, hfits⟩ := by
  have hends : endsGraphYaml "graph.yaml" = true := by decide
  have hbytes : bytes? (encode text) = some ⟨encode text, hfits⟩ := dif_pos hfits
  have hcanonical : canonicalGraph L content = some ⟨encode text, hfits⟩ := by
    simp [canonicalGraph, hload, hdumps, hbytes]
  simp [fingerprintFileContent, hends, hcanonical]

theorem fileFrame_runtime_config (content : Bytes) :
    fileFrame L ("runtime_config", content) = (encode "runtime_config", content.data) := by
  have hname : endsGraphYaml "runtime_config" = false := by decide
  simp [fileFrame, fingerprintFileContent, hname]

theorem executionBytes_of_alike {x y : Source} (h : Alike L x.tree.artifactFiles y.tree.artifactFiles)
    (hr : active x.runtime = active y.runtime) : executionBytes L x = executionBytes L y := by
  rw [executionBytes_eq_iff, (alike_iff L).mp h, runtimeFrames, runtimeFrames, hr]

theorem executionBytes_of_shadows {x y : Source} (h : Shadows L x y) : executionBytes L x = executionBytes L y := by
  obtain ⟨hx, fs, content, r, hy, hfiles, hcontent, halike⟩ := h
  rw [executionBytes_eq_iff, hfiles, runtimeFrames, runtimeFrames, hx, hy, List.map_append, (alike_iff L).mp halike]
  simp [fileFrame_runtime_config, hcontent]

theorem shadows_of_frames {x y : Source} {r : String} (hx : active x.runtime = none) (hy : active y.runtime = some r)
    (h : executionBytes L x = executionBytes L y) : Shadows L x y := by
  rw [executionBytes_eq_iff, runtimeFrames, runtimeFrames, hx, hy] at h
  simp only [Option.toList_none, List.map_nil, List.append_nil, Option.toList_some, List.map_cons] at h
  obtain ⟨fs, gs, hfiles, hfs, hgs⟩ := List.map_eq_append_iff.mp h
  obtain ⟨⟨path, content⟩, rfl, hframe⟩ := List.map_eq_singleton_iff.mp hgs
  obtain ⟨hpath, hcontent⟩ := Prod.mk.inj hframe
  obtain rfl : path = "runtime_config" := encode_injective hpath
  rw [fileFrame_runtime_config] at hframe
  exact ⟨hx, fs, content, r, hy, hfiles, (Prod.mk.inj hframe).2, (alike_iff L).mpr hfs⟩

theorem Shadows.paths_ne {x y : Source} (h : Shadows L x y) :
    x.tree.artifactRelativePaths ≠ y.tree.artifactRelativePaths := by
  obtain ⟨-, fs, content, r, -, hfiles, -, halike⟩ := h
  intro heq
  have hlength := congrArg List.length heq
  have hfs := congrArg List.length (Alike.paths L halike)
  simp only [SourceTree.artifactRelativePaths, hfiles, List.length_map, List.length_append, List.length_singleton] at *
  omega

theorem alike_of_executionBytes {x y : Source} (hl : ¬Shadows L x y) (hr : ¬Shadows L y x)
    (h : executionBytes L x = executionBytes L y) :
    Alike L x.tree.artifactFiles y.tree.artifactFiles ∧ active x.runtime = active y.runtime := by
  cases hx : active x.runtime with
  | none =>
    cases hy : active y.runtime with
    | none =>
      rw [executionBytes_eq_iff, runtimeFrames, runtimeFrames, hx, hy] at h
      exact ⟨(alike_iff L).mpr (by simpa using h), rfl⟩
    | some r => exact absurd (shadows_of_frames L hx hy h) hl
  | some q =>
    cases hy : active y.runtime with
    | none => exact absurd (shadows_of_frames L hy hx h.symm) hr
    | some r =>
      rw [executionBytes_eq_iff, runtimeFrames, runtimeFrames, hx, hy] at h
      obtain ⟨hfiles, htail⟩ := List.append_inj' h rfl
      simp only [Option.toList_some, List.map_cons, List.map_nil, List.cons.injEq, Prod.mk.injEq, true_and,
        and_true] at htail
      exact ⟨(alike_iff L).mpr hfiles, congrArg some (encode_injective htail)⟩

theorem fingerprint_sound_iff (x y : Source) : FingerprintSound L x y ↔ Apart L x y := by
  constructor
  · intro hsound
    refine ⟨fun h => ?_, fun h => ?_, fun halike hr => ?_⟩
    · exact Shadows.paths_ne L h (hsound (executionBytes_of_shadows L h)).paths
    · exact Shadows.paths_ne L h (hsound (executionBytes_of_shadows L h).symm).paths.symm
    · have hsame := hsound (executionBytes_of_alike L halike hr)
      refine ⟨hsame.runtime, fun p b c hb hc => ⟨hsame.graphs p b c hb hc, fun hends hgraph => ?_⟩⟩
      apply hsame.files p b c hb hc _ hgraph
      rintro rfl
      exact absurd hends (by decide)
  · intro hapart h
    obtain ⟨halike, hr⟩ := alike_of_executionBytes L hapart.left hapart.right h
    obtain ⟨hruntime, hread⟩ := hapart.alike halike hr
    refine ⟨Alike.paths L halike, fun p b c hb hc hskill hgraph => ?_, fun p b c hb hc => (hread p b c hb hc).1,
      hruntime⟩
    by_cases hends : endsGraphYaml p = true
    · exact (hread p b c hb hc).2 hends hgraph
    · have hcontent := Alike.content L halike hb hc
      simpa [fingerprintFileContent, hskill, hends] using hcontent

end

/-! ### A switch

Two graphs that differ in one plain scalar: `on` is a text to the compiler's reader and a truth value to the
fingerprint's. -/

def switchHead : String :=
  "schema_version: gskill.graph.v1\ngraph_id: switch\ndescription: Report the switch\nio:\n  inputs:\n"

def switchOutputs : String :=
  "    type: object\n  outputs:\n    type: object\n    properties:\n      state:\n        const: "

def switchPhases : String := "\nphases:\n  - id: report\n    depends_on: [input]\n    output: true\n"

def switchText (state : String) : String := switchHead ++ switchOutputs ++ state ++ switchPhases

def switchDocument (state : Value) : Value :=
  .dict [("schema_version", .str "gskill.graph.v1"), ("graph_id", .str "switch"),
    ("description", .str "Report the switch"),
    ("io", .dict [("inputs", .dict [("type", .str "object")]),
      ("outputs", .dict [("type", .str "object"), ("properties", .dict [("state", .dict [("const", state)])])])]),
    ("phases", .list [.dict [("id", .str "report"), ("depends_on", .list [.str "input"]), ("output", .bool true)]])]

theorem switchText_length (state : String) : (switchText state).length ≤ 300 + state.length := by
  have hhead : switchHead.length ≤ 100 :=
    (String.length_ofList : switchHead.length = _).le.trans (by decide)
  have houtputs : switchOutputs.length ≤ 100 :=
    (String.length_ofList : switchOutputs.length = _).le.trans (by decide)
  have hphases : switchPhases.length ≤ 100 :=
    (String.length_ofList : switchPhases.length = _).le.trans (by decide)
  simp only [switchText, String.length_append]
  omega

theorem switchText_injective {a b : String} (h : switchText a = switchText b) : a = b := by
  have hlist := congrArg String.toList h
  simp only [switchText, String.toList_append] at hlist
  exact String.toList_inj.mp (List.append_cancel_left (List.append_cancel_right hlist))

def switchContent (state : String) (h : state.length ≤ 100) : Bytes where
  data := encode (switchText state)
  fits := by
    have hencode := encode_length_le (switchText state)
    have htext := switchText_length state
    omega

theorem switchContent_ne {a b : String} {ha : a.length ≤ 100} {hb : b.length ≤ 100} (h : a ≠ b) :
    (switchContent a ha).data ≠ (switchContent b hb).data := by
  intro hdata
  simp only [switchContent] at hdata
  exact h (switchText_injective (encode_injective hdata))

def switchSource (state : String) (h : state.length ≤ 100) : Source where
  tree := {
    files := [("graph.yaml", switchContent state h)]
    distinct := List.nodup_singleton _
    noNul := by simp }
  runtime := none
  runtimeFits := by simp

def switchJsonHead : String :=
  "\x7b\"description\": \"Report the switch\", \"graph_id\": \"switch\", \"io\": \x7b\"inputs\": "

def switchJsonOutputs : String :=
  "\x7b\"type\": \"object\"\x7d, \"outputs\": \x7b\"properties\": \x7b\"state\": \x7b\"const\": true\x7d\x7d, "

def switchJsonPhases : String :=
  "\"type\": \"object\"\x7d\x7d, \"phases\": [\x7b\"depends_on\": [\"input\"], \"id\": \"report\", "

def switchJsonTail : String := "\"output\": true\x7d], \"schema_version\": \"gskill.graph.v1\"\x7d"

def switchJson : String := switchJsonHead ++ switchJsonOutputs ++ switchJsonPhases ++ switchJsonTail

/-- The readers on the two contents, the first with the plain scalar `on` and the second with `true`. -/
def switchLibraries (on true : Bytes) : Libraries Value where
  parseMarkdownParts _ := none
  dumpsCompact _ := none
  safeLoad content :=
    if content.data = on.data ∨ content.data = true.data then some (switchDocument (.bool Bool.true)) else none
  dumpsSorted document := if document = switchDocument (.bool Bool.true) then some switchJson else none
  readGraphYaml content :=
    if content.data = on.data then some (switchDocument (.str "on"))
    else if content.data = true.data then some (switchDocument (.bool Bool.true))
    else none

theorem switchSource_files (state : String) (h : state.length ≤ 100) :
    (switchSource state h).tree.artifactFiles = [("graph.yaml", switchContent state h)] := by
  have hincluded : included "graph.yaml" = true := by decide
  simp [SourceTree.artifactFiles, switchSource, hincluded]

theorem switchJson_fits : (encode switchJson).length < 256 ^ 7 := by
  have hencode := encode_length_le switchJson
  have hhead : switchJsonHead.length ≤ 100 :=
    (String.length_ofList : switchJsonHead.length = _).le.trans (by decide)
  have houtputs : switchJsonOutputs.length ≤ 100 :=
    (String.length_ofList : switchJsonOutputs.length = _).le.trans (by decide)
  have hphases : switchJsonPhases.length ≤ 100 :=
    (String.length_ofList : switchJsonPhases.length = _).le.trans (by decide)
  have htail : switchJsonTail.length ≤ 100 :=
    (String.length_ofList : switchJsonTail.length = _).le.trans (by decide)
  simp only [switchJson, String.length_append] at *
  omega

theorem switch_canonical {a b content : Bytes} (h : content.data = a.data ∨ content.data = b.data) :
    fingerprintFileContent (switchLibraries a b) "graph.yaml" content = ⟨encode switchJson, switchJson_fits⟩ := by
  have hload : (switchLibraries a b).safeLoad content = some (switchDocument (.bool true)) := if_pos h
  have hdumps : (switchLibraries a b).dumpsSorted (switchDocument (.bool true)) = some switchJson := by
    simp only [switchLibraries, if_true]
  exact fingerprintFileContent_graph _ hload hdumps switchJson_fits

theorem not_sound_of_files {a b : Bytes} {x y : Source} (hne : b.data ≠ a.data)
    (hx : x.tree.artifactFiles = [("graph.yaml", a)]) (hy : y.tree.artifactFiles = [("graph.yaml", b)])
    (hr : x.runtime = y.runtime) : ¬FingerprintSound (switchLibraries a b) x y := by
  intro hsound
  have halike : Alike (switchLibraries a b) x.tree.artifactFiles y.tree.artifactFiles := by
    rw [hx, hy]
    exact .cons ⟨rfl, (switch_canonical (.inl rfl)).trans (switch_canonical (.inr rfl)).symm⟩ .nil
  have hsame := hsound (executionBytes_of_alike _ halike (congrArg active hr))
  have hread := hsame.graphs "graph.yaml" a b (by simp [hx]) (by simp [hy]) (Or.inl rfl)
  simp [switchLibraries, hne, switchDocument] at hread

theorem on_short : "on".length ≤ 100 := by decide

theorem true_short : "true".length ≤ 100 := by decide

theorem switch_fingerprint_collides :
    ¬FingerprintSound (switchLibraries (switchContent "on" on_short) (switchContent "true" true_short))
      (switchSource "on" on_short) (switchSource "true" true_short) := by
  have hne : (switchContent "true" true_short).data ≠ (switchContent "on" on_short).data :=
    switchContent_ne (by decide)
  exact not_sound_of_files hne (switchSource_files "on" on_short) (switchSource_files "true" true_short) rfl

end GraphSkillRuntime.ExecutionFingerprint
