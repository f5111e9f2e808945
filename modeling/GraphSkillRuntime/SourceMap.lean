import GraphSkillRuntime.GraphSerializer
import GraphSkillRuntime.MarkdownBlocks
import GraphSkillRuntime.YamlNodes

/-!
`_build_source_map`: the phases of a graph file and the lines on which they stand. The ids are read by another
YAML library than the compiler's, and each line is found by a search in the text.
-/

namespace GraphSkillRuntime.SourceMaps

open OrderedDict JsonText PyData YamlModels YamlNodes CompileCache.GraphSerializer
open CompileCache (GraphManifest GraphPhaseRef headTail phaseId)

def yaml12Words : List String := nullWords ++ trueWords ++ falseWords

def yaml11Switches : List String :=
  ["yes", "Yes", "YES", "no", "No", "NO", "on", "On", "ON", "off", "Off", "OFF"]

/-- The libraries compose the same nodes of a text. PyYAML's `safe_load` takes every mapping and resolves plain
words by YAML 1.1; the compiler's reader, which the dialects describe, resolves them by YAML 1.2. -/
structure Libraries (F : Type) extends Dialects F where
  compose : List Char → Option Node
  safe : Reader F
  tuple : List (Data F) → Option String
  safe_lenient : safe.Lenient
  safe_resolves : safe.Resolves (yaml12Words ++ yaml11Switches)
  resolve_word : ∀ t ∈ yaml12Words, resolve t ≠ none
  resolve_letter : ∀ t, beginsWithLetter t = true → t ∉ yaml12Words → resolve t = none

namespace Libraries

variable {F : Type} (L : Libraries F)

def compilerReader : Reader F where
  plain t := some ((L.resolve t).getD (.str t))
  plainKey t := some ((L.resolveKey t).getD (.str t))
  tuple := L.tuple
  admits kvs := decide (L.Unambiguous kvs)
  plain_str {t s} h := by
    cases hr : L.resolve t with
    | none =>
      rw [hr] at h
      exact (Data.str.inj (Option.some.inj h)).symm
    | some d =>
      rw [hr] at h
      exact absurd (hr.trans h) (L.resolve_other t s)
  plainKey_str {t s} h := by
    cases hr : L.resolveKey t with
    | none =>
      rw [hr] at h
      exact (Key.str.inj (Option.some.inj h)).symm
    | some k =>
      rw [hr] at h
      exact absurd (hr.trans h) (L.resolveKey_other t s)

theorem compilerReader_resolves : L.compilerReader.Resolves yaml12Words where
  word t ht s := by
    constructor
    · intro h
      cases hr : L.resolve t with
      | none => exact L.resolve_word t ht hr
      | some d => exact L.resolve_other t s (by simpa [compilerReader, hr] using h)
    · intro h
      cases hr : L.resolveKey t with
      | none => exact L.resolve_word t ht ((L.resolves_alike t).2 hr)
      | some k => exact L.resolveKey_other t s (by simpa [compilerReader, hr] using h)
  other t hletter hn := by
    have hr := L.resolve_letter t hletter hn
    have hk := (L.resolves_alike t).1 hr
    simp [compilerReader, hr, hk]

/-- `yaml.safe_load` -/
def safeLoad (text : List Char) : Option (Data F) := (L.compose text).bind L.safe.construct

def compilerLoad (text : List Char) : Option (Data F) := (L.compose text).bind L.compilerReader.construct

def compiledManifest (P : Pydantic F) (text : List Char) : Option (GraphManifest F) :=
  (L.compilerLoad text).bind (graphManifest L.toDialects P).validate

end Libraries

section

variable {F : Type}

def phaseIdOf : Data F → Option String
  | .dict kvs =>
    match latest kvs "id" with
    | some (.str phaseId) => some phaseId
    | _ => none
  | _ => none

def phaseIdsFromGraph : Data F → List String
  | .dict kvs =>
    match latest kvs "phases" with
    | some (.list items) => items.filterMap phaseIdOf
    | _ => []
  | _ => []

end

def Mentions (phaseId line : List Char) : Prop :=
  (Markdown.strip line = "- ".toList ++ phaseId ∨ Markdown.strip line = "- '".toList ++ phaseId ++ "'".toList ∨
      Markdown.strip line = "- \"".toList ++ phaseId ++ "\"".toList) ∨
    ("- id:".toList <+: Markdown.strip line ∧ phaseId <:+: Markdown.strip line) ∨
    ("phases:".toList <+: Markdown.strip line ∧ phaseId <:+: Markdown.strip line)

instance (phaseId line : List Char) : Decidable (Mentions phaseId line) :=
  inferInstanceAs (Decidable ((_ ∨ _ ∨ _) ∨ (_ ∧ _) ∨ (_ ∧ _)))

def phaseLine (graphLines : List (List Char)) (phaseId : List Char) : ℕ :=
  ((graphLines.findIdx? fun line => Mentions phaseId line).map (· + 1)).getD 1

structure SourceNode where
  nodeId : String
  kind : String
  path : String
  line : ℕ
  startLine : ℕ
  endLine : ℕ

structure SourceMap where
  schemaVersion : String
  nodes : Dict String SourceNode

def sourceNode (phaseId : String) (line : ℕ) : SourceNode where
  nodeId := phaseId
  kind := "phase"
  path := "graph.yaml"
  line := line
  startLine := line
  endLine := line

def buildSourceMap {F : Type} (L : Libraries F) (graphText : List Char) : Option SourceMap :=
  (L.safeLoad graphText).map fun document =>
    { schemaVersion := "mvp1.source_map.v1"
      nodes := .ofList ((phaseIdsFromGraph document).map fun phaseId =>
        (phaseId, sourceNode phaseId (phaseLine (splitlines graphText) phaseId.toList))) }

/-- How a scalar is written; in double quotes a character may be written as an escape. -/
def Written (s : Scalar) (written : List Char) : Prop :=
  match s.style with
  | .plain => written = s.text.toList
  | .single => written = "'".toList ++ s.text.toList ++ "'".toList
  | .double => ∃ body, written = "\"".toList ++ body ++ "\"".toList ∧ ('\\' ∉ body → body = s.text.toList)

inductive EntryLine (s : Scalar) : List Char → Prop where
  | intro {indent gap written trail : List Char} (hindent : ∀ c ∈ indent, c = ' ')
      (hgap : gap ≠ [] ∧ ∀ c ∈ gap, c = ' ') (hwritten : Written s written)
      (htrail : ∀ c ∈ trail.head?, c = ' ' ∨ c = '\t') :
      EntryLine s (indent ++ ("- id:".toList ++ (gap ++ (written ++ trail))))

def IsEntry (graphLines : List (List Char)) (phasesLine : ℕ) (item : Node) (s : Scalar) : Prop :=
  ∃ idKey rest, item = .mapping ((.scalar idKey, .scalar s) :: rest) ∧ idKey.text = "id" ∧ phasesLine < s.line ∧
    ∃ line, graphLines[s.line]? = some line ∧ EntryLine s line

/-- The phases of a document are a sequence below its `phases` key, each of whose items starts on a line of its
own with its id. `ids` are the scalars of the ids. -/
def BlockStyle (graphLines : List (List Char)) (root : Node) (ids : List Scalar) : Prop :=
  ∃ members phasesKey items, root = .mapping members ∧ (.scalar phasesKey, .sequence items) ∈ members ∧
    phasesKey.text = "phases" ∧ List.Forall₂ (IsEntry graphLines phasesKey.line) items ids

structure PointsAtPhases {F : Type} (map : SourceMap) (manifest : GraphManifest F) (ids : List Scalar) : Prop where
  nodes : map.nodes.keys.Perm (manifest.phases.map GraphPhaseRef.id)
  lines : ∀ p ∈ ids.zip manifest.phases, ∃ node, map.nodes.get? p.2.id = some node ∧ node.nodeId = p.2.id ∧
    node.line = p.1.line + 1

structure Locatable {F : Type} (L : Libraries F) (graphLines : List (List Char)) (root : Node)
    (ids : List Scalar) : Prop where
  readable : L.safe.Readable root
  texts : ∀ s ∈ ids, s.style = .plain → s.text ∉ yaml11Switches
  spelled : ∀ s ∈ ids, ∀ line ∈ graphLines[s.line]?, s.text.toList <:+: Markdown.strip line
  first : ∀ s ∈ ids, ∀ line ∈ graphLines.take s.line, ¬Mentions s.text.toList line

section

variable {F : Type} {L : Libraries F} {P : Pydantic F}

theorem beginsWithLetter_of_phaseId {s : String} (h : phaseId s = true) : beginsWithLetter s = true := by
  unfold phaseId headTail at h
  unfold beginsWithLetter
  cases hs : s.toList with
  | nil =>
    rw [hs] at h
    cases h
  | cons c cs =>
    rw [hs] at h
    exact (Bool.and_eq_true_iff.1 h).1

theorem compilerReader_unique {members : List (Node × Node)} {kvs : List (Key × Data F)} {n : String}
    (hletter : beginsWithLetter n = true) (hn : n ∉ yaml12Words)
    (h : List.Forall₂ L.compilerReader.MemberAs members kvs) (hadmits : L.compilerReader.admits kvs = true) :
    Unique n members := by
  apply Reader.unique_of_distinct L.compilerReader_resolves hletter hn h
  refine (of_decide_eq_true hadmits : L.Unambiguous kvs).imp fun halike hkey hkey' => ?_
  rw [hkey, hkey', (L.alike_str n n).2 rfl] at halike
  cases halike

def HasId (item : Node) (s : Scalar) : Prop :=
  ∃ members key, item = .mapping members ∧ Unique "id" members ∧ (key, .scalar s) ∈ members ∧ Names "id" key

structure TakenAs (s : Scalar) (phase : GraphPhaseRef) : Prop where
  text : s.text = phase.id
  phaseId : phaseId s.text = true
  word : s.style = .plain → s.text ∉ yaml12Words

theorem compiled_phase {graphLines : List (List Char)} {phasesLine : ℕ} {item : Node} {s : Scalar} {x : Data F}
    {phase : GraphPhaseRef} (hitem : IsEntry graphLines phasesLine item s)
    (hx : L.compilerReader.construct item = some x)
    (hphase : (graphPhaseRef L.toDialects P).validate x = some phase) : HasId item s ∧ TakenAs s phase := by
  obtain ⟨idKey, rest, rfl, hkey, -⟩ := hitem
  obtain ⟨kvs, hkvs, hadmits, rfl⟩ := Reader.construct_mapping.1 hx
  have hunique : Unique "id" ((Node.scalar idKey, Node.scalar s) :: rest) :=
    compilerReader_unique (by decide) (by decide) hkvs hadmits
  obtain ⟨v, hv, hlookup, -⟩ := Reader.member_constructed L.compilerReader_resolves (by decide) (by decide) hkvs hunique
    List.mem_cons_self ⟨idKey, rfl, hkey⟩
  obtain ⟨-, hvalid, hok⟩ := (graphPhaseRef_validate_iff L.toDialects P).1 hphase
  rw [graphPhaseRefFields, Fields.cons_validate] at hvalid
  have hid : Model.text (Y := L.toDialects).validate v = some phase.id := by
    have hfield := hvalid.1
    rw [Fields.readField, Fields.usedKey, Option.filter_none, Option.getD_none, hlookup] at hfield
    exact hfield
  have hstr : v = .str phase.id := by
    cases v with
    | str t => exact congrArg Data.str (Option.some.inj hid)
    | _ => cases hid
  rw [hstr] at hv
  have htext : s.text = phase.id := Reader.scalar_str hv
  have hphaseId : phaseId s.text = true := by
    rw [htext]
    simp only [CompileCache.GraphPhaseRef.ok, Bool.and_eq_true] at hok
    exact hok.1.1.1.1.1
  refine ⟨⟨_, _, rfl, hunique, List.mem_cons_self, ⟨idKey, rfl, hkey⟩⟩, htext, hphaseId, ?_⟩
  exact (Reader.scalar_eq_str_iff L.compilerReader_resolves (beginsWithLetter_of_phaseId hphaseId)).1 ⟨_, hv⟩

theorem compiled_items {graphLines : List (List Char)} {phasesLine : ℕ} {items : List Node} {ids : List Scalar}
    {xs : List (Data F)} {phases : List GraphPhaseRef} (hitems : List.Forall₂ (IsEntry graphLines phasesLine) items ids)
    (hxs : List.Forall₂ (fun item x => L.compilerReader.construct item = some x) items xs)
    (hphases : List.Forall₂ (fun x phase => (graphPhaseRef L.toDialects P).validate x = some phase) xs phases) :
    List.Forall₂ HasId items ids ∧ List.Forall₂ TakenAs ids phases := by
  induction hitems generalizing xs phases with
  | nil =>
    cases hxs
    cases hphases
    exact ⟨.nil, .nil⟩
  | cons hitem _ ih =>
    cases hxs with
    | cons hx hxs =>
      cases hphases with
      | cons hphase hphases =>
        obtain ⟨hid, htaken⟩ := compiled_phase hitem hx hphase
        obtain ⟨hids, htakens⟩ := ih hxs hphases
        exact ⟨.cons hid hids, .cons htaken htakens⟩

structure Compiled (root : Node) (ids : List Scalar) (manifest : GraphManifest F) : Prop where
  phases : ∃ members key items, root = .mapping members ∧ Unique "phases" members ∧ (key, .sequence items) ∈ members ∧
    Names "phases" key ∧ List.Forall₂ HasId items ids
  taken : List.Forall₂ TakenAs ids manifest.phases
  nodup : (manifest.phases.map GraphPhaseRef.id).Nodup

theorem compiled_of_accepted {graphLines : List (List Char)} {root : Node} {ids : List Scalar}
    {manifest : GraphManifest F} (hstyle : BlockStyle graphLines root ids)
    (h : (L.compilerReader.construct root).bind (graphManifest L.toDialects P).validate = some manifest) :
    Compiled root ids manifest := by
  obtain ⟨members, phasesKey, items, rfl, hmem, hkey, hitems⟩ := hstyle
  obtain ⟨d, hd, hvalid⟩ := Option.bind_eq_some_iff.1 h
  obtain ⟨kvs, hkvs, hadmits, rfl⟩ := Reader.construct_mapping.1 hd
  have hunique : Unique "phases" members := compilerReader_unique (by decide) (by decide) hkvs hadmits
  obtain ⟨v, hv, hlookup, -⟩ := Reader.member_constructed L.compilerReader_resolves (by decide) (by decide) hkvs hunique
    hmem ⟨phasesKey, rfl, hkey⟩
  obtain ⟨xs, hxs, rfl⟩ := Reader.construct_sequence.1 hv
  obtain ⟨-, hfields, hok⟩ := (graphManifest_validate_iff L.toDialects P).1 hvalid
  simp only [graphManifestFields, Fields.cons_validate, Fields.readField, Fields.usedKey, Option.filter_none,
    Option.getD_none] at hfields
  have hphases : (graphPhaseRef L.toDialects P).list.validate (.list xs) = some manifest.phases := by
    have hfield := hfields.2.2.2.2.2.1
    rw [hlookup] at hfield
    exact hfield
  obtain ⟨hids, htaken⟩ := compiled_items hitems hxs (SnapshotCodec.Codec.mapM_eq_some_iff.1 hphases)
  simp only [CompileCache.GraphManifest.ok, Bool.and_eq_true, decide_eq_true_eq] at hok
  exact ⟨⟨members, _, items, rfl, hunique, hmem, ⟨phasesKey, rfl, hkey⟩, hids⟩, htaken, hok.1.1.1.2⟩

def Switched (s : Scalar) : Prop := s.style = .plain ∧ s.text ∈ yaml11Switches

instance (s : Scalar) : Decidable (Switched s) := inferInstanceAs (Decidable (_ ∧ _))

theorem safe_scalar {s : Scalar} {phase : GraphPhaseRef} {v : Data F} (hs : TakenAs s phase)
    (hv : L.safe.scalar s = some v) : (Switched s → ∀ t, v ≠ .str t) ∧ (¬Switched s → v = .str s.text) := by
  have hstr := Reader.scalar_eq_str_iff L.safe_resolves (beginsWithLetter_of_phaseId hs.phaseId)
  constructor
  · rintro ⟨hplain, hswitch⟩ t rfl
    exact hstr.1 ⟨t, hv⟩ hplain (List.mem_append_right _ hswitch)
  · intro hswitch
    obtain ⟨t, ht⟩ := hstr.2 fun hplain hword => (List.mem_append.1 hword).elim (hs.word hplain)
      fun h => hswitch ⟨hplain, h⟩
    rw [Reader.scalar_str ht, ← Option.some.inj (hv.symm.trans ht)]

theorem phaseIdOf_safe {item : Node} {s : Scalar} {phase : GraphPhaseRef} {x : Data F} (hitem : HasId item s)
    (hs : TakenAs s phase) (hx : L.safe.construct item = some x) :
    phaseIdOf x = if Switched s then none else some s.text := by
  obtain ⟨members, key, rfl, hunique, hmem, hname⟩ := hitem
  obtain ⟨kvs, hkvs, -, rfl⟩ := Reader.construct_mapping.1 hx
  obtain ⟨v, hv, -, hlatest⟩ := Reader.member_constructed L.safe_resolves (by decide)
    (by decide) hkvs hunique hmem hname
  obtain ⟨hother, hstr⟩ := safe_scalar hs hv
  rw [phaseIdOf, hlatest]
  split_ifs with hswitch
  · cases v with
    | str t => exact absurd rfl (hother hswitch t)
    | _ => rfl
  · rw [hstr hswitch]

theorem phaseIds_safe {items : List Node} {ids : List Scalar} {phases : List GraphPhaseRef} {xs : List (Data F)}
    (hitems : List.Forall₂ HasId items ids) (htaken : List.Forall₂ TakenAs ids phases)
    (hxs : List.Forall₂ (fun item x => L.safe.construct item = some x) items xs) :
    xs.filterMap phaseIdOf = (ids.filter fun s => ¬Switched s).map Scalar.text := by
  induction hitems generalizing xs phases with
  | nil =>
    cases hxs
    rfl
  | cons hitem _ ih =>
    cases hxs with
    | cons hx hxs =>
      cases htaken with
      | cons hs htaken =>
        rw [List.filterMap_cons, phaseIdOf_safe hitem hs hx, List.filter_cons, ih htaken hxs]
        split_ifs <;> simp_all

theorem phaseIdsFromGraph_safe {root : Node} {ids : List Scalar} {manifest : GraphManifest F} {d : Data F}
    (h : Compiled root ids manifest) (hd : L.safe.construct root = some d) :
    phaseIdsFromGraph d = (ids.filter fun s => ¬Switched s).map Scalar.text := by
  obtain ⟨members, key, items, rfl, hunique, hmem, hname, hitems⟩ := h.phases
  obtain ⟨kvs, hkvs, -, rfl⟩ := Reader.construct_mapping.1 hd
  obtain ⟨v, hv, -, hlatest⟩ := Reader.member_constructed L.safe_resolves (by decide)
    (by decide) hkvs hunique hmem hname
  obtain ⟨xs, hxs, rfl⟩ := Reader.construct_sequence.1 hv
  rw [phaseIdsFromGraph, hlatest]
  exact phaseIds_safe hitems h.taken hxs

theorem phaseLine_eq_iff {graphLines : List (List Char)} {phaseId : List Char} {i : ℕ} (hi : 0 < i) :
    phaseLine graphLines phaseId = i + 1 ↔
      (∃ line, graphLines[i]? = some line ∧ Mentions phaseId line) ∧
        ∀ line ∈ graphLines.take i, ¬Mentions phaseId line := by
  have hfind : phaseLine graphLines phaseId = i + 1 ↔
      graphLines.findIdx? (fun line => Mentions phaseId line) = some i := by
    unfold phaseLine
    cases graphLines.findIdx? (fun line => Mentions phaseId line) with
    | none => simp; omega
    | some j => simp
  rw [hfind, List.findIdx?_eq_some_iff_getElem]
  constructor
  · rintro ⟨hlt, hmentions, hbefore⟩
    refine ⟨⟨graphLines[i], List.getElem?_eq_getElem hlt, of_decide_eq_true hmentions⟩, fun line hline => ?_⟩
    obtain ⟨j, hj, rfl⟩ := List.mem_take_iff_getElem.1 hline
    exact fun hm => hbefore j (by omega) (decide_eq_true hm)
  · rintro ⟨⟨line, hline, hmentions⟩, hbefore⟩
    obtain ⟨hlt, rfl⟩ := List.getElem?_eq_some_iff.1 hline
    refine ⟨hlt, decide_eq_true hmentions, fun j hj hm => ?_⟩
    exact hbefore _ (List.mem_take_iff_getElem.2 ⟨j, by omega, rfl⟩) (of_decide_eq_true hm)

theorem isPythonSpace_of_phaseId {s : String} (h : phaseId s = true) : ∀ c ∈ s.toList, isPythonSpace c = false := by
  have hletter : ∀ c : Char, (c.isAlphanum || c == '_' || c == '-') = true → isPythonSpace c = false := by
    intro c hc
    have hrange : 45 ≤ c.toNat ∧ c.toNat ≤ 122 := by
      rcases (by simpa using hc : (c.isAlphanum = true ∨ c = '_') ∨ c = '-') with (halnum | rfl) | rfl
      · have hcode := Markdown.code_of_isAlphanum halnum
        omega
      · decide
      · decide
    simp only [isPythonSpace, Bool.or_eq_false_iff, Bool.and_eq_false_iff, decide_eq_false_iff_not]
    omega
  unfold phaseId headTail at h
  cases hs : s.toList with
  | nil => simp
  | cons c cs =>
    rw [hs] at h
    obtain ⟨hhead, htail⟩ := Bool.and_eq_true_iff.1 h
    refine List.forall_mem_cons.2 ⟨hletter c ?_, fun d hd => hletter d (List.all_eq_true.1 htail d hd)⟩
    simp [Char.isAlphanum, hhead]

theorem written_last {s : Scalar} {written : List Char} (h : Written s written) (hs : phaseId s.text = true) :
    ∃ u c, written = u ++ [c] ∧ isPythonSpace c = false := by
  unfold Written at h
  cases hstyle : s.style with
  | plain =>
    rw [hstyle] at h
    have hne : s.text.toList ≠ [] := by
      intro hnil
      have hletter := beginsWithLetter_of_phaseId hs
      rw [beginsWithLetter, hnil] at hletter
      cases hletter
    refine ⟨s.text.toList.dropLast, s.text.toList.getLast hne, ?_, ?_⟩
    · exact h.trans (List.dropLast_append_getLast hne).symm
    · exact isPythonSpace_of_phaseId hs _ (List.getLast_mem hne)
  | single =>
    rw [hstyle] at h
    exact ⟨_, _, h, by decide⟩
  | double =>
    rw [hstyle] at h
    obtain ⟨body, hbody, -⟩ := h
    exact ⟨_, _, hbody, by decide⟩

theorem lastPart_strip {u v : List Char} {c : Char} (hc : isPythonSpace c = false) :
    u ++ [c] <+: (((u ++ [c]) ++ v).reverse.dropWhile isPythonSpace).reverse := by
  rw [List.reverse_append, List.dropWhile_append, List.reverse_append, List.reverse_singleton, List.singleton_append,
    List.dropWhile_cons_of_neg (by simp [hc])]
  split_ifs
  · simp
  · simp [List.append_assoc]

theorem entry_strip {s : Scalar} {line : List Char} (h : EntryLine s line) (hs : phaseId s.text = true) :
    ∃ gap written, Written s written ∧ "- id:".toList ++ (gap ++ written) <+: Markdown.strip line := by
  obtain @⟨indent, gap, written, trail, hindent, -, hwritten, -⟩ := h
  obtain ⟨u, c, rfl, hc⟩ := written_last hwritten hs
  refine ⟨gap, _, hwritten, ?_⟩
  have hdrop : (indent ++ ("- id:".toList ++ (gap ++ ((u ++ [c]) ++ trail)))).dropWhile isPythonSpace =
      (("- id:".toList ++ (gap ++ u)) ++ [c]) ++ trail := by
    rw [List.dropWhile_append_of_pos fun d hd => by rw [hindent d hd]; decide]
    simp only [List.append_assoc]
    rfl
  rw [Markdown.strip, hdrop, ← List.append_assoc gap, ← List.append_assoc]
  exact lastPart_strip hc

theorem contains_of_mentions {phaseId line : List Char} (h : Mentions phaseId line) :
    phaseId <:+: Markdown.strip line := by
  rcases h with (h | h | h) | ⟨-, h⟩ | ⟨-, h⟩
  · rw [h]
    exact ⟨_, [], List.append_nil _⟩
  · rw [h]
    exact ⟨_, _, rfl⟩
  · rw [h]
    exact ⟨_, _, rfl⟩
  · exact h
  · exact h

theorem strip_part (line : List Char) : Markdown.strip line <:+: line := by
  have hdrop := List.reverse_prefix.2 (List.dropWhile_suffix isPythonSpace
    (l := (line.dropWhile isPythonSpace).reverse))
  rw [List.reverse_reverse] at hdrop
  exact hdrop.isInfix.trans (List.dropWhile_suffix isPythonSpace).isInfix

theorem head?_strip {line : List Char} {c : Char} (h : (Markdown.strip line).head? = some c) :
    (line.dropWhile isPythonSpace).head? = some c := by
  have hdrop := List.reverse_prefix.2 (List.dropWhile_suffix isPythonSpace
    (l := (line.dropWhile isPythonSpace).reverse))
  rw [List.reverse_reverse] at hdrop
  exact List.singleton_prefix_iff_head?_eq_some.1 ((List.singleton_prefix_iff_head?_eq_some.2 h).trans hdrop)

theorem mentions_begins {phaseId line : List Char} (h : Mentions phaseId line) :
    ((line.dropWhile isPythonSpace).head? = some '-' ∨ (line.dropWhile isPythonSpace).head? = some 'p') ∧
      phaseId <:+: line := by
  refine ⟨?_, (contains_of_mentions h).trans (strip_part line)⟩
  rcases h with (h | h | h) | ⟨⟨rest, h⟩, -⟩ | ⟨⟨rest, h⟩, -⟩
  · exact .inl (head?_strip (congrArg List.head? h))
  · exact .inl (head?_strip (congrArg List.head? h))
  · exact .inl (head?_strip (congrArg List.head? h))
  · exact .inl (head?_strip (congrArg List.head? h.symm))
  · exact .inr (head?_strip (congrArg List.head? h.symm))

theorem mentions_entry_iff {s : Scalar} {line : List Char} (h : EntryLine s line) (hs : phaseId s.text = true) :
    Mentions s.text.toList line ↔ s.text.toList <:+: Markdown.strip line := by
  constructor
  · exact contains_of_mentions
  · intro hspelled
    obtain ⟨gap, written, -, hprefix⟩ := entry_strip h hs
    exact .inr (.inl ⟨(List.prefix_append _ _).trans hprefix, hspelled⟩)

theorem spelled_of_no_escape {s : Scalar} {line : List Char} (h : EntryLine s line) (hs : phaseId s.text = true)
    (hescape : s.style = .double → '\\' ∉ line) : s.text.toList <:+: Markdown.strip line := by
  obtain ⟨gap, written, hwritten, hprefix⟩ := entry_strip h hs
  have hmem : ∀ c ∈ written, c ∈ line := by
    intro c hc
    have hstrip : c ∈ Markdown.strip line := hprefix.subset (by simp [hc])
    rw [Markdown.strip, List.mem_reverse] at hstrip
    have hdrop := (List.dropWhile_sublist _).subset hstrip
    rw [List.mem_reverse] at hdrop
    exact (List.dropWhile_sublist _).subset hdrop
  have hpart : s.text.toList <:+: written := by
    unfold Written at hwritten
    cases hstyle : s.style with
    | plain =>
      rw [hstyle] at hwritten
      obtain rfl : written = s.text.toList := hwritten
      exact List.infix_refl _
    | single =>
      rw [hstyle] at hwritten
      rw [hwritten]
      exact ⟨_, _, rfl⟩
    | double =>
      rw [hstyle] at hwritten
      obtain ⟨body, rfl, hbody⟩ := hwritten
      rw [← hbody fun hslash => hescape hstyle (hmem _ (by simp [hslash]))]
      exact ⟨_, _, rfl⟩
  refine hpart.trans (List.IsInfix.trans ?_ hprefix.isInfix)
  exact ⟨"- id:".toList ++ gap, [], by simp⟩

theorem entryLine_of_blockStyle {graphLines : List (List Char)} {root : Node} {ids : List Scalar}
    (h : BlockStyle graphLines root ids) {s : Scalar} (hs : s ∈ ids) :
    0 < s.line ∧ ∃ line, graphLines[s.line]? = some line ∧ EntryLine s line := by
  obtain ⟨members, phasesKey, items, -, -, -, hitems⟩ := h
  obtain ⟨item, -, idKey, rest, -, -, hlt, hline⟩ := exists_mem_of_forall₂ hitems hs
  exact ⟨Nat.zero_lt_of_lt hlt, hline⟩

theorem phaseLine_entry_iff {graphLines : List (List Char)} {root : Node} {ids : List Scalar}
    (h : BlockStyle graphLines root ids) {s : Scalar} (hs : s ∈ ids) (hid : phaseId s.text = true) :
    phaseLine graphLines s.text.toList = s.line + 1 ↔
      (∀ line ∈ graphLines[s.line]?, s.text.toList <:+: Markdown.strip line) ∧
        ∀ line ∈ graphLines.take s.line, ¬Mentions s.text.toList line := by
  obtain ⟨hpos, line, hline, hentry⟩ := entryLine_of_blockStyle h hs
  rw [phaseLine_eq_iff hpos, hline]
  simp only [Option.mem_def, Option.some.injEq, forall_eq', exists_eq_left', mentions_entry_iff hentry hid]

theorem nodup_texts {root : Node} {ids : List Scalar} {manifest : GraphManifest F} (h : Compiled root ids manifest) :
    ids.map Scalar.text = manifest.phases.map GraphPhaseRef.id ∧ (ids.map Scalar.text).Nodup := by
  have hmap : ids.map Scalar.text = manifest.phases.map GraphPhaseRef.id :=
    (map_eq_of_forall₂ h.taken fun s phase hs => hs.text.symm).symm
  exact ⟨hmap, hmap ▸ h.nodup⟩

theorem nodes_of_safe {text : List Char} {root : Node} {ids : List Scalar} {manifest : GraphManifest F}
    {map : SourceMap}
    (hcompose : L.compose text = some root) (h : Compiled root ids manifest) (hmap : buildSourceMap L text = some map) :
    map.nodes.entries = (ids.filter fun s => ¬Switched s).map fun s =>
      (s.text, sourceNode s.text (phaseLine (splitlines text) s.text.toList)) := by
  obtain ⟨d, hd, rfl⟩ := Option.map_eq_some_iff.1 hmap
  rw [Libraries.safeLoad, hcompose, Option.bind_some] at hd
  rw [phaseIdsFromGraph_safe h hd, List.map_map]
  apply Dict.entries_ofList
  rw [List.map_map]
  exact (nodup_texts h).2.sublist (List.filter_sublist.map Scalar.text)

theorem buildSourceMap_isSome_iff {text : List Char} {root : Node} (hcompose : L.compose text = some root) :
    (∃ map, buildSourceMap L text = some map) ↔ L.safe.Readable root := by
  rw [← Reader.construct_isSome_iff L.safe_lenient, Option.isSome_iff_exists, buildSourceMap, Libraries.safeLoad,
    hcompose, Option.bind_some]
  simp

theorem keys_perm_iff {map : SourceMap} {root : Node} {ids : List Scalar} {manifest : GraphManifest F}
    {lineOf : Scalar → ℕ} (h : Compiled root ids manifest)
    (hnodes : map.nodes.entries = (ids.filter fun s => ¬Switched s).map fun s =>
      (s.text, sourceNode s.text (lineOf s))) :
    map.nodes.keys.Perm (manifest.phases.map GraphPhaseRef.id) ↔ ∀ s ∈ ids, ¬Switched s := by
  have hkeys : map.nodes.keys = (ids.filter fun s => ¬Switched s).map Scalar.text := by
    rw [Dict.keys, hnodes, List.map_map]
    rfl
  rw [hkeys, ← (nodup_texts h).1]
  constructor
  · intro hperm s hs
    have hlength : (ids.filter fun s => ¬Switched s).length = ids.length := by
      simpa using hperm.length_eq
    exact of_decide_eq_true (List.length_filter_eq_length_iff.1 hlength s hs)
  · intro hall
    rw [List.filter_eq_self.2 fun s hs => decide_eq_true (hall s hs)]

theorem get?_node {map : SourceMap} {ids : List Scalar} {lineOf : Scalar → ℕ}
    (hnodes : map.nodes.entries = ids.map fun s => (s.text, sourceNode s.text (lineOf s))) {s : Scalar} (hs : s ∈ ids) :
    map.nodes.get? s.text = some (sourceNode s.text (lineOf s)) := by
  rw [Dict.get?_mem, hnodes]
  exact List.mem_map_of_mem hs

section

variable {text : List Char} {root : Node} {ids : List Scalar} {manifest : GraphManifest F}

theorem phaseLine_of_taken (hstyle : BlockStyle (splitlines text) root ids) (hc : Compiled root ids manifest)
    {s : Scalar} (hs : s ∈ ids) :
    phaseLine (splitlines text) s.text.toList = s.line + 1 ↔
      (∀ line ∈ (splitlines text)[s.line]?, s.text.toList <:+: Markdown.strip line) ∧
        ∀ line ∈ (splitlines text).take s.line, ¬Mentions s.text.toList line := by
  obtain ⟨phase, -, hphase⟩ := exists_mem_of_forall₂ hc.taken.flip hs
  exact phaseLine_entry_iff hstyle hs hphase.phaseId

theorem locatable_of_points (hcompose : L.compose text = some root) (hstyle : BlockStyle (splitlines text) root ids)
    (hc : Compiled root ids manifest) {map : SourceMap} (hmap : buildSourceMap L text = some map)
    (hpoints : PointsAtPhases map manifest ids) : Locatable L (splitlines text) root ids := by
  have hnodes := nodes_of_safe hcompose hc hmap
  have htexts := (keys_perm_iff hc hnodes).1 hpoints.nodes
  rw [List.filter_eq_self.2 fun s hs => decide_eq_true (htexts s hs)] at hnodes
  have hlines : ∀ s ∈ ids, phaseLine (splitlines text) s.text.toList = s.line + 1 := by
    intro s hs
    obtain ⟨phase, hzip, hphase⟩ := exists_zip_of_forall₂ hc.taken hs
    obtain ⟨node, hget, -, heq⟩ := hpoints.lines _ hzip
    rw [← hphase.text, get?_node hnodes hs] at hget
    rw [← heq, ← Option.some.inj hget]
    rfl
  exact
    { readable := (buildSourceMap_isSome_iff hcompose).1 ⟨map, hmap⟩
      texts := fun s hs hplain hswitch => htexts s hs ⟨hplain, hswitch⟩
      spelled := fun s hs => ((phaseLine_of_taken hstyle hc hs).1 (hlines s hs)).1
      first := fun s hs => ((phaseLine_of_taken hstyle hc hs).1 (hlines s hs)).2 }

theorem points_of_locatable (hcompose : L.compose text = some root) (hstyle : BlockStyle (splitlines text) root ids)
    (hc : Compiled root ids manifest) (h : Locatable L (splitlines text) root ids) :
    ∃ map, buildSourceMap L text = some map ∧ PointsAtPhases map manifest ids := by
  obtain ⟨map, hmap⟩ := (buildSourceMap_isSome_iff hcompose).2 h.readable
  have htexts : ∀ s ∈ ids, ¬Switched s := fun s hs hswitch => h.texts s hs hswitch.1 hswitch.2
  have hnodes := nodes_of_safe hcompose hc hmap
  refine ⟨map, hmap, (keys_perm_iff hc hnodes).2 htexts, ?_⟩
  rw [List.filter_eq_self.2 fun s hs => decide_eq_true (htexts s hs)] at hnodes
  rintro ⟨s, phase⟩ hzip
  have hs : s ∈ ids := (List.of_mem_zip hzip).1
  have hphase : TakenAs s phase := List.forall₂_zip hc.taken hzip
  change ∃ node, map.nodes.get? phase.id = some node ∧ node.nodeId = phase.id ∧ node.line = s.line + 1
  rw [← hphase.text]
  exact ⟨_, get?_node hnodes hs, rfl, (phaseLine_of_taken hstyle hc hs).2 ⟨h.spelled s hs, h.first s hs⟩⟩

theorem compiled_of_manifest (hcompose : L.compose text = some root) (hstyle : BlockStyle (splitlines text) root ids)
    (hcompiled : L.compiledManifest P text = some manifest) : Compiled root ids manifest := by
  rw [Libraries.compiledManifest, Libraries.compilerLoad, hcompose, Option.bind_some] at hcompiled
  exact compiled_of_accepted hstyle hcompiled

theorem source_map_points_iff (hcompose : L.compose text = some root) (hstyle : BlockStyle (splitlines text) root ids)
    (hcompiled : L.compiledManifest P text = some manifest) :
    (∃ map, buildSourceMap L text = some map ∧ PointsAtPhases map manifest ids) ↔
      Locatable L (splitlines text) root ids := by
  have hc := compiled_of_manifest hcompose hstyle hcompiled
  constructor
  · rintro ⟨map, hmap, hpoints⟩
    exact locatable_of_points hcompose hstyle hc hmap hpoints
  · exact points_of_locatable hcompose hstyle hc

end

end

def wordScalar (s : String) : Option PlainScalar :=
  if s ∈ nullWords then some .null
  else if s ∈ trueWords then some (.bool true)
  else if s ∈ falseWords then some (.bool false)
  else none

theorem wordScalar_isSome_iff {s : String} : (wordScalar s).isSome ↔ s ∈ yaml12Words := by
  simp only [wordScalar, yaml12Words, List.mem_append]
  split_ifs <;> simp_all

def wordDialects : Dialects String :=
  { yamlDialects with
    resolve := fun s => (wordScalar s).map PlainScalar.data
    resolveKey := fun s => (wordScalar s).map PlainScalar.key
    resolve_other := fun s t h => by
      obtain ⟨x, -, hx⟩ := Option.map_eq_some_iff.1 h
      cases x <;> cases hx
    resolveKey_other := fun s t h => by
      obtain ⟨x, -, hx⟩ := Option.map_eq_some_iff.1 h
      cases x <;> cases hx
    resolves_alike := fun s => by rw [Option.map_eq_none_iff, Option.map_eq_none_iff] }

def trueSwitches : List String := ["yes", "Yes", "YES", "on", "On", "ON"]

def switchScalar (s : String) : Option PlainScalar :=
  if s ∈ yaml11Switches then some (.bool (decide (s ∈ trueSwitches))) else wordScalar s

def switchReader : Reader String where
  plain t := some (((switchScalar t).map PlainScalar.data).getD (.str t))
  plainKey t := some (((switchScalar t).map PlainScalar.key).getD (.str t))
  tuple _ := none
  admits _ := true
  plain_str {t s} h := by
    cases hx : switchScalar t with
    | none =>
      rw [hx] at h
      exact (Data.str.inj (Option.some.inj h)).symm
    | some x =>
      rw [hx] at h
      cases x <;> cases h
  plainKey_str {t s} h := by
    cases hx : switchScalar t with
    | none =>
      rw [hx] at h
      exact (Key.str.inj (Option.some.inj h)).symm
    | some x =>
      rw [hx] at h
      cases x <;> cases h

theorem switchReader_resolves : switchReader.Resolves (yaml12Words ++ yaml11Switches) where
  word t ht s := by
    have hsome : (switchScalar t).isSome := by
      rw [switchScalar]
      split_ifs with hswitch
      · rfl
      · exact wordScalar_isSome_iff.2 ((List.mem_append.1 ht).resolve_right hswitch)
    obtain ⟨x, hx⟩ := Option.isSome_iff_exists.1 hsome
    constructor
    · intro h
      cases x <;> simp [switchReader, hx, PlainScalar.data] at h
    · intro h
      cases x <;> simp [switchReader, hx, PlainScalar.key] at h
  other t _ hn := by
    rw [List.mem_append, not_or] at hn
    have hnone : switchScalar t = none := by
      rw [switchScalar, if_neg hn.2, ← Option.not_isSome_iff_eq_none, wordScalar_isSome_iff]
      exact hn.1
    simp [switchReader, hnone]

/-! The file: a preamble, and two phases of three lines each. -/

def preamble : List String :=
  ["schema_version: gskill.graph.v1", "graph_id: demo", "description: Demo graph", "io:", "  inputs:",
    "    type: object", "  outputs:", "    type: object", "phases:"]

def phaseLines (p : GraphPhaseRef) : List String :=
  ["  - id: " ++ p.id, "    depends_on: [" ++ ", ".intercalate p.dependsOn ++ "]",
    "    output: " ++ if p.output then "true" else "false"]

def sampleLines (p q : GraphPhaseRef) : List (List Char) :=
  (preamble ++ phaseLines p ++ phaseLines q).map String.toList

def sampleText (p q : GraphPhaseRef) : List Char := (sampleLines p q).flatMap fun line => line ++ ['\n']

def plainAt (line : ℕ) (text : String) : Node := .scalar ⟨.plain, text, line⟩

def schemaAt (line : ℕ) : Node := .mapping [(plainAt line "type", plainAt line "object")]

def phaseAt (line : ℕ) (p : GraphPhaseRef) : Node :=
  .mapping
    [(plainAt line "id", plainAt line p.id),
      (plainAt (line + 1) "depends_on", .sequence (p.dependsOn.map (plainAt (line + 1)))),
      (plainAt (line + 2) "output", plainAt (line + 2) (if p.output then "true" else "false"))]

def sampleRoot (p q : GraphPhaseRef) : Node :=
  .mapping
    [(plainAt 0 "schema_version", plainAt 0 "gskill.graph.v1"), (plainAt 1 "graph_id", plainAt 1 "demo"),
      (plainAt 2 "description", plainAt 2 "Demo graph"),
      (plainAt 3 "io", .mapping [(plainAt 4 "inputs", schemaAt 5), (plainAt 6 "outputs", schemaAt 7)]),
      (plainAt 8 "phases", .sequence [phaseAt 9 p, phaseAt 12 q])]

def sampleLibraries (p q : GraphPhaseRef) : Libraries String :=
  { wordDialects with
    compose := fun text => if text = sampleText p q then some (sampleRoot p q) else none
    safe := switchReader
    tuple := fun _ => none
    safe_lenient := ⟨fun _ => rfl, fun _ => rfl⟩
    safe_resolves := switchReader_resolves
    resolve_word := fun t ht => by
      obtain ⟨x, hx⟩ := Option.isSome_iff_exists.1 (wordScalar_isSome_iff.2 ht)
      simp [wordDialects, hx]
    resolve_letter := fun t _ ht => by
      rw [← wordScalar_isSome_iff, Option.not_isSome_iff_eq_none] at ht
      simp [wordDialects, ht] }

def sampleIds (p q : GraphPhaseRef) : List Scalar := [⟨.plain, p.id, 9⟩, ⟨.plain, q.id, 12⟩]

def sampleManifest (p q : GraphPhaseRef) : GraphManifest String := { demoGraph with phases := [p, q] }

theorem sample_compose (p q : GraphPhaseRef) :
    (sampleLibraries p q).compose (sampleText p q) = some (sampleRoot p q) := by
  simp only [sampleLibraries, if_true]

theorem sample_entry (line : ℕ) (p : GraphPhaseRef) : EntryLine ⟨.plain, p.id, line⟩ ("  - id: " ++ p.id).toList := by
  have hline : ("  - id: " ++ p.id).toList =
      "  ".toList ++ ("- id:".toList ++ (" ".toList ++ (p.id.toList ++ []))) := by
    rw [String.toList_append, List.append_nil]
    rfl
  rw [hline]
  exact .intro (by simp) ⟨by simp, by simp⟩ rfl (by simp)

theorem sample_blockStyle {p q : GraphPhaseRef} : BlockStyle (sampleLines p q) (sampleRoot p q) (sampleIds p q) := by
  refine ⟨_, _, _, rfl, List.mem_of_getElem? (i := 4) rfl, rfl, .cons ?_ (.cons ?_ .nil)⟩
  · exact ⟨_, _, rfl, rfl, Nat.lt_add_one 8, _, rfl, sample_entry 9 p⟩
  · exact ⟨_, _, rfl, rfl, (by omega : 8 < 12), _, rfl, sample_entry 12 q⟩

theorem sample_spelled {p q : GraphPhaseRef} (hp : phaseId p.id = true) (hq : phaseId q.id = true) :
    ∀ s ∈ sampleIds p q, ∀ line ∈ (sampleLines p q)[s.line]?, s.text.toList <:+: Markdown.strip line := by
  rw [sampleIds, List.forall_mem_cons, List.forall_mem_singleton]
  constructor
  · intro line hline
    obtain rfl := Option.some.inj hline
    exact spelled_of_no_escape (sample_entry 9 p) hp nofun
  · intro line hline
    obtain rfl := Option.some.inj hline
    exact spelled_of_no_escape (sample_entry 12 q) hq nofun

def draft : GraphPhaseRef := ⟨"draft", ["input"], false⟩

def draftFinal : GraphPhaseRef := ⟨"draft-final", ["draft"], true⟩

theorem preamble_unbroken :
    (preamble.map String.toList).all (fun line => line.all fun c => !isLineBreak c) = true := by
  decide +kernel

theorem phaseLines_unbroken {p : GraphPhaseRef} (hp : p = draft ∨ p = draftFinal) :
    ((phaseLines p).map String.toList).all (fun line => line.all fun c => !isLineBreak c) = true := by
  rcases hp with rfl | rfl <;> decide +kernel

theorem splitlines_sample {p q : GraphPhaseRef} (hp : p = draft ∨ p = draftFinal) (hq : q = draft ∨ q = draftFinal) :
    splitlines (sampleText p q) = sampleLines p q := by
  have hall : (sampleLines p q).all (fun line => line.all fun c => !isLineBreak c) = true := by
    rw [sampleLines, List.map_append, List.map_append, List.all_append, List.all_append, preamble_unbroken,
      phaseLines_unbroken hp, phaseLines_unbroken hq]
    rfl
  apply splitlines_lines
  intro line hline c hc
  simpa using List.all_eq_true.1 (List.all_eq_true.1 hall line hline) c hc

theorem source_map_points_sample :
    ∃ map, buildSourceMap (sampleLibraries draft draftFinal) (sampleText draft draftFinal) = some map ∧
      PointsAtPhases map (sampleManifest draft draftFinal) (sampleIds draft draftFinal) := by
  have hlines := splitlines_sample (Or.inl (Eq.refl draft)) (Or.inr (Eq.refl draftFinal))
  have hcompiled : (sampleLibraries draft draftFinal).compiledManifest pydantic (sampleText draft draftFinal) =
      some (sampleManifest draft draftFinal) := by
    rw [Libraries.compiledManifest, Libraries.compilerLoad, sample_compose]
    rfl
  -- before an entry, only the `phases` key and earlier entries begin like one
  have hfirst : ∀ s ∈ sampleIds draft draftFinal, ∀ line ∈ (sampleLines draft draftFinal).take s.line,
      ((line.dropWhile isPythonSpace).head? = some '-' ∨ (line.dropWhile isPythonSpace).head? = some 'p') →
        s.text.toList.all line.contains = false := by decide +kernel
  have hstyle : BlockStyle (splitlines (sampleText draft draftFinal)) (sampleRoot draft draftFinal)
      (sampleIds draft draftFinal) := by
    rw [hlines]
    exact sample_blockStyle
  rw [source_map_points_iff (sample_compose draft draftFinal) hstyle hcompiled, hlines]
  exact
    { readable := (Reader.construct_isSome_iff ⟨fun _ => rfl, fun _ => rfl⟩ _).1 rfl
      texts := by decide
      spelled := sample_spelled (by decide) (by decide)
      first := fun s hs line hline h => by
        obtain ⟨hbegins, hpart⟩ := mentions_begins h
        have hall : s.text.toList.all line.contains = true :=
          List.all_eq_true.2 fun c hc => List.contains_iff_mem.2 (hpart.subset hc)
        rw [hfirst s hs line hline hbegins] at hall
        cases hall }

theorem source_map_misplaced :
    (sampleLibraries draftFinal draft).compiledManifest pydantic (sampleText draftFinal draft) =
        some (sampleManifest draftFinal draft) ∧
      BlockStyle (splitlines (sampleText draftFinal draft)) (sampleRoot draftFinal draft) (sampleIds draftFinal draft) ∧
      ¬∃ map, buildSourceMap (sampleLibraries draftFinal draft) (sampleText draftFinal draft) = some map ∧
        PointsAtPhases map (sampleManifest draftFinal draft) (sampleIds draftFinal draft) := by
  have hlines := splitlines_sample (Or.inr (Eq.refl draftFinal)) (Or.inl (Eq.refl draft))
  have hcompiled : (sampleLibraries draftFinal draft).compiledManifest pydantic (sampleText draftFinal draft) =
      some (sampleManifest draftFinal draft) := by
    rw [Libraries.compiledManifest, Libraries.compilerLoad, sample_compose]
    rfl
  have hstyle : BlockStyle (splitlines (sampleText draftFinal draft)) (sampleRoot draftFinal draft)
      (sampleIds draftFinal draft) := by
    rw [hlines]
    exact sample_blockStyle
  refine ⟨hcompiled, hstyle, ?_⟩
  rintro ⟨map, hmap, hpoints⟩
  have hc := compiled_of_manifest (sample_compose _ _) hstyle hcompiled
  have hfirst := (locatable_of_points (sample_compose _ _) hstyle hc hmap hpoints).first
  rw [hlines] at hfirst
  -- the entry of `draft-final` stands before that of `draft`, and has its id in it
  have hmentions : Mentions "draft".toList ("  - id: " ++ draftFinal.id).toList := by
    obtain ⟨gap, written, -, hprefix⟩ := entry_strip (sample_entry 9 draftFinal) (by decide)
    have hspelled := spelled_of_no_escape (sample_entry 9 draftFinal) (by decide) nofun
    have hpart : "draft".toList <:+: draftFinal.id.toList := ⟨[], "-final".toList, rfl⟩
    exact .inr (.inl ⟨(List.prefix_append _ _).trans hprefix, hpart.trans hspelled⟩)
  exact hfirst ⟨.plain, draft.id, 12⟩ (.tail _ (.head _)) _ (List.mem_of_getElem? (i := 9) rfl) hmentions

end GraphSkillRuntime.SourceMaps
