import GraphSkillRuntime.AgentMessages
import GraphSkillRuntime.JsonCompact
import GraphSkillRuntime.PyData
import GraphSkillRuntime.StudioMigration
import Mathlib.Data.List.DropRight

/-!
The artifact declarations of a migrated skill. A definition gets a candidate name from its stem; the definitions that
share a candidate are told apart by a prefix of their hash, which grows for all of them until every id is used once.
-/

namespace GraphSkillRuntime.MigratedArtifacts

open FileActions JsonText OrderedDict PyData StudioMigration

variable {F : Type}

/-- What the migration takes from Python: Unicode's NFC, `str.lower` and the hexadecimal SHA-256 of a text. -/
structure Library where
  nfc : String → String
  lower : String → String
  sha256 : List Char → List Char
  sha256_length : ∀ text, (sha256 text).length = 64
  sha256_hex : ∀ text, (sha256 text).all isLowerAlnum = true

/-- `re.sub(r"[^a-z0-9]+", "-", s)`, with whether the character before belongs to the run. -/
def hyphenated : Bool → List Char → List Char
  | _, [] => []
  | inRun, c :: cs =>
    if isLowerAlnum c then c :: hyphenated false cs
    else if inRun then hyphenated true cs
    else '-' :: hyphenated true cs

def stripHyphens (s : List Char) : List Char := (s.dropWhile (· = '-')).rdropWhile (· = '-')

/-- The definition after its texts are normalised; what else it may hold is checked with the declaration. -/
structure NormalizedArtifact (F : Type) where
  stem : String
  fields : List String
  mode : Json F
  format : Json F

def NormalizedArtifact.toJson (a : NormalizedArtifact F) : Json F :=
  .dict [("stem", .str a.stem), ("fields", .list (a.fields.map .str)), ("mode", a.mode), ("format", a.format)]

structure ArtifactRow (F : Type) where
  normalized : NormalizedArtifact F
  canonical : List Char
  digest : List Char
  candidate : List Char

inductive ArtifactMode where
  | single | perItem
  deriving DecidableEq

inductive ArtifactFormat where
  | json | md
  deriving DecidableEq

structure ArtifactDeclaration where
  artifactId : String
  stem : String
  fields : List String
  mode : ArtifactMode
  format : ArtifactFormat
  deriving DecidableEq

structure ArtifactMigration (F : Type) where
  sourceIndex : ℕ
  normalizedDefinition : NormalizedArtifact F
  sha256 : List Char
  artifactId : String

def artifactProblem {α : Type} (code : MigrationErrorCode) (message : String) (source : Path) (field : String) :
    Except Raised α :=
  .error (.problem ⟨code, message, some source, some field⟩)

def isStem (stem : String) : Bool :=
  match stem.toList with
  | [] => false
  | c :: cs => (isLetter c || ('0' ≤ c && c ≤ '9')) &&
      cs.all fun d => isLetter d || ('0' ≤ d && d ≤ '9') || d == '.' || d == '_' || d == '-'

def modeOf? : Json F → Option ArtifactMode
  | .str "single" => some .single
  | .str "per-item" => some .perItem
  | _ => none

def formatOf? : Json F → Option ArtifactFormat
  | .str "json" => some .json
  | .str "md" => some .md
  | _ => none

/-- The validation of `ArtifactDeclaration`; `none` is a `ValidationError`. -/
def declaration? (a : NormalizedArtifact F) (artifactId : String) : Option ArtifactDeclaration := do
  let mode ← modeOf? a.mode
  let format ← formatOf? a.format
  if isPhaseId artifactId && isStem a.stem && !a.fields.isEmpty && a.fields.all (fun name => strip name ≠ "") &&
      decide a.fields.Nodup then
    some { artifactId, stem := a.stem, fields := a.fields, mode, format }
  else none

section Source

variable (P : FloatFormat F) (L : Library) (validationError : NormalizedArtifact F → String) (source : Path)

def artifactCandidate (stem : String) : List Char :=
  let candidate := stripHyphens (hyphenated false (L.lower (strip (L.nfc stem))).toList)
  match candidate with
  | [] => "artifact".toList
  | c :: cs => if '0' ≤ c ∧ c ≤ '9' then "artifact-".toList ++ c :: cs else c :: cs

def stringsOf? : Json F → Option (List String)
  | .list xs => xs.mapM fun
    | .str s => some s
    | _ => none
  | _ => none

def normalizedArtifact (raw : Json F) (index : ℕ) : Except Raised (ArtifactRow F) :=
  let at_ := "artifacts." ++ toString index
  let subject := "artifact at index " ++ toString index
  match raw with
  | .dict members =>
    let unknown := (members.map Prod.fst).filter fun name => name ∉ ["stem", "fields", "mode", "format"]
    if unknown ≠ [] then
      artifactProblem .unknownField (subject ++ " has unknown fields: " ++ ", ".intercalate (orderBy id unknown)) source
        at_
    else
      match Dict.find members "stem" with
      | some (.str stem) =>
        if strip stem = "" then
          artifactProblem .artifactInvalid (subject ++ " requires a non-empty stem") source (at_ ++ ".stem")
        else
          match (Dict.find members "fields").bind stringsOf? with
          | some (field :: fields) =>
            let normalized : NormalizedArtifact F := {
              stem := strip (L.nfc stem)
              fields := (field :: fields).map fun name => strip (L.nfc name)
              mode := (Dict.find members "mode").getD (.str "single")
              format := (Dict.find members "format").getD (.str "json") }
            let canonical := compact P (sortJson normalized.toJson)
            .ok { normalized, canonical, digest := L.sha256 canonical, candidate := artifactCandidate L stem }
          | _ =>
            artifactProblem .artifactInvalid (subject ++ " requires non-empty string fields") source (at_ ++ ".fields")
      | _ => artifactProblem .artifactInvalid (subject ++ " requires a non-empty stem") source (at_ ++ ".stem")
  | _ => artifactProblem .artifactInvalid (subject ++ " must be an object") source at_

def normalizedArtifacts : List (Json F) → ℕ → Except Raised (List (ArtifactRow F))
  | [], _ => .ok []
  | raw :: raws, index => do
    let row ← normalizedArtifact P L source raw index
    let rows ← normalizedArtifacts raws (index + 1)
    return row :: rows

def artifactId (candidates : List (List Char)) (prefixLength : ℕ) (row : ArtifactRow F) : List Char :=
  if candidates.count row.candidate = 1 then row.candidate
  else row.candidate ++ '-' :: row.digest.take prefixLength

def artifactIds (rows : List (ArtifactRow F)) (prefixLength : ℕ) : List (List Char) :=
  rows.map (artifactId (rows.map (·.candidate)) prefixLength)

/-- The loop of `_artifact_declarations`; `none` is where it gives up. -/
def assignIds (rows : List (ArtifactRow F)) (prefixLength : ℕ) : Option (List (List Char)) :=
  if (artifactIds rows prefixLength).Nodup then some (artifactIds rows prefixLength)
  else if 64 < prefixLength + 4 then none
  else assignIds rows (prefixLength + 4)
termination_by 64 - prefixLength

def declared : List (ArtifactRow F × List Char) → ℕ →
    Except Raised (List ArtifactDeclaration × List (ArtifactMigration F))
  | [], _ => .ok ([], [])
  | (row, id) :: rows, index =>
    match declaration? row.normalized (.ofList id) with
    | none =>
      artifactProblem .artifactInvalid ("artifact at index " ++ toString index ++
        " is invalid after normalization: " ++ validationError row.normalized) source ("artifacts." ++ toString index)
    | some declaration => do
      let (declarations, mappings) ← declared rows (index + 1)
      return (declaration :: declarations,
        ⟨index, row.normalized, row.digest, declaration.artifactId⟩ :: mappings)

def artifactDeclarations : Json F → Except Raised (List ArtifactDeclaration × List (ArtifactMigration F))
  | .null => .ok ([], [])
  | .list raws => do
    let rows ← normalizedArtifacts P L source raws 0
    if ¬ (rows.map (·.canonical)).Nodup then
      artifactProblem .artifactDuplicate "runtime_config contains duplicate artifact definitions" source "artifacts"
    else
      match assignIds rows 8 with
      | none =>
        artifactProblem .artifactIdCollision "artifact ids remain ambiguous after using the full definition hash" source
          "artifacts"
      | some ids => declared validationError source (rows.zip ids) 0
  | _ => artifactProblem .artifactInvalid "runtime_config artifacts must be a list" source "artifacts"

end Source

def idChar (c : Char) : Bool := isLowerAlnum c || c == '-'

theorem hyphenated_chars (inRun : Bool) (s : List Char) : ∀ c ∈ hyphenated inRun s, idChar c = true := by
  induction s generalizing inRun with
  | nil => exact fun c hc => absurd hc List.not_mem_nil
  | cons d s ih =>
    rw [hyphenated]
    split_ifs with halnum hrun
    · exact List.forall_mem_cons.mpr ⟨by simp [idChar, halnum], ih false⟩
    · exact ih true
    · exact List.forall_mem_cons.mpr ⟨rfl, ih true⟩

theorem stripHyphens_isPrefix (s : List Char) : stripHyphens s <+: s.dropWhile (· = '-') := List.rdropWhile_prefix ..

theorem stripHyphens_head {s cs : List Char} {c : Char} (h : stripHyphens s = c :: cs) : c ≠ '-' := by
  obtain ⟨rest, hrest⟩ := stripHyphens_isPrefix s
  have hhead := List.head?_dropWhile_not (· = '-') s
  rw [← hrest, h, List.cons_append, List.head?_cons] at hhead
  simpa using hhead

theorem isPhaseId_ofList {c : Char} {cs : List Char} (hc : isLetter c = true) (hcs : ∀ d ∈ cs, idChar d = true) :
    isPhaseId (.ofList (c :: cs)) = true := by
  rw [isPhaseId, String.toList_ofList, Bool.and_eq_true, List.all_eq_true]
  refine ⟨hc, ?_⟩
  intro d hd
  have hid := hcs d hd
  simp only [idChar, isLowerAlnum, Bool.or_eq_true] at hid
  simp only [isLetter, Bool.or_eq_true]
  obtain (hlower | hdigit) | hhyphen := hid
  · exact .inl (.inl (.inl (.inl hlower)))
  · exact .inl (.inl (.inr hdigit))
  · exact .inr hhyphen

structure Named (id : List Char) : Prop where
  letter : ∃ c cs, id = c :: cs ∧ isLetter c = true
  chars : ∀ c ∈ id, idChar c = true

theorem Named.isPhaseId {id : List Char} (h : Named id) : isPhaseId (.ofList id) = true := by
  obtain ⟨c, cs, rfl, hletter⟩ := h.letter
  exact isPhaseId_ofList hletter fun d hd => h.chars d (List.mem_cons_of_mem _ hd)

theorem Named.append {id : List Char} (h : Named id) {more : List Char} (hmore : ∀ c ∈ more, idChar c = true) :
    Named (id ++ more) := by
  obtain ⟨c, cs, rfl, hletter⟩ := h.letter
  exact ⟨⟨c, cs ++ more, rfl, hletter⟩, List.forall_mem_append.mpr ⟨h.chars, hmore⟩⟩

theorem named_candidate (L : Library) (stem : String) : Named (artifactCandidate L stem) := by
  have hchars : ∀ c ∈ stripHyphens (hyphenated false (L.lower (strip (L.nfc stem))).toList), idChar c = true := by
    intro c hc
    apply hyphenated_chars
    exact (List.dropWhile_sublist _).subset ((stripHyphens_isPrefix _).subset hc)
  unfold artifactCandidate
  cases hstrip : stripHyphens (hyphenated false (L.lower (strip (L.nfc stem))).toList) with
  | nil => exact ⟨⟨'a', "rtifact".toList, rfl, rfl⟩, List.all_eq_true.mp rfl⟩
  | cons c cs =>
    rw [hstrip] at hchars
    simp only
    split_ifs with hdigit
    · have hartifact : Named "artifact-".toList := ⟨⟨'a', "rtifact-".toList, rfl, rfl⟩, List.all_eq_true.mp rfl⟩
      exact hartifact.append hchars
    · refine ⟨⟨c, cs, rfl, ?_⟩, hchars⟩
      have hfirst := hchars c (List.mem_cons_self ..)
      have hhyphen := stripHyphens_head hstrip
      simp only [idChar, isLowerAlnum, isLetter, Bool.or_eq_true, Bool.and_eq_true, decide_eq_true_eq,
        beq_iff_eq] at hfirst ⊢
      tauto

section Rows

variable {P : FloatFormat F} {L : Library} {source : Path}

structure RowOf (P : FloatFormat F) (L : Library) (row : ArtifactRow F) : Prop where
  canonical : row.canonical = compact P (sortJson row.normalized.toJson)
  digest : row.digest = L.sha256 row.canonical
  candidate : Named row.candidate

theorem normalizedArtifact_ok {raw : Json F} {index : ℕ} {row : ArtifactRow F}
    (h : normalizedArtifact P L source raw index = .ok row) :
    RowOf P L row ∧ ∀ other, normalizedArtifact P L source raw other = .ok row := by
  unfold normalizedArtifact at h ⊢
  cases raw with
  | dict members =>
    simp only at h ⊢
    split_ifs at h ⊢ with hunknown
    · cases h
    · cases hstem : Dict.find members "stem" with
      | none =>
        rw [hstem] at h
        cases h
      | some stem =>
        rw [hstem] at h
        cases stem with
        | str stem =>
          simp only at h ⊢
          split_ifs at h ⊢ with hblank
          · cases h
          · cases hfields : (Dict.find members "fields").bind stringsOf? with
            | none =>
              rw [hfields] at h
              cases h
            | some fields =>
              rw [hfields] at h
              cases fields with
              | nil => cases h
              | cons field fields =>
                obtain rfl := Except.ok.inj h
                exact ⟨⟨rfl, rfl, named_candidate L stem⟩, fun _ => rfl⟩
        | _ => cases h
  | _ => cases h

theorem named_id {row : ArtifactRow F} (h : RowOf P L row) (candidates : List (List Char)) (prefixLength : ℕ) :
    Named (artifactId candidates prefixLength row) := by
  unfold artifactId
  split_ifs
  · exact h.candidate
  · apply h.candidate.append
    rw [List.forall_mem_cons]
    refine ⟨by decide, ?_⟩
    intro c hc
    have hhex := List.all_eq_true.mp (L.sha256_hex row.canonical) c (h.digest ▸ List.mem_of_mem_take hc)
    simp [idChar, hhex]

theorem artifactIds_perm {rows rows' : List (ArtifactRow F)} (h : rows'.Perm rows) (prefixLength : ℕ) :
    artifactIds rows' prefixLength = rows'.map (artifactId (rows.map (·.candidate)) prefixLength) := by
  unfold artifactIds
  congr 1
  funext row
  rw [artifactId, artifactId, (h.map _).count_eq]

theorem assignIds_spec (rows : List (ArtifactRow F)) (prefixLength : ℕ) :
    (¬ (artifactIds rows (prefixLength + 4 * ((64 - prefixLength) / 4))).Nodup ∧
        ∀ rows', rows'.Perm rows → assignIds rows' prefixLength = none) ∨
      ∃ n, ∀ rows', rows'.Perm rows → assignIds rows' prefixLength =
        some (rows'.map (artifactId (rows.map (·.candidate)) n)) ∧
          (rows'.map (artifactId (rows.map (·.candidate)) n)).Nodup := by
  induction prefixLength using assignIds.induct rows with
  | case1 prefixLength hnodup =>
    right
    refine ⟨prefixLength, ?_⟩
    intro rows' hperm
    have hnodup' : (artifactIds rows' prefixLength).Nodup := by
      rw [artifactIds_perm hperm]
      exact (hperm.map _).nodup_iff.mpr hnodup
    rw [assignIds, if_pos hnodup', ← artifactIds_perm hperm]
    exact ⟨rfl, hnodup'⟩
  | case2 prefixLength hclash hlong =>
    left
    have hstop : (64 - prefixLength) / 4 = 0 := by omega
    rw [hstop]
    refine ⟨hclash, ?_⟩
    intro rows' hperm
    have hclash' : ¬ (artifactIds rows' prefixLength).Nodup := by
      rw [artifactIds_perm hperm]
      exact fun h => hclash ((hperm.map _).nodup_iff.mp h)
    rw [assignIds, if_neg hclash', if_pos hlong]
  | case3 prefixLength hclash hshort ih =>
    have hnext (rows' : List (ArtifactRow F)) (hperm : rows'.Perm rows) :
        assignIds rows' prefixLength = assignIds rows' (prefixLength + 4) := by
      have hclash' : ¬ (artifactIds rows' prefixLength).Nodup := by
        rw [artifactIds_perm hperm]
        exact fun h => hclash ((hperm.map _).nodup_iff.mp h)
      rw [assignIds, if_neg hclash', if_neg hshort]
    have hrounds : prefixLength + 4 + 4 * ((64 - (prefixLength + 4)) / 4) =
        prefixLength + 4 * ((64 - prefixLength) / 4) := by omega
    rw [hrounds] at ih
    cases ih with
    | inl hnone => exact .inl ⟨hnone.1, fun rows' hperm => (hnext rows' hperm).trans (hnone.2 rows' hperm)⟩
    | inr hsome =>
      obtain ⟨n, hn⟩ := hsome
      refine .inr ⟨n, ?_⟩
      intro rows' hperm
      rw [hnext rows' hperm]
      exact hn rows' hperm

theorem artifactIds_full_nodup {rows : List (ArtifactRow F)} (hlength : ∀ row ∈ rows, row.digest.length = 64)
    (hdigests : (rows.map (·.digest)).Nodup)
    (hapart : ∀ row ∈ rows, ∀ other ∈ rows, ∀ n, row.candidate ≠ other.candidate ++ '-' :: other.digest.take n) :
    (artifactIds rows 64).Nodup := by
  have hfull (row : ArtifactRow F) (hrow : row ∈ rows) : row.digest.take 64 = row.digest :=
    List.take_of_length_le (le_of_eq (hlength row hrow))
  have hrows : rows.Nodup := List.Nodup.of_map _ hdigests
  refine List.Nodup.map_on ?_ hrows
  intro row hrow other hother hid
  unfold artifactId at hid
  split_ifs at hid with hone hone' hone'
  · by_contra hne
    -- two rows with one candidate would count twice
    have hpair : [row, other].Subperm rows :=
      (List.nodup_cons.mpr ⟨by simpa using hne, List.nodup_singleton _⟩).subperm (by simp [hrow, hother])
    obtain ⟨sub, hperm, hsub⟩ := hpair
    have hcount := (hsub.map (·.candidate)).count_le row.candidate
    rw [(hperm.map _).count_eq, hone] at hcount
    simp [hid] at hcount
  · exact absurd hid (hapart row hrow other hother 64)
  · exact absurd hid.symm (hapart other hother row hrow 64)
  · rw [hfull row hrow, hfull other hother] at hid
    have hlengths : row.digest.length = other.digest.length := by rw [hlength row hrow, hlength other hother]
    have hsuffix := List.append_inj_right' hid (by simp [hlengths])
    exact List.inj_on_of_nodup_map hdigests hrow hother (List.cons.inj hsuffix).2

theorem declaration?_id {a : NormalizedArtifact F} {id : String} {declaration : ArtifactDeclaration}
    (h : declaration? a id = some declaration) : declaration.artifactId = id := by
  simp only [declaration?, bind, Option.bind_eq_some_iff] at h
  obtain ⟨mode, -, format, -, h⟩ := h
  split_ifs at h with hchecks
  rw [← Option.some_inj.mp h]

theorem declaration?_isSome {a : NormalizedArtifact F} {id other : String} (h : (declaration? a id).isSome = true)
    (hother : isPhaseId other = true) : (declaration? a other).isSome = true := by
  obtain ⟨declaration, hdeclaration⟩ := Option.isSome_iff_exists.mp h
  simp only [declaration?, bind, Option.bind_eq_some_iff] at hdeclaration
  obtain ⟨mode, hmode, format, hformat, hchecks⟩ := hdeclaration
  split_ifs at hchecks with hall
  simp only [Bool.and_eq_true] at hall
  obtain ⟨⟨⟨⟨-, hstem⟩, hfields⟩, hblank⟩, hunique⟩ := hall
  simp only [declaration?, bind, hmode, hformat, hother, hstem, hfields, hblank, hunique, Option.bind_some,
    Bool.and_self, if_true, Option.isSome_some]

theorem declared_ok {validationError : NormalizedArtifact F → String} {rows : List (ArtifactRow F)}
    {name : ArtifactRow F → List Char}
    (h : ∀ row ∈ rows, (declaration? row.normalized (.ofList (name row))).isSome = true) (index : ℕ) :
    ∃ declarations mappings, declared validationError source (rows.zip (rows.map name)) index =
        .ok (declarations, mappings) ∧
      declarations.map (·.artifactId) = rows.map (fun row => .ofList (name row)) ∧
      mappings.map (·.artifactId) = declarations.map (·.artifactId) := by
  induction rows generalizing index with
  | nil => exact ⟨[], [], rfl, rfl, rfl⟩
  | cons row rows ih =>
    rw [List.forall_mem_cons] at h
    obtain ⟨declaration, hdeclaration⟩ := Option.isSome_iff_exists.mp h.1
    obtain ⟨declarations, mappings, hrest, hids, hmapped⟩ := ih h.2 (index + 1)
    refine ⟨declaration :: declarations,
      ⟨index, row.normalized, row.digest, declaration.artifactId⟩ :: mappings, ?_, ?_, ?_⟩
    · rw [List.map_cons, List.zip_cons_cons, declared, hdeclaration]
      simp only [hrest, bind, Except.bind, pure, Except.pure]
    · rw [List.map_cons, List.map_cons, hids, declaration?_id hdeclaration]
    · rw [List.map_cons, List.map_cons, hmapped]

end Rows

section Declarations

variable (P : FloatFormat F) (L : Library) (validationError : NormalizedArtifact F → String) (source : Path)

def row? (raw : Json F) : Option (ArtifactRow F) := (normalizedArtifact P L source raw 0).toOption

/-- The definition is normalised to one that some id makes a declaration of. -/
def Valid (raw : Json F) : Prop :=
  ∃ row, row? P L source raw = some row ∧ ∃ id, (declaration? row.normalized id).isSome = true

/-- The normalised definition, its members in the order of their names. -/
def definition? (raw : Json F) : Option (Json F) := (row? P L source raw).map fun row => sortJson row.normalized.toJson

def HashesSeparate (raws : List (Json F)) : Prop :=
  ∀ row ∈ raws.filterMap (row? P L source), ∀ other ∈ raws.filterMap (row? P L source),
    L.sha256 row.canonical = L.sha256 other.canonical → row.canonical = other.canonical

/-- No candidate is spelled like another one with a hyphen and a prefix of its hash. -/
def CandidatesApart (raws : List (Json F)) : Prop :=
  ∀ row ∈ raws.filterMap (row? P L source), ∀ other ∈ raws.filterMap (row? P L source),
    ∀ n, row.candidate ≠ other.candidate ++ '-' :: other.digest.take n

def collision : Raised :=
  .problem ⟨.artifactIdCollision, "artifact ids remain ambiguous after using the full definition hash", some source,
    some "artifacts"⟩

variable {P L source}

theorem row?_some {raw : Json F} {row : ArtifactRow F} (h : row? P L source raw = some row) :
    RowOf P L row ∧ ∀ index, normalizedArtifact P L source raw index = .ok row := by
  unfold row? at h
  cases hrow : normalizedArtifact P L source raw 0 with
  | error e =>
    rw [hrow] at h
    cases h
  | ok found =>
    rw [hrow] at h
    obtain rfl := Option.some_inj.mp h
    exact normalizedArtifact_ok hrow

theorem normalizedArtifacts_map {raws : List (Json F)} {rowOf : Json F → ArtifactRow F}
    (h : ∀ raw ∈ raws, row? P L source raw = some (rowOf raw)) (index : ℕ) :
    normalizedArtifacts P L source raws index = .ok (raws.map rowOf) := by
  induction raws generalizing index with
  | nil => rfl
  | cons raw raws ih =>
    rw [List.forall_mem_cons] at h
    rw [normalizedArtifacts, (row?_some h.1).2 index, ih h.2]
    rfl

theorem filterMap_row? {raws : List (Json F)} {rowOf : Json F → ArtifactRow F}
    (h : ∀ raw ∈ raws, row? P L source raw = some (rowOf raw)) :
    raws.filterMap (row? P L source) = raws.map rowOf := by
  rw [List.filterMap_congr h, ← List.filterMap_eq_map]
  rfl

theorem modeOf?_distinct {v : Json F} {mode : ArtifactMode} (h : modeOf? v = some mode) : v.Distinct := by
  unfold modeOf? at h
  split at h
  · trivial
  · trivial
  · cases h

theorem formatOf?_distinct {v : Json F} {format : ArtifactFormat} (h : formatOf? v = some format) : v.Distinct := by
  unfold formatOf? at h
  split at h
  · trivial
  · trivial
  · cases h

theorem toJson_distinct {a : NormalizedArtifact F} {id : String} (h : (declaration? a id).isSome = true) :
    a.toJson.Distinct := by
  obtain ⟨declaration, hdeclaration⟩ := Option.isSome_iff_exists.mp h
  simp only [declaration?, bind, Option.bind_eq_some_iff] at hdeclaration
  obtain ⟨mode, hmode, format, hformat, -⟩ := hdeclaration
  have hfields : distinctElements (a.fields.map (Json.str (F := F))) := by
    rw [distinctElements_iff, List.forall_mem_map]
    exact fun _ _ => trivial
  exact ⟨by simp, trivial, hfields, modeOf?_distinct hmode, formatOf?_distinct hformat, trivial⟩

theorem canonical_nodup {raws : List (Json F)} {rowOf : Json F → ArtifactRow F}
    (hrows : ∀ raw ∈ raws, row? P L source raw = some (rowOf raw))
    (hvalid : ∀ raw ∈ raws, ∃ id, (declaration? (rowOf raw).normalized id).isSome = true)
    (hdifferent : (raws.map (definition? P L source)).Nodup) : ((raws.map rowOf).map (·.canonical)).Nodup := by
  rw [List.map_map]
  refine List.Nodup.map_on ?_ (List.Nodup.of_map _ hdifferent)
  intro raw hraw other hother hcanonical
  obtain ⟨id, hid⟩ := hvalid raw hraw
  obtain ⟨id', hid'⟩ := hvalid other hother
  simp only [Function.comp_apply, (row?_some (hrows raw hraw)).1.canonical,
    (row?_some (hrows other hother)).1.canonical] at hcanonical
  have hsame := compact_injective P (distinct_sortJson _ (toJson_distinct hid))
    (distinct_sortJson _ (toJson_distinct hid')) hcanonical
  apply List.inj_on_of_nodup_map hdifferent hraw hother
  rw [definition?, definition?, hrows raw hraw, hrows other hother, Option.map_some, Option.map_some, hsame]

theorem artifactDeclarations_eq {raws : List (Json F)} {rowOf : Json F → ArtifactRow F}
    (hrows : ∀ raw ∈ raws, row? P L source raw = some (rowOf raw))
    (hcanonical : ((raws.map rowOf).map (·.canonical)).Nodup) :
    artifactDeclarations P L validationError source (.list raws) =
      match assignIds (raws.map rowOf) 8 with
      | none => .error (collision source)
      | some ids => declared validationError source ((raws.map rowOf).zip ids) 0 := by
  rw [artifactDeclarations, normalizedArtifacts_map hrows]
  simp only [bind, Except.bind]
  rw [if_neg (not_not.mpr hcanonical)]
  cases assignIds (raws.map rowOf) 8 <;> rfl

/-- The ids of valid and different definitions: distinct or refused, refused only where candidates and suffixed ones
are spelled alike, and the same for every order. -/
theorem artifact_identities {raws : List (Json F)} (hvalid : ∀ raw ∈ raws, Valid P L source raw)
    (hdifferent : (raws.map (definition? P L source)).Nodup) :
    ((∃ declarations mappings, artifactDeclarations P L validationError source (.list raws) =
          .ok (declarations, mappings) ∧ (declarations.map (·.artifactId)).Nodup ∧
          mappings.map (·.artifactId) = declarations.map (·.artifactId)) ∨
        artifactDeclarations P L validationError source (.list raws) = .error (collision source)) ∧
      (HashesSeparate P L source raws → CandidatesApart P L source raws →
        ∃ result, artifactDeclarations P L validationError source (.list raws) = .ok result) ∧
      ((∀ raws', raws'.Perm raws →
          artifactDeclarations P L validationError source (.list raws') = .error (collision source)) ∨
        ∃ name : Json F → String, ∀ raws', raws'.Perm raws → ∃ declarations mappings,
          artifactDeclarations P L validationError source (.list raws') = .ok (declarations, mappings) ∧
          declarations.map (·.artifactId) = raws'.map name) := by
  have hfound : ∃ rowOf : Json F → ArtifactRow F, ∀ raw ∈ raws, row? P L source raw = some (rowOf raw) ∧
      ∃ id, (declaration? (rowOf raw).normalized id).isSome = true := by
    have : Nonempty (ArtifactRow F) := ⟨⟨⟨"", [], .null, .null⟩, [], [], []⟩⟩
    choose! rowOf hrowOf using hvalid
    exact ⟨rowOf, hrowOf⟩
  obtain ⟨rowOf, hfound⟩ := hfound
  have hrows : ∀ raw ∈ raws, row? P L source raw = some (rowOf raw) := fun raw hraw => (hfound raw hraw).1
  have hcanonical := canonical_nodup hrows (fun raw hraw => (hfound raw hraw).2) hdifferent
  have heq (raws' : List (Json F)) (hperm : raws'.Perm raws) :
      artifactDeclarations P L validationError source (.list raws') =
        match assignIds (raws'.map rowOf) 8 with
        | none => .error (collision source)
        | some ids => declared validationError source ((raws'.map rowOf).zip ids) 0 :=
    artifactDeclarations_eq validationError (fun raw hraw => hrows raw (hperm.subset hraw))
      (((hperm.map rowOf).map _).nodup_iff.mpr hcanonical)
  have hrow : ∀ row ∈ raws.map rowOf, RowOf P L row ∧ ∃ id, (declaration? row.normalized id).isSome = true := by
    rw [List.forall_mem_map]
    exact fun raw hraw => ⟨(row?_some (hrows raw hraw)).1, (hfound raw hraw).2⟩
  cases assignIds_spec (raws.map rowOf) 8 with
  | inl hnone =>
    have hrefused (raws' : List (Json F)) (hperm : raws'.Perm raws) :
        artifactDeclarations P L validationError source (.list raws') = .error (collision source) := by
      rw [heq raws' hperm, hnone.2 _ (hperm.map rowOf)]
    refine ⟨.inr (hrefused raws (.refl _)), ?_, .inl hrefused⟩
    intro hhashes hapart
    rw [CandidatesApart, filterMap_row? hrows] at hapart
    rw [HashesSeparate, filterMap_row? hrows] at hhashes
    refine absurd (artifactIds_full_nodup ?_ ?_ hapart) hnone.1
    · intro row hmem
      rw [(hrow row hmem).1.digest, L.sha256_length]
    · refine List.Nodup.map_on ?_ (List.Nodup.of_map _ hcanonical)
      intro row hmem other hother hdigest
      rw [(hrow row hmem).1.digest, (hrow other hother).1.digest] at hdigest
      exact List.inj_on_of_nodup_map hcanonical hmem hother (hhashes row hmem other hother hdigest)
  | inr hsome =>
    obtain ⟨n, hn⟩ := hsome
    let name (raw : Json F) : String :=
      .ofList (artifactId ((raws.map rowOf).map (·.candidate)) n (rowOf raw))
    have hdeclared (raws' : List (Json F)) (hperm : raws'.Perm raws) : ∃ declarations mappings,
        artifactDeclarations P L validationError source (.list raws') = .ok (declarations, mappings) ∧
        declarations.map (·.artifactId) = raws'.map name ∧
        mappings.map (·.artifactId) = declarations.map (·.artifactId) := by
      rw [heq raws' hperm, (hn _ (hperm.map rowOf)).1]
      simp only
      have hall : ∀ row ∈ raws'.map rowOf, (declaration? row.normalized
          (.ofList (artifactId ((raws.map rowOf).map (·.candidate)) n row))).isSome = true := by
        intro row hmem
        obtain ⟨hspec, id, hid⟩ := hrow row ((hperm.map rowOf).subset hmem)
        exact declaration?_isSome hid (named_id hspec _ _).isPhaseId
      obtain ⟨declarations, mappings, hok, hids, hmapped⟩ := declared_ok hall 0
      refine ⟨declarations, mappings, hok, ?_, hmapped⟩
      rw [hids, List.map_map]
      rfl
    obtain ⟨declarations, mappings, hok, hids, hmapped⟩ := hdeclared raws (.refl _)
    have hnodup : (raws.map name).Nodup := by
      have hall := (hn _ (.refl _)).2
      rw [List.map_map] at hall
      have hmapped := hall.map (f := String.ofList) (fun _ _ h => String.ofList_inj.mp h)
      rwa [List.map_map] at hmapped
    refine ⟨.inl ⟨declarations, mappings, hok, hids ▸ hnodup, hmapped⟩, fun _ _ => ⟨_, hok⟩, .inr ⟨name, ?_⟩⟩
    intro raws' hperm
    obtain ⟨declarations', mappings', hok', hids', -⟩ := hdeclared raws' hperm
    exact ⟨declarations', mappings', hok', hids'⟩

end Declarations

def sampleLibrary : Library where
  nfc := id
  lower s := .ofList (s.toList.map Char.toLower)
  sha256 text := List.replicate 64 (if text.length % 2 = 0 then 'a' else 'b')
  sha256_length _ := List.length_replicate
  sha256_hex text := by
    rw [List.all_eq_true]
    intro c hc
    rw [List.eq_of_mem_replicate hc]
    split_ifs <;> decide

def report (stem field : String) : Json FloatLiteral := .dict [("stem", .str stem), ("fields", .list [.str field])]

def reports : List (Json FloatLiteral) := [report "Report" "title", report "report" "body"]

def reportRow (stem field : String) : ArtifactRow FloatLiteral :=
  let normalized : NormalizedArtifact FloatLiteral := ⟨stem, [field], .str "single", .str "json"⟩
  let canonical := compact literalFormat (sortJson normalized.toJson)
  { normalized, canonical, digest := sampleLibrary.sha256 canonical, candidate := "report".toList }

theorem row?_report :
    row? literalFormat sampleLibrary [] (report "Report" "title") = some (reportRow "Report" "title") ∧
    row? literalFormat sampleLibrary [] (report "report" "body") = some (reportRow "report" "body") := ⟨rfl, rfl⟩

theorem reports_rows : reports.filterMap (row? literalFormat sampleLibrary []) =
    [reportRow "Report" "title", reportRow "report" "body"] := by
  simp only [reports, List.filterMap_cons, row?_report, List.filterMap_nil]

theorem artifact_identities_reports : ∃ result,
    artifactDeclarations literalFormat sampleLibrary (fun _ => "") [] (.list reports) = .ok result := by
  have hvalid : ∀ raw ∈ reports, Valid literalFormat sampleLibrary [] raw := by
    simp only [reports, List.forall_mem_cons, List.not_mem_nil, false_imp_iff, implies_true, and_true]
    exact ⟨⟨_, row?_report.1, "report", by decide⟩, ⟨_, row?_report.2, "report", by decide⟩⟩
  have hdifferent : (reports.map (definition? literalFormat sampleLibrary [])).Nodup := by
    have htexts : (reports.map fun raw => (row? literalFormat sampleLibrary [] raw).map (·.canonical)).Nodup := by
      simp only [reports, List.map_cons, row?_report, List.map_nil]
      decide
    refine List.Nodup.of_map (Option.map (compact literalFormat)) ?_
    rw [List.map_map]
    simpa [reports, definition?, row?_report, reportRow] using htexts
  apply (artifact_identities (fun _ => "") hvalid hdifferent).2.1
  · rw [HashesSeparate, reports_rows]
    simp only [List.forall_mem_cons, List.not_mem_nil, false_imp_iff, implies_true, and_true]
    decide
  · rw [CandidatesApart, reports_rows]
    intro row hrow other hother n h
    have hlength := congrArg List.length h
    simp only [List.mem_cons, List.not_mem_nil, or_false] at hrow hother
    have hreport : row.candidate = "report".toList ∧ other.candidate = "report".toList := by
      obtain rfl | rfl := hrow <;> obtain rfl | rfl := hother <;> exact ⟨rfl, rfl⟩
    rw [hreport.1, hreport.2] at hlength
    simp at hlength

end GraphSkillRuntime.MigratedArtifacts
