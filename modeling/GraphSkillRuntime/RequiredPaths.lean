import GraphSkillRuntime.PhaseWrapper
import Mathlib.Data.List.Perm.Basic

/-!
The check of a phase's declared inputs beside the `required` keyword of the standard, where subschemas are reached
through `properties` only: `required` binds the objects among the instances, and the check enters the subschemas that
describe an object.
-/

namespace GraphSkillRuntime.RequiredPaths

open OrderedDict

structure Application where
  keys : List String
  value : Value
  schema : List (String × Value)
  nested : Bool

mutual

def applications (nested : Bool) (value : Value) (keys : List String) : Value → List Application
  | .dict schema => ⟨keys, value, schema, nested⟩ :: applicationsIn ((value.asDict?).getD ∅) keys schema
  | _ => []

def applicationsIn (members : Dict String Value) (keys : List String) : List (String × Value) → List Application
  | [] => []
  | (k, v) :: rest =>
    (if k = "properties" then applicationsOf members keys v else []) ++ applicationsIn members keys rest

def applicationsOf (members : Dict String Value) (keys : List String) : Value → List Application
  | .dict properties => applicationsAt members keys properties
  | _ => []

def applicationsAt (members : Dict String Value) (keys : List String) : List (String × Value) → List Application
  | [] => []
  | (name, subschema) :: rest =>
    (match members.get? name with
      | some v => applications true v (keys ++ [name]) subschema
      | none => []) ++ applicationsAt members keys rest

end

def spelled (keys : List String) : String := keys.foldl (fun path key => path ++ key ++ ".") ""

namespace Application

def absent (a : Application) : List String :=
  missingNames ((Dict.ofList a.schema).get? "required") ((a.value.asDict?).getD ∅) ""

def missing (a : Application) : List String := a.absent.map (spelled a.keys ++ ·)

/-- In the standard `required` says nothing about an instance that is not an object. -/
def binds (a : Application) : Bool := (a.value.asDict?).isSome

def entered (a : Application) : Bool := !a.nested || isObjectSchema (Dict.ofList a.schema)

end Application

section

variable (value schema : Value)

/-- The dotted paths that a validator of the standard reports under `required`. -/
def requiredViolations : List String :=
  ((applications false value [] schema).filter (·.binds)).flatMap Application.missing

/-- What the check reads as missing in a value that is not an object. -/
def falseReports : List String :=
  ((applications false value [] schema).filter fun a => a.entered && !a.binds).flatMap Application.missing

/-- What is missing under a subschema that requires members without describing an object. -/
def overlooked : List String :=
  ((applications false value [] schema).filter fun a => a.binds && !a.entered).flatMap Application.missing

def Undotted : Prop := ∀ a ∈ applications false value [] schema, ∀ name ∈ a.keys ++ a.absent, '.' ∉ name.toList

def SharesRequired : Prop :=
  (missingRequiredPaths value "" schema = [] ↔ requiredViolations value schema = []) ∧
    (missingRequiredPaths value "" schema).Perm (requiredViolations value schema)

end

@[simp] theorem spelled_append (keys : List String) (name : String) :
    spelled (keys ++ [name]) = spelled keys ++ name ++ "." := by
  simp [spelled]

theorem missingNames_eq (required : Option Value) (data : Dict String Value) (path : String) :
    missingNames required data path = (missingNames required data "").map (path ++ ·) := by
  cases required with
  | none => rfl
  | some names =>
    cases names with
    | list names =>
      simp only [missingNames, List.map_filterMap]
      congr 1
      funext name
      cases name with
      | str name => by_cases hname : data.contains name = true <;> simp [hname]
      | _ => rfl
    | _ => rfl

/-! The check is the report of the subschemas it enters. -/

def reports (as : List Application) : List String := (as.filter (·.entered)).flatMap Application.missing

theorem reports_append (as bs : List Application) : reports (as ++ bs) = reports as ++ reports bs := by
  simp [reports]

theorem applicationsIn_nil {members : Dict String Value} {keys : List String} {kvs : List (String × Value)}
    (h : ∀ v, ("properties", v) ∈ kvs → v.asDict? = none) : applicationsIn members keys kvs = [] := by
  induction kvs with
  | nil => rfl
  | cons kv kvs ih =>
    obtain ⟨k, v⟩ := kv
    rw [applicationsIn, ih fun v hv => h v (List.mem_cons_of_mem _ hv), List.append_nil]
    split_ifs with hk
    · subst hk
      have hv := h v (List.mem_cons_self ..)
      cases v with
      | dict properties => cases hv
      | _ => rfl
    · rfl

theorem applications_not_object {value : Value} {keys : List String} {schema : List (String × Value)}
    (hn : (schema.map Prod.fst).Nodup) (h : isObjectSchema (Dict.ofList schema) = false) :
    applications true value keys (.dict schema) = [⟨keys, value, schema, true⟩] := by
  have hproperties : dictAt (Dict.ofList schema) "properties" = none := by
    by_contra hsome
    have hisSome : (dictAt (Dict.ofList schema) "properties").isSome = true := Option.isSome_iff_ne_none.mpr hsome
    unfold isObjectSchema at h
    split at h
    · cases h
    · simp [hisSome] at h
    · simp [hisSome] at h
  rw [applications, applicationsIn_nil]
  intro v hv
  rw [dictAt, Dict.get?_ofList_of_mem hn hv] at hproperties
  exact hproperties

mutual

theorem missing_perm {value : Value} {keys : List String} {nested : Bool} {schema : Value} (hkeyed : schema.Keyed)
    (h : nested = false ∨ (schema.asDict?).any isObjectSchema = true) :
    (missingRequiredPaths value (spelled keys) schema).Perm (reports (applications nested value keys schema)) := by
  cases schema with
  | dict schema =>
    have hentered : (Application.mk keys value schema nested).entered = true := by
      rcases h with h | h
      · simp [Application.entered, h]
      · have hobject : isObjectSchema (Dict.ofList schema) = true := by simpa [Value.asDict?] using h
        simp [Application.entered, hobject]
    rw [missingRequiredPaths, sortKeys]
    refine (List.perm_insertionSort _ _).trans ?_
    rw [applications, reports, List.filter_cons_of_pos hentered, List.flatMap_cons, missingNames_eq]
    exact List.Perm.append_left _ (missingInSchema_perm hkeyed.2)
  | _ => simp [missingRequiredPaths, applications, reports]
termination_by structural schema

theorem missingInSchema_perm {members : Dict String Value} {keys : List String} {kvs : List (String × Value)}
    (hkeyed : Value.KeyedMembers kvs) :
    (missingInSchema members (spelled keys) kvs).Perm (reports (applicationsIn members keys kvs)) := by
  cases kvs with
  | nil => exact .refl _
  | cons kv rest =>
    obtain ⟨k, v⟩ := kv
    rw [missingInSchema, applicationsIn, reports_append]
    refine List.Perm.append ?_ (missingInSchema_perm hkeyed.2)
    split_ifs
    · exact missingInProperties_perm hkeyed.1
    · exact .refl _
termination_by structural kvs

theorem missingInProperties_perm {members : Dict String Value} {keys : List String} {properties : Value}
    (hkeyed : properties.Keyed) :
    (missingInProperties members (spelled keys) properties).Perm
      (reports (applicationsOf members keys properties)) := by
  cases properties with
  | dict kvs =>
    rw [missingInProperties, applicationsOf]
    exact missingInFields_perm hkeyed.2
  | _ => exact .refl _
termination_by structural properties

theorem missingInFields_perm {members : Dict String Value} {keys : List String} {properties : List (String × Value)}
    (hkeyed : Value.KeyedMembers properties) :
    (missingInFields members (spelled keys) properties).Perm (reports (applicationsAt members keys properties)) := by
  cases properties with
  | nil => exact .refl _
  | cons property rest =>
    obtain ⟨name, subschema⟩ := property
    rw [missingInFields, applicationsAt, reports_append]
    refine List.Perm.append ?_ (missingInFields_perm hkeyed.2)
    cases members.get? name with
    | none => exact .refl _
    | some v =>
      simp only [← spelled_append]
      split_ifs with hobject
      · exact missing_perm hkeyed.1 (.inr hobject)
      · cases subschema with
        | dict schema =>
          have hnot : isObjectSchema (Dict.ofList schema) = false := by simpa [Value.asDict?] using hobject
          rw [applications_not_object hkeyed.1.1 hnot]
          simp [reports, Application.entered, hnot]
        | _ => simp [applications, reports]
termination_by structural properties

end

theorem filter_split_perm {α : Type} (p q : α → Bool) (as : List α) :
    (as.filter p).Perm (as.filter (fun a => p a && q a) ++ as.filter (fun a => p a && !q a)) := by
  have h := (List.filter_append_perm q (as.filter p)).symm
  rw [List.filter_filter, List.filter_filter] at h
  simpa only [Bool.and_comm] using h

theorem shares_required_perm {value schema : Value} (hschema : schema.Keyed) :
    SharesRequired value schema ↔ (falseReports value schema).Perm (overlooked value schema) := by
  have hcheck : (missingRequiredPaths value "" schema).Perm (reports (applications false value [] schema)) :=
    @missing_perm value [] false schema hschema (.inl rfl)
  have hentered := (filter_split_perm Application.entered Application.binds
    (applications false value [] schema)).flatMap_right Application.missing
  have hbinds := (filter_split_perm Application.binds Application.entered
    (applications false value [] schema)).flatMap_right Application.missing
  have hboth : (fun a : Application => a.binds && a.entered) = fun a => a.entered && a.binds := by
    funext a
    exact Bool.and_comm ..
  rw [List.flatMap_append] at hentered hbinds
  rw [hboth] at hbinds
  constructor
  · rintro ⟨-, hperm⟩
    exact (List.perm_append_left_iff _).mp (((hcheck.trans hentered).symm.trans hperm).trans hbinds)
  · intro hperm
    have hsame : (missingRequiredPaths value "" schema).Perm (requiredViolations value schema) :=
      ((hcheck.trans hentered).trans (List.Perm.append_left _ hperm)).trans hbinds.symm
    exact ⟨⟨fun h => (h ▸ hsame).nil_eq.symm, fun h => (h ▸ hsame).eq_nil⟩, hsame⟩

/-! Without dots in the names a path leads to one instance. -/

def follow (value : Value) : List String → Option Value
  | [] => some value
  | key :: keys =>
    match ((value.asDict?).getD ∅).get? key with
    | some member => follow member keys
    | none => none

mutual

theorem follow_applications {nested : Bool} {value : Value} {keys : List String} {schema : Value} {a : Application}
    (ha : a ∈ applications nested value keys schema) :
    ∃ more, a.keys = keys ++ more ∧ follow value more = some a.value := by
  cases schema with
  | dict schema =>
    rw [applications, List.mem_cons] at ha
    cases ha with
    | inl hhere =>
      subst hhere
      exact ⟨[], (List.append_nil keys).symm, rfl⟩
    | inr hbelow => exact follow_applicationsIn hbelow
  | _ => cases ha
termination_by structural schema

theorem follow_applicationsIn {value : Value} {keys : List String} {kvs : List (String × Value)} {a : Application}
    (ha : a ∈ applicationsIn ((value.asDict?).getD ∅) keys kvs) :
    ∃ more, a.keys = keys ++ more ∧ follow value more = some a.value := by
  cases kvs with
  | nil => cases ha
  | cons kv rest =>
    obtain ⟨k, v⟩ := kv
    rw [applicationsIn, List.mem_append] at ha
    cases ha with
    | inl hhere =>
      split_ifs at hhere with hk
      · exact follow_applicationsOf hhere
      · cases hhere
    | inr hrest => exact follow_applicationsIn hrest
termination_by structural kvs

theorem follow_applicationsOf {value : Value} {keys : List String} {properties : Value} {a : Application}
    (ha : a ∈ applicationsOf ((value.asDict?).getD ∅) keys properties) :
    ∃ more, a.keys = keys ++ more ∧ follow value more = some a.value := by
  cases properties with
  | dict properties => exact follow_applicationsAt ha
  | _ => cases ha
termination_by structural properties

theorem follow_applicationsAt {value : Value} {keys : List String} {properties : List (String × Value)}
    {a : Application} (ha : a ∈ applicationsAt ((value.asDict?).getD ∅) keys properties) :
    ∃ more, a.keys = keys ++ more ∧ follow value more = some a.value := by
  cases properties with
  | nil => cases ha
  | cons property rest =>
    obtain ⟨name, subschema⟩ := property
    rw [applicationsAt, List.mem_append] at ha
    cases ha with
    | inl hhere =>
      cases hmember : ((value.asDict?).getD ∅).get? name with
      | none =>
        rw [hmember] at hhere
        cases hhere
      | some member =>
        rw [hmember] at hhere
        obtain ⟨more, hkeys, hfollow⟩ := follow_applications hhere
        refine ⟨name :: more, by simpa using hkeys, ?_⟩
        simpa only [follow, hmember] using hfollow
    | inr hrest => exact follow_applicationsAt hrest
termination_by structural properties

end

theorem spelled_toList (keys : List String) : (spelled keys).toList = keys.flatMap (·.toList ++ ['.']) := by
  have hfold (path : String) : (keys.foldl (fun path key => path ++ key ++ ".") path).toList =
      path.toList ++ keys.flatMap (·.toList ++ ['.']) := by
    induction keys generalizing path with
    | nil => simp
    | cons key keys ih => simp [ih]
  simpa [spelled] using hfold ""

theorem undotted_split {key other : List Char} {rest tail : List Char} (hkey : '.' ∉ key) (hother : '.' ∉ other)
    (h : key ++ '.' :: rest = other ++ '.' :: tail) : key = other ∧ rest = tail := by
  induction key generalizing other with
  | nil =>
    cases other with
    | nil => simpa using h
    | cons d other =>
      rw [List.nil_append, List.cons_append, List.cons.injEq] at h
      exact absurd (h.1 ▸ List.mem_cons_self ..) hother
  | cons c key ih =>
    cases other with
    | nil =>
      rw [List.nil_append, List.cons_append, List.cons.injEq] at h
      exact absurd (h.1 ▸ List.mem_cons_self ..) hkey
    | cons d other =>
      rw [List.cons_append, List.cons_append, List.cons.injEq] at h
      simp only [List.mem_cons, not_or] at hkey hother
      obtain ⟨hsame, hrest⟩ := ih hkey.2 hother.2 h.2
      exact ⟨by rw [h.1, hsame], hrest⟩

theorem keys_of_path {keys others : List String} {name other : String} (hkeys : ∀ key ∈ keys, '.' ∉ key.toList)
    (hothers : ∀ key ∈ others, '.' ∉ key.toList) (hname : '.' ∉ name.toList) (hother : '.' ∉ other.toList)
    (h : keys.flatMap (·.toList ++ ['.']) ++ name.toList = others.flatMap (·.toList ++ ['.']) ++ other.toList) :
    keys = others := by
  induction keys generalizing others with
  | nil =>
    cases others with
    | nil => rfl
    | cons key others =>
      rw [List.flatMap_nil, List.nil_append] at h
      exact absurd (h ▸ by simp) hname
  | cons key keys ih =>
    cases others with
    | nil =>
      rw [List.flatMap_nil, List.nil_append] at h
      exact absurd (h ▸ by simp) hother
    | cons key' others =>
      rw [List.forall_mem_cons] at hkeys hothers
      simp only [List.flatMap_cons, List.append_assoc, List.singleton_append] at h
      obtain ⟨hkey, hrest⟩ := undotted_split hkeys.1 hothers.1 h
      rw [String.toList_inj.mp hkey, ih hkeys.2 hothers.2 hrest]

section

variable {value schema : Value}

theorem falseReports_disjoint (hnames : Undotted value schema) {path : String}
    (hfalse : path ∈ falseReports value schema) : path ∉ overlooked value schema := by
  intro hoverlooked
  rw [falseReports, List.mem_flatMap] at hfalse
  rw [overlooked, List.mem_flatMap] at hoverlooked
  obtain ⟨a, ha, hpath⟩ := hfalse
  obtain ⟨a', ha', hpath'⟩ := hoverlooked
  rw [List.mem_filter, Bool.and_eq_true] at ha ha'
  obtain ⟨name, hname, rfl⟩ := List.mem_map.mp hpath
  obtain ⟨name', hname', heq⟩ := List.mem_map.mp hpath'
  have hdots := List.forall_mem_append.mp (hnames a ha.1)
  have hdots' := List.forall_mem_append.mp (hnames a' ha'.1)
  have hkeys : a'.keys = a.keys := by
    apply keys_of_path hdots'.1 hdots.1 (hdots'.2 _ hname') (hdots.2 _ hname)
    simpa [spelled_toList] using congrArg String.toList heq
  obtain ⟨more, hmore, hfollow⟩ := follow_applications ha.1
  obtain ⟨more', hmore', hfollow'⟩ := follow_applications ha'.1
  have hsame : more' = more := by simpa [hmore, hmore'] using hkeys
  rw [hsame, hfollow] at hfollow'
  have hvalue : a.value = a'.value := Option.some_inj.mp hfollow'
  have hbinds : a.binds = true := by
    rw [Application.binds, hvalue]
    exact ha'.2.1
  simp [hbinds] at ha

/-- Where a required member is absent, the instance is an object just when the check enters the subschema. -/
def DescribesObjects (value schema : Value) : Prop :=
  ∀ a ∈ applications false value [] schema, a.absent ≠ [] → a.binds = a.entered

theorem reports_eq_nil_iff (p : Application → Bool) (as : List Application) :
    (as.filter p).flatMap Application.missing = [] ↔ ∀ a ∈ as, p a = true → a.absent = [] := by
  simp only [List.flatMap_eq_nil_iff, List.mem_filter, Application.missing, List.map_eq_nil_iff, and_imp]

theorem describesObjects_iff :
    DescribesObjects value schema ↔ falseReports value schema = [] ∧ overlooked value schema = [] := by
  rw [falseReports, overlooked, reports_eq_nil_iff, reports_eq_nil_iff, ← forall₂_and]
  apply forall₂_congr
  intro a ha
  cases a.binds <;> cases a.entered <;> simp

/-- The check shares the notion of the standard where the two read the same instances, or where dotted names give what
it reports of other values the spelling of what it overlooks. -/
theorem shares_required_iff (hschema : schema.Keyed) :
    SharesRequired value schema ↔ DescribesObjects value schema ∨
      (¬ Undotted value schema ∧ (falseReports value schema).Perm (overlooked value schema)) := by
  rw [shares_required_perm hschema]
  constructor
  · intro hperm
    by_cases hnames : Undotted value schema
    · left
      rw [describesObjects_iff]
      have hnil : falseReports value schema = [] := by
        rw [List.eq_nil_iff_forall_not_mem]
        exact fun path hpath => falseReports_disjoint hnames hpath (hperm.subset hpath)
      rw [hnil] at hperm
      exact ⟨hnil, hperm.nil_eq.symm⟩
    · exact .inr ⟨hnames, hperm⟩
  · intro h
    cases h with
    | inl hobjects =>
      obtain ⟨hfalse, hoverlooked⟩ := describesObjects_iff.mp hobjects
      rw [hfalse, hoverlooked]
    | inr hspelled => exact hspelled.2

end

/-- A nullable object that may be absent and requires its members. -/
def nullableChapter : Value :=
  .dict [("type", .str "object"), ("properties", .dict [("chapter", .dict
    [("type", .list [.str "object", .str "null"]), ("required", .list [.str "number"])])])]

theorem nullableChapter_keyed : nullableChapter.Keyed := by
  simp [nullableChapter, Value.Keyed, Value.KeyedMembers, Value.KeyedElements]

theorem empty_chapter_shared : SharesRequired (.dict [("chapter", .dict [])]) nullableChapter := by
  apply (shares_required_iff nullableChapter_keyed).mpr
  exact .inl (describesObjects_iff.mpr ⟨by decide, by decide⟩)

theorem null_chapter_is_reported : ¬ SharesRequired (.dict [("chapter", .null)]) nullableChapter := by
  rintro ⟨hnone, -⟩
  have hviolations : requiredViolations (.dict [("chapter", .null)]) nullableChapter = [] := by decide
  have hmissing := hnone.mpr hviolations
  revert hmissing
  decide

end GraphSkillRuntime.RequiredPaths
