import GraphSkillRuntime.SchemaEngine
import GraphSkillRuntime.Runs
import GraphSkillRuntime.Schema
import Mathlib.Data.List.Infix

/-!
Which output schemas the finish gate can be built from. The translation knows some shapes of a schema; every other
mapping is read as a list of fields, each key a name and each value a type.
-/

namespace GraphSkillRuntime.SchemaEngine

open OrderedDict JsonText PyData

section

variable {F : Type} (R : Readers F)

def DeclaresType (typeText : String) : Prop := ∃ d, parseDeclaredType R typeText = .ok d

/-- The type is one name, and not `array`; a type that is no text counts as none. -/
def SingleType (value : Members F) : Prop :=
  (∀ types, Dict.find value "type" ≠ some (.list types)) ∧ Dict.find value "type" ≠ some (.str "array")

def PlainType (value : Members F) : Prop :=
  ∃ schemaType, Dict.find value "type" = some (.str schemaType) ∧ onlyDescribed value = true

inductive Readable : Json F → Prop
  | typeText {typeText : String} (h : DeclaresType R typeText) : Readable (.str typeText)
  | shorthand {item : Json F} (h : Readable item) : Readable (.list [item])
  | enumeration {value : Members F} {values : List (Json F)} (henum : Dict.find value "enum" = some (.list values))
      (hne : values ≠ []) (hscalar : ∀ v ∈ values, isScalar v = true) : Readable (.dict value)
  | union {value : Members F} {names : List String} (henum : Dict.find value "enum" = none)
      (htype : Dict.find value "type" = some (.list (names.map .str))) (hne : names ≠ [])
      (h : ∀ name ∈ names, name ≠ "null" → Readable (.dict (withType value name))) : Readable (.dict value)
  | anyItems {value : Members F} (henum : Dict.find value "enum" = none)
      (htype : Dict.find value "type" = some (.str "array"))
      (hitems : Dict.find value "items" = none ∨ Dict.find value "items" = some (.dict [])) : Readable (.dict value)
  | items {value : Members F} {items : Json F} (henum : Dict.find value "enum" = none)
      (htype : Dict.find value "type" = some (.str "array")) (hitems : Dict.find value "items" = some items)
      (h : Readable items) : Readable (.dict value)
  | anyObject {value : Members F} (henum : Dict.find value "enum" = none)
      (htype : Dict.find value "type" = some (.str "object"))
      (hproperties : members? (Dict.find value "properties") = none) : Readable (.dict value)
  | plain {value : Members F} {schemaType : String} (henum : Dict.find value "enum" = none)
      (htype : Dict.find value "type" = some (.str schemaType)) (harray : schemaType ≠ "array")
      (hobject : schemaType ≠ "object") (honly : onlyDescribed value = true) (h : DeclaresType R schemaType) :
      Readable (.dict value)
  | object {value properties : Members F} (henum : Dict.find value "enum" = none) (htype : SingleType value)
      (hproperties : members? (Dict.find value "properties") = some properties)
      (hrequired : requiredValues? (Dict.find value "required") ≠ none)
      (h : ∀ e ∈ properties, Readable e.2) : Readable (.dict value)
  | fieldList {value : Members F} (henum : Dict.find value "enum" = none) (htype : SingleType value)
      (hobject : Dict.find value "type" ≠ some (.str "object")) (honly : ¬ PlainType value)
      (hproperties : members? (Dict.find value "properties") = none) (hne : value ≠ [])
      (h : ∀ e ∈ value, Readable e.2) : Readable (.dict value)

def Succeeds {ε α : Type} (e : Except ε α) : Prop := ∃ a, e = .ok a

theorem not_succeeds_error {ε α : Type} {x : ε} : ¬ Succeeds (.error x : Except ε α) := by
  rintro ⟨a, h⟩
  cases h

theorem succeeds_map {ε α β : Type} {f : α → β} {e : Except ε α} : Succeeds (e.map f) ↔ Succeeds e := by
  cases e with
  | error x => exact iff_of_false not_succeeds_error not_succeeds_error
  | ok a => exact iff_of_true ⟨f a, rfl⟩ ⟨a, rfl⟩

theorem succeeds_ok {ε α : Type} (a : α) : Succeeds (.ok a : Except ε α) := ⟨a, rfl⟩

theorem fieldDescriptors_names {m : Members F} {fields : List (String × Descriptor F)}
    (h : fieldDescriptors R m = .ok fields) : fields.map Prod.fst = m.map Prod.fst := by
  induction m generalizing fields with
  | nil =>
    rw [fieldDescriptors] at h
    obtain rfl := Except.ok.inj h
    rfl
  | cons e m ih =>
    obtain ⟨name, value⟩ := e
    rw [fieldDescriptors] at h
    obtain ⟨d, -, h⟩ := bind_ok h
    obtain ⟨rest, hrest, h⟩ := bind_ok h
    obtain rfl := Except.ok.inj h
    rw [List.map_cons, List.map_cons, ih hrest]

theorem fieldDescriptors_succeeds {m : Members F} :
    Succeeds (fieldDescriptors R m) ↔ ∀ e ∈ m, Succeeds (descriptorFromJsonValue R e.2) := by
  induction m with
  | nil =>
    rw [fieldDescriptors]
    exact ⟨fun _ e he => by simp at he, fun _ => ⟨[], rfl⟩⟩
  | cons e m ih =>
    obtain ⟨name, value⟩ := e
    rw [fieldDescriptors, List.forall_mem_cons, ← ih]
    constructor
    · rintro ⟨fields, h⟩
      obtain ⟨d, hd, h⟩ := bind_ok h
      obtain ⟨rest, hrest, -⟩ := bind_ok h
      exact ⟨⟨d, hd⟩, ⟨rest, hrest⟩⟩
    · rintro ⟨⟨d, hd⟩, ⟨rest, hrest⟩⟩
      rw [hd, hrest]
      exact ⟨_, rfl⟩

theorem schemaFromMapping_object {m properties : Members F}
    (h : members? (Dict.find m "properties") = some properties) :
    Succeeds (schemaFromMapping R m) ↔
      requiredValues? (Dict.find m "required") ≠ none ∧ ∀ e ∈ properties, Succeeds (descriptorFromJsonValue R e.2) := by
  rw [← fieldDescriptors_succeeds, schemaFromMapping]
  split
  · next found hfound =>
    obtain rfl := Option.some.inj (hfound.symm.trans h)
    cases hrequired : requiredValues? (Dict.find m "required") with
    | none =>
      exact iff_of_false not_succeeds_error (fun hn => hn.1 rfl)
    | some required =>
      cases hfields : fieldDescriptors R found with
      | error x =>
        exact iff_of_false not_succeeds_error (fun hn => not_succeeds_error hn.2)
      | ok fields =>
        exact iff_of_true (succeeds_ok _) ⟨by simp, succeeds_ok _⟩
  · next hnone =>
    rw [h] at hnone
    cases hnone

theorem schemaFromMapping_fieldList {m : Members F} (h : members? (Dict.find m "properties") = none) :
    Succeeds (schemaFromMapping R m) ↔ m ≠ [] ∧ ∀ e ∈ m, Succeeds (descriptorFromJsonValue R e.2) := by
  rw [← fieldDescriptors_succeeds, schemaFromMapping]
  split
  · next found hfound =>
    rw [h] at hfound
    cases hfound
  · cases hfields : fieldDescriptors R m with
    | error x =>
      exact iff_of_false not_succeeds_error (fun hn => not_succeeds_error hn.2)
    | ok fields =>
      have hnames := fieldDescriptors_names R hfields
      by_cases hempty : fields = []
      · have hm : m = [] := by
          rw [hempty, List.map_nil, eq_comm, List.map_eq_nil_iff] at hnames
          exact hnames
        simp only [Bind.bind, Except.bind, if_pos hempty]
        exact iff_of_false not_succeeds_error (fun hn => hn.1 hm)
      · have hm : m ≠ [] := by
          rintro rfl
          rw [List.map_nil, List.map_eq_nil_iff] at hnames
          exact hempty hnames
        simp only [Bind.bind, Except.bind, if_neg hempty]
        exact iff_of_true (succeeds_ok _) ⟨hm, succeeds_ok _⟩

theorem schemaFromMapping_built {m properties : Members F} {built : SchemaObject F}
    (h : members? (Dict.find m "properties") = some properties) (hb : schemaFromMapping R m = .ok built) :
    built.fields.map Prod.fst = properties.map Prod.fst ∧
      ∃ required, requiredValues? (Dict.find m "required") = some required ∧
        built.requiredFields = required.map R.str := by
  rw [schemaFromMapping] at hb
  split at hb
  · next found hfound =>
    obtain rfl := Option.some.inj (hfound.symm.trans h)
    cases hrequired : requiredValues? (Dict.find m "required") with
    | none =>
      rw [hrequired] at hb
      cases hb
    | some required =>
      rw [hrequired] at hb
      obtain ⟨fields, hfields, hb⟩ := bind_ok hb
      obtain rfl := Except.ok.inj hb
      exact ⟨fieldDescriptors_names R hfields, required, rfl, rfl⟩
  · next hnone =>
    rw [h] at hnone
    cases hnone

theorem mapping_enum {value : Members F} {values : List (Json F)} (h : Dict.find value "enum" = some (.list values)) :
    Succeeds (descriptorFromJsonMapping R value) ↔ values ≠ [] ∧ ∀ v ∈ values, isScalar v = true := by
  rw [descriptorFromJsonMapping, h]
  by_cases hempty : values = []
  · simp only [literalFromJsonEnum, if_pos hempty]
    exact iff_of_false not_succeeds_error (fun hn => hn.1 hempty)
  · by_cases hscalar : values.all isScalar = true
    · simp only [literalFromJsonEnum, if_neg hempty, if_pos hscalar]
      exact iff_of_true (succeeds_ok _) ⟨hempty, List.all_eq_true.mp hscalar⟩
    · simp only [literalFromJsonEnum, if_neg hempty, if_neg hscalar]
      exact iff_of_false not_succeeds_error (fun hn => hscalar (List.all_eq_true.mpr hn.2))

theorem mapping_enum_other {value : Members F} {v : Json F} (h : Dict.find value "enum" = some v)
    (hv : ∀ values, v ≠ .list values) : ¬ Succeeds (descriptorFromJsonMapping R value) := by
  rw [descriptorFromJsonMapping, h]
  cases v with
  | list values => exact absurd rfl (hv values)
  | _ => exact not_succeeds_error

theorem mapM_typeName? {types : List (Json F)} {names : List String} :
    types.mapM typeName? = some names ↔ types = names.map .str := by
  induction types generalizing names with
  | nil =>
    rw [List.mapM_nil, eq_comm (a := []), List.map_eq_nil_iff]
    exact ⟨fun h => (Option.some.inj h).symm, fun h => h ▸ rfl⟩
  | cons t types ih =>
    rw [List.mapM_cons]
    constructor
    · intro h
      obtain ⟨name, hname, h⟩ := Option.bind_eq_some_iff.mp h
      obtain ⟨rest, hrest, h⟩ := Option.bind_eq_some_iff.mp h
      obtain rfl := Option.some.inj h
      cases t <;> cases hname
      rw [ih.mp hrest]
      rfl
    · intro h
      cases names with
      | nil => cases h
      | cons name names =>
        obtain ⟨rfl, htypes⟩ := List.cons.inj h
        rw [ih.mpr htypes]
        rfl

theorem succeeds_mapM {α β ε : Type} {f : α → Except ε β} {xs : List α} :
    Succeeds (xs.mapM f) ↔ ∀ x ∈ xs, Succeeds (f x) := by
  unfold Succeeds
  simp only [mapM_ok_iff]
  exact exists_forall₂_iff

theorem mapping_union {value : Members F} {types : List (Json F)} (henum : Dict.find value "enum" = none)
    (htype : Dict.find value "type" = some (.list types)) :
    Succeeds (descriptorFromJsonMapping R value) ↔ ∃ names, types = names.map .str ∧ names ≠ [] ∧
      ∀ name ∈ names, name ≠ "null" → Succeeds (descriptorFromJsonMapping R (withType value name)) := by
  rw [descriptorFromJsonMapping, henum]
  dsimp only
  split
  case h_1 types' h =>
    obtain rfl : types = types' := by simpa [htype] using h
    cases hnames : types.mapM typeName? with
    | none =>
      refine iff_of_false not_succeeds_error ?_
      rintro ⟨names, heq, -⟩
      rw [mapM_typeName?.mpr heq] at hnames
      cases hnames
    | some names =>
      have heq := mapM_typeName?.mp hnames
      cases names with
      | nil =>
        refine iff_of_false not_succeeds_error ?_
        rintro ⟨names, heq', hne, -⟩
        rw [heq] at heq'
        exact hne (List.map_eq_nil_iff.mp heq'.symm)
      | cons name names =>
        have hbind : ∀ e : Except String (List (Descriptor F)),
            Succeeds (e >>= fun members => Except.ok (unionOf members)) ↔ Succeeds e :=
          fun e => succeeds_map (f := unionOf)
        rw [hbind, succeeds_mapM]
        constructor
        · intro h
          refine ⟨name :: names, heq, by simp, fun t ht hnull => ?_⟩
          simpa [hnull] using h t ht
        · rintro ⟨names', heq', -, h⟩ t ht
          have hnames' : names' = name :: names :=
            (List.map_injective_iff.mpr fun _ _ h => Json.str.inj h) (heq'.symm.trans heq)
          subst hnames'
          by_cases hnull : t = "null"
          · rw [if_pos hnull]
            exact succeeds_ok _
          · rw [if_neg hnull]
            exact h t ht hnull
  all_goals simp_all

theorem mapping_array {value : Members F} (henum : Dict.find value "enum" = none)
    (htype : Dict.find value "type" = some (.str "array")) :
    Succeeds (descriptorFromJsonMapping R value) ↔
      (Dict.find value "items" = none ∨ Dict.find value "items" = some (.dict [])) ∨
        ∃ items, Dict.find value "items" = some items ∧ Succeeds (descriptorFromJsonValue R items) := by
  rw [descriptorFromJsonMapping, henum]
  dsimp only
  split
  case h_2 h =>
    split
    · next hitems => exact iff_of_true (succeeds_ok _) (.inl (.inl hitems))
    · next hitems => exact iff_of_true (succeeds_ok _) (.inl (.inr hitems))
    · next items hne hitems =>
      rw [succeeds_map]
      constructor
      · exact fun hs => .inr ⟨items, hitems, hs⟩
      · rintro ((hitems' | hitems') | ⟨items', hitems', hs⟩)
        · simp [hitems] at hitems'
        · exact absurd (Option.some.inj (hitems.symm.trans hitems')) hne
        · obtain rfl := Option.some.inj (hitems'.symm.trans hitems)
          exact hs
  all_goals simp_all

theorem mapping_plain {value : Members F} {schemaType : String} (henum : Dict.find value "enum" = none)
    (htype : Dict.find value "type" = some (.str schemaType)) (harray : schemaType ≠ "array")
    (hobject : schemaType ≠ "object") (honly : onlyDescribed value = true) :
    Succeeds (descriptorFromJsonMapping R value) ↔ DeclaresType R schemaType := by
  rw [descriptorFromJsonMapping, henum]
  dsimp only
  split
  case h_4 schemaType' _ _ h =>
    obtain rfl : schemaType = schemaType' := by simpa [htype] using h
    rw [if_pos honly, succeeds_map]
    rfl
  all_goals simp_all

theorem mapping_anyObject {value : Members F} (henum : Dict.find value "enum" = none)
    (htype : Dict.find value "type" = some (.str "object"))
    (hproperties : members? (Dict.find value "properties") = none) :
    Succeeds (descriptorFromJsonMapping R value) := by
  rw [descriptorFromJsonMapping, henum]
  dsimp only
  split
  case h_3 =>
    rw [hproperties]
    exact succeeds_ok _
  all_goals simp_all

theorem mapping_fields {value : Members F} (henum : Dict.find value "enum" = none) (htype : SingleType value)
    (hobject : Dict.find value "type" = some (.str "object") → members? (Dict.find value "properties") ≠ none)
    (honly : Dict.find value "type" ≠ some (.str "object") → ¬ PlainType value) :
    Succeeds (descriptorFromJsonMapping R value) ↔ Succeeds (schemaFromMapping R value) := by
  rw [descriptorFromJsonMapping, henum]
  dsimp only
  split
  case h_1 types h => exact absurd h (htype.1 types)
  case h_2 h => exact absurd h htype.2
  case h_3 h =>
    obtain ⟨properties, hproperties⟩ := Option.ne_none_iff_exists'.mp (hobject h)
    rw [hproperties]
    exact succeeds_map
  case h_4 schemaType _ hne h =>
    have hplain : ¬ onlyDescribed value = true := by
      intro ho
      refine honly (fun htype => hne ?_) ⟨schemaType, h, ho⟩
      simpa [h] using htype
    rw [if_neg hplain]
    exact succeeds_map
  case h_5 => exact succeeds_map

theorem onlyDescribed_members {value properties : Members F} (h : onlyDescribed value = true) :
    members? (Dict.find value "properties") ≠ some properties := by
  intro hproperties
  cases hfind : Dict.find value "properties" with
  | none =>
    rw [hfind] at hproperties
    cases hproperties
  | some v =>
    have hkey := List.all_eq_true.mp h _ (Dict.mem_of_find hfind)
    simp at hkey

theorem not_plain_members {value properties : Members F}
    (hproperties : members? (Dict.find value "properties") = some properties) : ¬ PlainType value := by
  rintro ⟨_, _, honly⟩
  exact onlyDescribed_members honly hproperties

theorem Readable.succeeds {v : Json F} (h : Readable R v) : Succeeds (descriptorFromJsonValue R v) := by
  induction h with
  | typeText h =>
    rw [descriptorFromJsonValue]
    exact succeeds_map.mpr h
  | shorthand _ ih =>
    rw [descriptorFromJsonValue]
    exact succeeds_map.mpr ih
  | enumeration henum hne hscalar =>
    rw [descriptorFromJsonValue]
    exact (mapping_enum R henum).mpr ⟨hne, hscalar⟩
  | @union value names henum htype hne _ ih =>
    rw [descriptorFromJsonValue]
    refine (mapping_union R henum htype).mpr ⟨names, rfl, hne, fun name hname hnull => ?_⟩
    have hs := ih name hname hnull
    rwa [descriptorFromJsonValue] at hs
  | anyItems henum htype hitems =>
    rw [descriptorFromJsonValue]
    exact (mapping_array R henum htype).mpr (.inl hitems)
  | items henum htype hitems _ ih =>
    rw [descriptorFromJsonValue]
    exact (mapping_array R henum htype).mpr (.inr ⟨_, hitems, ih⟩)
  | anyObject henum htype hproperties =>
    rw [descriptorFromJsonValue]
    exact mapping_anyObject R henum htype hproperties
  | plain henum htype harray hobject honly h =>
    rw [descriptorFromJsonValue]
    exact (mapping_plain R henum htype harray hobject honly).mpr h
  | object henum htype hproperties hrequired _ ih =>
    rw [descriptorFromJsonValue, mapping_fields R henum htype (by simp [hproperties])
      fun _ => not_plain_members hproperties]
    exact (schemaFromMapping_object R hproperties).mpr ⟨hrequired, ih⟩
  | fieldList henum htype hobject honly hproperties hne _ ih =>
    rw [descriptorFromJsonValue, mapping_fields R henum htype (absurd · hobject) fun _ => honly]
    exact (schemaFromMapping_fieldList R hproperties).mpr ⟨hne, ih⟩

theorem readable_of_succeeds {n : ℕ} : ∀ v : Json F, weight v ≤ n → Succeeds (descriptorFromJsonValue R v) →
    Readable R v := by
  induction n with
  | zero =>
    intro v hv
    have hpos := weight_pos v
    omega
  | succ n ih =>
    intro v hv h
    cases v with
    | str typeText =>
      rw [descriptorFromJsonValue, succeeds_map] at h
      exact .typeText h
    | list xs =>
      by_cases hone : ∃ item, xs = [item]
      · obtain ⟨item, rfl⟩ := hone
        rw [descriptorFromJsonValue, succeeds_map] at h
        rw [weight, weightElements] at hv
        exact .shorthand (ih item (by omega) h)
      · rw [descriptorFromJsonValue] at h
        · exact absurd h not_succeeds_error
        · simpa using hone
    | dict value =>
      rw [descriptorFromJsonValue] at h
      rw [weight] at hv
      have hmember : ∀ {m : Members F}, weightMembers m ≤ weightMembers value →
          (∀ e ∈ m, Succeeds (descriptorFromJsonValue R e.2)) → ∀ e ∈ m, Readable R e.2 := by
        intro m hm hs e he
        have hlt := weight_lt_of_mem he
        exact ih e.2 (by omega) (hs e he)
      cases henum : Dict.find value "enum" with
      | some v =>
        by_cases hlist : ∃ values, v = .list values
        · obtain ⟨values, rfl⟩ := hlist
          obtain ⟨hne, hscalar⟩ := (mapping_enum R henum).mp h
          exact .enumeration henum hne hscalar
        · exact absurd h (mapping_enum_other R henum fun values hv => hlist ⟨values, hv⟩)
      | none =>
        by_cases hunion : ∃ types, Dict.find value "type" = some (.list types)
        · obtain ⟨types, htype⟩ := hunion
          obtain ⟨names, rfl, hne, hnames⟩ := (mapping_union R henum htype).mp h
          refine .union henum htype hne fun name hname hnull => ih _ ?_ ?_
          · have hlt := weight_withType_lt htype name
            rw [weight]
            omega
          · rw [descriptorFromJsonValue]
            exact hnames name hname hnull
        by_cases harray : Dict.find value "type" = some (.str "array")
        · rcases (mapping_array R henum harray).mp h with hitems | ⟨items, hitems, hs⟩
          · exact .anyItems henum harray hitems
          · have hlt := weight_lt_of_find hitems
            exact .items henum harray hitems (ih items (by omega) hs)
        have hsingle : SingleType value := ⟨fun types htype => hunion ⟨types, htype⟩, harray⟩
        cases hproperties : members? (Dict.find value "properties") with
        | some properties =>
          rw [mapping_fields R henum hsingle (by simp [hproperties]) fun _ => not_plain_members hproperties,
            schemaFromMapping_object R hproperties] at h
          have hlt := weight_lt_of_members? hproperties
          exact .object henum hsingle hproperties h.1 (hmember hlt.le h.2)
        | none =>
          by_cases hobject : Dict.find value "type" = some (.str "object")
          · exact .anyObject henum hobject hproperties
          by_cases hplain : PlainType value
          · obtain ⟨schemaType, htype, honly⟩ := hplain
            have hne : schemaType ≠ "array" := fun heq => harray (heq ▸ htype)
            have hne' : schemaType ≠ "object" := fun heq => hobject (heq ▸ htype)
            exact .plain henum htype hne hne' honly ((mapping_plain R henum htype hne hne' honly).mp h)
          · rw [mapping_fields R henum hsingle (absurd · hobject) fun _ => hplain,
              schemaFromMapping_fieldList R hproperties] at h
            exact .fieldList henum hsingle hobject hplain hproperties h.1 (hmember le_rfl h.2)
    | null | bool _ | int _ | float _ =>
      rw [descriptorFromJsonValue] at h
      · exact absurd h not_succeeds_error
      all_goals simp

theorem readable_iff {v : Json F} : Readable R v ↔ Succeeds (descriptorFromJsonValue R v) :=
  ⟨fun h => h.succeeds R, fun h => readable_of_succeeds R v le_rfl h⟩

end

/-! The text of a schema without a marker is read as JSON. -/

def marked (text : Text) : Bool :=
  (extractOutputExample text).isSome || (extractNamedYamlBlock text "output_example".toList).isSome ||
    (extractNamedYamlBlock text "output_schema".toList).isSome

theorem extractOutputExample_unmarked {text : Text} (h : marked text = false) : extractOutputExample text = none := by
  simp only [marked, Bool.or_eq_false_iff] at h
  exact Option.isSome_eq_false_iff.mp h.1.1 |> Option.isNone_iff_eq_none.mp

theorem extractSchemaFragment_unmarked {text : Text} (h : marked text = false) : extractSchemaFragment text = text := by
  simp only [marked, Bool.or_eq_false_iff, Option.isSome_eq_false_iff, Option.isNone_iff_eq_none] at h
  rw [extractSchemaFragment, h.1.1, h.1.2, h.2]
  rfl

theorem stripBy_eq {p : Char → Bool} {s : Text} (hhead : ∀ c ∈ s.head?, p c = false)
    (hlast : ∀ c ∈ s.getLast?, p c = false) : stripBy p s = s := by
  have hdrop : ∀ t : Text, (∀ c ∈ t.head?, p c = false) → t.dropWhile p = t := by
    intro t ht
    cases t with
    | nil => rfl
    | cons c t => rw [List.dropWhile_cons_of_neg (by simpa using ht c rfl)]
  rw [stripBy, hdrop s hhead, hdrop s.reverse (by simpa [List.head?_reverse] using hlast), List.reverse_reverse]

section

variable {F : Type} (R : Readers F) (P : FloatFormat F)

theorem dumpsMembers_last (m : Members F) : (dumpsMembers P m).getLast? = some '}' := by
  induction m with
  | nil => rfl
  | cons e m ih =>
    obtain ⟨k, v⟩ := e
    rw [dumpsMembers, List.getLast?_eq_some_iff] at *
    obtain ⟨ys, hys⟩ := ih
    exact ⟨',' :: ' ' :: (quote k ++ ':' :: ' ' :: (dumps P v ++ ys)), by rw [hys]; simp⟩

theorem dumps_dict_last (m : Members F) : (dumps P (.dict m)).getLast? = some '}' := by
  cases m with
  | nil => rfl
  | cons e m =>
    obtain ⟨k, v⟩ := e
    have hlast := dumpsMembers_last P m
    rw [List.getLast?_eq_some_iff] at hlast ⊢
    obtain ⟨ys, hys⟩ := hlast
    exact ⟨'{' :: (quote k ++ ':' :: ' ' :: (dumps P v ++ ys)), by rw [dumps, hys]; simp⟩

theorem dumps_dict_head (m : Members F) : (dumps P (.dict m)).head? = some '{' := by
  cases m with
  | nil => rfl
  | cons e m => rfl

def rereadDict (m : Members F) : Members F := (Dict.ofList (rereadMembers m)).entries

theorem parseFromMd_dumps {m : Members F} (h : marked (dumps P (.dict m)) = false) :
    parseFromMd R P (dumps P (.dict m)) = schemaFromMapping R (rereadDict m) := by
  have hstrip : stripText (dumps P (.dict m)) = dumps P (.dict m) := by
    apply stripBy_eq
    · intro c hc
      rw [dumps_dict_head, Option.mem_some_iff] at hc
      subst hc
      rfl
    · intro c hc
      rw [dumps_dict_last, Option.mem_some_iff] at hc
      subst hc
      rfl
  have hne : dumps P (.dict m) ≠ [] := by
    intro hnil
    have hhead := dumps_dict_head P m
    rw [hnil] at hhead
    cases hhead
  have hload : loads P (dumps P (.dict m)) = some (.dict (rereadDict m)) := by
    rw [loads_dumps_reread, Json.reread]
    rfl
  have hjson : tryParseJsonSchema P (dumps P (.dict m)) = some (.ok (rereadDict m)) := by
    rw [tryParseJsonSchema, hstrip, if_pos (dumps_dict_head P m), hload]
  simp only [parseFromMd, extractSchemaFragment_unmarked h, hstrip, if_neg hne, extractOutputExample_unmarked h, hjson]

end

/-! Output schemas as the phase documents have them. -/

section

variable {F : Type}

mutual

/-- The JSON value that `json.dumps` writes, with the keys in their order; `none` is a `TypeError`. -/
def jsonOf? : Data F → Option (Json F)
  | .null => some .null
  | .bool b => some (.bool b)
  | .int z => some (.int z)
  | .float x => some (.float x)
  | .str s => some (.str s)
  | .other _ => none
  | .list xs => (jsonElements? xs).map .list
  | .dict kvs => (jsonMembers? kvs).map .dict

def jsonElements? : List (Data F) → Option (List (Json F))
  | [] => some []
  | x :: xs => do some ((← jsonOf? x) :: (← jsonElements? xs))

def jsonMembers? : List (Key × Data F) → Option (Members F)
  | [] => some []
  | (k, v) :: kvs => do some ((← k.text?, ← jsonOf? v) :: (← jsonMembers? kvs))

end

def memberAt? (m : List (Key × Data F)) (name : String) : Option (Data F) :=
  (m.find? fun e => e.1.str? = some name).map Prod.snd

def targetAllowed : Option (Data F) → Bool
  | none | some .null => true
  | some (.str target) => declaredOutputTargets.contains target
  | some _ => false

def importsFile : Option (Data F) → Bool
  | some (.str source) => source = "file"
  | _ => false

def fieldAllowed : Key × Data F → Bool
  | (.str _, .dict fieldSchema) =>
    targetAllowed (memberAt? fieldSchema "target") && !importsFile (memberAt? fieldSchema "source")
  | _ => true

def textOf? : Data F → Option String
  | .str s => some s
  | _ => none

def namesOf? : Option (Data F) → Option (List String)
  | none | some .null => some []
  | some (.list names) => names.mapM textOf?
  | some _ => none

def isText (s : String) : Option (Data F) → Bool
  | some (.str t) => t = s
  | _ => false

/-- Whether `_validate_inline_io_schema` lets an output schema pass; the check against the meta-schema is
`checkSchema`. -/
def acceptsOutputSchema (checkSchema : Dict String (Data F) → Bool) (schema : Dict String (Data F)) : Bool :=
  checkSchema schema && isText "object" (schema.get? "type") &&
    match schema.get? "properties", namesOf? (schema.get? "required") with
    | some (.dict properties), some required =>
      required.all (fun name => (memberAt? properties name).isSome) && properties.all fieldAllowed
    | _, _ => false

def schemaData (schema : Dict String (Data F)) : Data F := .dict (schema.entries.map fun e => (.str e.1, e.2))

def declaredProperties (schema : Dict String (Data F)) : List (Key × Data F) :=
  match schema.get? "properties" with
  | some (.dict properties) => properties
  | _ => []

def declaredRequired (schema : Dict String (Data F)) : List String := (namesOf? (schema.get? "required")).getD []

variable (R : Readers F) (P : FloatFormat F)

/-- `coerced_schema` of `_build_skill_node`. -/
def coercedSchema (outputSchema : Dict String (Data F)) : Option (Except String (SchemaObject F)) :=
  (jsonOf? (schemaData outputSchema)).map fun json => parseFromMd R P (dumps P json)

/-- The gate is built, with the declared properties and the declared required ones. -/
def BuildsGate (schema : Dict String (Data F)) : Prop :=
  ∃ built, coercedSchema R P schema = some (.ok built) ∧
    built.fields.map (fun field => Key.str field.1) = (declaredProperties schema).map Prod.fst ∧
      ∀ name, name ∈ built.requiredFields ↔ name ∈ declaredRequired schema

def Unmarked (schema : Dict String (Data F)) : Prop :=
  ∀ json, jsonOf? (schemaData schema) = some json → marked (dumps P json) = false

structure GateReadable (schema : Dict String (Data F)) : Prop where
  written : (jsonOf? (schemaData schema)).isSome = true
  named : ∀ e ∈ declaredProperties schema, e.1.str?.isSome = true
  listed : schema.get? "required" ≠ some .null
  readable : ∀ e ∈ declaredProperties schema, ∀ v, jsonOf? e.2 = some v → Readable R v.reread

theorem jsonMembers?_eq_some {kvs : List (Key × Data F)} {ms : Members F} :
    jsonMembers? kvs = some ms ↔
      List.Forall₂ (fun e m => e.1.text? = some m.1 ∧ jsonOf? e.2 = some m.2) kvs ms := by
  induction kvs generalizing ms with
  | nil =>
    rw [jsonMembers?, List.forall₂_nil_left_iff, Option.some.injEq, eq_comm]
  | cons e kvs ih =>
    obtain ⟨k, v⟩ := e
    rw [jsonMembers?, List.forall₂_cons_left_iff]
    constructor
    · intro h
      obtain ⟨k', hk, h⟩ := Option.bind_eq_some_iff.mp h
      obtain ⟨v', hv, h⟩ := Option.bind_eq_some_iff.mp h
      obtain ⟨rest, hrest, h⟩ := Option.bind_eq_some_iff.mp h
      exact ⟨(k', v'), rest, ⟨hk, hv⟩, ih.mp hrest, (Option.some.inj h).symm⟩
    · rintro ⟨m, rest, ⟨hk, hv⟩, hrest, rfl⟩
      rw [hk, hv, ih.mpr hrest]
      rfl

theorem rereadMembers_eq_map (m : Members F) : rereadMembers m = m.map fun e => (e.1, e.2.reread) := by
  induction m with
  | nil => rfl
  | cons e m ih =>
    obtain ⟨k, v⟩ := e
    rw [rereadMembers, ih]
    rfl

theorem rereadMembers_names (m : Members F) : (rereadMembers m).map Prod.fst = m.map Prod.fst := by
  rw [rereadMembers_eq_map, List.map_map]
  rfl

theorem rereadDict_eq {m : Members F} (h : (m.map Prod.fst).Nodup) : rereadDict m = rereadMembers m :=
  Dict.entries_ofList (by rwa [rereadMembers_names])

theorem find_rereadMembers (m : Members F) (name : String) :
    Dict.find (rereadMembers m) name = (Dict.find m name).map Json.reread := by
  induction m with
  | nil => rfl
  | cons e m ih =>
    obtain ⟨k, v⟩ := e
    rw [rereadMembers, Dict.find, Dict.find, ih]
    split_ifs <;> rfl

section

variable {entries : List (String × Data F)} {ms : Members F}

theorem jsonMembers?_names (h : jsonMembers? (entries.map fun e => (Key.str e.1, e.2)) = some ms) :
    ms.map Prod.fst = entries.map Prod.fst := by
  rw [jsonMembers?_eq_some, List.forall₂_map_left_iff] at h
  induction h with
  | nil => rfl
  | cons he _ ih => rw [List.map_cons, List.map_cons, ih, Option.some.inj he.1]

theorem find_jsonMembers? (h : jsonMembers? (entries.map fun e => (Key.str e.1, e.2)) = some ms) (name : String) :
    (Dict.find entries name).map jsonOf? = (Dict.find ms name).map some := by
  rw [jsonMembers?_eq_some, List.forall₂_map_left_iff] at h
  induction h with
  | nil => rfl
  | @cons e m _ _ he _ ih =>
    obtain ⟨k, v⟩ := e
    obtain ⟨k', w⟩ := m
    obtain rfl : k = k' := Option.some.inj he.1
    rw [Dict.find, Dict.find]
    split_ifs with hk
    · exact congrArg some he.2
    · exact ih

end

theorem jsonElements?_texts {names : List (Data F)} {required : List String} {xs : List (Json F)}
    (hnames : names.mapM textOf? = some required) (hxs : jsonElements? names = some xs) :
    rereadElements xs = required.map .str := by
  induction names generalizing required xs with
  | nil =>
    obtain rfl := Option.some.inj hnames
    obtain rfl := Option.some.inj hxs
    rfl
  | cons v names ih =>
    rw [List.mapM_cons] at hnames
    obtain ⟨name, hname, hnames⟩ := Option.bind_eq_some_iff.mp hnames
    obtain ⟨rest, hrest, hnames⟩ := Option.bind_eq_some_iff.mp hnames
    obtain rfl := Option.some.inj hnames
    cases v <;> cases hname
    rw [jsonElements?] at hxs
    obtain ⟨x, hx, hxs⟩ := Option.bind_eq_some_iff.mp hxs
    obtain ⟨ys, hys, hxs⟩ := Option.bind_eq_some_iff.mp hxs
    obtain rfl := Option.some.inj hxs
    obtain rfl := Option.some.inj hx
    rw [rereadElements, ih hrest hys]
    rfl

theorem schemaFromMapping_ofData {schema : Dict String (Data F)} {ms : Members F} {properties : List (Key × Data F)}
    {required : List String} (hms : jsonMembers? (schema.entries.map fun e => (Key.str e.1, e.2)) = some ms)
    (hproperties : schema.get? "properties" = some (.dict properties))
    (hrequired : namesOf? (schema.get? "required") = some required) :
    ∃ ps, jsonMembers? properties = some ps ∧
      members? (Dict.find (rereadMembers ms) "properties") = some (rereadDict ps) ∧
        (requiredValues? (Dict.find (rereadMembers ms) "required") = none ↔ schema.get? "required" = some .null) ∧
          ∀ values, requiredValues? (Dict.find (rereadMembers ms) "required") = some values →
            values = required.map .str := by
  have hfind := find_jsonMembers? hms
  have hps := hfind "properties"
  rw [show Dict.find schema.entries "properties" = some (.dict properties) from hproperties] at hps
  obtain ⟨w, hw, hjson⟩ := Option.map_eq_some_iff.mp hps.symm
  rw [jsonOf?] at hjson
  obtain ⟨ps, hmembers, rfl⟩ := Option.map_eq_some_iff.mp hjson.symm
  refine ⟨ps, hmembers, ?_, ?_⟩
  · rw [find_rereadMembers, hw]
    rfl
  have hreq : (schema.get? "required").map jsonOf? = (Dict.find ms "required").map some := hfind "required"
  rw [find_rereadMembers]
  cases hv : schema.get? "required" with
  | none =>
    rw [hv, Option.map_none, eq_comm, Option.map_eq_none_iff] at hreq
    rw [hv] at hrequired
    obtain rfl := Option.some.inj hrequired
    rw [hreq]
    refine ⟨iff_of_false (by simp [requiredValues?]) (by simp), fun values hvalues => ?_⟩
    exact (Option.some.inj hvalues).symm
  | some v =>
    rw [hv, Option.map_some] at hreq
    obtain ⟨w, hw, hjson⟩ := Option.map_eq_some_iff.mp hreq.symm
    rw [hw]
    rw [hv] at hrequired
    cases v with
    | null =>
      obtain rfl := Option.some.inj hjson
      refine ⟨iff_of_true rfl rfl, fun values hvalues => ?_⟩
      cases hvalues
    | list names =>
      rw [jsonOf?] at hjson
      obtain ⟨xs, hxs, rfl⟩ := Option.map_eq_some_iff.mp hjson.symm
      refine ⟨iff_of_false (by simp [requiredValues?, Json.reread]) (by simp), fun values hvalues => ?_⟩
      rw [← jsonElements?_texts hrequired hxs]
      exact (Option.some.inj hvalues).symm
    | _ => cases hrequired

theorem texts_of_named {properties : List (Key × Data F)} {ps : Members F} (hps : jsonMembers? properties = some ps)
    (hnamed : ∀ e ∈ properties, e.1.str?.isSome = true) :
    ps.map (fun e => Key.str e.1) = properties.map Prod.fst := by
  rw [jsonMembers?_eq_some] at hps
  induction hps with
  | nil => rfl
  | @cons e m _ _ he _ ih =>
    rw [List.forall_mem_cons] at hnamed
    obtain ⟨k, v⟩ := e
    cases k <;> cases hnamed.1
    rw [List.map_cons, List.map_cons, ih hnamed.2, Option.some.inj he.1]

theorem acceptsOutputSchema_declares {checkSchema : Dict String (Data F) → Bool} {schema : Dict String (Data F)}
    (h : acceptsOutputSchema checkSchema schema = true) :
    schema.get? "properties" = some (.dict (declaredProperties schema)) ∧
      namesOf? (schema.get? "required") = some (declaredRequired schema) := by
  rw [acceptsOutputSchema, Bool.and_eq_true] at h
  unfold declaredProperties declaredRequired
  split at h
  · next properties required hproperties hrequired =>
    rw [hproperties, hrequired]
    exact ⟨rfl, rfl⟩
  · exact absurd h.2 (by decide)

theorem distinct_of_mem {kvs : List (Key × Data F)} (h : dataMembersDistinct kvs) : ∀ e ∈ kvs, e.2.Distinct := by
  induction kvs with
  | nil => simp
  | cons e kvs ih =>
    rw [dataMembersDistinct] at h
    exact List.forall_mem_cons.mpr ⟨h.1, ih h.2⟩

theorem keys_distinct {schema : Dict String (Data F)} {properties : List (Key × Data F)}
    (hdistinct : (schemaData schema).Distinct) (h : schema.get? "properties" = some (.dict properties)) :
    (properties.map Prod.fst).Nodup := by
  rw [schemaData, Data.Distinct] at hdistinct
  have hmem : (Key.str "properties", Data.dict properties) ∈ schema.entries.map fun e => (Key.str e.1, e.2) :=
    List.mem_map_of_mem (f := fun e : String × Data F => (Key.str e.1, e.2)) (Dict.mem_of_find h)
  have hd := distinct_of_mem hdistinct.2 _ hmem
  rw [Data.Distinct] at hd
  exact hd.1

variable {R} {P}

theorem buildsGate_iff {checkSchema : Dict String (Data F) → Bool} {schema : Dict String (Data F)}
    (hdistinct : (schemaData schema).Distinct) (h : acceptsOutputSchema checkSchema schema = true)
    (hmark : Unmarked P schema) : BuildsGate R P schema ↔ GateReadable R schema := by
  obtain ⟨hproperties, hrequired⟩ := acceptsOutputSchema_declares h
  cases hjson : jsonOf? (schemaData schema) with
  | none =>
    refine iff_of_false ?_ ?_
    · rintro ⟨built, hbuilt, -⟩
      rw [coercedSchema, hjson] at hbuilt
      cases hbuilt
    · intro hread
      have hwritten := hread.written
      rw [hjson] at hwritten
      cases hwritten
  | some json =>
    have hmarked := hmark json hjson
    rw [schemaData, jsonOf?] at hjson
    obtain ⟨ms, hms, rfl⟩ := Option.map_eq_some_iff.mp hjson
    have hnodup : (ms.map Prod.fst).Nodup := by
      rw [jsonMembers?_names hms]
      exact schema.nodup
    have hcoerced : coercedSchema R P schema = some (schemaFromMapping R (rereadMembers ms)) := by
      rw [coercedSchema, schemaData, jsonOf?, hms]
      exact congrArg some ((parseFromMd_dumps R P hmarked).trans (by rw [rereadDict_eq hnodup]))
    obtain ⟨ps, hps, hfound, hnull, hvalues⟩ := schemaFromMapping_ofData hms hproperties hrequired
    have hplain : (∀ e ∈ declaredProperties schema, e.1.str?.isSome = true) → rereadDict ps = rereadMembers ps := by
      intro hnamed
      have hkeys := keys_distinct hdistinct hproperties
      rw [← texts_of_named hps hnamed] at hkeys
      refine rereadDict_eq (List.Nodup.of_map Key.str ?_)
      rwa [List.map_map]
    have hread : (∀ e ∈ declaredProperties schema, ∀ v, jsonOf? e.2 = some v → Readable R v.reread) ↔
        ∀ e ∈ rereadMembers ps, Succeeds (descriptorFromJsonValue R e.2) := by
      rw [rereadMembers_eq_map, List.forall_mem_map]
      refine forall_mem_iff_of_forall₂ (jsonMembers?_eq_some.mp hps) fun e _ m he => ?_
      rw [← readable_iff]
      constructor
      · exact fun hv => hv m.2 he.2
      · intro hm v hv
        obtain rfl := Option.some.inj (he.2.symm.trans hv)
        exact hm
    have hsucceeds := schemaFromMapping_object R hfound
    constructor
    · rintro ⟨built, hbuilt, hnames, -⟩
      have hb := Option.some.inj (hcoerced.symm.trans hbuilt)
      have hnamed : ∀ e ∈ declaredProperties schema, e.1.str?.isSome = true := by
        intro e he
        have hmem := List.mem_map_of_mem (f := Prod.fst) he
        rw [← hnames] at hmem
        obtain ⟨field, -, hfield⟩ := List.mem_map.mp hmem
        rw [← hfield]
        rfl
      obtain ⟨hreq, hall⟩ := hsucceeds.mp ⟨built, hb⟩
      rw [hplain hnamed] at hall
      exact ⟨by rw [schemaData, jsonOf?, hms]; rfl, hnamed, fun hn => hreq (hnull.mpr hn), hread.mpr hall⟩
    · intro hg
      have hall := hread.mp hg.readable
      rw [← hplain hg.named] at hall
      obtain ⟨built, hb⟩ := hsucceeds.mpr ⟨fun hn => hg.listed (hnull.mp hn), hall⟩
      obtain ⟨hnames, values, hfoundValues, hbuilt⟩ := schemaFromMapping_built R hfound hb
      refine ⟨built, hcoerced.trans (congrArg some hb), ?_, fun name => ?_⟩
      · rw [← texts_of_named hps hg.named]
        have hfields := congrArg (List.map Key.str) hnames
        rw [hplain hg.named, rereadMembers_names, List.map_map, List.map_map] at hfields
        exact hfields
      · rw [hbuilt, hvalues values hfoundValues, List.map_map]
        have hstr : R.str ∘ Json.str = id := funext R.str_str
        rw [hstr, List.map_id]

theorem splitlines_single {s : Text} (hne : s ≠ []) (h : ∀ c ∈ s, isLineBreak c = false) : splitlines s = [s] := by
  induction s with
  | nil => exact absurd rfl hne
  | cons c s ih =>
    rw [List.forall_mem_cons] at h
    rw [splitlines_plain h.1]
    by_cases hs : s = []
    · subst hs
      rfl
    · rw [ih hs h.2]
      rfl

theorem matchOutputExample_none {s : Text} (h : '<' ∉ s) : matchOutputExample s = none := by
  cases htag : after? "<output_example".toList s with
  | none => rw [matchOutputExample, htag]; rfl
  | some rest =>
    refine absurd ?_ h
    rw [after?_eq_some htag]
    exact List.mem_append_left _ (by decide)

theorem namedBlockIn_dict {key : Text} {m : Members F} (hkey : key.head?.any (fun c => c ≠ '{') = true) :
    namedBlockIn key [dumps P (.dict m)] = none := by
  obtain ⟨s, hs⟩ : ∃ s, dumps P (.dict m) = '{' :: s := by
    have hhead := dumps_dict_head P m
    exact List.head?_eq_some_iff.mp hhead
  have hafter : after? key ('{' :: s) = none := by
    cases key with
    | nil => cases hkey
    | cons c key => rw [after?, if_neg (by simpa using hkey)]
  have hblock : namedBlock? key ('{' :: s) = none := by
    rw [namedBlock?, List.dropWhile_cons_of_neg (by decide), hafter]
    rfl
  rw [hs, namedBlockIn, hblock]
  rfl

theorem unmarked_of_chars {schema : Dict String (Data F)}
    (h : ∀ json, jsonOf? (schemaData schema) = some json → ∀ c ∈ json.chars, isRawBreak c = false ∧ c ≠ '<') :
    Unmarked P schema := by
  intro json hjson
  have hchars := h json hjson
  rw [schemaData, jsonOf?] at hjson
  obtain ⟨ms, -, rfl⟩ := Option.map_eq_some_iff.mp hjson
  have hangle : '<' ∉ dumps P (.dict ms) := by
    intro hmem
    rcases mem_dumps P _ hmem with hmarkup | hmem
    · exact absurd hmarkup (by decide)
    · exact (hchars _ hmem).2 rfl
  have hexample : extractOutputExample (dumps P (.dict ms)) = none := by
    rw [extractOutputExample, Option.map_eq_none_iff, List.findSome?_eq_none_iff]
    intro t ht
    exact matchOutputExample_none fun hmem => hangle (((List.mem_tails _ _).mp ht).subset hmem)
  have hne : dumps P (.dict ms) ≠ [] := by
    intro hnil
    have hhead := dumps_dict_head P ms
    rw [hnil] at hhead
    cases hhead
  have hlines := splitlines_single hne (dumps_noBreak P fun c hc => (hchars c hc).1)
  rw [marked, hexample, extractNamedYamlBlock, extractNamedYamlBlock, hlines, namedBlockIn_dict (by decide),
    namedBlockIn_dict (by decide)]
  rfl

theorem declaresType_primitive {name : String} (hplain : declaredType name = (name.toList, false))
    (hstrip : stripText name.toList = name.toList) (hne : name.toList ≠ [])
    (hfind : (Dict.find (primitiveTypes (F := F)) name).isSome = true) : DeclaresType R name := by
  obtain ⟨primitive, hprimitive⟩ := Option.isSome_iff_exists.mp hfind
  refine ⟨(primitive, false), ?_⟩
  have hparse : parseTypeExpr R name.toList = .ok primitive := by
    rw [parseTypeExpr, hstrip, if_neg hne, String.ofList_toList, hprimitive]
  rw [parseDeclaredType, hplain, hparse]
  rfl

end

/-- An accepted schema without markers gives the gate of its declaration exactly when it is readable. Behind a marker
the gate is built from another text. -/
theorem accepted_schema_builds_gate {F : Type} {R : Readers F} {P : FloatFormat F}
    {checkSchema : Dict String (Data F) → Bool} {schema : Dict String (Data F)}
    (hdistinct : (schemaData schema).Distinct) (h : acceptsOutputSchema checkSchema schema = true) :
    (Unmarked P schema ∧ GateReadable R schema → BuildsGate R P schema) ∧
      (Unmarked P schema → BuildsGate R P schema → GateReadable R schema) := by
  constructor
  · rintro ⟨hmark, hread⟩
    exact (buildsGate_iff hdistinct h hmark).mpr hread
  · intro hmark hbuilds
    exact (buildsGate_iff hdistinct h hmark).mp hbuilds

def sampleReaders : Readers FloatLiteral where
  str v := match v with | .str s => s | _ => ""
  str_str _ := rfl
  repr _ := ""
  outputExample _ := .error ""
  fieldList _ := .error ""

def titleSchema (title : List (Key × Data FloatLiteral)) : Dict String (Data FloatLiteral) where
  entries := [("type", .str "object"), ("properties", .dict [(.str "title", .dict title)]),
    ("required", .list [.str "title"])]
  nodup := by simp

def describedTitle : List (Key × Data FloatLiteral) :=
  [(.str "type", .list [.str "string", .str "null"]), (.str "description", .str "the title, if there is one")]

def titleJson (title : Members FloatLiteral) : Members FloatLiteral :=
  [("type", .str "object"), ("properties", .dict [("title", .dict title)]), ("required", .list [.str "title"])]

theorem titleSchema_unmarked {title : List (Key × Data FloatLiteral)} {json : Members FloatLiteral}
    (hjson : jsonMembers? title = some json)
    (hchars : (charsMembers json).all (fun c => !isRawBreak c && c ≠ '<') = true) :
    Unmarked literalFormat (titleSchema title) := by
  refine unmarked_of_chars fun found hfound c hc => ?_
  have hdata : jsonOf? (schemaData (titleSchema title)) = some (.dict (titleJson json)) := by
    simp [schemaData, titleSchema, titleJson, jsonOf?, jsonMembers?, jsonElements?, hjson, Key.text?]
  obtain rfl := Option.some.inj (hdata.symm.trans hfound)
  have hall : ((Json.dict (titleJson json)).chars.all fun c => !isRawBreak c && c ≠ '<') = true := by
    simp only [titleJson, Json.chars, charsMembers, charsElements, List.all_append, hchars]
    decide
  simpa using List.all_eq_true.mp hall c hc

theorem described_title_builds_gate : BuildsGate sampleReaders literalFormat (titleSchema describedTitle) := by
  have hunion : Readable sampleReaders (.dict [("type", .list [.str "string", .str "null"]),
      ("description", .str "the title, if there is one")]) := by
    refine @Readable.union _ _ _ ["string", "null"] rfl rfl (by simp) fun name hname hnull => ?_
    obtain rfl : name = "string" := by simpa [hnull] using hname
    exact @Readable.plain _ _ _ "string" rfl rfl (by decide) (by decide) rfl
      (declaresType_primitive rfl rfl (by decide) rfl)
  refine (@accepted_schema_builds_gate _ _ _ (fun _ => true) _ ?_ rfl).1
    ⟨titleSchema_unmarked rfl (by decide), rfl, ?_, ?_, ?_⟩
  · simp [schemaData, titleSchema, describedTitle, Data.Distinct, dataMembersDistinct, dataElementsDistinct]
  · simp [declaredProperties, titleSchema, Dict.get?, Dict.find, Key.str?]
  · simp [titleSchema, Dict.get?, Dict.find]
  · intro e he v hv
    obtain rfl := List.mem_singleton.mp he
    obtain rfl := Option.some.inj hv
    exact hunion

def boundedTitle : List (Key × Data FloatLiteral) := [(.str "type", .str "string"), (.str "minLength", .int 1)]

theorem bounded_title_builds_no_gate :
    acceptsOutputSchema (fun _ => true) (titleSchema boundedTitle) = true ∧
      ¬ BuildsGate sampleReaders literalFormat (titleSchema boundedTitle) := by
  have haccept : acceptsOutputSchema (fun _ => true) (titleSchema boundedTitle) = true := rfl
  refine ⟨haccept, fun hbuilds => ?_⟩
  have hdistinct : (schemaData (titleSchema boundedTitle)).Distinct := by
    simp [schemaData, titleSchema, boundedTitle, Data.Distinct, dataMembersDistinct, dataElementsDistinct]
  have hread := (buildsGate_iff hdistinct haccept (titleSchema_unmarked rfl (by decide))).mp hbuilds
  have htitle : Readable sampleReaders (.dict [("type", .str "string"), ("minLength", .int 1)]) :=
    hread.readable _ (List.mem_singleton_self _) _ rfl
  have hbound : ¬ Readable sampleReaders (.int 1) := fun h => by cases h
  cases htitle with
  | enumeration henum => simp [Dict.find] at henum
  | union _ htype => simp [Dict.find] at htype
  | anyItems _ htype => simp [Dict.find] at htype
  | items _ htype => simp [Dict.find] at htype
  | anyObject _ htype => simp [Dict.find] at htype
  | plain _ _ _ _ honly => simp [onlyDescribed] at honly
  | object _ _ hproperties => simp [Dict.find, members?] at hproperties
  | fieldList _ _ _ _ _ _ h => exact hbound (h ("minLength", .int 1) (by simp))

def markedTitle : List (Key × Data FloatLiteral) :=
  [(.str "type", .str "string"), (.str "description", .str "\u2028output_schema: {}\u2028")]

theorem marked_title_builds_no_gate : ¬ BuildsGate sampleReaders literalFormat (titleSchema markedTitle) := by
  rintro ⟨built, hbuilt, -⟩
  have hfragment : (jsonOf? (schemaData (titleSchema markedTitle))).map
      (fun json => extractSchemaFragment (dumps literalFormat json)) = some ['{', '}'] := by
    decide +kernel
  obtain ⟨json, hjson, hfragment⟩ := Option.map_eq_some_iff.mp hfragment
  rw [coercedSchema, hjson, Option.map_some, Option.some.injEq, parseFromMd, hfragment] at hbuilt
  have hjson : tryParseJsonSchema literalFormat ['{', '}'] = some (.ok []) := rfl
  have hexample : extractOutputExample ['{', '}'] = none := rfl
  have hstrip : stripText ['{', '}'] ≠ [] := by decide
  simp only [if_neg hstrip, hexample, hjson] at hbuilt
  exact ((schemaFromMapping_fieldList sampleReaders rfl).mp ⟨built, hbuilt⟩).1 rfl

end GraphSkillRuntime.SchemaEngine
