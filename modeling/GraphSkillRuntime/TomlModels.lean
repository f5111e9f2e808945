import GraphSkillRuntime.YamlModels

/-!
Records written as TOML. The format has no null: a field whose value is `None` is left out by the writer of the record,
and a null inside the data that a field holds is an error of the format's writer.
-/

namespace GraphSkillRuntime.TomlModels

open OrderedDict JsonText PyData YamlModels

def plain (F : Type) : Dialects F where
  quotes _ := true
  resolve _ := none
  resolveKey _ := none
  alike k j := k.str? == j.str?
  resolve_other _ _ h := by cases h
  resolveKey_other _ _ h := by cases h
  resolves_alike _ := ⟨fun _ => rfl, fun _ => rfl⟩
  alike_str s t := by simp [Key.str?]

mutual

def holdsNull {F : Type} : Data F → Bool
  | .null => true
  | .list xs => elementsHoldNull xs
  | .dict kvs => membersHoldNull kvs
  | _ => false

def elementsHoldNull {F : Type} : List (Data F) → Bool
  | [] => false
  | x :: xs => holdsNull x || elementsHoldNull xs

def membersHoldNull {F : Type} : List (Key × Data F) → Bool
  | [] => false
  | (_, v) :: kvs => holdsNull v || membersHoldNull kvs

end

structure Toml (F : Type) where
  Text : Type
  dumps : Data F → Option Text
  loads : Text → Option (Data F)
  dumps_null : ∀ v, holdsNull v = true → dumps v = none
  loads_dumps : ∀ v, Tidy v → holdsNull v = false → ∃ text, dumps v = some text ∧ loads text = some v

mutual

def json? {F : Type} : Data F → Option (Json F)
  | .null => some .null
  | .bool b => some (.bool b)
  | .int z => some (.int z)
  | .float x => some (.float x)
  | .str s => some (.str s)
  | .other _ => none
  | .list xs => (jsonElements? xs).map .list
  | .dict kvs => (jsonMembers? kvs).map .dict

def jsonElements? {F : Type} : List (Data F) → Option (List (Json F))
  | [] => some []
  | x :: xs => (json? x).bind fun v => (jsonElements? xs).map (v :: ·)

def jsonMembers? {F : Type} : List (Key × Data F) → Option (List (String × Json F))
  | [] => some []
  | (k, x) :: kvs => k.str?.bind fun k => (json? x).bind fun v => (jsonMembers? kvs).map ((k, v) :: ·)

end

section Json

variable {F : Type}

mutual

theorem json?_ofJson (v : Json F) : json? (ofJson v) = some v := by
  cases v with
  | list xs => rw [ofJson, json?, jsonElements?_ofElements xs, Option.map_some]
  | dict kvs => rw [ofJson, json?, jsonMembers?_ofMembers kvs, Option.map_some]
  | _ => rfl
termination_by structural v

theorem jsonElements?_ofElements (xs : List (Json F)) : jsonElements? (ofElements xs) = some xs := by
  cases xs with
  | nil => rfl
  | cons x xs => rw [ofElements, jsonElements?, json?_ofJson x, jsonElements?_ofElements xs]; rfl
termination_by structural xs

theorem jsonMembers?_ofMembers (kvs : List (String × Json F)) : jsonMembers? (ofMembers kvs) = some kvs := by
  cases kvs with
  | nil => rfl
  | cons kv kvs =>
    obtain ⟨k, v⟩ := kv
    rw [ofMembers, jsonMembers?, json?_ofJson v, jsonMembers?_ofMembers kvs]
    rfl
termination_by structural kvs

end

mutual

theorem ofJson_of_json? (y : Data F) (v : Json F) (h : json? y = some v) : y = ofJson v := by
  cases y with
  | list xs =>
    rw [json?, Option.map_eq_some_iff] at h
    obtain ⟨vs, hvs, rfl⟩ := h
    rw [ofJson, ofElements_of_jsonElements? xs vs hvs]
  | dict kvs =>
    rw [json?, Option.map_eq_some_iff] at h
    obtain ⟨vs, hvs, rfl⟩ := h
    rw [ofJson, ofMembers_of_jsonMembers? kvs vs hvs]
  | other x => cases h
  | _ =>
    obtain rfl := Option.some.inj h
    rfl
termination_by structural y

theorem ofElements_of_jsonElements? (xs : List (Data F)) (vs : List (Json F)) (h : jsonElements? xs = some vs) :
    xs = ofElements vs := by
  cases xs with
  | nil =>
    obtain rfl := Option.some.inj h
    rfl
  | cons x xs =>
    rw [jsonElements?, Option.bind_eq_some_iff] at h
    obtain ⟨v, hv, h⟩ := h
    obtain ⟨rest, hrest, rfl⟩ := Option.map_eq_some_iff.mp h
    rw [ofElements, ← ofJson_of_json? x v hv, ← ofElements_of_jsonElements? xs rest hrest]
termination_by structural xs

theorem ofMembers_of_jsonMembers? (kvs : List (Key × Data F)) (vs : List (String × Json F))
    (h : jsonMembers? kvs = some vs) : kvs = ofMembers vs := by
  cases kvs with
  | nil =>
    obtain rfl := Option.some.inj h
    rfl
  | cons kv kvs =>
    obtain ⟨k, x⟩ := kv
    rw [jsonMembers?, Option.bind_eq_some_iff] at h
    obtain ⟨key, hkey, h⟩ := h
    obtain ⟨v, hv, h⟩ := Option.bind_eq_some_iff.mp h
    obtain ⟨rest, hrest, rfl⟩ := Option.map_eq_some_iff.mp h
    have hk : k = .str key := by
      cases k with
      | str s =>
        obtain rfl := Option.some.inj hkey
        rfl
      | _ => cases hkey
    rw [ofMembers, ← ofJson_of_json? x v hv, ← ofMembers_of_jsonMembers? kvs rest hrest, hk]
termination_by structural kvs

end

end Json

theorem plain_read {F : Type} {v : Data F} (h : Tidy v) : (plain F).read v = some v :=
  read_of_stable v h fun _ _ => .inl rfl

/-! Models of JSON data, of numbers, and of values that pass a check when they are built. -/

section Models

variable {F α β : Type} {Y : Dialects F}

def jsonValue : Model Y (Json F) where
  dump v := some (ofJson v)
  validate := json?
  Ok v := v.Distinct
  Kept _ := True
  reads {v} hv _ := ⟨ofJson v, rfl, tidy_ofJson v hv, json?_ofJson v⟩
  back {v _ d} _ hw _ hvalid := ⟨trivial, (ofJson_of_json? d v hvalid).trans (Option.some.inj hw)⟩

/-- `parse` may read other data too, but a float as itself. -/
def float (parse : Data F → Option F) (h : ∀ x, parse (.float x) = some x) : Model Y F where
  dump x := some (.float x)
  validate := parse
  Ok _ := True
  Kept _ := True
  reads {x} _ _ := ⟨.float x, rfl, trivial, h x⟩
  back {x v d} _ hv hd _ := by
    obtain rfl := Option.some.inj hv
    exact ⟨trivial, (Option.some.inj hd).symm⟩

/-- A class whose validator runs when an instance is built: `parts` are the fields of an instance. -/
def built (c : Model Y β) (parts : α → β) (build : β → Option α) (hbuild : ∀ a, build (parts a) = some a)
    (hparts : ∀ b a, build b = some a → parts a = b) : Model Y α where
  dump a := c.dump (parts a)
  validate v := (c.validate v).bind build
  Ok a := c.Ok (parts a)
  Kept a := c.Kept (parts a)
  reads {a} hok hkept := by
    obtain ⟨v, hv, htidy, hvalid⟩ := c.reads hok hkept
    exact ⟨v, hv, htidy, by rw [hvalid, Option.bind_some, hbuild]⟩
  back {a v d} hok hv hd hvalid := by
    obtain ⟨b, hb, hvalid⟩ := Option.bind_eq_some_iff.mp hvalid
    rw [← hparts b a hvalid] at hb
    exact c.back hok hv hd hb

end Models

section Rendered

variable {F α β : Type} {Y : Dialects F}

/-- Every value there is gets written, and `nulls` says when what is written holds a null. -/
def Rendered (c : Model Y α) (nulls : α → Prop) : Prop :=
  ∀ a, c.Ok a → ∃ v, c.dump a = some v ∧ Tidy v ∧ (holdsNull v = true ↔ nulls a)

def FieldsRendered (fs : Fields Y α) (nulls : α → Prop) : Prop :=
  ∀ a, fs.Ok a → ∃ kvs, fs.dump a = some kvs ∧ (∀ e ∈ kvs, Tidy e.2) ∧ ((∃ e ∈ kvs, holdsNull e.2 = true) ↔ nulls a)

theorem membersHoldNull_iff {kvs : List (Key × Data F)} :
    membersHoldNull kvs = true ↔ ∃ e ∈ kvs, holdsNull e.2 = true := by
  induction kvs with
  | nil => simp [membersHoldNull]
  | cons e kvs ih => simp [membersHoldNull, ih]

theorem rendered_text : Rendered (Model.text (Y := Y)) fun _ => False :=
  fun s _ => ⟨.str s, rfl, trivial, by simp [holdsNull]⟩

theorem rendered_enumeration {text : α → String} {ofText : String → Option α} {h : ∀ a, ofText (text a) = some a}
    {hinj : ∀ s a, ofText s = some a → s = text a} :
    Rendered (Model.enumeration (Y := Y) text ofText h hinj) fun _ => False :=
  fun a _ => ⟨.str (text a), rfl, trivial, by simp [holdsNull]⟩

theorem rendered_float {parse : Data F → Option F} {h : ∀ x, parse (.float x) = some x} :
    Rendered (float (Y := Y) parse h) fun _ => False :=
  fun x _ => ⟨.float x, rfl, trivial, by simp [holdsNull]⟩

theorem rendered_json : Rendered (jsonValue (Y := Y)) fun v => holdsNull (ofJson v) = true :=
  fun v hv => ⟨ofJson v, rfl, tidy_ofJson v hv, Iff.rfl⟩

theorem rendered_guard {c : Model Y α} {nulls : α → Prop} (h : Rendered c nulls) (ok : α → Bool) :
    Rendered (c.guard ok) nulls := fun a hok => h a hok.2

theorem rendered_via {c : Model Y α} {nulls : α → Prop} (h : Rendered c nulls) (e : β ≃ α) :
    Rendered (c.via e) fun b => nulls (e b) := fun b hok => h (e b) hok

theorem rendered_built {c : Model Y β} {nulls : β → Prop} (h : Rendered c nulls) {parts : α → β} {build : β → Option α}
    {hbuild : ∀ a, build (parts a) = some a} {hparts : ∀ b a, build b = some a → parts a = b} :
    Rendered (built c parts build hbuild hparts) fun a => nulls (parts a) := fun a hok => h (parts a) hok

theorem rendered_list {c : Model Y α} {nulls : α → Prop} (h : Rendered c nulls) :
    Rendered c.list fun xs => ∃ x ∈ xs, nulls x := by
  intro xs hok
  have hall : ∃ vs, xs.mapM c.dump = some vs ∧ tidyElements vs ∧
      (elementsHoldNull vs = true ↔ ∃ x ∈ xs, nulls x) := by
    induction xs with
    | nil => exact ⟨[], rfl, trivial, by simp [elementsHoldNull]⟩
    | cons x xs ih =>
      have hok' : c.Ok x ∧ ∀ y ∈ xs, c.Ok y := List.forall_mem_cons.mp hok
      obtain ⟨v, hv, htidy, hnull⟩ := h x hok'.1
      obtain ⟨vs, hvs, htidies, hnulls⟩ := ih hok'.2
      refine ⟨v :: vs, by rw [List.mapM_cons, hv, hvs]; rfl, ⟨htidy, htidies⟩, ?_⟩
      rw [elementsHoldNull, Bool.or_eq_true, hnull, hnulls, List.exists_mem_cons_iff]
  obtain ⟨vs, hvs, htidy, hnulls⟩ := hall
  exact ⟨.list vs, congrArg (Option.map Data.list) hvs, htidy, hnulls⟩

theorem rendered_nil : FieldsRendered (Fields.nil (Y := Y)) fun _ => False :=
  fun _ _ => ⟨[], rfl, List.forall_mem_nil _, by simp⟩

theorem rendered_cons {name : String} {label : Option String} {default : Option α} {c : Model Y α} {fs : Fields Y β}
    {nulls : α → Prop} {rest : β → Prop} (h : Rendered c nulls) (hfs : FieldsRendered fs rest) :
    FieldsRendered (.cons name label default c fs) fun a =>
      (c.dump a.1 ≠ some .null ∧ nulls a.1) ∨ rest a.2 := by
  intro a hok
  obtain ⟨v, hv, htidy, hnull⟩ := h a.1 hok.1
  obtain ⟨kvs, hkvs, htidies, hnulls⟩ := hfs a.2 hok.2
  refine ⟨Fields.writeField name v kvs, ?_, ?_, ?_⟩
  · simp only [Fields.cons, hv, hkvs, Option.bind_some, Option.map_some]
  · unfold Fields.writeField
    split_ifs
    · exact htidies
    · exact List.forall_mem_cons.mpr ⟨htidy, htidies⟩
  · simp only [hv, ne_eq, Option.some_inj]
    unfold Fields.writeField
    split_ifs with hisNull
    · rw [isNull_iff] at hisNull
      simp [hisNull, hnulls]
    · rw [isNull_iff] at hisNull
      simp [hisNull, hnulls, hnull]

theorem rendered_option {c : Model Y α} {nulls : α → Prop} (h : Rendered c nulls) {hnull : c.validate .null = none} :
    Rendered (c.option hnull) fun a => a = none ∨ ∃ x ∈ a, nulls x := by
  intro a hok
  cases a with
  | none => exact ⟨.null, rfl, trivial, by simp [holdsNull]⟩
  | some x =>
    obtain ⟨v, hv, htidy, hnulls⟩ := h x (hok x rfl)
    exact ⟨v, hv, htidy, by simp [hnulls]⟩

theorem rendered_record {fs : Fields Y α} {hn : (fs.names ++ fs.aliases).Nodup} {nulls : α → Prop}
    (h : FieldsRendered fs nulls) : Rendered (Model.record fs hn) nulls := by
  intro a hok
  obtain ⟨kvs, hkvs, htidy, hnulls⟩ := h a hok
  refine ⟨.dict (named kvs), congrArg (Option.map fun kvs => Data.dict (named kvs)) hkvs, ⟨?_, ?_⟩, ?_⟩
  · have hstr : (named kvs).map Prod.fst = (kvs.map Prod.fst).map Key.str := by
      rw [named, List.map_map, List.map_map]
      rfl
    rw [hstr]
    have hnames : (kvs.map Prod.fst).Nodup := (fs.keys hkvs).nodup (List.nodup_append.mp hn).1
    exact hnames.map fun _ _ => Key.str.inj
  · rw [tidyMembers_iff, named, List.forall_mem_map]
    exact fun e he => ⟨⟨e.1, rfl⟩, htidy e he⟩
  · rw [← hnulls, holdsNull, membersHoldNull_iff, named]
    simp only [List.mem_map, exists_exists_and_eq_and]

theorem Rendered.congr {c : Model Y α} {nulls nulls' : α → Prop} (h : Rendered c nulls)
    (heq : ∀ a, nulls a ↔ nulls' a) : Rendered c nulls' := by
  intro a hok
  obtain ⟨v, hv, htidy, hnulls⟩ := h a hok
  exact ⟨v, hv, htidy, hnulls.trans (heq a)⟩

theorem back_iff {c : Model (plain F) α} {nulls : α → Prop} (h : Rendered c nulls) {a : α} (hok : c.Ok a) :
    (∀ v, c.dump a = some v → holdsNull v = false → c.validate v = some a) ↔ c.Kept a ∨ nulls a := by
  obtain ⟨v, hv, htidy, hnulls⟩ := h a hok
  constructor
  · intro hback
    cases hheld : holdsNull v with
    | true => exact .inr (hnulls.mp hheld)
    | false => exact .inl (c.back hok hv (plain_read htidy) (hback v hv hheld)).1
  · intro hkept w hw hheld
    obtain rfl := Option.some.inj (hv.symm.trans hw)
    cases hkept with
    | inl hkept =>
      obtain ⟨w, hw, -, hvalid⟩ := c.reads hok hkept
      obtain rfl := Option.some.inj (hv.symm.trans hw)
      exact hvalid
    | inr hnull =>
      rw [hnulls.mpr hnull] at hheld
      cases hheld

end Rendered

end GraphSkillRuntime.TomlModels
