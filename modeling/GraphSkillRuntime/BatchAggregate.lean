import GraphSkillRuntime.AcceptedDeltas
import Mathlib.Data.List.Dedup

/-!
`iterate: batch` runs the phase once for each item against a schema without its required list and with the arrays of
its properties opened, and gathers the items' outputs key by key.
-/

namespace GraphSkillRuntime

open OrderedDict

/-- `items` begins after the positions that `prefixItems` describes one by one. -/
def positionalItems (S : Schema) : Nat :=
  match S.get? "prefixItems" with
  | some (.list positions) => positions.length
  | _ => 0

/-- What the validator documents about a schema: it holds when each of its keywords does, read in the context its
references resolve in. -/
structure Draft202012.Keywords (V : Draft202012) where
  Context : Type
  root : Value → Context
  enter : Context → Schema → Context
  holds : Context → Value → Value → Prop
  keyword : Context → Schema → String → Value → Value → Prop
  isValid_iff : ∀ S v, V.isValid S v = true ↔ holds (root S) S v
  holds_dict : ∀ c S v, holds c (.dict S) v ↔
    ∀ e ∈ (Dict.ofList S).entries, keyword (enter c (Dict.ofList S)) (Dict.ofList S) e.1 e.2 v
  type_object : ∀ c S d, keyword c S "type" (.str "object") (.dict d)
  type_array : ∀ c S xs, keyword c S "type" (.str "array") (.list xs)
  properties : ∀ c S ps d, keyword c S "properties" (.dict ps) (.dict d) ↔
    ∀ e ∈ (Dict.ofList ps).entries, ∀ x, (Dict.ofList d).get? e.1 = some x → holds c e.2 x
  required : ∀ c S names d, keyword c S "required" (.list names) (.dict d) ↔
    ∀ name, .str name ∈ names → (Dict.ofList d).contains name = true
  items : ∀ c S item xs, keyword c S "items" item (.list xs) ↔
    ∀ x ∈ xs.drop (positionalItems S), holds c item x
  additionalProperties : ∀ c S x ps d, S.get? "properties" = some (.dict ps) →
    (∀ k ∈ (Dict.ofList d).keys, k ∈ (Dict.ofList ps).keys) → keyword c S "additionalProperties" x (.dict d)
  keyword_congr : ∀ c S k x (d e : Dict String Value), d.Same e →
    (keyword c S k x (.ofDict d) ↔ keyword c S k x (.ofDict e))
  required_list : ∀ S : Schema, V.checkSchema (.ofDict S) = none →
    ∀ x, S.get? "required" = some x → ∃ names, x = .list names

def batchPayload (outputKeys : Option (List String)) (payloads : List (Dict String Value)) : Dict String Value :=
  if payloads.isEmpty then emptyBatchPayload outputKeys else aggregateBatchPayloads payloads

def recordedPayload (phaseId : String) (delta : PhaseDelta) : Option (Dict String Value) :=
  (dictAt delta.data "phase_outputs").bind (dictAt · phaseId)

theorem recordedPayload_single (phaseId : String) (payload : Dict String Value) (ids : Dict String (List String)) :
    recordedPayload phaseId (phaseOutputsDelta (Dict.single phaseId payload) ids) = some payload := by
  rw [recordedPayload, phaseOutputsDelta, dictAt, Dict.get?_set, if_pos rfl, Option.bind_some, Value.asDict?_ofDict,
    Option.bind_some, dictAt, Dict.get?_mapValues, Dict.get?_single, if_pos rfl, Option.map_some, Option.bind_some,
    Value.asDict?_ofDict]

/-- The outputs that the runs of the items were accepted with, in the order of the items. -/
def ItemOutputs (node : IndexedNode) (phaseId : String) (base : WorkflowState) (itemVar : String) :
    Nat → List Value → List (Dict String Value) → Prop
  | _, [], [] => True
  | index, item :: items, output :: outputs =>
    (∃ child delta, liftUpdateError (updateBusiness base (Dict.single itemVar item)) = .ok child ∧
      node index child = .ok delta ∧ delta.data = phaseDataDelta phaseId output) ∧
      ItemOutputs node phaseId base itemVar (index + 1) items outputs
  | _, _, _ => False

def column (outputs : List (Dict String Value)) (k : String) : List Value := outputs.filterMap (·.get? k)

def Aligned (keys : List String) (outputs : List (Dict String Value)) (payload : Dict String Value) : Prop :=
  ∀ k ∈ keys, ∃ values, payload.get? k = some (.list values) ∧ values.map some = outputs.map (·.get? k)

structure BatchConforms (V : Draft202012) (schema : Schema) (outputs : List (Dict String Value))
    (payload : Dict String Value) : Prop where
  aligned : Aligned (schemaProperties (some schema)) outputs payload
  keys : ∀ k, (batchPayload (schemaOutputKeys (some schema)) []).contains k = payload.contains k
  valid : V.isValid (.ofDict schema) (.ofDict payload) = true

section

variable {V : Draft202012} (K : V.Keywords)

/-- A property takes the column of its values: when the item schema is its `items`, each value has to satisfy that
schema itself, and every other keyword speaks about the list. -/
def TakesColumn (c : K.Context) (values : List Value) : Value → Prop
  | .dict kvs =>
    let S := Dict.ofList kvs
    if S.get? "type" = some (.str "array") ∧ (dictAt S "items").isSome then
      (∀ item, S.get? "items" = some item → ∀ v ∈ values.drop (positionalItems S), K.holds (K.enter c S) item v) ∧
        ∀ e ∈ S.entries, e.1 ≠ "type" → e.1 ≠ "items" → K.keyword (K.enter c S) S e.1 e.2 (.list values)
    else K.holds c (.dict kvs) (.list values)
  | S => K.holds c S (.list values)

def objectKeywords : List String := ["type", "properties", "required", "additionalProperties"]

def columns (properties : Dict String Value) (outputs : List (Dict String Value)) : Dict String Value :=
  properties.mapValues (fun k _ => .list (column outputs k))

structure Gathers (schema : Schema) (outputs : List (Dict String Value)) : Prop where
  complete : ∀ output ∈ outputs, ∀ k ∈ schemaProperties (some schema), k ≠ "phase_outputs" ∧ output.contains k = true
  column : ∀ properties, dictAt schema "properties" = some properties → ∀ e ∈ properties.entries,
    TakesColumn K (K.enter (K.root (.ofDict schema)) schema) (column outputs e.1) e.2
  other : ∀ properties, dictAt schema "properties" = some properties → ∀ e ∈ schema.entries, e.1 ∉ objectKeywords →
    K.keyword (K.enter (K.root (.ofDict schema)) schema) schema e.1 e.2 (.ofDict (columns properties outputs))

end

section Aggregate

def appended (old : Option (List Value)) : Option Value → Option (List Value)
  | some v => some (old.getD [] ++ [v])
  | none => old

theorem get?_foldl_append {es : List (String × Value)} (hn : (es.map Prod.fst).Nodup)
    (acc : Dict String (List Value)) (k : String) :
    (es.foldl (fun acc e => acc.set e.1 ((acc.get? e.1).getD [] ++ [e.2])) acc).get? k =
      appended (acc.get? k) (Dict.find es k) := by
  induction es generalizing acc with
  | nil => rfl
  | cons e es ih =>
    rw [List.map_cons, List.nodup_cons] at hn
    rw [List.foldl_cons, ih hn.2]
    by_cases he : e.1 = k
    · have hnone : Dict.find es k = none := Dict.find_eq_none.mpr (he ▸ hn.1)
      simp [Dict.find, he, hnone, appended]
    · simp [Dict.find, he]

theorem get?_appendPayload (acc : Dict String (List Value)) (payload : Dict String Value) (k : String) :
    (appendPayload acc payload).get? k = appended (acc.get? k) (payload.get? k) :=
  get?_foldl_append payload.nodup acc k

theorem get?_foldl_appendPayload (payloads : List (Dict String Value)) (acc : Dict String (List Value)) (k : String) :
    (payloads.foldl appendPayload acc).get? k =
      if column payloads k = [] then acc.get? k else some ((acc.get? k).getD [] ++ column payloads k) := by
  induction payloads generalizing acc with
  | nil => simp [column]
  | cons payload payloads ih =>
    rw [List.foldl_cons, ih, get?_appendPayload]
    cases hk : payload.get? k with
    | none => simp [column, hk, appended]
    | some v =>
      by_cases hc : column payloads k = []
      · simp only [column] at hc ⊢
        simp [hk, hc, appended]
      · simp only [column] at hc ⊢
        simp [hk, hc, appended]

theorem get?_aggregateBatchPayloads (payloads : List (Dict String Value)) (k : String) :
    (aggregateBatchPayloads payloads).get? k =
      if column payloads k = [] then none else some (.list (column payloads k)) := by
  rw [aggregateBatchPayloads, Dict.get?_mapValues, get?_foldl_appendPayload]
  split <;> simp

theorem get?_emptyBatchPayload (keys : List String) (k : String) :
    (emptyBatchPayload (some keys)).get? k = if k ∈ keys then some (.list []) else none := by
  rw [emptyBatchPayload, Option.getD_some, Dict.get?_ofList]
  split
  · next hk =>
    have hsome : (Dict.find (keys.map (fun key => (key, Value.list []))).reverse k).isSome := by
      rw [Dict.find_isSome]
      simpa using hk
    obtain ⟨v, hv⟩ := Option.isSome_iff_exists.mp hsome
    have hm := List.mem_reverse.mp (find_some_mem hv)
    simp only [List.mem_map, Prod.mk.injEq] at hm
    obtain ⟨_, -, -, rfl⟩ := hm
    exact hv
  · next hk =>
    apply Dict.find_eq_none.mpr
    simpa using hk

def itemPayload (phaseId : String) (keys : List String) (output : Dict String Value) : Dict String Value :=
  ((phaseDataDelta phaseId output).erase "phase_outputs").restrict (· ∈ keys)

theorem get?_itemPayload (phaseId : String) (keys : List String) (output : Dict String Value) (k : String) :
    (itemPayload phaseId keys output).get? k =
      if k ∈ keys ∧ k ≠ "phase_outputs" then output.get? k else none := by
  rw [itemPayload, Dict.get?_restrict, Dict.get?_erase, get?_phaseDataDelta]
  by_cases hk : k ∈ keys <;> by_cases hp : k = "phase_outputs" <;> simp [hk, hp]
  exact fun h => absurd h.symm hp

theorem column_itemPayload {phaseId : String} {keys : List String} {k : String} (hk : k ∈ keys)
    (hp : k ≠ "phase_outputs") (outputs : List (Dict String Value)) :
    column (outputs.map (itemPayload phaseId keys)) k = column outputs k := by
  rw [column, column, List.filterMap_map]
  congr 1
  funext output
  simp [get?_itemPayload, hk, hp]

theorem column_itemPayload_other {phaseId : String} {keys : List String} {k : String}
    (h : ¬ (k ∈ keys ∧ k ≠ "phase_outputs")) (outputs : List (Dict String Value)) :
    column (outputs.map (itemPayload phaseId keys)) k = [] := by
  rw [column, List.filterMap_map]
  apply List.filterMap_eq_nil_iff.mpr
  intro output _
  simp only [Function.comp_apply, get?_itemPayload, if_neg h]

theorem map_some_column {outputs : List (Dict String Value)} {k : String}
    (h : ∀ output ∈ outputs, output.contains k = true) :
    (column outputs k).map some = outputs.map (·.get? k) := by
  induction outputs with
  | nil => rfl
  | cons output outputs ih =>
    obtain ⟨v, hv⟩ := Option.isSome_iff_exists.mp (h output (by simp))
    have ht := ih (fun o ho => h o (by simp [ho]))
    simp only [column] at ht ⊢
    simp [hv, ht]

theorem batchPayload_same {phaseId : String} {properties : Dict String Value} {outputs : List (Dict String Value)}
    (h : ∀ output ∈ outputs, ∀ k ∈ properties.keys, k ≠ "phase_outputs" ∧ output.contains k = true) :
    (batchPayload (some properties.keys) (outputs.map (itemPayload phaseId properties.keys))).Same
      (columns properties outputs) := by
  intro k
  cases outputs with
  | nil =>
    rw [batchPayload, List.map_nil, List.isEmpty_nil, if_pos rfl, get?_emptyBatchPayload, columns,
      Dict.get?_mapValues]
    by_cases hk : k ∈ properties.keys
    · obtain ⟨x, hx⟩ := Option.isSome_iff_exists.mp (Dict.mem_keys.mp hk)
      rw [if_pos hk, hx]
      rfl
    · rw [if_neg hk, Dict.get?_eq_none.mpr hk]
      rfl
  | cons output outputs =>
    rw [batchPayload, List.map_cons, List.isEmpty_cons, if_neg Bool.false_ne_true, ← List.map_cons,
      get?_aggregateBatchPayloads, columns, Dict.get?_mapValues]
    by_cases hk : k ∈ properties.keys
    · obtain ⟨hp, hc⟩ := h output (by simp) k hk
      obtain ⟨v, hv⟩ := Option.isSome_iff_exists.mp hc
      obtain ⟨x, hx⟩ := Option.isSome_iff_exists.mp (Dict.mem_keys.mp hk)
      have hne : column (output :: outputs) k ≠ [] := by simp [column, hv]
      rw [column_itemPayload hk hp, if_neg hne, hx, Option.map_some]
    · rw [column_itemPayload_other (fun h => hk h.1), if_pos rfl, Dict.get?_eq_none.mpr hk, Option.map_none]

theorem complete_of_aligned {phaseId : String} {keys : List String} {outputs : List (Dict String Value)}
    (h : Aligned keys outputs (batchPayload (some keys) (outputs.map (itemPayload phaseId keys)))) :
    ∀ output ∈ outputs, ∀ k ∈ keys, k ≠ "phase_outputs" ∧ output.contains k = true := by
  intro output ho k hk
  obtain ⟨values, hget, hvalues⟩ := h k hk
  constructor
  · rintro rfl
    have hne : outputs.map (itemPayload phaseId keys) ≠ [] := by
      simpa using List.ne_nil_of_mem ho
    rw [batchPayload, if_neg (by simpa using hne), get?_aggregateBatchPayloads,
      column_itemPayload_other (fun h => h.2 rfl), if_pos rfl] at hget
    exact absurd hget (by simp)
  · have hmem : output.get? k ∈ values.map some := hvalues ▸ List.mem_map_of_mem (f := (·.get? k)) ho
    obtain ⟨v, -, hv⟩ := List.mem_map.mp hmem
    rw [Dict.contains, ← hv, Option.isSome_some]

end Aggregate

theorem dictAt_eq_some {d e : Dict String Value} {k : String} (h : dictAt d k = some e) :
    ∃ kvs, d.get? k = some (.dict kvs) ∧ Dict.ofList kvs = e := by
  obtain ⟨v, hv, h⟩ := Option.bind_eq_some_iff.mp h
  cases v with
  | dict kvs => exact ⟨kvs, hv, Option.some.inj h⟩
  | _ => simp [Value.asDict?] at h

section Conformance

variable {V : Draft202012} (K : V.Keywords) {schema : Schema} {properties : Dict String Value}

theorem isValid_iff_keywords (d : Dict String Value) :
    V.isValid (.ofDict schema) (.ofDict d) = true ↔ ∀ e ∈ schema.entries,
      K.keyword (K.enter (K.root (.ofDict schema)) schema) schema e.1 e.2 (.ofDict d) := by
  have h := K.holds_dict (K.root (.ofDict schema)) schema.entries (.ofDict d)
  rw [Dict.ofList_entries] at h
  rw [K.isValid_iff]
  exact h

include K in
theorem isValid_congr {d e : Dict String Value} (h : d.Same e) :
    V.isValid (.ofDict schema) (.ofDict d) = true ↔ V.isValid (.ofDict schema) (.ofDict e) = true := by
  rw [isValid_iff_keywords K, isValid_iff_keywords K]
  constructor
  · intro hd x hx
    exact (K.keyword_congr _ _ _ _ d e h).mp (hd x hx)
  · intro he x hx
    exact (K.keyword_congr _ _ _ _ d e h).mpr (he x hx)

theorem holds_column_iff (c : K.Context) (values : List Value) (S : Value) :
    K.holds c S (.list values) ↔ TakesColumn K c values S := by
  cases S with
  | dict kvs =>
    rw [TakesColumn]
    by_cases ho : (Dict.ofList kvs).get? "type" = some (.str "array") ∧ (dictAt (Dict.ofList kvs) "items").isSome
    · rw [if_pos ho, K.holds_dict]
      constructor
      · intro h
        refine ⟨?_, fun e he _ _ => h e he⟩
        intro item hitem
        exact (K.items _ _ _ _).mp (h ("items", item) (Dict.get?_mem.mp hitem))
      · rintro ⟨hitems, hother⟩ ⟨k, x⟩ he
        by_cases ht : k = "type"
        · subst ht
          have hx : x = .str "array" := Option.some.inj ((Dict.get?_mem.mpr he).symm.trans ho.1)
          rw [hx]
          exact K.type_array _ _ _
        · by_cases hi : k = "items"
          · subst hi
            exact (K.items _ _ _ _).mpr (hitems x (Dict.get?_mem.mpr he))
          · exact hother (k, x) he ht hi
    · rw [if_neg ho]
  | _ => rfl

theorem columns_valid_iff (hobject : schema.get? "type" = some (.str "object"))
    (hprops : dictAt schema "properties" = some properties)
    (hrequired : ∀ x, schema.get? "required" = some x → ∃ names, x = .list names ∧
      ∀ name, .str name ∈ names → name ∈ properties.keys) (outputs : List (Dict String Value)) :
    V.isValid (.ofDict schema) (.ofDict (columns properties outputs)) = true ↔
      (∀ e ∈ properties.entries,
        TakesColumn K (K.enter (K.root (.ofDict schema)) schema) (column outputs e.1) e.2) ∧
      ∀ e ∈ schema.entries, e.1 ∉ objectKeywords →
        K.keyword (K.enter (K.root (.ofDict schema)) schema) schema e.1 e.2 (.ofDict (columns properties outputs)) := by
  obtain ⟨ps, hps, rfl⟩ : ∃ ps, schema.get? "properties" = some (.dict ps) ∧ Dict.ofList ps = properties :=
    dictAt_eq_some hprops
  have hget : ∀ k x, (Dict.ofList ps).get? k = some x →
      (columns (Dict.ofList ps) outputs).get? k = some (.list (column outputs k)) := by
    intro k x hk
    rw [columns, Dict.get?_mapValues, hk, Option.map_some]
  have hkeys : ∀ k, (columns (Dict.ofList ps) outputs).contains k = true ↔ k ∈ (Dict.ofList ps).keys := by
    intro k
    rw [Dict.contains, columns, Dict.get?_mapValues, Option.isSome_map, Dict.mem_keys]
  rw [isValid_iff_keywords K]
  constructor
  · intro h
    refine ⟨?_, fun e he _ => h e he⟩
    intro e he
    have hp := (K.properties _ _ _ _).mp (h ("properties", .dict ps) (Dict.get?_mem.mp hps)) e he
    apply (holds_column_iff K _ _ _).mp
    apply hp
    rw [Dict.ofList_entries]
    exact hget e.1 e.2 (Dict.get?_mem.mpr he)
  · rintro ⟨hcolumn, hother⟩ ⟨k, x⟩ he
    have hx := Dict.get?_mem.mpr he
    by_cases ho : k ∈ objectKeywords
    · simp only [objectKeywords, List.mem_cons, List.not_mem_nil, or_false] at ho
      rcases ho with rfl | rfl | rfl | rfl
      · rw [← Option.some.inj (hobject.symm.trans hx)]
        exact K.type_object _ _ _
      · rw [← Option.some.inj (hps.symm.trans hx)]
        apply (K.properties _ _ _ _).mpr
        intro e he x hx
        rw [Dict.ofList_entries, hget e.1 e.2 (Dict.get?_mem.mpr he), Option.some.injEq] at hx
        rw [← hx]
        exact (holds_column_iff K _ _ _).mpr (hcolumn e he)
      · obtain ⟨names, rfl, hnames⟩ := hrequired x hx
        apply (K.required _ _ _ _).mpr
        intro name hname
        rw [Dict.ofList_entries]
        exact (hkeys name).mpr (hnames name hname)
      · apply K.additionalProperties _ _ _ ps _ hps
        intro k hk
        rw [Dict.ofList_entries] at hk
        exact (hkeys k).mp (Dict.contains_iff.mpr hk)
    · exact hother (k, x) he ho

theorem conforms_iff (hobject : schema.get? "type" = some (.str "object"))
    (hprops : dictAt schema "properties" = some properties)
    (hrequired : ∀ x, schema.get? "required" = some x → ∃ names, x = .list names ∧
      ∀ name, .str name ∈ names → name ∈ properties.keys) (phaseId : String) (outputs : List (Dict String Value)) :
    BatchConforms V schema outputs
        (batchPayload (some properties.keys) (outputs.map (itemPayload phaseId properties.keys))) ↔
      Gathers K schema outputs := by
  have hschema : schemaProperties (some schema) = properties.keys := by simp [schemaProperties, hprops]
  have hkeys : schemaOutputKeys (some schema) = some properties.keys := by
    rw [schemaOutputKeys_of_object (by simp [hprops]), hschema]
  constructor
  · intro h
    have hcomplete := complete_of_aligned (hschema ▸ h.aligned)
    have hv := (isValid_congr K (batchPayload_same hcomplete)).mp h.valid
    have hv := (columns_valid_iff K hobject hprops hrequired outputs).mp hv
    refine ⟨by rw [hschema]; exact hcomplete, ?_, ?_⟩
    · intro p hp
      rw [← Option.some.inj (hprops.symm.trans hp)]
      exact hv.1
    · intro p hp
      rw [← Option.some.inj (hprops.symm.trans hp)]
      exact hv.2
  · intro h
    have hcomplete := h.complete
    rw [hschema] at hcomplete
    have hsame : (batchPayload (some properties.keys) (outputs.map (itemPayload phaseId properties.keys))).Same
        (columns properties outputs) := batchPayload_same hcomplete
    refine ⟨?_, ?_, ?_⟩
    · intro k hk
      rw [hschema] at hk
      obtain ⟨x, hx⟩ := Option.isSome_iff_exists.mp (Dict.mem_keys.mp hk)
      refine ⟨column outputs k, ?_, ?_⟩
      · rw [hsame k, columns, Dict.get?_mapValues, hx, Option.map_some]
      · apply map_some_column
        intro output ho
        exact (hcomplete output ho k hk).2
    · intro k
      have hempty : (batchPayload (some properties.keys) ([].map (itemPayload phaseId properties.keys))).Same
          (columns properties []) := batchPayload_same (by simp)
      rw [hkeys, Dict.contains, Dict.contains, hsame k]
      rw [List.map_nil] at hempty
      rw [hempty k, columns, columns, Dict.get?_mapValues, Dict.get?_mapValues, Option.isSome_map, Option.isSome_map]
    · apply (isValid_congr K hsame).mpr
      exact (columns_valid_iff K hobject hprops hrequired outputs).mpr ⟨h.column _ hprops, h.other _ hprops⟩

end Conformance

theorem validateInlineIoSchema_ok {V : Draft202012} {schema : Schema} {kind : IoKind} {domain : IoDomain}
    (h : validateInlineIoSchema V schema kind domain = .ok schema) :
    V.checkSchema (.ofDict schema) = none ∧ schema.get? "type" = some (.str "object") ∧
      ∃ properties required, dictAt schema "properties" = some properties ∧
        requiredNames (schema.get? "required") = some required ∧ ∀ name ∈ required, name ∈ properties.keys := by
  unfold validateInlineIoSchema at h
  dsimp only at h
  split at h
  · exact absurd h (by simp)
  · next hc =>
    split_ifs at h with ht
    refine ⟨hc, not_not.mp ht, ?_⟩
    split at h
    · exact absurd h (by simp)
    · exact absurd h (by simp)
    · next properties required hp hr =>
      refine ⟨properties, required, hp, hr, ?_⟩
      split at h
      · exact absurd h (by simp)
      · next hs =>
        intro name hname
        by_contra hmiss
        have hmem : name ∈ sortKeys (required.filter (· ∉ properties.keys)).dedup := by
          rw [sortKeys, List.mem_insertionSort, List.mem_dedup]
          simpa using ⟨hname, hmiss⟩
        rw [hs] at hmem
        exact absurd hmem (by simp)

theorem requiredNames_list {names : List Value} {required : List String}
    (h : requiredNames (some (.list names)) = some required) {name : String} (hn : .str name ∈ names) :
    name ∈ required := by
  unfold requiredNames at h
  induction names generalizing required with
  | nil => simp at hn
  | cons x names ih =>
    simp only [List.mapM_cons, Option.bind_eq_bind, Option.bind_eq_some_iff] at h
    obtain ⟨s, hs, rest, hrest, h⟩ := h
    obtain rfl := Option.some.inj h
    rcases List.mem_cons.mp hn with rfl | hn
    · obtain rfl := Option.some.inj hs
      simp
    · exact List.mem_cons_of_mem _ (ih hrest hn)

theorem batchItems_of_outputs {node : IndexedNode} {phaseId : String} {base : WorkflowState} {itemVar : String}
    (keys : List String) {items : List Value} {outputs : List (Dict String Value)} {index : Nat}
    (h : ItemOutputs node phaseId base itemVar index items outputs) :
    ∃ results, batchItems node base itemVar (some keys) phaseId index items = .ok results ∧
      results.map Prod.fst = outputs.map (itemPayload phaseId keys) := by
  induction items generalizing index outputs with
  | nil =>
    cases outputs with
    | nil => exact ⟨[], rfl, rfl⟩
    | cons _ _ => exact h.elim
  | cons item items ih =>
    cases outputs with
    | nil => exact h.elim
    | cons output outputs =>
      obtain ⟨⟨child, delta, hchild, hnode, hdata⟩, hrest⟩ := h
      obtain ⟨results, hresults, hfst⟩ := ih hrest
      rw [batchItems, batchItem]
      simp only [hchild, hnode, bind, Except.bind, pure, Except.pure, hresults]
      refine ⟨_, rfl, ?_⟩
      rw [List.map_cons, List.map_cons, hfst, hdata]
      rfl

theorem batch_run {V : Draft202012} {doc : PhaseDocument} (code : PhaseCode doc) {iterate : IterateSpec}
    (hi : doc.iterate = some iterate) (hmode : iterate.mode = .batch) (node : PhaseNode) {state : WorkflowState}
    {items : List Value} (hitems : resolveIterateItems state iterate.overField = .ok items)
    {outputs : List (Dict String Value)}
    (hout : ItemOutputs ((doc.spec code).runner V node) doc.phaseName state iterate.itemVar 1
      (applyIterateRange items iterate.range) outputs) :
    ∃ delta, (doc.spec code).run V node state = .ok delta ∧
      recordedPayload doc.phaseName delta =
        some (batchPayload (some doc.declared) (outputs.map (itemPayload doc.phaseName doc.declared))) := by
  have hkeys := PhaseDocument.schemaOutputKeys_outputs doc
  obtain ⟨results, hresults, hfst⟩ := batchItems_of_outputs doc.declared hout
  have hrun : (doc.spec code).run V node state = .ok (phaseOutputsDelta (Dict.single doc.phaseName
      (batchPayload (some doc.declared) (results.map Prod.fst)))
      (Dict.single doc.phaseName (results.flatMap Prod.snd))) := by
    have hspec : (doc.spec code).iterate = some iterate := hi
    have hschema : (doc.spec code).outputSchema = some doc.outputs := rfl
    have hid : (doc.spec code).phaseId = doc.phaseName := rfl
    rw [PhaseSpec.run, hspec]
    simp only [iteratePhase, hmode, batchPhase, hschema, hid, hkeys, hitems, hresults, bind, Except.bind, pure,
      Except.pure, batchPayload, List.isEmpty_map]
  refine ⟨_, hrun, ?_⟩
  rw [← hfst]
  exact recordedPayload_single _ _ _

theorem batch_conforms_iff {V : Draft202012} (K : V.Keywords) {doc : PhaseDocument} (code : PhaseCode doc)
    {domain : IoDomain} (hcompile : validateInlineIoSchema V doc.outputs .output domain = .ok doc.outputs)
    {iterate : IterateSpec} (hi : doc.iterate = some iterate) (hmode : iterate.mode = .batch)
    (node : PhaseNode) {state : WorkflowState} {items : List Value}
    (hitems : resolveIterateItems state iterate.overField = .ok items) {outputs : List (Dict String Value)}
    (hout : ItemOutputs ((doc.spec code).runner V node) doc.phaseName state iterate.itemVar 1
      (applyIterateRange items iterate.range) outputs) :
    ∃ delta payload, (doc.spec code).run V node state = .ok delta ∧
      recordedPayload doc.phaseName delta = some payload ∧
      (BatchConforms V doc.outputs outputs payload ↔ Gathers K doc.outputs outputs) := by
  obtain ⟨hcheck, hobject, properties, required, hprops, hnames, hsub⟩ := validateInlineIoSchema_ok hcompile
  have hrequired : ∀ x, doc.outputs.get? "required" = some x → ∃ names, x = .list names ∧
      ∀ name, .str name ∈ names → name ∈ properties.keys := by
    intro x hx
    obtain ⟨names, rfl⟩ := K.required_list doc.outputs hcheck x hx
    refine ⟨names, rfl, ?_⟩
    intro name hname
    rw [hx] at hnames
    exact hsub name (requiredNames_list hnames hname)
  obtain ⟨delta, hrun, hpayload⟩ := batch_run code hi hmode node hitems hout
  refine ⟨delta, _, hrun, hpayload, ?_⟩
  have hdeclared : doc.declared = properties.keys := by simp [PhaseDocument.declared, schemaProperties, hprops]
  rw [hdeclared]
  exact conforms_iff K hobject hprops hrequired doc.phaseName outputs

section CoreKeywords

def typeIs (name : String) (v : Value) : Prop :=
  (name = "object" → ∃ d, v = .dict d) ∧ (name = "array" → ∃ xs, v = .list xs) ∧ (name = "string" → ∃ s, v = .str s) ∧
    (name = "null" → v = .null)

structure CoreKeyword (holds : Value → Value → Prop) (S : Schema) (k : String) (x v : Value) : Prop where
  type : k = "type" → ∀ name, x = .str name → typeIs name v
  properties : k = "properties" → ∀ ps d, x = .dict ps → v = .dict d → ∀ e ∈ (Dict.ofList ps).entries, ∀ y,
    (Dict.ofList d).get? e.1 = some y → holds e.2 y
  required : k = "required" → ∀ names d, x = .list names → v = .dict d → ∀ name, .str name ∈ names →
    (Dict.ofList d).contains name = true
  items : k = "items" → ∀ xs, v = .list xs → ∀ y ∈ xs.drop (positionalItems S), holds x y

/-- The keywords of `core`, read to a depth. -/
def coreHoldsTo : Nat → Value → Value → Prop
  | 0, _, _ => True
  | n + 1, .dict kvs, v =>
    ∀ e ∈ (Dict.ofList kvs).entries, CoreKeyword (coreHoldsTo n) (Dict.ofList kvs) e.1 e.2 v
  | _ + 1, .bool b, _ => b = true
  | _ + 1, _, _ => True

def CoreHolds (S v : Value) : Prop := ∀ n, coreHoldsTo n S v

theorem coreHolds_dict (kvs : List (String × Value)) (v : Value) :
    CoreHolds (.dict kvs) v ↔
      ∀ e ∈ (Dict.ofList kvs).entries, CoreKeyword CoreHolds (Dict.ofList kvs) e.1 e.2 v := by
  constructor
  · intro h e he
    have hn : ∀ n, CoreKeyword (coreHoldsTo n) (Dict.ofList kvs) e.1 e.2 v := fun n => h (n + 1) e he
    refine ⟨(hn 0).type, ?_, (hn 0).required, ?_⟩
    · intro hk ps d hx hv f hf y hy n
      exact (hn n).properties hk ps d hx hv f hf y hy
    · intro hk xs hv y hy n
      exact (hn n).items hk xs hv y hy
  · intro h n
    cases n with
    | zero => trivial
    | succ n =>
      intro e he
      refine ⟨(h e he).type, ?_, (h e he).required, ?_⟩
      · intro hk ps d hx hv f hf y hy
        exact (h e he).properties hk ps d hx hv f hf y hy n
      · intro hk xs hv y hy
        exact (h e he).items hk xs hv y hy n

open Classical in
noncomputable def coreValidator : Draft202012 where
  checkSchema S :=
    match (S.asDict?).bind (·.get? "required") with
    | none => none
    | some (.list _) => none
    | some _ => some "required is not of type 'array'"
  iterErrors S v := if CoreHolds S v then [] else [("", [])]
  bestMatch _ _ := ""

theorem coreKeyword_congr {S : Schema} {k : String} {x : Value} {d e : Dict String Value} (h : d.Same e)
    (hd : CoreKeyword CoreHolds S k x (.ofDict d)) : CoreKeyword CoreHolds S k x (.ofDict e) := by
  refine ⟨?_, ?_, ?_, ?_⟩
  · intro hk name hx
    obtain ⟨ho, ha, hs, hn⟩ := hd.type hk name hx
    refine ⟨fun _ => ⟨_, rfl⟩, ?_, ?_, ?_⟩
    · intro hname
      obtain ⟨xs, hxs⟩ := ha hname
      exact absurd hxs (by simp [Value.ofDict])
    · intro hname
      obtain ⟨s, hs⟩ := hs hname
      exact absurd hs (by simp [Value.ofDict])
    · intro hname
      exact absurd (hn hname) (by simp [Value.ofDict])
  · intro hk ps e' hx he f hf y hy
    obtain rfl := Value.dict.inj he
    rw [Dict.ofList_entries, ← h f.1] at hy
    exact hd.properties hk ps d.entries hx rfl f hf y (by rwa [Dict.ofList_entries])
  · intro hk names e' hx he name hname
    obtain rfl := Value.dict.inj he
    have hc := hd.required hk names d.entries hx rfl name hname
    rw [Dict.ofList_entries, Dict.contains] at hc ⊢
    rwa [← h name]
  · intro hk xs hv
    exact absurd hv (by simp [Value.ofDict])

noncomputable def coreKeywords : coreValidator.Keywords where
  Context := Unit
  root _ := ()
  enter _ _ := ()
  holds _ := CoreHolds
  keyword _ := CoreKeyword CoreHolds
  isValid_iff S v := by
    by_cases h : CoreHolds S v <;> simp [Draft202012.isValid, coreValidator, h]
  holds_dict _ S v := coreHolds_dict S v
  type_object _ S d := by
    refine ⟨?_, by simp, by simp, by simp⟩
    intro _ name hname
    obtain rfl := Value.str.inj hname
    simp [typeIs]
  type_array _ S xs := by
    refine ⟨?_, by simp, by simp, by simp⟩
    intro _ name hname
    obtain rfl := Value.str.inj hname
    simp [typeIs]
  properties _ S ps d := by
    constructor
    · intro h
      exact h.properties rfl ps d rfl rfl
    · intro h
      refine ⟨by simp, ?_, by simp, by simp⟩
      intro _ ps' d' hps hd
      rw [← Value.dict.inj hps, ← Value.dict.inj hd]
      exact h
  required _ S names d := by
    constructor
    · intro h
      exact h.required rfl names d rfl rfl
    · intro h
      refine ⟨by simp, by simp, ?_, by simp⟩
      intro _ names' d' hn hd
      rw [← Value.list.inj hn, ← Value.dict.inj hd]
      exact h
  items _ S item xs := by
    constructor
    · intro h
      exact h.items rfl xs rfl
    · intro h
      refine ⟨by simp, by simp, by simp, ?_⟩
      intro _ xs' hxs
      rw [← Value.list.inj hxs]
      exact h
  additionalProperties _ S x ps d _ _ := ⟨by simp, by simp, by simp, by simp⟩
  keyword_congr _ S k x d e h := ⟨coreKeyword_congr h, coreKeyword_congr h.symm⟩
  required_list S h x hx := by
    simp only [coreValidator, Value.asDict?_ofDict, Option.bind_some, hx] at h
    cases x with
    | list names => exact ⟨names, rfl⟩
    | _ => simp at h

end CoreKeywords

section Chapters

def listOfStrings : Value := .dict [("type", .str "array"), ("items", .dict [("type", .str "string")])]

def chapterOutputs : Schema := Dict.ofList [("type", .str "object"),
  ("properties", .dict [("title", listOfStrings), ("summary", listOfStrings)]),
  ("required", .list [.str "title", .str "summary"])]

def chapterIterate : IterateSpec := { mode := .batch, overField := "chapters", itemVar := "chapter" }

def chapterPhase : PhaseDocument where
  phaseName := "chapters"
  mode := .logic
  inputs := Dict.ofList [("type", .str "object"), ("properties", .dict [])]
  outputs := chapterOutputs
  iterate := some chapterIterate

def chapterOutput (chapter : Option Value) : Dict String Value :=
  if chapter = some (.num 1) then Dict.single "title" (.str "one")
  else Dict.ofList [("title", .str "two"), ("summary", .str "second")]

def chapterNode : PhaseNode := fun input =>
  .ok (.updates (some (.ofDict (chapterOutput (input.data.get? "chapter")))) ∅ none [])

def chapterState : WorkflowState := ⟨Dict.single "chapters" (.list [.num 1, .num 2]), {}, []⟩

theorem chapterPhase_compiles :
    validateInlineIoSchema coreValidator chapterOutputs .output .logic = .ok chapterOutputs := by
  have hc : coreValidator.checkSchema (.ofDict chapterOutputs) = none := by
    simp only [coreValidator, Value.asDict?_ofDict]
    rfl
  unfold validateInlineIoSchema
  simp only [hc]
  rfl

def optionalString : Value := .dict [("anyOf", .list [.dict [("type", .str "string")], nullSchema])]

def chapterItemSchema : Value := .dict [("type", .str "object"),
  ("properties", .dict [("title", optionalString), ("summary", optionalString)])]

theorem chapterItemSchema_eq :
    (batchItemOutputSchema (some chapterOutputs)).map (fun s => withOptionalFieldsNullable (.ofDict s)) =
      some chapterItemSchema := by
  rfl

theorem coreHolds_optionalString (v : Value) : CoreHolds optionalString v := by
  rw [optionalString, coreHolds_dict]
  intro e he
  have he : e = ("anyOf", .list [.dict [("type", .str "string")], nullSchema]) := List.mem_singleton.mp he
  rw [he]
  exact ⟨by simp, by simp, by simp, by simp⟩

theorem coreHolds_chapterItemSchema (d : Dict String Value) : CoreHolds chapterItemSchema (.ofDict d) := by
  rw [chapterItemSchema, coreHolds_dict]
  intro e he
  have he : e ∈ [("type", Value.str "object"),
    ("properties", .dict [("title", optionalString), ("summary", optionalString)])] := he
  rcases List.mem_cons.mp he with rfl | he
  · exact coreKeywords.type_object () _ _
  · obtain rfl := List.mem_singleton.mp he
    apply (coreKeywords.properties () _ _ _).mpr
    intro f hf y _
    have hf : f ∈ [("title", optionalString), ("summary", optionalString)] := hf
    have hf : f.2 = optionalString := by
      rcases List.mem_cons.mp hf with rfl | hf
      · rfl
      · rw [List.mem_singleton.mp hf]
    rw [hf]
    exact coreHolds_optionalString y

theorem chapterOutput_cases (chapter : Option Value) :
    chapterOutput chapter = Dict.single "title" (.str "one") ∨
      chapterOutput chapter = Dict.ofList [("title", .str "two"), ("summary", .str "second")] := by
  unfold chapterOutput
  split
  · exact .inl rfl
  · exact .inr rfl

theorem chapter_accepted (chapter : Option Value) :
    validatePhaseUpdatesAgainstSchema coreValidator (chapterOutput chapter)
      (batchItemOutputSchema (some chapterOutputs))
      mappingFailed "chapters" = .ok () := by
  have hdeclared : undeclaredKeys (chapterOutput chapter) (batchItemOutputSchema (some chapterOutputs)) = [] := by
    rcases chapterOutput_cases chapter with h | h <;> rw [h] <;> rfl
  obtain ⟨s, hs, hitem⟩ := Option.map_eq_some_iff.mp chapterItemSchema_eq
  have hcheck : coreValidator.checkSchema (.ofDict s) = none := by
    obtain rfl := Option.some.inj hs
    simp only [coreValidator, Value.asDict?_ofDict]
    rfl
  have herrors : coreValidator.iterErrors (withOptionalFieldsNullable (.ofDict s))
      (.ofDict (chapterOutput chapter)) = [] := by
    rw [hitem]
    simp [coreValidator, coreHolds_chapterItemSchema]
  unfold validatePhaseUpdatesAgainstSchema
  rw [hdeclared, hs]
  simp [sortKeys, hcheck, herrors]

theorem chapter_updates (chapter : Option Value) (hooks : PhaseHooks) (hv : hooks.validator = none) :
    (chapterPhase.spec {}).wrapper.mapper.acceptUpdates coreValidator hooks (chapterOutput chapter) =
      .ok (chapterOutput chapter) := by
  have hschema : (chapterPhase.spec {}).wrapper.mapper.outputSchema = batchItemOutputSchema (some chapterOutputs) := rfl
  have hid : (chapterPhase.spec {}).wrapper.mapper.phaseId = "chapters" := rfl
  have hflat : flatUpdates (batchItemOutputSchema (some chapterOutputs)) "chapters" (chapterOutput chapter) =
      chapterOutput chapter := by
    rcases chapterOutput_cases chapter with h | h <;> rw [h] <;> rfl
  have hkeys : refuseFrameworkKeys (chapterOutput chapter) = .ok () := by
    rcases chapterOutput_cases chapter with h | h <;> rw [h] <;> rfl
  simp only [StateMapper.acceptUpdates, hschema, hid, hflat, chapter_accepted, StateMapper.validatedOutputs, hv, hkeys,
    bind, Except.bind, pure, Except.pure]

theorem chapter_runs (index : Nat) (child : WorkflowState) :
    ∃ delta, (chapterPhase.spec {}).runner coreValidator chapterNode index child = .ok delta ∧
      delta.data = phaseDataDelta "chapters"
        (chapterOutput ((((chapterPhase.spec {}).wrapper.mapper.selectDeclaredInputs child).data).get? "chapter")) := by
  have hrequired : (chapterPhase.spec {}).wrapper.mapper.requireDeclaredInputs
      ((chapterPhase.spec {}).wrapper.mapper.selectDeclaredInputs child) = .ok () := rfl
  have hinject : injectDeclaredInputFiles (chapterPhase.spec {}).phaseId (chapterPhase.spec {}).inputFiles child =
    .ok child := rfl
  simp only [PhaseSpec.runner, hinject, PhaseWrapper.wrap, hrequired, chapterNode, bind, Except.bind,
    StateMapper.wrapPhaseOutput, StateMapper.updatesOf, Value.asDict?_ofDict, Option.getD_some]
  rw [chapter_updates _ _ rfl]
  exact ⟨_, rfl, rfl⟩

def chapterDelivered : List (Dict String Value) :=
  [Dict.single "title" (.str "one"), Dict.ofList [("title", .str "two"), ("summary", .str "second")]]

theorem chapter_items : resolveIterateItems chapterState chapterIterate.overField = .ok [.num 1, .num 2] := rfl

theorem chapter_outputs :
    ItemOutputs ((chapterPhase.spec {}).runner coreValidator chapterNode) chapterPhase.phaseName chapterState
      chapterIterate.itemVar 1 (applyIterateRange [.num 1, .num 2] chapterIterate.range) chapterDelivered := by
  refine ⟨?_, ?_, trivial⟩
  · obtain ⟨delta, hd, hdata⟩ := chapter_runs 1
      ⟨chapterState.data.update (Dict.single "chapter" (.num 1)), {}, []⟩
    exact ⟨_, delta, rfl, hd, hdata⟩
  · obtain ⟨delta, hd, hdata⟩ := chapter_runs 2
      ⟨chapterState.data.update (Dict.single "chapter" (.num 2)), {}, []⟩
    exact ⟨_, delta, rfl, hd, hdata⟩

theorem chapters_conform_iff :
    ∃ delta payload, (chapterPhase.spec {}).run coreValidator chapterNode chapterState = .ok delta ∧
      recordedPayload "chapters" delta = some payload ∧
      (BatchConforms coreValidator chapterOutputs chapterDelivered payload ↔
        Gathers coreKeywords chapterOutputs chapterDelivered) :=
  batch_conforms_iff coreKeywords {} chapterPhase_compiles rfl rfl chapterNode chapter_items chapter_outputs

theorem summary_misaligned :
    validateInlineIoSchema coreValidator chapterOutputs .output .logic = .ok chapterOutputs ∧
      ItemOutputs ((chapterPhase.spec {}).runner coreValidator chapterNode) "chapters" chapterState "chapter" 1
        [.num 1, .num 2] chapterDelivered ∧
      ∃ delta payload, (chapterPhase.spec {}).run coreValidator chapterNode chapterState = .ok delta ∧
        recordedPayload "chapters" delta = some payload ∧ payload.get? "summary" = some (.list [.str "second"]) ∧
        ¬ BatchConforms coreValidator chapterOutputs chapterDelivered payload := by
  obtain ⟨delta, hrun, hpayload⟩ := batch_run _ rfl rfl chapterNode chapter_items chapter_outputs
  refine ⟨chapterPhase_compiles, chapter_outputs, delta, _, hrun, hpayload, rfl, ?_⟩
  intro h
  have hcomplete := complete_of_aligned h.aligned
  have hsummary := (hcomplete (Dict.single "title" (.str "one")) (by simp [chapterDelivered]) "summary" (by decide)).2
  exact absurd hsummary (by decide)

end Chapters

end GraphSkillRuntime
