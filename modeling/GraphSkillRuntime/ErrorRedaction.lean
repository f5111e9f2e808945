import GraphSkillRuntime.CanonicalKeys
import GraphSkillRuntime.SchemaEngine

/-!
What an error payload discloses: a message or a detail that speaks of a credential is replaced before the payload leaves
the runtime.
-/

namespace GraphSkillRuntime.ErrorRedaction

open OrderedDict JsonText CanonicalKeys

def sensitiveDetailKeys : List String := ["api_key", "apikey", "authorization", "secret", "token", "traceback"]

def sensitiveMarkers : List String := ["api_key", "apikey", "authorization", "secret", "sk-", "token", "traceback"]

section

-- Python's `str.lower`.
variable (lower : String → String)

def containsSensitiveErrorText (value : String) : Bool :=
  sensitiveMarkers.any fun marker => SchemaEngine.occursIn marker.toList (lower value).toList

def normalizedKey (key : String) : String :=
  .ofList ((lower key).toList.map fun c => if c = '-' then '_' else c)

def sensitiveKey (key : String) : Bool :=
  sensitiveDetailKeys.contains (normalizedKey lower key) || containsSensitiveErrorText lower (normalizedKey lower key)

end

variable {F : Type}

def redacted : Json F := .str "[redacted]"

mutual

def sanitizeErrorDetails (lower : String → String) : Json F → Json F
  | .dict kvs => .dict (sanitizeMembers lower kvs)
  | .list xs => .list (sanitizeElements lower xs)
  | .str s => if containsSensitiveErrorText lower s then redacted else .str s
  | .null => .null
  | .bool b => .bool b
  | .int z => .int z
  | .float x => .float x

def sanitizeElements (lower : String → String) : List (Json F) → List (Json F)
  | [] => []
  | x :: xs => sanitizeErrorDetails lower x :: sanitizeElements lower xs

def sanitizeMembers (lower : String → String) : List (String × Json F) → List (String × Json F)
  | [] => []
  | (key, item) :: kvs =>
    (key, if sensitiveKey lower key then redacted else sanitizeErrorDetails lower item) :: sanitizeMembers lower kvs

end

def sanitizeErrorMessage (lower : String → String) : Json F → Json F
  | .str s => if containsSensitiveErrorText lower s then redacted else .str s
  | v => v

structure TransportErrorPayload (F : Type) where
  errorCode : String
  message : String
  details : List (String × Json F)
  retryable : Bool

/-- What the validator of `details` returns; a default is not validated. -/
def sanitizeDetails (lower : String → String) : Option (Json F) → List (String × Json F)
  | none => []
  | some value =>
    match sanitizeErrorDetails lower value with
    | .dict kvs => kvs
    | _ => []

/-- The payload that is built from these fields; a message that is no string is refused. -/
def transportErrorPayload (lower : String → String) (errorCode : String) (message : Json F)
    (details : Option (Json F)) (retryable : Bool) : Option (TransportErrorPayload F) :=
  match sanitizeErrorMessage lower message with
  | .str message => some ⟨errorCode, message, sanitizeDetails lower details, retryable⟩
  | _ => none

inductive Place where
  | key (k : String)
  | index (i : ℕ)

def valueAt : List Place → Json F → Option (Json F)
  | [], v => some v
  | .key k :: places, .dict kvs => (Dict.find kvs k).bind (valueAt places)
  | .index i :: places, .list xs => xs[i]?.bind (valueAt places)
  | _ :: _, _ => none

def OpenPath (lower : String → String) (places : List Place) : Prop :=
  ∀ k, .key k ∈ places → sensitiveKey lower k = false

def Plain (lower : String → String) : Json F → Prop
  | .list _ => False
  | .dict _ => False
  | .str s => containsSensitiveErrorText lower s = false
  | _ => True

variable {lower : String → String}

theorem sanitizeElements_eq (xs : List (Json F)) :
    sanitizeElements lower xs = xs.map (sanitizeErrorDetails lower) := by
  induction xs with
  | nil => rfl
  | cons x xs ih => rw [sanitizeElements, ih, List.map_cons]

theorem sanitizeMembers_eq (kvs : List (String × Json F)) : sanitizeMembers lower kvs =
    kvs.map fun e => (e.1, if sensitiveKey lower e.1 then redacted else sanitizeErrorDetails lower e.2) := by
  induction kvs with
  | nil => rfl
  | cons e kvs ih => rw [sanitizeMembers, ih, List.map_cons]

theorem find_sanitizeMembers (kvs : List (String × Json F)) (k : String) :
    Dict.find (sanitizeMembers lower kvs) k = (Dict.find kvs k).map fun item =>
      if sensitiveKey lower k then redacted else sanitizeErrorDetails lower item := by
  rw [sanitizeMembers_eq]
  apply Dict.find_map fun key item => if sensitiveKey lower key then redacted else sanitizeErrorDetails lower item

theorem sanitize_plain {x : Json F} (hx : Plain lower x) : sanitizeErrorDetails lower x = x := by
  cases x with
  | str s => rw [sanitizeErrorDetails, if_neg (by rw [show containsSensitiveErrorText lower s = false from hx]; simp)]
  | list xs => exact hx.elim
  | dict kvs => exact hx.elim
  | null => rfl
  | bool b => rfl
  | int z => rfl
  | float x => rfl

theorem valueAt_str {s : String} {places : List Place} {x : Json F} (h : valueAt places (.str s) = some x) :
    places = [] ∧ x = .str s := by
  cases places with
  | nil => exact ⟨rfl, (Option.some.inj h).symm⟩
  | cons p places => cases p <;> cases h

theorem sanitize_str_shape (F : Type) (lower : String → String) (s : String) :
    ∃ t, sanitizeErrorDetails lower (.str s : Json F) = .str t ∧ (t = s ∨ t = "[redacted]") := by
  rw [sanitizeErrorDetails]
  split
  · exact ⟨_, rfl, Or.inr rfl⟩
  · exact ⟨_, rfl, Or.inl rfl⟩

theorem valueAt_cons {p : Place} {places : List Place} {v : Json F} {x : Json F}
    (h : valueAt (p :: places) (sanitizeErrorDetails lower v) = some x) :
    (∃ item, valueAt [p] v = some item ∧ OpenPath lower [p] ∧
      valueAt places (sanitizeErrorDetails lower item) = some x) ∨
    (∃ k, p = .key k ∧ sensitiveKey lower k = true ∧ places = [] ∧ x = redacted) := by
  cases v with
  | dict kvs =>
    cases p with
    | index i => rw [sanitizeErrorDetails] at h; cases h
    | key k =>
      rw [sanitizeErrorDetails, valueAt, find_sanitizeMembers] at h
      obtain ⟨item, hitem⟩ : ∃ item, Dict.find kvs k = some item := by
        cases hfind : Dict.find kvs k with
        | none => rw [hfind] at h; cases h
        | some item => exact ⟨item, rfl⟩
      rw [hitem, Option.map_some, Option.bind_some] at h
      by_cases hk : sensitiveKey lower k = true
      · rw [if_pos hk] at h
        have hend := valueAt_str h
        exact Or.inr ⟨k, rfl, hk, hend.1, hend.2⟩
      · rw [if_neg hk] at h
        apply Or.inl
        refine ⟨item, ?_, ?_, h⟩
        · rw [valueAt, hitem]
          rfl
        · intro k' hk'
          rw [List.mem_singleton] at hk'
          cases hk'
          exact Bool.eq_false_of_not_eq_true hk
  | list xs =>
    cases p with
    | key k => rw [sanitizeErrorDetails] at h; cases h
    | index i =>
      rw [sanitizeErrorDetails, valueAt, sanitizeElements_eq, List.getElem?_map] at h
      cases hitem : xs[i]? with
      | none => rw [hitem] at h; cases h
      | some item =>
        rw [hitem, Option.map_some, Option.bind_some] at h
        apply Or.inl
        refine ⟨item, ?_, ?_, h⟩
        · rw [valueAt, hitem]
          rfl
        · intro k hk
          cases List.mem_singleton.mp hk
  | str s =>
    obtain ⟨t, ht, -⟩ := sanitize_str_shape F lower s
    rw [ht] at h
    cases (valueAt_str h).1
  | null => cases p <;> cases h
  | bool b => cases p <;> cases h
  | int z => cases p <;> cases h
  | float y => cases p <;> cases h

theorem OpenPath.cons {p : Place} {places : List Place} (hp : OpenPath lower [p]) (h : OpenPath lower places) :
    OpenPath lower (p :: places) := by
  intro k hk
  rw [List.mem_cons] at hk
  rcases hk with hk | hk
  · apply hp
    rw [hk]
    exact List.mem_singleton_self _
  · exact h k hk

theorem valueAt_sanitize {places : List Place} (hopen : OpenPath lower places) (v : Json F) :
    valueAt places (sanitizeErrorDetails lower v) = (valueAt places v).map (sanitizeErrorDetails lower) := by
  induction places generalizing v with
  | nil => rfl
  | cons p places ih =>
    have hrest : OpenPath lower places := fun k hk => hopen k (List.mem_cons_of_mem p hk)
    cases p with
    | key k =>
      have hk : ¬ sensitiveKey lower k = true := by
        rw [hopen k (List.mem_cons_self ..)]
        simp
      cases v with
      | dict kvs =>
        rw [sanitizeErrorDetails, valueAt, valueAt, find_sanitizeMembers]
        cases Dict.find kvs k with
        | none => rfl
        | some item =>
          rw [Option.map_some, if_neg hk]
          exact ih hrest item
      | str s =>
        obtain ⟨t, ht, -⟩ := sanitize_str_shape F lower s
        rw [ht]
        rfl
      | _ => rfl
    | index i =>
      cases v with
      | list xs =>
        rw [sanitizeErrorDetails, valueAt, valueAt, sanitizeElements_eq, List.getElem?_map]
        cases xs[i]? with
        | none => rfl
        | some item => exact ih hrest item
      | str s =>
        obtain ⟨t, ht, -⟩ := sanitize_str_shape F lower s
        rw [ht]
        rfl
      | _ => rfl

theorem redacted_plain (hlower : lower "[redacted]" = "[redacted]") : Plain lower (redacted : Json F) := by
  show containsSensitiveErrorText lower "[redacted]" = false
  unfold containsSensitiveErrorText
  rw [hlower]
  decide

theorem sanitize_string (hlower : lower "[redacted]" = "[redacted]") {v : Json F} {s : String}
    (h : sanitizeErrorDetails lower v = .str s) : containsSensitiveErrorText lower s = false := by
  cases v with
  | str t =>
    rw [sanitizeErrorDetails] at h
    by_cases ht : containsSensitiveErrorText lower t = true
    · rw [if_pos ht] at h
      cases h
      exact redacted_plain (F := F) hlower
    · rw [if_neg ht] at h
      cases h
      exact Bool.eq_false_of_not_eq_true ht
  | _ => cases h

theorem valueAt_string (hlower : lower "[redacted]" = "[redacted]") {places : List Place} {v : Json F} {s : String}
    (h : valueAt places (sanitizeErrorDetails lower v) = some (.str s)) :
    containsSensitiveErrorText lower s = false := by
  induction places generalizing v with
  | nil =>
    apply sanitize_string hlower (v := v)
    exact Option.some.inj h
  | cons p places ih =>
    rcases valueAt_cons h with ⟨item, -, -, hitem⟩ | ⟨k, -, -, -, hx⟩
    · exact ih hitem
    · cases hx
      exact redacted_plain (F := F) hlower

theorem valueAt_sensitive {places : List Place} {k : String} {v x : Json F} (hk : sensitiveKey lower k = true)
    (h : valueAt (places ++ [.key k]) (sanitizeErrorDetails lower v) = some x) : x = redacted := by
  induction places generalizing v with
  | nil =>
    rcases valueAt_cons h with ⟨item, -, hopen, -⟩ | ⟨_, -, -, -, hx⟩
    · have hfalse := hopen k (List.mem_singleton_self _)
      rw [hk] at hfalse
      cases hfalse
    · exact hx
  | cons p places ih =>
    rcases valueAt_cons h with ⟨item, -, -, hitem⟩ | ⟨_, -, -, hend, -⟩
    · exact ih hitem
    · cases places <;> cases hend

theorem valueAt_shown {places : List Place} {v x : Json F} (hplain : Plain lower x) (hx : x ≠ redacted) :
    valueAt places (sanitizeErrorDetails lower v) = some x ↔ OpenPath lower places ∧ valueAt places v = some x := by
  constructor
  · intro h
    have hopen : OpenPath lower places := by
      clear hplain
      induction places generalizing v with
      | nil => intro k hk; cases hk
      | cons p places ih =>
        rcases valueAt_cons h with ⟨item, -, hp, hitem⟩ | ⟨_, -, -, -, hmark⟩
        · exact hp.cons (ih hitem)
        · exact absurd hmark hx
    refine ⟨hopen, ?_⟩
    rw [valueAt_sanitize hopen] at h
    obtain ⟨y, hy, hyx⟩ := Option.map_eq_some_iff.mp h
    rw [hy]
    -- Only a text changes, and only into the mark.
    cases y with
    | str s =>
      obtain ⟨t, ht, hts⟩ := sanitize_str_shape F lower s
      rw [ht] at hyx
      rcases hts with rfl | rfl
      · rw [hyx]
      · exact absurd hyx.symm hx
    | list xs => rw [← hyx] at hplain; exact hplain.elim
    | dict kvs => rw [← hyx] at hplain; exact hplain.elim
    | _ => rw [← hyx]; rfl
  · intro h
    rw [valueAt_sanitize h.1, h.2, Option.map_some, sanitize_plain hplain]

theorem sanitize_sanitize (hlower : lower "[redacted]" = "[redacted]") (v : Json F) :
    sanitizeErrorDetails lower (sanitizeErrorDetails lower v) = sanitizeErrorDetails lower v := by
  induction v using json_parts with
  | hstr s =>
    apply sanitize_plain
    obtain ⟨t, ht, -⟩ := sanitize_str_shape F lower s
    rw [ht]
    exact sanitize_string hlower ht
  | hlist xs ih =>
    simp only [sanitizeErrorDetails, sanitizeElements_eq, List.map_map]
    congr 1
    apply List.map_congr_left
    intro x hx
    exact ih x hx
  | hdict kvs ih =>
    simp only [sanitizeErrorDetails, sanitizeMembers_eq, List.map_map]
    congr 1
    apply List.map_congr_left
    intro e he
    simp only [Function.comp_apply]
    by_cases hk : sensitiveKey lower e.1 = true
    · simp only [if_pos hk]
    · simp only [if_neg hk, ih e he]
  | _ => rfl

theorem sanitizeDetails_dict (value : List (String × Json F)) :
    Json.dict (sanitizeDetails lower (some (.dict value))) = sanitizeErrorDetails lower (.dict value) := rfl

theorem details_sanitized (lower : String → String) (details : Option (Json F)) : ∃ value : List (String × Json F),
    Json.dict (sanitizeDetails lower details) = sanitizeErrorDetails lower (.dict value) := by
  cases details with
  | none => exact ⟨[], rfl⟩
  | some value =>
    cases value with
    | dict kvs => exact ⟨kvs, rfl⟩
    | str s =>
      obtain ⟨t, ht, -⟩ := sanitize_str_shape F lower s
      refine ⟨[], ?_⟩
      rw [sanitizeDetails, ht]
      rfl
    | _ => exact ⟨[], rfl⟩

theorem payload_cases {errorCode : String} {message : Json F} {details : Option (Json F)} {retryable : Bool}
    {payload : TransportErrorPayload F}
    (h : transportErrorPayload lower errorCode message details retryable = some payload) :
    ∃ s text, message = .str s ∧ sanitizeErrorDetails lower (.str s : Json F) = .str text ∧
      payload = ⟨errorCode, text, sanitizeDetails lower details, retryable⟩ := by
  cases message with
  | str s =>
    obtain ⟨t, ht, -⟩ := sanitize_str_shape F lower s
    have hmessage : sanitizeErrorMessage lower (.str s : Json F) = .str t := ht
    unfold transportErrorPayload at h
    rw [hmessage] at h
    exact ⟨s, t, rfl, ht, (Option.some.inj h).symm⟩
  | _ => cases h

/-- A payload shows no text that speaks of a credential and nothing under a key that does; all else of the details it
shows as it was, and the payload of a payload's own fields is that payload. -/
theorem payload_discloses_nothing_else (hlower : lower "[redacted]" = "[redacted]") {errorCode : String}
    {message : Json F} {details : Option (Json F)} {retryable : Bool} {payload : TransportErrorPayload F}
    (h : transportErrorPayload lower errorCode message details retryable = some payload) :
    containsSensitiveErrorText lower payload.message = false ∧
    (∀ places s, valueAt places (.dict payload.details) = some (.str s) →
      containsSensitiveErrorText lower s = false) ∧
    (∀ places k x, sensitiveKey lower k = true → valueAt (places ++ [.key k]) (.dict payload.details) = some x →
      x = redacted) ∧
    (∀ value, details = some (.dict value) → ∀ places x, Plain lower x → x ≠ redacted →
      (valueAt places (.dict payload.details) = some x ↔
        OpenPath lower places ∧ valueAt places (.dict value) = some x)) ∧
    transportErrorPayload lower payload.errorCode (.str payload.message) (some (.dict payload.details))
      payload.retryable = some payload := by
  obtain ⟨s, text, rfl, htext, rfl⟩ := payload_cases h
  obtain ⟨value, hvalue⟩ := details_sanitized lower details
  have hmessage : containsSensitiveErrorText lower text = false := sanitize_string hlower htext
  refine ⟨hmessage, ?_, ?_, ?_, ?_⟩
  · intro places t ht
    rw [hvalue] at ht
    exact valueAt_string hlower ht
  · intro places k x hk hx
    rw [hvalue] at hx
    exact valueAt_sensitive hk hx
  · rintro kvs rfl places x hplain hx
    rw [sanitizeDetails_dict]
    exact valueAt_shown hplain hx
  · have hagain : sanitizeDetails lower (some (.dict (sanitizeDetails lower details))) =
        sanitizeDetails lower details := by
      have htwice := sanitize_sanitize hlower (.dict value)
      rw [← hvalue, ← sanitizeDetails_dict] at htwice
      exact Json.dict.inj htwice
    have htext' : sanitizeErrorMessage lower (.str text : Json F) = .str text :=
      sanitize_plain (x := .str text) hmessage
    unfold transportErrorPayload
    simp only [htext', hagain]

/-- `str.lower` on the letters of ASCII. -/
def asciiLower (s : String) : String := .ofList (s.toList.map Char.toLower)

theorem api_key_of_headers_redacted :
    let headers : List (String × Json Empty) := [("X-API-Key", .str "sk-1"), ("Accept", .str "json")]
    ∃ payload, transportErrorPayload asciiLower "E1" (.str "Bad Authorization header")
        (some (.dict [("headers", .dict headers)])) true = some payload ∧ payload.message = "[redacted]" ∧
      valueAt [.key "headers", .key "X-API-Key"] (.dict payload.details) = some redacted ∧
      valueAt [.key "headers", .key "Accept"] (.dict payload.details) = some (.str "json") := by
  intro headers
  have hmessage : containsSensitiveErrorText asciiLower "Bad Authorization header" = true := by decide
  have hheaders : sensitiveKey asciiLower "headers" = false := by decide
  have hkey : sensitiveKey asciiLower "X-API-Key" = true := by decide
  have haccept : sensitiveKey asciiLower "Accept" = false := by decide
  have hjson : containsSensitiveErrorText asciiLower "json" = false := by decide
  have hbuilt : transportErrorPayload asciiLower "E1" (.str "Bad Authorization header")
      (some (.dict [("headers", .dict headers)])) true = some ⟨"E1", "[redacted]",
        [("headers", .dict [("X-API-Key", redacted), ("Accept", .str "json")])], true⟩ := by
    simp [transportErrorPayload, sanitizeErrorMessage, sanitizeDetails, sanitizeErrorDetails, sanitizeMembers, redacted,
      headers, hmessage, hheaders, hkey, haccept, hjson]
  have hpayload := payload_discloses_nothing_else (by rfl) hbuilt
  refine ⟨_, hbuilt, rfl, by simp [valueAt, Dict.find], ?_⟩
  apply (hpayload.2.2.2.1 _ rfl [.key "headers", .key "Accept"] (.str "json") hjson ?_).mpr
  · constructor
    · intro k hk
      simp only [List.mem_cons, Place.key.injEq, List.not_mem_nil, or_false] at hk
      rcases hk with rfl | rfl
      · exact hheaders
      · exact haccept
    · simp [valueAt, Dict.find, headers]
  · intro h
    exact absurd (Json.str.inj h) (by decide)

end GraphSkillRuntime.ErrorRedaction
