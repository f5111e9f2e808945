import GraphSkillRuntime.JsonPlaces
import GraphSkillRuntime.JsonRenderings
import GraphSkillRuntime.MarkdownBlocks
import GraphSkillRuntime.PyData

/-!
The event streams of the vendor command lines. A vendor writes one JSON object a line and escapes in it what JSON asks
for; the adapters split what they get with `str.splitlines`.
-/

namespace GraphSkillRuntime.VendorStreams

open OrderedDict JsonText

abbrev Event (F : Type) := List (String × Json F)

structure ParsedVendorOutput (F : Type) where
  output : Event F
  metadata : Event F

section

variable {F : Type} (P : FloatFormat F)

def decodeJson (raw : List Char) (label : String) : Except String (Json F) :=
  match loads P raw with
  | some v => .ok v
  | none => .error (label ++ " is not valid JSON")

def jsonObject (raw : List Char) (label : String) : Except String (Event F) := do
  match ← decodeJson P raw label with
  | .dict kvs => return kvs
  | _ => .error (label ++ " must be one JSON object")

def maxFinalResponseBytes : ℕ := 4 * 1024 * 1024

/-- `payload` is what the file holds, if it can be read. -/
def readBoundedUtf8 (payload : Option ByteArray) (label : String) : Except String String :=
  match payload with
  | none => .error (label ++ " is unavailable")
  | some bytes =>
    if maxFinalResponseBytes < bytes.size then .error (label ++ " exceeds the runtime output limit")
    else
      match String.fromUTF8? bytes with
      | some raw => .ok raw
      | none => .error (label ++ " is not UTF-8")

def metadata (sessionId : Option String) : Event F :=
  match sessionId with
  | some id => [("session_id", .str id)]
  | none => []

/-- `event.get(name)` where it is a string. -/
def textField (event : Event F) (name : String) : Option String :=
  match Dict.find event name with
  | some (.str s) => some s
  | _ => none

def threadId (event : Event F) : Option String :=
  if textField event "type" = some "thread.started" then textField event "thread_id" else none

def codexEvent (sessionId : Option String) (event : Event F) : Option String := (threadId event).or sessionId

def codexLine (sessionId : Option String) (line : List Char) : Except String (Option String) :=
  if Markdown.strip line = [] then .ok sessionId
  else (jsonObject P line "Codex JSONL event").map (codexEvent sessionId)

def codexParseOutput (stdout : List Char) (payload : Option ByteArray) : Except String (ParsedVendorOutput F) := do
  let raw ← readBoundedUtf8 payload "Codex final response file"
  let sessionId ← (splitlines stdout).foldlM (codexLine P) none
  let output ← jsonObject P raw.toList "Codex final response"
  return ⟨output, metadata sessionId⟩

structure OpenCodeState where
  chunks : List String
  sessionId : Option String
  sawFinish : Bool

def textPart (event : Event F) : Option String :=
  if textField event "type" = some "text" then
    match Dict.find event "part" with
    | some (.dict part) => textField part "text"
    | _ => none
  else none

def isFinish (event : Event F) : Bool := textField event "type" = some "step_finish"

def openCodeEvent (s : OpenCodeState) (event : Event F) : OpenCodeState :=
  { chunks := s.chunks ++ (textPart event).toList
    sessionId := s.sessionId.or (textField event "sessionID")
    sawFinish := s.sawFinish || isFinish event }

def openCodeLine (s : OpenCodeState) (line : List Char) : Except String OpenCodeState :=
  if Markdown.strip line = [] then .ok s else (jsonObject P line "OpenCode JSON event").map (openCodeEvent s)

def joined (chunks : List String) : List Char := chunks.flatMap String.toList

def openCodeParseOutput (stdout : List Char) : Except String (ParsedVendorOutput F) := do
  let s ← (splitlines stdout).foldlM (openCodeLine P) ⟨[], none, false⟩
  if !s.sawFinish then .error "OpenCode response has no step_finish event"
  else if s.chunks = [] then .error "OpenCode response has no text event"
  else
    let output ← jsonObject P (joined s.chunks) "OpenCode final response"
    return ⟨output, metadata s.sessionId⟩

def MustEscape (c : Char) : Prop := c = '"' ∨ c = '\\' ∨ c.toNat < 0x20

structure EventRecord where
  event : Event F
  distinct : (Json.dict event).Distinct
  text : List Char
  renders : Renders P MustEscape (.value (.dict event)) text
  oneLine : ∀ c ∈ text, c ≠ '\n' ∧ c ≠ '\r'

def stdoutOf (records : List (EventRecord P)) : List Char := records.flatMap fun r => r.text ++ ['\n']

def Unbroken (records : List (EventRecord P)) : Prop :=
  ∀ r ∈ records, ∀ c ∈ (Json.dict r.event).chars, isRawBreak c = false

/-- The object that the text parts encode, if the run has finished with one. -/
def finalResponse (events : List (Event F)) : Option (Event F) :=
  if events.any isFinish ∧ events.filterMap textPart ≠ [] then
    match loads P (joined (events.filterMap textPart)) with
    | some (.dict kvs) => some kvs
    | _ => none
  else none

/-- The object and the first session id, or a failure where there is no object. -/
def OpenCodeRecovers (events : List (Event F)) (result : Except String (ParsedVendorOutput F)) : Prop :=
  match finalResponse P events with
  | some kvs => result = .ok ⟨kvs, metadata (events.findSome? (textField · "sessionID"))⟩
  | none => ∃ e, result = .error e

/-- The object of the response file and the last thread id, whatever the events are. -/
def CodexRecovers (events : List (Event F)) (output : Event F) (result : Except String (ParsedVendorOutput F)) : Prop :=
  result = .ok ⟨output, metadata (events.filterMap threadId).getLast?⟩

variable {P}

theorem MustEscape.notRaw {c : Char} (h : MustEscape c) : isRawBreak c = false := by
  rcases h with rfl | rfl | hlow
  · decide
  · decide
  · exact rawBreak_of_lt (by omega)

namespace EventRecord

theorem loads_text (r : EventRecord P) : loads P r.text = some (.dict r.event) := r.renders.loads P r.distinct

theorem breaks (r : EventRecord P) : ∀ c ∈ r.text, isLineBreak c = true →
    isRawBreak c = true ∧ c ∈ (Json.dict r.event).chars := by
  intro c hc hbreak
  rcases r.renders.breaksIn P c hc hbreak with hn | hr | hraw
  · exact absurd hn (r.oneLine c hc).1
  · exact absurd hr (r.oneLine c hc).2
  · exact hraw

theorem head (r : EventRecord P) : ∃ t, r.text = '{' :: t := by
  have h := r.renders
  generalize r.text = text at h
  generalize r.event = event at h
  cases h with
  | emptyDict hb => exact ⟨_, rfl⟩
  | dict hb hs => exact ⟨_, rfl⟩

end EventRecord

theorem strip_brace (t : List Char) : Markdown.strip ('{' :: t) ≠ [] := by
  intro hnil
  exact absurd (Markdown.strip_eq_nil.mp hnil '{' List.mem_cons_self) (by decide)

theorem splitlines_stdout {records : List (EventRecord P)} (h : Unbroken P records) :
    splitlines (stdoutOf P records) = records.map EventRecord.text := by
  induction records with
  | nil => rfl
  | cons r records ih =>
    rw [Unbroken, List.forall_mem_cons] at h
    have hline : ∀ c ∈ r.text, isLineBreak c = false := by
      intro c hc
      by_contra hbreak
      have hraw := r.breaks c hc (by simpa using hbreak)
      rw [h.1 c hraw.2] at hraw
      cases hraw.1
    rw [stdoutOf, List.flatMap_cons, List.append_assoc, List.singleton_append, splitlines_line hline]
    exact congrArg _ (ih h.2)

theorem broken_line {records : List (EventRecord P)} (h : ¬ Unbroken P records) :
    ∃ line ∈ splitlines (stdoutOf P records), Markdown.strip line ≠ [] ∧ loads P line = none := by
  induction records with
  | nil => exact absurd (by simp [Unbroken]) h
  | cons r records ih =>
    rw [stdoutOf, List.flatMap_cons, List.append_assoc, List.singleton_append]
    cases hfind : r.text.find? isLineBreak with
    | none =>
      have hline : ∀ c ∈ r.text, isLineBreak c = false := by simpa using hfind
      have hhead : ∀ c ∈ (Json.dict r.event).chars, isRawBreak c = false := by
        intro c hc
        cases hraw : isRawBreak c with
        | false => rfl
        | true =>
          have hmem := r.renders.raw_mem P (fun _ => MustEscape.notRaw) c hc hraw
          exact hraw.symm.trans (notRaw_of_noBreak (hline c hmem))
      have htail : ¬ Unbroken P records := fun hrecords => h (List.forall_mem_cons.mpr ⟨hhead, hrecords⟩)
      obtain ⟨line, hmem, hbad⟩ := ih htail
      rw [splitlines_line hline]
      exact ⟨line, List.mem_cons_of_mem _ hmem, hbad⟩
    | some b =>
      obtain ⟨hb, u, t, htext, hu⟩ := List.find?_eq_some_iff_append.mp hfind
      have hmem : b ∈ r.text := by simp [htext]
      have hraw := (r.breaks b hmem hb).1
      have hloads := r.loads_text
      rw [htext] at hloads
      have hcut := splitlines_cut (by simpa using hu) (r.oneLine b hmem).2 hb (t ++ '\n' :: stdoutOf P records)
      rw [htext, List.append_assoc, List.cons_append]
      refine ⟨u, ?_, ?_, loads_cut P hloads hraw⟩
      · have hfirst : u ∈ u :: splitlines (t ++ '\n' :: stdoutOf P records) := List.mem_cons_self
        rw [← hcut] at hfirst
        exact hfirst
      · obtain ⟨t', ht'⟩ := r.head
        cases u with
        | nil =>
          rw [htext] at ht'
          obtain rfl : b = '{' := (List.cons.inj ht').1
          exact absurd hraw (by decide)
        | cons c u =>
          rw [htext] at ht'
          obtain rfl : c = '{' := (List.cons.inj ht').1
          exact strip_brace u

theorem foldlM_ok {α β γ ε : Type} {step : β → α → Except ε β} {next : β → γ → β} {text : γ → α} {xs : List γ}
    (h : ∀ x ∈ xs, ∀ b, step b (text x) = .ok (next b x)) (b : β) :
    (xs.map text).foldlM step b = .ok (xs.foldl next b) := by
  induction xs generalizing b with
  | nil => rfl
  | cons x xs ih =>
    rw [List.forall_mem_cons] at h
    rw [List.map_cons, List.foldlM_cons, h.1]
    exact ih h.2 (next b x)

theorem foldlM_error {α β ε : Type} {step : β → α → Except ε β} {xs : List α} {x : α} (hx : x ∈ xs)
    (h : ∀ b, ∃ e, step b x = .error e) (b : β) : ∃ e, xs.foldlM step b = .error e := by
  induction xs generalizing b with
  | nil => cases hx
  | cons y xs ih =>
    rw [List.foldlM_cons]
    cases hy : step b y with
    | error e => exact ⟨e, rfl⟩
    | ok b' =>
      rcases List.mem_cons.mp hx with rfl | hx
      · obtain ⟨e, he⟩ := h b
        rw [he] at hy
        cases hy
      · exact ih hx b'

theorem jsonObject_dict {raw : List Char} {kvs : Event F} (h : loads P raw = some (.dict kvs)) (label : String) :
    jsonObject P raw label = .ok kvs := by
  rw [jsonObject, decodeJson, h]
  rfl

theorem jsonObject_error {raw : List Char} (h : ∀ kvs, loads P raw ≠ some (.dict kvs)) (label : String) :
    ∃ e, jsonObject P raw label = .error e := by
  cases hv : loads P raw with
  | none =>
    rw [jsonObject, decodeJson, hv]
    exact ⟨_, rfl⟩
  | some v =>
    rw [jsonObject, decodeJson, hv]
    cases v with
    | dict kvs => exact absurd hv (h kvs)
    | null | bool _ | int _ | float _ | str _ | list _ => exact ⟨_, rfl⟩

theorem loads_ne {raw : List Char} (h : loads P raw = none) (kvs : Event F) : loads P raw ≠ some (.dict kvs) := by
  simp [h]

theorem EventRecord.jsonObject (r : EventRecord P) (label : String) : jsonObject P r.text label = .ok r.event :=
  jsonObject_dict r.loads_text label

theorem EventRecord.strip_text (r : EventRecord P) : Markdown.strip r.text ≠ [] := by
  obtain ⟨t, ht⟩ := r.head
  rw [ht]
  exact strip_brace t

theorem openCodeLine_record (s : OpenCodeState) (r : EventRecord P) :
    openCodeLine P s r.text = .ok (openCodeEvent s r.event) := by
  rw [openCodeLine, if_neg r.strip_text, r.jsonObject]
  rfl

theorem openCodeLine_error {line : List Char} (hblank : Markdown.strip line ≠ []) (h : loads P line = none)
    (s : OpenCodeState) : ∃ e, openCodeLine P s line = .error e := by
  obtain ⟨e, he⟩ := jsonObject_error (fun kvs => loads_ne h kvs) "OpenCode JSON event"
  rw [openCodeLine, if_neg hblank, he]
  exact ⟨e, rfl⟩

theorem foldl_openCodeEvent (events : List (Event F)) (s : OpenCodeState) : events.foldl openCodeEvent s =
    ⟨s.chunks ++ events.filterMap textPart, s.sessionId.or (events.findSome? (textField · "sessionID")),
      s.sawFinish || events.any isFinish⟩ := by
  induction events generalizing s with
  | nil => simp
  | cons event events ih =>
    rw [List.foldl_cons, ih, openCodeEvent]
    cases htext : textPart event with
    | none => cases hid : textField event "sessionID" <;> simp [htext, hid, Bool.or_assoc]
    | some text => cases hid : textField event "sessionID" <;> simp [htext, hid, Bool.or_assoc]

theorem codexLine_record (sessionId : Option String) (r : EventRecord P) :
    codexLine P sessionId r.text = .ok (codexEvent sessionId r.event) := by
  rw [codexLine, if_neg r.strip_text, r.jsonObject]
  rfl

theorem codexLine_error {line : List Char} (hblank : Markdown.strip line ≠ []) (h : loads P line = none)
    (sessionId : Option String) : ∃ e, codexLine P sessionId line = .error e := by
  obtain ⟨e, he⟩ := jsonObject_error (fun kvs => loads_ne h kvs) "Codex JSONL event"
  rw [codexLine, if_neg hblank, he]
  exact ⟨e, rfl⟩

theorem foldl_codexEvent (events : List (Event F)) (sessionId : Option String) :
    events.foldl codexEvent sessionId = (events.filterMap threadId).getLast?.or sessionId := by
  induction events generalizing sessionId with
  | nil => rfl
  | cons event events ih =>
    rw [List.foldl_cons, ih, codexEvent]
    cases hid : threadId event with
    | none => simp [hid]
    | some id => simp [hid, List.getLast?_cons]

theorem finalResponse_dict {events : List (Event F)} (hfinish : events.any isFinish = true)
    (htexts : events.filterMap textPart ≠ []) {kvs : Event F}
    (h : loads P (joined (events.filterMap textPart)) = some (.dict kvs)) : finalResponse P events = some kvs := by
  rw [finalResponse, if_pos ⟨hfinish, htexts⟩, h]

theorem finalResponse_none {events : List (Event F)}
    (h : ∀ kvs, loads P (joined (events.filterMap textPart)) ≠ some (.dict kvs)) : finalResponse P events = none := by
  unfold finalResponse
  split_ifs with hends
  · split
    · next kvs hkvs => exact absurd hkvs (h kvs)
    · rfl
  · rfl

theorem openCode_unbroken {records : List (EventRecord P)} (h : Unbroken P records) :
    OpenCodeRecovers P (records.map EventRecord.event) (openCodeParseOutput P (stdoutOf P records)) := by
  have hfold := foldlM_ok (fun r (_ : r ∈ records) s => openCodeLine_record s r) ⟨[], none, false⟩
  rw [← splitlines_stdout h, ← List.foldl_map, foldl_openCodeEvent, List.nil_append, Option.none_or,
    Bool.false_or] at hfold
  unfold OpenCodeRecovers openCodeParseOutput
  rw [hfold]
  generalize records.map EventRecord.event = events
  cases hfinish : events.any isFinish with
  | false =>
    have hnone : finalResponse P events = none := by simp [finalResponse, hfinish]
    rw [hnone]
    exact ⟨_, rfl⟩
  | true =>
    by_cases htexts : events.filterMap textPart = []
    · have hnone : finalResponse P events = none := by simp [finalResponse, htexts]
      rw [hnone, htexts]
      exact ⟨_, rfl⟩
    · by_cases hdict : ∃ kvs, loads P (joined (events.filterMap textPart)) = some (.dict kvs)
      · obtain ⟨kvs, hkvs⟩ := hdict
        rw [finalResponse_dict hfinish htexts hkvs]
        simp [bind, Except.bind, htexts, jsonObject_dict hkvs, pure, Except.pure]
      · rw [not_exists] at hdict
        obtain ⟨e, he⟩ := jsonObject_error hdict "OpenCode final response"
        rw [finalResponse_none hdict]
        exact ⟨e, by simp [bind, Except.bind, htexts, he]⟩

theorem openCode_broken {records : List (EventRecord P)} (h : ¬ Unbroken P records) :
    ∃ e, openCodeParseOutput P (stdoutOf P records) = .error e := by
  obtain ⟨line, hmem, hblank, hloads⟩ := broken_line h
  obtain ⟨e, he⟩ := foldlM_error hmem (openCodeLine_error hblank hloads) ⟨[], none, false⟩
  rw [openCodeParseOutput, he]
  exact ⟨e, rfl⟩

theorem openCode_not_recovered {records : List (EventRecord P)} (h : ¬ Unbroken P records) {kvs : Event F}
    (hresponse : finalResponse P (records.map EventRecord.event) = some kvs) :
    ¬ OpenCodeRecovers P (records.map EventRecord.event) (openCodeParseOutput P (stdoutOf P records)) := by
  obtain ⟨e, he⟩ := openCode_broken h
  rw [OpenCodeRecovers, hresponse, he]
  simp

theorem codex_unbroken {records : List (EventRecord P)} (h : Unbroken P records) {payload : Option ByteArray}
    {raw : String} (hread : readBoundedUtf8 payload "Codex final response file" = .ok raw) {output : Event F}
    (houtput : loads P raw.toList = some (.dict output)) :
    CodexRecovers (records.map EventRecord.event) output (codexParseOutput P (stdoutOf P records) payload) := by
  have hfold := foldlM_ok (fun r (_ : r ∈ records) id => codexLine_record id r) none
  rw [← splitlines_stdout h, ← List.foldl_map, foldl_codexEvent, Option.or_none] at hfold
  rw [CodexRecovers, codexParseOutput, hread]
  simp only [bind, Except.bind, hfold, jsonObject_dict houtput]
  rfl

theorem codex_broken {records : List (EventRecord P)} (h : ¬ Unbroken P records) {payload : Option ByteArray}
    {raw : String} (hread : readBoundedUtf8 payload "Codex final response file" = .ok raw) :
    ∃ e, codexParseOutput P (stdoutOf P records) payload = .error e := by
  obtain ⟨line, hmem, hblank, hloads⟩ := broken_line h
  obtain ⟨e, he⟩ := foldlM_error hmem (codexLine_error hblank hloads) none
  rw [codexParseOutput, hread]
  simp only [bind, Except.bind, he]
  exact ⟨e, rfl⟩

/-- The adapters undo the writer where no string holds a break that it leaves raw; elsewhere every run that has an
answer to give fails. -/
theorem event_streams_recovered_iff (records : List (EventRecord P)) :
    (OpenCodeRecovers P (records.map EventRecord.event) (openCodeParseOutput P (stdoutOf P records)) ↔
      Unbroken P records ∨ finalResponse P (records.map EventRecord.event) = none) ∧
    ∀ payload raw output, readBoundedUtf8 payload "Codex final response file" = .ok raw →
      loads P raw.toList = some (.dict output) →
      (CodexRecovers (records.map EventRecord.event) output (codexParseOutput P (stdoutOf P records) payload) ↔
        Unbroken P records) := by
  refine ⟨⟨fun hrecovers => ?_, ?_⟩, fun payload raw output hread houtput =>
    ⟨fun hrecovers => ?_, fun h => codex_unbroken h hread houtput⟩⟩
  · by_cases h : Unbroken P records
    · exact .inl h
    · cases hresponse : finalResponse P (records.map EventRecord.event) with
      | none => exact .inr rfl
      | some kvs => exact absurd hrecovers (openCode_not_recovered h hresponse)
  · rintro (h | hnone)
    · exact openCode_unbroken h
    · by_cases h : Unbroken P records
      · exact openCode_unbroken h
      · rw [OpenCodeRecovers, hnone]
        exact openCode_broken h
  · by_contra h
    obtain ⟨e, he⟩ := codex_broken h hread
    rw [CodexRecovers, he] at hrecovers
    cases hrecovers

/-! ### Records of a writer that escapes no more than it has to -/

theorem escapeChar_plain {c : Char} (hlow : 0x20 ≤ c.toNat) (hquote : c ≠ '"') (hslash : c ≠ '\\') :
    escapeChar c = [c] := by
  have hcontrol : ∀ d : Char, d.toNat < 0x20 → c ≠ d := by
    rintro d hd rfl
    omega
  rw [escapeChar, if_neg hquote, if_neg hslash, if_neg (hcontrol '\n' (by decide)), if_neg (hcontrol '\r' (by decide)),
    if_neg (hcontrol '\t' (by decide)), if_neg (hcontrol '\x0c' (by decide)), if_neg (hcontrol '\x08' (by decide)),
    if_neg (by omega)]

theorem mustEscape_of_escaped {c : Char} (h : escapeChar c ≠ [c]) : MustEscape c := by
  by_contra hnot
  simp only [MustEscape, not_or, not_lt] at hnot
  exact h (escapeChar_plain hnot.2.2 hnot.1 hnot.2.1)

theorem dumps_ne_newline (v : Json F) : ∀ c ∈ dumps P v, c ≠ '\n' ∧ c ≠ '\r' := by
  have hlow : ∀ c : Char, 0x20 ≤ c.toNat → c ≠ '\n' ∧ c ≠ '\r' := by
    intro c hc
    constructor <;> rintro rfl <;> exact absurd hc (by decide)
  have hescaped := escaped_dumps P (fun c hc => hlow c hc.1) v (fun c _ => hlow c) .nil
  rw [List.append_nil] at hescaped
  exact hescaped.mem fun c hc => hlow c hc.1

def EventRecord.dumped (event : Event F) (h : (Json.dict event).Distinct) : EventRecord P where
  event := event
  distinct := h
  text := dumps P (.dict event)
  renders := (renders_dumps P (.dict event)).mono fun _ => mustEscape_of_escaped
  oneLine := dumps_ne_newline (.dict event)

end

section

open PyData

theorem readBoundedUtf8_text {s : String} (h : s.toUTF8.size ≤ maxFinalResponseBytes) (label : String) :
    readBoundedUtf8 (some s.toUTF8) label = .ok s := by
  have hdecode : String.fromUTF8? s.toUTF8 = some s := by
    rw [String.fromUTF8?, String.toUTF8_eq_toByteArray, dif_pos s.isValidUTF8]
    rfl
  simp only [readBoundedUtf8, hdecode, if_neg (not_lt.mpr h)]

def answerText (answer : Event FloatLiteral) : String := .ofList (dumps literalFormat (.dict answer))

def answerEvent (answer : Event FloatLiteral) : Event FloatLiteral :=
  [("type", .str "text"), ("sessionID", .str "s1"), ("part", .dict [("text", .str (answerText answer))])]

def finishEvent : Event FloatLiteral := [("type", .str "step_finish")]

def threadEvent : Event FloatLiteral := [("type", .str "thread.started"), ("thread_id", .str "t1")]

def sampleRecords (answer : Event FloatLiteral) : List (EventRecord literalFormat) :=
  [.dumped threadEvent (by simp [threadEvent, Json.Distinct, distinctMembers]),
    .dumped (answerEvent answer) (by simp [answerEvent, Json.Distinct, distinctMembers]),
    .dumped finishEvent (by simp [finishEvent, Json.Distinct, distinctMembers])]

theorem finalResponse_sample {answer : Event FloatLiteral} (h : (Json.dict answer).Distinct) :
    finalResponse literalFormat ((sampleRecords answer).map EventRecord.event) = some answer := by
  have htexts : ((sampleRecords answer).map EventRecord.event).filterMap textPart = [answerText answer] := by
    simp [sampleRecords, EventRecord.dumped, textPart, textField, threadEvent, answerEvent, finishEvent, Dict.find]
  have hloads : loads literalFormat (joined [answerText answer]) = some (.dict answer) := by
    simp [joined, answerText, loads_dumps literalFormat h]
  refine finalResponse_dict ?_ (by simp [htexts]) (by rwa [htexts])
  simp [sampleRecords, EventRecord.dumped, isFinish, textField, threadEvent, answerEvent, finishEvent, Dict.find]

theorem event_streams_recovered_sample :
    let answer : Event FloatLiteral := [("answer", .str "café")]
    let records := sampleRecords answer
    let events := records.map EventRecord.event
    OpenCodeRecovers literalFormat events (openCodeParseOutput literalFormat (stdoutOf literalFormat records)) ∧
      CodexRecovers events answer
        (codexParseOutput literalFormat (stdoutOf literalFormat records) (some (answerText answer).toUTF8)) := by
  intro answer records events
  have hunbroken : Unbroken literalFormat records := by
    have hall : (records.all fun r => (Json.dict r.event).chars.all fun c => !isRawBreak c) = true := by decide
    simpa [Unbroken] using hall
  have hread := readBoundedUtf8_text (s := answerText answer) (by decide) "Codex final response file"
  have hloads : loads literalFormat (answerText answer).toList = some (.dict answer) := by
    rw [answerText, String.toList_ofList]
    exact loads_dumps literalFormat (by simp [answer, Json.Distinct, distinctMembers])
  obtain ⟨hopenCode, hcodex⟩ := event_streams_recovered_iff records
  exact ⟨hopenCode.mpr (.inl hunbroken), (hcodex _ _ _ hread hloads).mpr hunbroken⟩

def brokenAnswer : Event FloatLiteral := [("answer", .str "a\u2028b")]

theorem mem_answerEvent {answer : Event FloatLiteral} {c : Char} (h : c ∈ dumps literalFormat (.dict answer)) :
    c ∈ (Json.dict (answerEvent answer)).chars := by
  simp [answerEvent, Json.chars, charsMembers, answerText, h]

theorem not_unbroken_sample : ¬ Unbroken literalFormat (sampleRecords brokenAnswer) := by
  intro hunbroken
  rw [Unbroken, sampleRecords, List.forall_mem_cons, List.forall_mem_cons] at hunbroken
  have hraw := hunbroken.2.1 '\u2028' (mem_answerEvent (by decide))
  exact absurd hraw (by decide)

theorem brokenAnswer_not_recovered :
    ¬ OpenCodeRecovers literalFormat ((sampleRecords brokenAnswer).map EventRecord.event)
      (openCodeParseOutput literalFormat (stdoutOf literalFormat (sampleRecords brokenAnswer))) := by
  have hdistinct : (Json.dict brokenAnswer).Distinct := by simp [brokenAnswer, Json.Distinct, distinctMembers]
  exact openCode_not_recovered not_unbroken_sample (finalResponse_sample hdistinct)

theorem event_streams_not_recovered :
    ¬ ∀ records : List (EventRecord literalFormat), OpenCodeRecovers literalFormat (records.map EventRecord.event)
      (openCodeParseOutput literalFormat (stdoutOf literalFormat records)) :=
  not_forall.mpr ⟨sampleRecords brokenAnswer, brokenAnswer_not_recovered⟩

end

end GraphSkillRuntime.VendorStreams
