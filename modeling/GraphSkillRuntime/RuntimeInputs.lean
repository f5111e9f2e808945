import GraphSkillRuntime.AgentMessages
import GraphSkillRuntime.Schema

/-!
The delivery of an agent phase's runtime inputs: on every model call the placeholders of the system prompt are filled in
from the blackboard, and a message with the phase's inputs is put in front unless the request has it.
-/

namespace GraphSkillRuntime.RuntimeInputs

open OrderedDict

section Template

variable (isAlnum : Char → Bool)

def isWordChar (c : Char) : Bool := isAlnum c || c == '_'

/-- The key of the placeholder that starts here, `before` being the character in front of it. -/
def placeholder (before : Option Char) (text : List Char) : Option (List Char) :=
  match text with
  | [] => none
  | c :: rest =>
    let key := rest.takeWhile (isWordChar isAlnum)
    let after := rest.dropWhile (isWordChar isAlnum)
    if c = '{' ∧ before ≠ some '{' ∧ key ≠ [] ∧ after.head? = some '}' ∧ after.tail.head? ≠ some '}' then some key
    else none

variable (fill : List Char → List Char)

def substitute (skip : ℕ) (before : Option Char) : List Char → List Char
  | [] => []
  | c :: rest =>
    match skip with
    -- the rest of a placeholder that was filled in
    | skip + 1 => substitute skip (some c) rest
    | 0 =>
      match placeholder isAlnum before (c :: rest) with
      | some key => fill key ++ substitute (key.length + 1) (some c) rest
      | none => c :: substitute 0 (some c) rest

inductive Segment where
  | char (c : Char)
  | hole (key : List Char)

def Segment.text : Segment → List Char
  | .char c => [c]
  | .hole key => '{' :: key ++ ['}']

def Segment.filled : Segment → List Char
  | .char c => [c]
  | .hole key => fill key

def segments (skip : ℕ) (before : Option Char) : List Char → List Segment
  | [] => []
  | c :: rest =>
    match skip with
    | skip + 1 => segments skip (some c) rest
    | 0 =>
      match placeholder isAlnum before (c :: rest) with
      | some key => .hole key :: segments (key.length + 1) (some c) rest
      | none => .char c :: segments 0 (some c) rest

theorem placeholder_spec {before : Option Char} {c : Char} {rest key : List Char}
    (h : placeholder isAlnum before (c :: rest) = some key) :
    c :: rest = '{' :: key ++ '}' :: rest.drop (key.length + 1) := by
  unfold placeholder at h
  dsimp only at h
  split_ifs at h with hcond
  obtain ⟨rfl, -, -, hafter, -⟩ := hcond
  obtain rfl := Option.some.inj h
  have hsplit := List.takeWhile_append_dropWhile (p := isWordChar isAlnum) (l := rest)
  obtain ⟨tail, htail⟩ := List.head?_eq_some_iff.mp hafter
  rw [htail] at hsplit
  generalize rest.takeWhile (isWordChar isAlnum) = key at hsplit ⊢
  subst hsplit
  simp

theorem substitute_eq (skip : ℕ) (before : Option Char) (text : List Char) :
    substitute isAlnum fill skip before text = (segments isAlnum skip before text).flatMap (Segment.filled fill) := by
  induction text generalizing skip before with
  | nil => rfl
  | cons c rest ih =>
    cases skip with
    | succ skip => exact ih skip (some c)
    | zero =>
      rw [substitute, segments]
      cases placeholder isAlnum before (c :: rest) with
      | some key => exact congrArg (fill key ++ ·) (ih (key.length + 1) (some c))
      | none => exact congrArg (c :: ·) (ih 0 (some c))

theorem text_segments (skip : ℕ) (before : Option Char) (text : List Char) :
    (segments isAlnum skip before text).flatMap Segment.text = text.drop skip := by
  induction text generalizing skip before with
  | nil => simp [segments]
  | cons c rest ih =>
    cases skip with
    | succ skip => exact ih skip (some c)
    | zero =>
      rw [segments]
      cases hkey : placeholder isAlnum before (c :: rest) with
      | some key =>
        rw [List.drop_zero, placeholder_spec isAlnum hkey]
        simp [Segment.text, ih]
      | none => simp [Segment.text, ih]

end Template

theorem length_flatMap_le {α β : Type} {f g : α → List β} {l : List α}
    (h : ∀ x ∈ l, (f x).length ≤ (g x).length) : (l.flatMap f).length ≤ (l.flatMap g).length := by
  induction l with
  | nil => exact le_rfl
  | cons x l ih =>
    rw [List.flatMap_cons, List.flatMap_cons, List.length_append, List.length_append]
    exact Nat.add_le_add (h x (List.mem_cons_self ..)) (ih fun y hy => h y (List.mem_cons_of_mem x hy))

theorem pieces_eq_of_length_le {α β : Type} {f g : α → List β} {l : List α} (h : l.flatMap f = l.flatMap g)
    (hle : ∀ x ∈ l, (f x).length ≤ (g x).length) : ∀ x ∈ l, f x = g x := by
  induction l with
  | nil => simp
  | cons x l ih =>
    rw [List.flatMap_cons, List.flatMap_cons] at h
    rw [List.forall_mem_cons] at hle ⊢
    have hlength := congrArg List.length h
    rw [List.length_append, List.length_append] at hlength
    have hrest := length_flatMap_le hle.2
    obtain ⟨hfirst, htail⟩ := List.append_inj h (by omega)
    exact ⟨hfirst, ih htail hle.2⟩

structure RuntimeInputMiddleware where
  phaseName : String
  inputKeys : List String
  printer : Printer
  /-- `str.isalnum` of one character. -/
  isAlnum : Char → Bool

inductive SystemContent where
  | text (s : String)
  | blocks (bs : List Value)
  deriving DecidableEq

structure SystemMessage where
  content : SystemContent
  id : Option String := none
  additionalKwargs : Dict String Value := ∅
  deriving DecidableEq

structure ModelRequest (ρ : Type) where
  systemMessage : Option SystemMessage
  messages : List Message
  data : Option (Dict String Value)
  rest : ρ

structure RuntimeInputInjectedEvent where
  phaseName : String
  keys : List String
  deriving DecidableEq

namespace RuntimeInputMiddleware

variable (m : RuntimeInputMiddleware) {ρ : Type}

def fill (view : Dict String Value) (key : List Char) : List Char :=
  match view.get? (.ofList key) with
  | some value => (m.printer.str value).toList
  | none => '{' :: key ++ ['}']

def safeRenderTemplate (template : String) (context : Dict String Value) : String :=
  .ofList (substitute m.isAlnum (m.fill context) 0 none template.toList)

def blackboardView (request : ModelRequest ρ) : Dict String Value := request.data.getD ∅

def inputBlockHeader : String := "以下是本阶段的输入数据(JSON):\n"

def payload (view : Dict String Value) : Dict String Value :=
  let declared := Dict.ofList (m.inputKeys.filterMap fun key => (view.get? key).map (key, ·))
  if declared.entries.isEmpty then view else declared

def inputBlock (view : Dict String Value) : String := inputBlockHeader ++ m.printer.dumps (.ofDict (m.payload view))

def isInputBlock (content : String) : Message → Bool
  | .human _ _ (.str s) => s == content
  | _ => false

def renderedSystem (view : Dict String Value) (message : SystemMessage) : SystemMessage :=
  match message.content with
  | .text content =>
    let rendered := m.safeRenderTemplate content view
    if rendered = content then message else { content := .text rendered }
  | .blocks _ => message

def transformedRequest (request : ModelRequest ρ) : ModelRequest ρ × Option RuntimeInputInjectedEvent :=
  let view := blackboardView request
  let content := m.inputBlock view
  let systemMessage := request.systemMessage.map (m.renderedSystem view)
  if request.messages.any (isInputBlock content) then ({ request with systemMessage }, none)
  else
    ({ request with systemMessage, messages := .human none none (.str content) :: request.messages },
      some ⟨m.phaseName, sortKeys (m.payload view).keys⟩)

variable {m} {request : ModelRequest ρ}

theorem transformedRequest_systemMessage :
    (m.transformedRequest request).1.systemMessage =
      request.systemMessage.map (m.renderedSystem (blackboardView request)) := by
  unfold transformedRequest
  dsimp only
  split_ifs <;> rfl

theorem transformedRequest_data : (m.transformedRequest request).1.data = request.data := by
  unfold transformedRequest
  dsimp only
  split_ifs <;> rfl

theorem transformedRequest_has_block :
    (m.transformedRequest request).1.messages.any (isInputBlock (m.inputBlock (blackboardView request))) = true := by
  unfold transformedRequest
  dsimp only
  split_ifs with hany
  · exact hany
  · simp [isInputBlock]

theorem transformedRequest_twice :
    m.transformedRequest (m.transformedRequest request).1 =
      ({ (m.transformedRequest request).1 with
          systemMessage := (m.transformedRequest request).1.systemMessage.map
            (m.renderedSystem (blackboardView request)) }, none) := by
  have hview : blackboardView (m.transformedRequest request).1 = blackboardView request := by
    rw [blackboardView, transformedRequest_data]
    rfl
  rw [transformedRequest, hview]
  exact if_pos transformedRequest_has_block

variable (m)

def spelled (view : Dict String Value) (prompt : String) : List Char :=
  (segments m.isAlnum 0 none prompt.toList).flatMap (Segment.filled (m.fill view))

def holes (view : Dict String Value) (prompt : String) : List (List Char) :=
  (segments m.isAlnum 0 none (m.spelled view prompt)).filterMap fun
    | .hole key => some key
    | .char _ => none

/-- A field named by a placeholder that the filled-in prompt spells has that placeholder for its text. -/
def Settled (view : Dict String Value) (prompt : String) : Prop :=
  ∀ key ∈ m.holes view prompt, ∀ v, view.get? (.ofList key) = some v →
    (m.printer.str v).toList = '{' :: key ++ ['}']

/-- One of these placeholders is shorter than its value, and one is longer. -/
def LengthsOffset (view : Dict String Value) (prompt : String) : Prop :=
  (∃ key ∈ m.holes view prompt, key.length + 2 < (m.fill view key).length) ∧
    ∃ key ∈ m.holes view prompt, (m.fill view key).length < key.length + 2

theorem safeRenderTemplate_eq (view : Dict String Value) (prompt : String) :
    (m.safeRenderTemplate prompt view).toList = m.spelled view prompt := by
  rw [safeRenderTemplate, String.toList_ofList, substitute_eq, spelled]

theorem fill_eq_iff {view : Dict String Value} {key : List Char} :
    m.fill view key = '{' :: key ++ ['}'] ↔
      ∀ v, view.get? (.ofList key) = some v → (m.printer.str v).toList = '{' :: key ++ ['}'] := by
  unfold fill
  cases view.get? (.ofList key) with
  | none => simp
  | some v => simp

theorem mem_holes {view : Dict String Value} {prompt : String} {key : List Char} :
    key ∈ m.holes view prompt ↔ .hole key ∈ segments m.isAlnum 0 none (m.spelled view prompt) := by
  rw [holes, List.mem_filterMap]
  constructor
  · rintro ⟨segment, hmem, hkey⟩
    cases segment with
    | char c => cases hkey
    | hole key' =>
      obtain rfl := Option.some.inj hkey
      exact hmem
  · exact fun hmem => ⟨_, hmem, rfl⟩

theorem settled_iff {view : Dict String Value} {prompt : String} :
    m.Settled view prompt ↔ ∀ segment ∈ segments m.isAlnum 0 none (m.spelled view prompt),
      segment.filled (m.fill view) = segment.text := by
  constructor
  · intro h segment hmem
    cases segment with
    | char c => rfl
    | hole key => exact m.fill_eq_iff.mpr (h key (m.mem_holes.mpr hmem))
  · intro h key hkey
    exact m.fill_eq_iff.mp (h (.hole key) (m.mem_holes.mp hkey))

theorem rendered_again_iff {view : Dict String Value} {prompt : String} :
    m.safeRenderTemplate (m.safeRenderTemplate prompt view) view = m.safeRenderTemplate prompt view ↔
      (segments m.isAlnum 0 none (m.spelled view prompt)).flatMap (Segment.filled (m.fill view)) =
        (segments m.isAlnum 0 none (m.spelled view prompt)).flatMap Segment.text := by
  rw [← String.toList_inj, safeRenderTemplate_eq, safeRenderTemplate_eq, text_segments, List.drop_zero, spelled,
    safeRenderTemplate_eq]

theorem rendered_again_of_settled {view : Dict String Value} {prompt : String} (h : m.Settled view prompt) :
    m.safeRenderTemplate (m.safeRenderTemplate prompt view) view = m.safeRenderTemplate prompt view :=
  m.rendered_again_iff.mpr (List.flatMap_congr (m.settled_iff.mp h))

theorem settled_of_rendered_again {view : Dict String Value} {prompt : String}
    (h : m.safeRenderTemplate (m.safeRenderTemplate prompt view) view = m.safeRenderTemplate prompt view) :
    m.Settled view prompt ∨ m.LengthsOffset view prompt := by
  have hspells := m.rendered_again_iff.mp h
  have htext : ∀ key, (Segment.hole key).text.length = key.length + 2 := by
    intro key
    simp [Segment.text]
  by_cases hlonger : ∃ key ∈ m.holes view prompt, key.length + 2 < (m.fill view key).length
  · by_cases hshorter : ∃ key ∈ m.holes view prompt, (m.fill view key).length < key.length + 2
    · exact .inr ⟨hlonger, hshorter⟩
    · refine .inl (m.settled_iff.mpr fun segment hmem => ?_)
      refine (pieces_eq_of_length_le hspells.symm (fun segment hmem => ?_) segment hmem).symm
      cases segment with
      | char c => exact le_rfl
      | hole key =>
        rw [htext]
        exact not_lt.mp fun hlt => hshorter ⟨key, m.mem_holes.mpr hmem, hlt⟩
  · refine .inl (m.settled_iff.mpr fun segment hmem => ?_)
    refine pieces_eq_of_length_le hspells (fun segment hmem => ?_) segment hmem
    cases segment with
    | char c => exact le_rfl
    | hole key =>
      rw [htext]
      exact not_lt.mp fun hlt => hlonger ⟨key, m.mem_holes.mpr hmem, hlt⟩

theorem renderedSystem_twice (view : Dict String Value) (message : SystemMessage) :
    m.renderedSystem view (m.renderedSystem view message) = m.renderedSystem view message ↔
      ∀ prompt, message.content = .text prompt →
        m.safeRenderTemplate (m.safeRenderTemplate prompt view) view = m.safeRenderTemplate prompt view := by
  obtain ⟨content, id, extras⟩ := message
  cases content with
  | blocks bs => simp [renderedSystem]
  | text content =>
    simp only [renderedSystem, SystemContent.text.injEq, forall_eq']
    by_cases hsame : m.safeRenderTemplate content view = content
    · simp [hsame]
    · simp only [if_neg hsame]
      by_cases hagain : m.safeRenderTemplate (m.safeRenderTemplate content view) view =
        m.safeRenderTemplate content view
      · simp [hagain]
      · simp [hagain]

theorem transformedRequest_twice_iff (request : ModelRequest ρ) :
    (m.transformedRequest (m.transformedRequest request).1).1 = (m.transformedRequest request).1 ↔
      ∀ message prompt, request.systemMessage = some message → message.content = .text prompt →
        m.safeRenderTemplate (m.safeRenderTemplate prompt (blackboardView request)) (blackboardView request) =
          m.safeRenderTemplate prompt (blackboardView request) := by
  rw [transformedRequest_twice]
  have hsystem : ({ (m.transformedRequest request).1 with
      systemMessage := (m.transformedRequest request).1.systemMessage.map
        (m.renderedSystem (blackboardView request)) } = (m.transformedRequest request).1) ↔
      (m.transformedRequest request).1.systemMessage.map (m.renderedSystem (blackboardView request)) =
        (m.transformedRequest request).1.systemMessage := by
    constructor
    · intro h
      exact congrArg ModelRequest.systemMessage h
    · intro h
      rw [h]
  rw [hsystem, transformedRequest_systemMessage]
  cases request.systemMessage with
  | none => simp
  | some message =>
    simp only [Option.map_some, Option.some.injEq, renderedSystem_twice]
    constructor
    · rintro h other prompt rfl hprompt
      exact h prompt hprompt
    · intro h prompt hprompt
      exact h message prompt rfl hprompt

/-- A second delivery changes nothing where the filled-in prompt spells no field that is filled in differently; where
it does, only values that make up for each other's lengths can leave the prompt as it is. -/
theorem delivery_idempotent (request : ModelRequest ρ) :
    ((∀ message prompt, request.systemMessage = some message → message.content = .text prompt →
        m.Settled (blackboardView request) prompt) →
      (m.transformedRequest (m.transformedRequest request).1).1 = (m.transformedRequest request).1) ∧
    ((m.transformedRequest (m.transformedRequest request).1).1 = (m.transformedRequest request).1 →
      ∀ message prompt, request.systemMessage = some message → message.content = .text prompt →
        m.Settled (blackboardView request) prompt ∨ m.LengthsOffset (blackboardView request) prompt) := by
  rw [transformedRequest_twice_iff]
  constructor
  · intro h message prompt hmessage hprompt
    exact m.rendered_again_of_settled (h message prompt hmessage hprompt)
  · intro h message prompt hmessage hprompt
    exact m.settled_of_rendered_again (h message prompt hmessage hprompt)

end RuntimeInputMiddleware

/-- A prompt that names the topic, whose text looks like a placeholder. -/
def topicRequest (topic : String) : ModelRequest Unit where
  systemMessage := some { content := .text "Write about {topic}." }
  messages := []
  data := some (Dict.ofList [("topic", .str topic), ("style", .str "prose")])
  rest := ()

def topicDelivery : RuntimeInputMiddleware where
  phaseName := "write"
  inputKeys := ["topic"]
  printer := plainPrinter
  isAlnum c := c.isAlphanum

theorem tides_delivered_once :
    (topicDelivery.transformedRequest (topicDelivery.transformedRequest (topicRequest "tides")).1).1 =
      (topicDelivery.transformedRequest (topicRequest "tides")).1 := by
  refine (topicDelivery.delivery_idempotent (topicRequest "tides")).1 ?_
  intro message prompt hmessage hprompt key hkey
  obtain rfl := Option.some.inj hmessage
  obtain rfl := SystemContent.text.inj hprompt
  have hholes : topicDelivery.holes (RuntimeInputMiddleware.blackboardView (topicRequest "tides"))
      "Write about {topic}." = [] := by decide
  rw [hholes] at hkey
  cases hkey

theorem value_is_filled_in_again :
    (topicDelivery.transformedRequest (topicDelivery.transformedRequest (topicRequest "{style}")).1).1 ≠
      (topicDelivery.transformedRequest (topicRequest "{style}")).1 := by
  intro h
  have hsystem := congrArg ModelRequest.systemMessage h
  revert hsystem
  decide

/-- One value makes up for the length of another. -/
example : ¬ topicDelivery.Settled (Dict.ofList [("topic", .str "{topic}{style}"), ("style", .str "")]) "{topic}" ∧
    topicDelivery.safeRenderTemplate "{topic}{style}"
      (Dict.ofList [("topic", .str "{topic}{style}"), ("style", .str "")]) = "{topic}{style}" := by
  constructor
  · intro h
    have hfill := h "topic".toList (by decide)
    revert hfill
    decide
  · decide

end GraphSkillRuntime.RuntimeInputs
