import GraphSkillRuntime.AgentMessages
import GraphSkillRuntime.Runs
import GraphSkillRuntime.TaggedText

/-!
The body of an `AGENT.md`: its role and goal, its steps, protocols and examples, as the patterns of the compiler find
them. The patterns are written out as the functions that their matches compute.
-/

namespace GraphSkillRuntime.AgentBody

open OrderedDict TaggedText

abbrev Text := List Char

/-- The word characters of `re`, and `str.lower`. -/
structure Python where
  isWord : Char → Bool
  isWord_ascii : ∀ c : Char, c.toNat < 128 → isWord c = (c.isAlphanum || c = '_')
  lower : Text → Text

inductive Tag where
  | role
  | goal
  | step
  | protocol
  | example_
  deriving DecidableEq

def Tag.name : Tag → Text
  | .role => ['r', 'o', 'l', 'e']
  | .goal => ['g', 'o', 'a', 'l']
  | .step => ['s', 't', 'e', 'p']
  | .protocol => ['p', 'r', 'o', 't', 'o', 'c', 'o', 'l']
  | .example_ => ['e', 'x', 'a', 'm', 'p', 'l', 'e']

def Tag.all : List Tag := [.role, .goal, .step, .protocol, .example_]

def stripText (s : Text) : Text := ((s.dropWhile isPythonSpace).reverse.dropWhile isPythonSpace).reverse

/-- A letter of a pattern with `re.IGNORECASE`, which also takes the long s for an s. -/
def sameLetter (c d : Char) : Bool := d = c || d = c.toUpper || (c = 's' && d = 'ſ')

def dropLetters : Text → Text → Option Text
  | [], s => some s
  | _ :: _, [] => none
  | c :: cs, d :: s => if sameLetter c d then dropLetters cs s else none

variable (py : Python)

/-- `<tag\b`. -/
def opens (t : Tag) : Text → Bool
  | '<' :: s =>
    match dropLetters t.name s with
    | some rest => !rest.head?.any py.isWord
    | none => false
  | _ => false

/-- What stands behind `<tag` may be anything for a step, a protocol or an example; for a role or goal it is a blank or
the end of the tag. -/
def opensOn (t : Tag) (rest : Text) : Bool :=
  match t with
  | .role | .goal => rest.head?.any fun c => isPythonSpace c || c = '>'
  | _ => true

def openTag (t : Tag) : Text → Option (Text × Text)
  | '<' :: s =>
    match dropLetters t.name s with
    | some rest =>
      match rest.dropWhile (· ≠ '>') with
      | '>' :: after => if opensOn t rest then some (rest.takeWhile (· ≠ '>'), after) else none
      | _ => none
    | none => none
  | _ => none

def closeTag (t : Tag) : Text → Option Text
  | '<' :: '/' :: s =>
    match dropLetters t.name s with
    | some ('>' :: rest) => some rest
    | _ => none
  | _ => none

def upToClose (t : Tag) : Text → Option (Text × Text)
  | [] => none
  | c :: s =>
    match closeTag t (c :: s) with
    | some rest => some ([], rest)
    | none => (upToClose t s).map fun e => (c :: e.1, e.2)

/-- `<tag\b([^>]*)>(.*?)</tag>`, or for a role or goal `<tag(?:\s[^>]*)?>(.*?)</tag>`: a blank and the end of the tag
are no word characters. -/
def element (t : Tag) (s : Text) : Option ((Text × Text) × Text) :=
  if opens py t s then
    (openTag t s).bind fun e => (upToClose t e.2).map fun c => ((e.1, c.1), c.2)
  else
    none

theorem dropLetters_suffix {cs s rest : Text} (h : dropLetters cs s = some rest) : rest <:+ s := by
  fun_induction dropLetters cs s with
  | case1 s => exact Option.some.inj h ▸ List.suffix_rfl
  | case2 => simp at h
  | case3 c cs d s hd ih => exact (ih h).trans (List.suffix_cons d s)
  | case4 => simp at h

theorem openTag_suffix {t : Tag} {s : Text} {e : Text × Text} (h : openTag t s = some e) : e.2 <:+ s.tail := by
  unfold openTag at h
  split at h
  · rename_i s
    split at h
    · rename_i rest hrest
      split at h
      · rename_i after hafter
        split_ifs at h
        obtain rfl := Option.some.inj h
        have hdrop : '>' :: after <:+ rest := hafter ▸ List.dropWhile_suffix _
        exact ((List.suffix_cons '>' after).trans hdrop).trans (dropLetters_suffix hrest)
      · simp at h
    · simp at h
  · simp at h

theorem closeTag_suffix {t : Tag} {s rest : Text} (h : closeTag t s = some rest) : rest <:+ s := by
  unfold closeTag at h
  split at h
  · rename_i s
    split at h
    · rename_i rest' hrest
      obtain rfl := Option.some.inj h
      exact ((List.suffix_cons '>' rest').trans (dropLetters_suffix hrest)).trans
        ((List.suffix_cons '/' s).trans (List.suffix_cons '<' _))
    · simp at h
  · simp at h

theorem upToClose_suffix {t : Tag} {s : Text} {e : Text × Text} (h : upToClose t s = some e) : e.2 <:+ s := by
  induction s generalizing e with
  | nil => simp [upToClose] at h
  | cons c s ih =>
    rw [upToClose] at h
    split at h
    · rename_i rest hclose
      obtain rfl := Option.some.inj h
      exact closeTag_suffix hclose
    · obtain ⟨e', he', rfl⟩ := Option.map_eq_some_iff.mp h
      exact (ih he').trans (List.suffix_cons c s)

def markup : Markup Char Tag (Text × Text) where
  opens := opens py
  element := element py
  opens_nil _ := rfl
  opens_of_element t s b rest h := by
    unfold element at h
    split_ifs at h with hopen
    exact hopen
  rest_suffix t s b rest h := by
    unfold element at h
    split_ifs at h
    obtain ⟨e, he, h⟩ := Option.bind_eq_some_iff.mp h
    obtain ⟨c, hc, h⟩ := Option.map_eq_some_iff.mp h
    obtain ⟨-, rfl⟩ := Prod.mk.inj h
    exact (upToClose_suffix hc).trans (openTag_suffix he)

def isNameStart (c : Char) : Bool := c.isAlpha || c = '_'

def isNameChar (c : Char) : Bool := py.isWord c || c = ':' || c = '-'

/-- `</?([A-Za-z_][\w:-]*)\b`: the name gives colons and dashes at its end back. -/
def tagName (s : Text) : Option Text :=
  match s with
  | '<' :: s =>
    let s := if s.head? = some '/' then s.tail else s
    if s.head?.any isNameStart then
      some (((s.takeWhile (isNameChar py)).reverse.dropWhile fun c => !py.isWord c).reverse)
    else
      none
  | _ => none

def allowedName (name : Text) : Bool := Tag.all.any fun t => t.name = name.map Char.toLower

def unknownTag (body : Text) : Option Text :=
  (body.tails.filterMap (tagName py)).find? fun name => !allowedName name

def contains (text part : Text) : Bool := text.tails.any part.isPrefixOf

def deprecated (body word : Text) : Bool :=
  contains (py.lower body) ('<' :: word) || contains (py.lower body) ('<' :: '/' :: word)

def isQuote (c : Char) : Bool := c = '"' || c.toNat = 39

/-- `([A-Za-z_][\w:-]*)\s*=\s*(['"])(.*?)\2`: a name, its value and the text behind it. -/
def attr (s : Text) : Option ((Text × Text) × Text) :=
  if s.head?.any isNameStart then
    match (s.dropWhile (isNameChar py)).dropWhile isPythonSpace with
    | '=' :: s' =>
      match s'.dropWhile isPythonSpace with
      | q :: value =>
        if isQuote q then
          match value.dropWhile (· ≠ q) with
          | _ :: rest => some ((s.takeWhile (isNameChar py), value.takeWhile (· ≠ q)), rest)
          | [] => none
        else
          none
      | [] => none
    | _ => none
  else
    none

/-- The attributes from left to right; `fuel` bounds their number by the length of the text. -/
def attrs : ℕ → Text → List (Text × Text)
  | 0, _ => []
  | _ + 1, [] => []
  | fuel + 1, c :: s =>
    match attr py (c :: s) with
    | some (a, rest) => a :: attrs fuel rest
    | none => attrs fuel s

def parseAttrs (raw : Text) : Dict Text Text := .ofList (attrs py raw.length raw)

structure AgentStep where
  id : Text
  name : Text
  content : Text
  deriving DecidableEq

structure AgentProtocol where
  id : Text
  content : Text
  deriving DecidableEq

structure AgentExample where
  id : Text
  content : Text
  deriving DecidableEq

def given (raw : Text) (name : Text) : Option Text :=
  (parseAttrs py raw).get? name |>.filter fun v => !v.isEmpty

def idName : Text := ['i', 'd']

def stepOf (e : Text × Text) : Except String AgentStep :=
  match given py e.1 idName, given py e.1 ['n', 'a', 'm', 'e'] with
  | some id, some name => .ok { id, name, content := stripText e.2 }
  | _, _ => .error "[F-v3-agent-step-invalid] step requires id and name"

def protocolOf (e : Text × Text) : Except String AgentProtocol :=
  match given py e.1 idName with
  | some id => .ok { id, content := stripText e.2 }
  | none => .error "[F-v3-agent-protocol-invalid] protocol requires id"

def exampleOf (seen : List Text) (e : Text × Text) : Except String AgentExample :=
  match given py e.1 idName with
  | some id =>
    if stripText e.2 = [] ∨ id ∈ seen then
      .error "[F-v3-agent-example-invalid] example requires unique id and non-empty content"
    else
      .ok { id, content := stripText e.2 }
  | none => .error "[F-v3-agent-example-invalid] example requires unique id and non-empty content"

def entries (t : Tag) (body : Text) : List (Text × Text) := (finditer (markup py) t body).map Prod.snd

def extractAgentSteps (body : Text) : Except String (List AgentStep) := (entries py .step body).mapM (stepOf py)

def extractAgentProtocols (body : Text) : Except String (List AgentProtocol) :=
  (entries py .protocol body).mapM (protocolOf py)

def examplesFrom (seen : List Text) : List (Text × Text) → Except String (List AgentExample)
  | [] => .ok []
  | e :: es => do
    let x ← exampleOf py seen e
    let xs ← examplesFrom (seen ++ [x.id]) es
    return x :: xs

def extractAgentExamples (body : Text) : Except String (List AgentExample) :=
  examplesFrom py [] (entries py .example_ body)

/-- `extract_raw_blocks`: the content of the first element. -/
def block (t : Tag) (body : Text) : Option Text := ((entries py t body).head?).map fun e => stripText e.2

structure BodyFields where
  role : Text
  goal : Text
  steps : List AgentStep
  protocols : List AgentProtocol
  examplesInline : List AgentExample
  deriving DecidableEq

def filledBlock (t : Tag) (body : Text) : Option Text := (block py t body).filter fun s => !s.isEmpty

def tagFault (body : Text) : Option String :=
  match unknownTag py body with
  | some name => some ("[F-v3-agent-body-tag-unknown] unknown top-level tag " ++ .ofList (name.map Char.toLower))
  | none =>
    if deprecated py body ['s', 't', 'e', 'p', 's'] then
      some "[F-v3-agent-body-tag-unknown] unknown top-level tag steps"
    else if deprecated py body ['e', 'x', 'i', 't', '_', 'c', 'o', 'n', 't', 'r', 'a', 'c', 't'] then
      some "[F-v3-agent-body-tag-unknown] unknown top-level tag exit_contract"
    else
      none

def missingBlock (t : Tag) (code : String) (body : Text) : List String :=
  match filledBlock py t body with
  | some _ => []
  | none => [code ++ " Agent body requires <" ++ .ofList t.name ++ ">"]

def parseAgentBody (body : Text) : Except String (BodyFields × List String) :=
  match tagFault py body with
  | some e => .error e
  | none => do
    let steps ← extractAgentSteps py body
    let protocols ← extractAgentProtocols py body
    let examplesInline ← extractAgentExamples py body
    let fields :=
      { role := (filledBlock py .role body).getD "(missing role)".toList
        goal := (filledBlock py .goal body).getD "(missing goal)".toList
        steps, protocols, examplesInline }
    .ok (fields, missingBlock py .role "[F-v3-agent-role-missing]" body ++
      missingBlock py .goal "[F-v3-agent-goal-missing]" body)

/-- The compiler accepts a body that gives no diagnostic; `checks` are those of the frontmatter, the ids and the
mentions. -/
def compileAgentBody (checks : BodyFields → Text → List String) (body : Text) : Except (List String) BodyFields :=
  match parseAgentBody py body with
  | .error e => .error [e]
  | .ok (fields, diags) =>
    match diags ++ checks fields body with
    | [] => .ok fields
    | diags => .error diags

def ownContent (t : Tag) (s : Text) : Option Text := (element py t s).map fun e => stripText e.1.2

structure Lossless (body : Text) (fields : BodyFields) : Prop where
  one_role : (marks (markup py) .role body).length = 1
  one_goal : (marks (markup py) .goal body).length = 1
  closed : ¬ Unclosed (markup py) body
  flat : ¬ Nested (markup py) body
  steps : (fields.steps.map fun x => some x.content) = (marks (markup py) .step body).map (ownContent py .step)
  protocols :
    (fields.protocols.map fun x => some x.content) = (marks (markup py) .protocol body).map (ownContent py .protocol)
  examples :
    (fields.examplesInline.map fun x => some x.content) =
      (marks (markup py) .example_ body).map (ownContent py .example_)

/-- Every opening tag meets its closing tag before another tag opens, and role and goal open once. -/
structure WellTagged (body : Text) : Prop where
  separate : Separate (markup py) body
  one_role : (marks (markup py) .role body).length = 1
  one_goal : (marks (markup py) .goal body).length = 1

variable {py}

theorem entries_contents (t : Tag) {body : Text} (h : Separate (markup py) body) :
    ((entries py t body).map fun e => some (stripText e.2)) = (marks (markup py) t body).map (ownContent py t) := by
  have hfound := congrArg (List.map (Option.map fun e : Text × Text => stripText e.2)) (finditer_contents t body h)
  simp only [List.map_map] at hfound
  rw [entries, List.map_map]
  calc (finditer (markup py) t body).map ((fun e => some (stripText e.2)) ∘ Prod.snd)
      = (finditer (markup py) t body).map
          ((Option.map fun e : Text × Text => stripText e.2) ∘ fun m => some m.2) := rfl
    _ = (marks (markup py) t body).map
          ((Option.map fun e : Text × Text => stripText e.2) ∘ fun s => ((markup py).element t s).map Prod.fst) :=
      hfound
    _ = (marks (markup py) t body).map (ownContent py t) := by
      apply List.map_congr_left
      intro s _
      simp only [Function.comp_apply, Option.map_map, ownContent]
      rfl

theorem stepOf_content {e : Text × Text} {x : AgentStep} (h : stepOf py e = .ok x) : x.content = stripText e.2 := by
  unfold stepOf at h
  split at h
  · obtain rfl := Except.ok.inj h
    rfl
  · simp at h

theorem protocolOf_content {e : Text × Text} {x : AgentProtocol} (h : protocolOf py e = .ok x) :
    x.content = stripText e.2 := by
  unfold protocolOf at h
  split at h
  · obtain rfl := Except.ok.inj h
    rfl
  · simp at h

theorem exampleOf_content {seen : List Text} {e : Text × Text} {x : AgentExample} (h : exampleOf py seen e = .ok x) :
    x.content = stripText e.2 := by
  unfold exampleOf at h
  split at h
  · split_ifs at h
    obtain rfl := Except.ok.inj h
    rfl
  · simp at h

theorem contents_of_mapM {β : Type} {f : Text × Text → Except String β} {content : β → Text} {es : List (Text × Text)}
    {xs : List β} (hf : ∀ e x, f e = .ok x → content x = stripText e.2) (h : es.mapM f = .ok xs) :
    (xs.map fun x => some (content x)) = es.map fun e => some (stripText e.2) := by
  have hall := mapM_ok_iff.mp h
  apply map_eq_of_forall₂ hall
  intro e x hx
  rw [hf e x hx]

theorem contents_of_examplesFrom {seen : List Text} {es : List (Text × Text)} {xs : List AgentExample}
    (h : examplesFrom py seen es = .ok xs) :
    (xs.map fun x => some x.content) = es.map fun e => some (stripText e.2) := by
  induction es generalizing seen xs with
  | nil =>
    obtain rfl := Except.ok.inj h
    rfl
  | cons e es ih =>
    rw [examplesFrom] at h
    obtain ⟨x, hx, h⟩ := bind_ok h
    obtain ⟨rest, hrest, h⟩ := bind_ok h
    obtain rfl := Except.ok.inj h
    rw [List.map_cons, List.map_cons, ih hrest, exampleOf_content hx]

theorem compileAgentBody_ok {checks : BodyFields → Text → List String} {body : Text} {fields : BodyFields}
    (h : compileAgentBody py checks body = .ok fields) :
    extractAgentSteps py body = .ok fields.steps ∧ extractAgentProtocols py body = .ok fields.protocols ∧
      extractAgentExamples py body = .ok fields.examplesInline := by
  unfold compileAgentBody at h
  split at h
  · simp at h
  · rename_i fields' diags hparse
    split at h
    · obtain rfl := Except.ok.inj h
      unfold parseAgentBody at hparse
      split at hparse
      · simp at hparse
      · obtain ⟨steps, hsteps, hparse⟩ := bind_ok hparse
        obtain ⟨protocols, hprotocols, hparse⟩ := bind_ok hparse
        obtain ⟨examples, hexamples, hparse⟩ := bind_ok hparse
        obtain ⟨rfl, -⟩ := Prod.mk.inj (Except.ok.inj hparse)
        exact ⟨hsteps, hprotocols, hexamples⟩
    · simp at h

/-- An accepted body loses nothing exactly when its tags stand apart. -/
theorem accepted_body_lossless_iff (py : Python) (checks : BodyFields → Text → List String) (body : Text)
    (fields : BodyFields) (h : compileAgentBody py checks body = .ok fields) :
    Lossless py body fields ↔ WellTagged py body := by
  obtain ⟨hsteps, hprotocols, hexamples⟩ := compileAgentBody_ok h
  constructor
  · intro hl
    exact ⟨separate_iff.mpr ⟨hl.closed, hl.flat⟩, hl.one_role, hl.one_goal⟩
  · intro hw
    obtain ⟨hclosed, hflat⟩ := separate_iff.mp hw.separate
    constructor
    · exact hw.one_role
    · exact hw.one_goal
    · exact hclosed
    · exact hflat
    · rw [← entries_contents .step hw.separate]
      exact contents_of_mapM (fun _ _ => stepOf_content) hsteps
    · rw [← entries_contents .protocol hw.separate]
      exact contents_of_mapM (fun _ _ => protocolOf_content) hprotocols
    · rw [← entries_contents .example_ hw.separate]
      exact contents_of_examplesFrom hexamples

def asciiPython : Python where
  isWord c := c.isAlphanum || c = '_'
  isWord_ascii _ _ := rfl
  lower s := s.map Char.toLower

def closedStep : Text := "<role>r</role><goal>g</goal><step id=\"a\" name=\"n\">s</step>".toList

def closedFields : BodyFields where
  role := ['r']
  goal := ['g']
  steps := [⟨['a'], ['n'], ['s']⟩]
  protocols := []
  examplesInline := []

theorem compile_closedStep : compileAgentBody asciiPython (fun _ _ => []) closedStep = .ok closedFields := by
  decide +kernel

theorem wellTagged_closedStep : WellTagged asciiPython closedStep where
  separate := separate_of_tails Tag.all (fun t => by cases t <;> decide) (by decide +kernel)
  one_role := by decide +kernel
  one_goal := by decide +kernel

theorem closed_step_lossless : Lossless asciiPython closedStep closedFields :=
  (accepted_body_lossless_iff asciiPython (fun _ _ => []) closedStep closedFields compile_closedStep).mpr
    wellTagged_closedStep

def unclosedStep : Text := "<role>r</role><goal>g</goal><step>s".toList

def unclosedFields : BodyFields where
  role := ['r']
  goal := ['g']
  steps := []
  protocols := []
  examplesInline := []

theorem compile_unclosedStep : compileAgentBody asciiPython (fun _ _ => []) unclosedStep = .ok unclosedFields := by
  decide

theorem unclosed_step_lost :
    compileAgentBody asciiPython (fun _ _ => []) unclosedStep = .ok unclosedFields ∧
      ¬ Lossless asciiPython unclosedStep unclosedFields := by
  refine ⟨compile_unclosedStep, fun h => h.closed ?_⟩
  exact ⟨"<step>s".toList, .step, ⟨"<role>r</role><goal>g</goal>".toList, by decide⟩, by decide, by decide⟩

end GraphSkillRuntime.AgentBody
