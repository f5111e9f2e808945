import GraphSkillRuntime.AgentMessages
import GraphSkillRuntime.JsonLines

/-!
Markdown submissions: the items of a text and the fields of each item. The patterns of the source are written out as
the functions that their matches compute; a line has no line break in it, so that `.` stands for any character.
-/

namespace GraphSkillRuntime.Markdown

open OrderedDict JsonText

def strip (s : List Char) : List Char := ((s.dropWhile isPythonSpace).reverse.dropWhile isPythonSpace).reverse

theorem strip_eq_nil {s : List Char} : strip s = [] ↔ ∀ c ∈ s, isPythonSpace c = true := by
  rw [strip, List.reverse_eq_nil_iff, List.dropWhile_eq_nil_iff]
  constructor
  · intro h c hc
    by_contra hspace
    have hmem : c ∈ s.dropWhile isPythonSpace := by
      rw [← List.takeWhile_append_dropWhile (p := isPythonSpace) (l := s)] at hc
      rcases List.mem_append.mp hc with hc | hc
      · exact absurd (List.mem_takeWhile_imp hc) hspace
      · exact hc
    exact hspace (h c (List.mem_reverse.mpr hmem))
  · intro h c hc
    exact h c ((List.dropWhile_suffix _).subset (List.mem_reverse.mp hc))

theorem strip_of_ends {s : List Char} (hhead : ∀ c ∈ s.head?, isPythonSpace c = false)
    (hlast : ∀ c ∈ s.getLast?, isPythonSpace c = false) : strip s = s := by
  have hdrop : ∀ t : List Char, (∀ c ∈ t.head?, isPythonSpace c = false) → t.dropWhile isPythonSpace = t := by
    intro t ht
    cases t with
    | nil => rfl
    | cons c t => rw [List.dropWhile_cons_of_neg (by simpa using ht c rfl)]
  rw [strip, hdrop s hhead, hdrop s.reverse (by simpa [List.head?_reverse] using hlast), List.reverse_reverse]

theorem strip_head {s : List Char} (h : strip s = s) : ∀ c ∈ s.head?, isPythonSpace c = false := by
  intro c hc
  cases s with
  | nil => cases hc
  | cons d s =>
    obtain rfl := Option.some.inj hc
    cases hspace : isPythonSpace d with
    | false => rfl
    | true =>
      have hlength : (strip (d :: s)).length ≤ s.length := by
        rw [strip, List.dropWhile_cons_of_pos hspace, List.length_reverse]
        have hback := List.length_dropWhile_le isPythonSpace (s.dropWhile isPythonSpace).reverse
        rw [List.length_reverse] at hback
        exact hback.trans (List.length_dropWhile_le _ _)
      rw [h, List.length_cons] at hlength
      omega

theorem strip_last {s : List Char} (h : strip s = s) : ∀ c ∈ s.getLast?, isPythonSpace c = false := by
  intro c hc
  rw [← h, strip, List.getLast?_reverse] at hc
  have hhead := List.head?_dropWhile_not isPythonSpace (s.dropWhile isPythonSpace).reverse
  rw [Option.mem_def.mp hc] at hhead
  exact hhead

theorem code_of_isAlphanum {c : Char} (h : c.isAlphanum = true) :
    ((65 ≤ c.toNat ∧ c.toNat ≤ 90) ∨ (97 ≤ c.toNat ∧ c.toNat ≤ 122)) ∨ (48 ≤ c.toNat ∧ c.toNat ≤ 57) := by
  change (decide ((65 : UInt32) ≤ c.val ∧ c.val ≤ 90) ||
    (decide ((97 : UInt32) ≤ c.val) && decide (c.val ≤ 122)) ||
    (decide ((48 : UInt32) ≤ c.val) && decide (c.val ≤ 57))) = true at h
  simp only [Bool.or_eq_true, Bool.and_eq_true, decide_eq_true_eq, UInt32.le_iff_toNat_le] at h
  exact h

/-- What the parser takes from Python: the word characters of `re`, and the readers of numbers. -/
structure Reader (F : Type) where
  floats : FloatFormat F
  isWord : Char → Bool
  isWord_ascii : ∀ c : Char, c.toNat < 128 → isWord c = (c.isAlphanum || c = '_')
  isWord_space : ∀ c, isWord c = true → isPythonSpace c = false
  isWord_bullet : isWord '•' = false
  int? : List Char → Option ℤ
  float? : List Char → Option F

structure SourceLine where
  number : ℕ
  text : List Char

structure UnreadLine where
  lineNumber : ℕ
  text : List Char
  reason : String

inductive Annotation where
  | noneType
  | int
  | float
  | list (args : List Annotation)
  | union (args : List Annotation)
  | model
  | other

namespace Annotation

def isNone : Annotation → Bool
  | noneType => true
  | _ => false

def unwrapOptional (ann : Annotation) : Annotation :=
  match ann with
  | union args =>
    match args.filter (fun arg => !arg.isNone) with
    | [arg] => arg
    | _ => ann
  | _ => ann

def isListAnnotation (ann : Annotation) : Bool :=
  match ann.unwrapOptional with
  | list _ => true
  | _ => false

def listOfModels (ann : Annotation) : Bool :=
  match ann.unwrapOptional with
  | list (model :: _) => true
  | _ => false

end Annotation

/-- `\s+(.+)$`: the spaces give one character back when nothing else is left. -/
def afterSpaces (s : List Char) : Option (List Char) :=
  if s.head?.any isPythonSpace then
    match s.dropWhile isPythonSpace with
    | [] => if 2 ≤ s.length then s.getLast?.map (fun c => [c]) else none
    | c :: rest => some (c :: rest)
  else none

def itemHeader (line : List Char) : Option String :=
  match line with
  | '#' :: '#' :: rest => (afterSpaces rest).map (fun id => .ofList (strip id))
  | _ => none

def isBullet (c : Char) : Bool := c = '-' || c = '*' || c = '•'

def indentedChild (line : List Char) : Option (List Char) :=
  if 2 ≤ (line.takeWhile isPythonSpace).length then
    match line.dropWhile isPythonSpace with
    | c :: rest => if isBullet c then afterSpaces rest else none
    | [] => none
  else none

inductive BlockLine where
  | child (payload : List Char)
  | flat (key : String) (rawVal : List Char)
  | nested (key : String)
  | unknown

section

variable {F : Type} (R : Reader F)

/-- `(\w+):` and what follows it. -/
def wordColon (s : List Char) : Option (List Char × List Char) :=
  match s.takeWhile R.isWord, s.dropWhile R.isWord with
  | c :: key, ':' :: rest => some (c :: key, rest)
  | _, _ => none

/-- `[-*•]\s+(\w+):` and what follows it. -/
def fieldHead (line : List Char) : Option (List Char × List Char) :=
  match line with
  | c :: rest =>
    if isBullet c && rest.head?.any isPythonSpace then wordColon R (rest.dropWhile isPythonSpace) else none
  | [] => none

def classifyField (line : List Char) : BlockLine :=
  match fieldHead R line with
  | some (key, rest) =>
    match afterSpaces rest with
    | some rawVal => .flat (.ofList key) (strip rawVal)
    | none => if rest.all isPythonSpace then .nested (.ofList key) else .unknown
  | none => .unknown

def classifyBlockLine (line : List Char) : Option BlockLine :=
  if strip line = [] then none
  else
    match indentedChild line with
    | some payload => some (.child payload)
    | none => some (classifyField R line)

def announcesStructure (line : List Char) : Bool :=
  match line.dropWhile isPythonSpace with
  | c :: rest =>
    (isBullet c && rest.head?.any isPythonSpace && !(rest.dropWhile isPythonSpace).isEmpty) ||
      (R.isWord c &&
        ((rest.dropWhile (fun c => R.isWord c || c = '.' || c = '-')).dropWhile isPythonSpace).head? = some ':')
  | [] => false

def fence : List Char := ['`', '`', '`']

def joinLines (lines : List (List Char)) : List Char := (lines.intersperse ['\n']).flatten

theorem joinLines_cons {line : List Char} {lines : List (List Char)} (h : lines ≠ []) :
    joinLines (line :: lines) = line ++ '\n' :: joinLines lines := by
  obtain ⟨next, rest, rfl⟩ := List.exists_cons_of_ne_nil h
  simp [joinLines]

def stripOuterFence (value : List Char) : List Char :=
  let stripped := strip value
  if fence.isPrefixOf stripped then
    let lines := splitlines stripped
    if 2 ≤ lines.length ∧ lines.getLast?.map strip = some fence then strip (joinLines lines.tail.dropLast)
    else stripped
  else stripped

def looksLikeJsonLiteral (value : List Char) : Bool :=
  let stripped := stripOuterFence value
  stripped.head?.any (fun c => c = '[' || c = '{') && stripped.getLast?.any (fun c => c = ']' || c = '}')

/-- `value.split(",")`. -/
def splitCommas (s : List Char) : List (List Char) := s.splitOn ','

def parseListValue (raw : List Char) : Json F :=
  let value := strip raw
  if fence.isPrefixOf value || looksLikeJsonLiteral value then
    (loads R.floats (stripOuterFence value)).getD (.str (.ofList value))
  else .list (((splitCommas value).map strip).filter (· ≠ []) |>.map (fun part => .str (.ofList part)))

def coerceScalar (annotations : Dict String Annotation) (key : String) (rawVal : List Char) : Json F :=
  match annotations.get? key with
  | none => .str (.ofList rawVal)
  | some ann =>
    if ann.isListAnnotation then parseListValue R rawVal
    else
      match ann.unwrapOptional with
      | .int => ((R.int? rawVal).map .int).getD (.str (.ofList rawVal))
      | .float => ((R.float? rawVal).map .float).getD (.str (.ofList rawVal))
      | _ => .str (.ofList rawVal)

abbrev NestedChild := SourceLine × List Char

def unreadNoOwningField : String := "缩进子项上方没有 '- 字段名:' 开启的嵌套字段，没有字段能承载它"

def unreadNotAFieldBullet : String := "不是 '- 字段名: 值' 形态，没有字段能承载它"

def unreadNotAtKey : String := "嵌套子对象的每一行必须写成 '- @字段名: 值'"

def unreadLine (source : SourceLine) (reason : String) : UnreadLine := ⟨source.number, source.text, reason⟩

def atKey (payload : List Char) : Option (String × String) :=
  match strip payload with
  | '@' :: rest => (wordColon R rest).map (fun m => (.ofList m.1, .ofList (strip m.2)))
  | _ => none

structure AtKeyState (F : Type) where
  objects : List (Json F)
  unread : List UnreadLine
  current : Dict String (Json F)

def atKeyLine (s : AtKeyState F) (child : NestedChild) : AtKeyState F :=
  match atKey R child.2 with
  | some (key, val) =>
    if s.current.contains key then
      { s with objects := s.objects ++ [.dict s.current.entries], current := Dict.single key (.str val) }
    else { s with current := s.current.set key (.str val) }
  | none =>
    if strip child.2 = [] then s else { s with unread := s.unread ++ [unreadLine child.1 unreadNotAtKey] }

def parseAtKeyLines (children : List NestedChild) : List (Json F) × List UnreadLine :=
  let s := children.foldl (atKeyLine R) ⟨[], [], ∅⟩
  (if s.current.entries.isEmpty then s.objects else s.objects ++ [.dict s.current.entries], s.unread)

def nestedTexts (children : List NestedChild) : List (List Char) :=
  (children.map (fun child => strip child.2)).filter (· ≠ [])

def parseListNestedChildren (ann : Annotation) (children : List NestedChild) : List (Json F) × List UnreadLine :=
  if ann.listOfModels then parseAtKeyLines R children
  else if children.any (fun child => (strip child.2).head? = some '@') then parseAtKeyLines R children
  else ((nestedTexts children).map (fun text => .str (.ofList text)), [])

/-- What `_flush_nested_field` stores under the key, and the lines that it could not read. -/
def nestedField (annotations : Dict String Annotation) (key : String) (children : List NestedChild) :
    Json F × List UnreadLine :=
  match annotations.get? key with
  | some ann =>
    if ann.isListAnnotation then
      let parsed := parseListNestedChildren R ann children
      (.list parsed.1, parsed.2)
    else (.str (.ofList ((nestedTexts children).intersperse [',', ' ']).flatten), [])
  | none => (.str (.ofList ((nestedTexts children).intersperse [',', ' ']).flatten), [])

structure BlockState (F : Type) where
  item : Dict String (Json F)
  unread : List UnreadLine
  nested : Option (String × List NestedChild)

def flushNested (annotations : Dict String Annotation) (s : BlockState F) : BlockState F :=
  match s.nested with
  | none => s
  | some (key, children) =>
    let field := nestedField R annotations key children
    { item := s.item.set key field.1, unread := s.unread ++ field.2, nested := none }

def blockStep (annotations : Dict String Annotation) (s : BlockState F) (source : SourceLine) : BlockState F :=
  match classifyBlockLine R source.text with
  | none => s
  | some (.child payload) =>
    match s.nested with
    | none => { s with unread := s.unread ++ [unreadLine source unreadNoOwningField] }
    | some (key, children) => { s with nested := some (key, children ++ [(source, payload)]) }
  | some (.flat key rawVal) =>
    let s := flushNested R annotations s
    { s with item := s.item.set key (coerceScalar R annotations key rawVal) }
  | some (.nested key) => { flushNested R annotations s with nested := some (key, []) }
  | some .unknown =>
    let s := flushNested R annotations s
    if announcesStructure R source.text then { s with unread := s.unread ++ [unreadLine source unreadNotAFieldBullet] }
    else s

def parseBlockData (annotations : Dict String Annotation) (lines : List SourceLine) :
    Dict String (Json F) × List UnreadLine :=
  let s := flushNested R annotations (lines.foldl (blockStep R annotations) ⟨∅, [], none⟩)
  (s.item, s.unread.mergeSort (fun a b => a.lineNumber ≤ b.lineNumber))

def meaningfulLines (lines : List (List Char)) : List (List Char) := (lines.map strip).filter (· ≠ [])

def jsonBody (meaningful : List (List Char)) : List (List Char) :=
  if meaningful.head?.any fence.isPrefixOf ∧ meaningful.getLast? = some fence then meaningful.tail.dropLast
  else meaningful

def jsonPayload (lines : List (List Char)) : Option (List Char) :=
  let payload := strip (joinLines (jsonBody (meaningfulLines lines)))
  if (payload.head? = some '{' ∧ payload.getLast? = some '}') ∨
      (payload.head? = some '[' ∧ payload.getLast? = some ']') then some payload
  else none

def parseJsonBlock (lines : List (List Char)) : Option (Json F) := (jsonPayload lines).bind (loads R.floats)

def dataFromJsonBlock (annotations : Dict String Annotation) (itemId : String) (jsonData : Json F) :
    Dict String (Json F) :=
  match jsonData with
  | .dict kvs =>
    if annotations.contains itemId ∧ (Dict.ofList kvs).contains itemId = false then Dict.single itemId jsonData
    else Dict.ofList kvs
  | _ => if annotations.contains itemId then Dict.single itemId jsonData else ∅

structure ParsedBlock (F : Type) where
  id : String
  unread : List UnreadLine
  data : Dict String (Json F)

def parseBlock (annotations : Dict String Annotation) (block : String × List SourceLine) : ParsedBlock F :=
  match parseJsonBlock R (block.2.map SourceLine.text) with
  | some jsonData => ⟨block.1, [], dataFromJsonBlock annotations block.1 jsonData⟩
  | none =>
    let parsed := parseBlockData R annotations block.2
    ⟨block.1, parsed.2, parsed.1⟩

/-- The loop of `_split_into_blocks`, with the block that is still open. -/
def blocksFrom (current : Option (String × List SourceLine)) : List SourceLine → List (String × List SourceLine)
  | [] => current.toList
  | line :: rest =>
    match itemHeader line.text with
    | some id => current.toList ++ blocksFrom (some (id, [])) rest
    | none => blocksFrom (current.map (fun block => (block.1, block.2 ++ [line]))) rest

def splitIntoBlocks (mdText : List Char) : List (String × List SourceLine) :=
  blocksFrom none (((splitlines mdText).zipIdx 1).map (fun line => ⟨line.2, line.1⟩))

def parseMd (annotations : Dict String Annotation) (mdText : List Char) : List (ParsedBlock F) :=
  (splitIntoBlocks mdText).map (parseBlock R annotations)

end

end GraphSkillRuntime.Markdown
