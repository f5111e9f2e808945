import GraphSkillRuntime.State

/-! The messages an agent phase exchanges with its model and tools. -/

namespace GraphSkillRuntime

open OrderedDict

/-- Python's `str` and `json.dumps`; a text prints as itself. -/
structure Printer where
  str : Value → String
  str_str : ∀ s, str (.str s) = s
  dumps : Value → String

def plainPrinter : Printer where
  str v := match v with | .str s => s | _ => ""
  str_str _ := rfl
  dumps _ := ""

def Value.truthy : Value → Bool
  | .null => false
  | .bool b => b
  | .num q => q ≠ 0
  | .str s => s ≠ ""
  | .list xs => !xs.isEmpty
  | .dict kvs => !kvs.isEmpty

/-- The characters that `str.strip` and `str.split` take for blanks. -/
def isPythonSpace (c : Char) : Bool :=
  let n := c.toNat
  (9 ≤ n && n ≤ 13) || (28 ≤ n && n ≤ 32) || n = 0x85 || n = 0xA0 || n = 0x1680 ||
    (0x2000 ≤ n && n ≤ 0x200A) || n = 0x2028 || n = 0x2029 || n = 0x202F || n = 0x205F || n = 0x3000

def strip (s : String) : String :=
  .ofList (((s.toList.dropWhile isPythonSpace).reverse.dropWhile isPythonSpace).reverse)

structure ToolCall where
  id : Option String
  name : String
  args : Dict String Value
  deriving DecidableEq

inductive Message where
  | human (id name : Option String) (content : Value)
  | ai (id : Option String) (content : Value) (toolCalls : List ToolCall)
  | tool (id name : Option String) (content : Value) (toolCallId : String) (isError : Bool)
  deriving DecidableEq

namespace Message

def id : Message → Option String
  | .human id _ _ | .ai id _ _ | .tool id _ _ _ _ => id

def name : Message → Option String
  | .human _ name _ | .tool _ name _ _ _ => name
  | .ai _ _ _ => none

def toolCalls : Message → List ToolCall
  | .ai _ _ calls => calls
  | _ => []

end Message

structure AgentState where
  data : BusinessData
  flow : FrameworkState
  messages : List Message

structure Command where
  data : Option BusinessData := none
  flow : Option FrameworkState := none
  messages : List Message
  gotoModel : Bool := false

section

variable (P : Printer)

/-- `str(args.get(key) or "")`. -/
def argText (args : Dict String Value) (key : String) : String :=
  match args.get? key with
  | some v => if v.truthy then P.str v else ""
  | none => ""

end

end GraphSkillRuntime
