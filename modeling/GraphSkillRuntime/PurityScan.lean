import GraphSkillRuntime.OrderedDict

/-!
The purity scan of skill-local tools and actions: which calls of a Python module it reports as access to the file
system, temporary files or dynamic imports.
-/

namespace GraphSkillRuntime.PurityScan

open OrderedDict

abbrev Dotted := List String

structure ModuleName where
  root : String
  rest : Dotted
  deriving DecidableEq

def ModuleName.dotted (m : ModuleName) : Dotted := m.root :: m.rest

/-- The nodes that the scan looks at; `node` is any other one, with the names that it binds itself. -/
inductive Ast where
  | importStmt (names : List (ModuleName × Option String))
  | importFrom (level : ℕ) (module : Option ModuleName) (names : List (String × Option String))
  | name (id : String)
  | attribute (value : Ast) (attr : String)
  | call (func : Ast) (args keywords : List Ast) (line : ℕ)
  | keyword (arg : Option String) (value : Ast)
  | constant (text : Option String)
  | binOp (left right : Ast)
  | subscript (value slice : Ast)
  | tuple (elts : List Ast)
  | assign (targets : List Ast) (value : Ast) (line : ℕ)
  | annAssign (target annotation : Ast) (value : Option Ast) (line : ℕ)
  | augAssign (target value : Ast) (line : ℕ)
  | delete (targets : List Ast) (line : ℕ)
  | node (binds : List String) (children : List Ast)

namespace Ast

def children : Ast → List Ast
  | .importStmt _ | .importFrom .. | .name _ | .constant _ => []
  | .attribute value _ | .keyword _ value => [value]
  | .call func args keywords _ => func :: (args ++ keywords)
  | .binOp left right => [left, right]
  | .subscript value slice => [value, slice]
  | .tuple elts => elts
  | .assign targets value _ => targets ++ [value]
  | .annAssign target annotation value _ => target :: annotation :: value.toList
  | .augAssign target value _ => [target, value]
  | .delete targets _ => targets
  | .node _ children => children

noncomputable def queueSize : List Ast → ℕ
  | [] => 0
  | t :: queue => sizeOf t + queueSize queue

@[simp] theorem queueSize_append (ts us : List Ast) : queueSize (ts ++ us) = queueSize ts + queueSize us := by
  induction ts with
  | nil => simp [queueSize]
  | cons t ts ih =>
    simp only [List.cons_append, queueSize, ih]
    omega

theorem queueSize_le (ts : List Ast) : queueSize ts ≤ sizeOf ts := by
  induction ts with
  | nil => simp [queueSize]
  | cons t ts ih =>
    simp only [queueSize, List.cons.sizeOf_spec]
    omega

theorem queueSize_children (t : Ast) : queueSize t.children < sizeOf t := by
  cases t with
  | call func args keywords line =>
    have ha := queueSize_le args
    have hk := queueSize_le keywords
    simp only [children, queueSize, queueSize_append, call.sizeOf_spec]
    omega
  | tuple elts =>
    have h := queueSize_le elts
    simp only [children, tuple.sizeOf_spec]
    omega
  | assign targets value line =>
    have h := queueSize_le targets
    simp only [children, queueSize, queueSize_append, assign.sizeOf_spec]
    omega
  | delete targets line =>
    have h := queueSize_le targets
    simp only [children, delete.sizeOf_spec]
    omega
  | node binds ts =>
    have h := queueSize_le ts
    simp only [children, node.sizeOf_spec]
    omega
  | annAssign target annotation value line =>
    cases value <;> simp [children, queueSize] <;> omega
  | _ => simp [children, queueSize] <;> omega

/-- Breadth first, as `ast.walk`: the children of a node go to the end of the queue. -/
def walkQueue : List Ast → List Ast
  | [] => []
  | t :: queue => t :: walkQueue (queue ++ t.children)
termination_by queue => queueSize queue
decreasing_by
  have h := queueSize_children t
  simp only [queueSize, queueSize_append]
  omega

def walk (tree : Ast) : List Ast := walkQueue [tree]

def chain : Ast → Option (String × List String)
  | .name id => some (id, [])
  | .attribute value attr => value.chain.map fun c => (c.1, c.2 ++ [attr])
  | _ => none

def nameTargets : Ast → List String
  | .name id => [id]
  | .tuple elts => nameTargetsAll elts
  | _ => []
where
  nameTargetsAll : List Ast → List String
    | [] => []
    | t :: ts => nameTargets t ++ nameTargetsAll ts

end Ast

open Ast

def pathMutationMethods : List String :=
  ["write_text", "write_bytes", "touch", "mkdir", "rename", "unlink", "symlink_to", "hardlink_to", "replace", "rmdir",
    "chmod"]

def pathAccessMethods : List String :=
  ["exists", "glob", "group", "is_block_device", "is_char_device", "is_dir", "is_fifo", "is_file", "is_mount",
    "is_socket", "is_symlink", "iterdir", "lstat", "open", "owner", "read_bytes", "read_text", "readlink", "resolve",
    "rglob", "samefile", "stat"]

def osMutationMethods : List String :=
  ["chmod", "chown", "link", "makedirs", "mkdir", "mknod", "remove", "removedirs", "rename", "renames", "replace",
    "rmdir", "symlink", "truncate", "unlink", "utime"]

def osAccessMethods : List String :=
  ["access", "fwalk", "listdir", "lstat", "open", "readlink", "scandir", "stat", "walk"]

def osMethods : List String := osMutationMethods ++ osAccessMethods

def osPathAccessMethods : List String :=
  ["exists", "getatime", "getctime", "getmtime", "getsize", "isdir", "isfile", "islink", "lexists", "realpath",
    "samefile", "sameopenfile", "samestat"]

def globMethods : List String := ["glob", "iglob"]

def sysPathMutationMethods : List String :=
  ["append", "clear", "extend", "insert", "pop", "remove", "reverse", "sort"]

def shutilMethods : List String := ["copy", "copy2", "copyfile", "copytree", "move", "rmtree"]

def tempfileMethods : List String :=
  ["NamedTemporaryFile", "TemporaryFile", "mkstemp", "mkdtemp", "TemporaryDirectory"]

def runSkillCalls : List Dotted :=
  [["run_skill"], ["graph_skill_runtime", "run_skill"], ["graph_skill_runtime", "core", "runner", "run_skill"]]

def fileOpenCalls : List Dotted := [["open"], ["builtins", "open"], ["io", "open"]]

def dynamicImportCalls : List Dotted :=
  [["__import__"], ["builtins", "__import__"], ["importlib", "import_module"],
    ["importlib", "util", "spec_from_file_location"]]

def pathFactoryCalls : List Dotted := [["pathlib", "Path"], ["pathlib", "Path", "cwd"], ["pathlib", "Path", "home"]]

def sysPathMutationCalls : List Dotted := sysPathMutationMethods.map fun m => ["sys", "path", m]

def osPathAccessCalls : List Dotted := osPathAccessMethods.map fun m => ["os", "path", m]

def globCalls : List Dotted := globMethods.map fun m => ["glob", m]

def readModes : List String := ["r", "rb", "rt"]

def writeModeChars : List Char := ['w', 'a', 'x', '+']

structure PurityViolation where
  path : String
  line : ℕ
  api : String
  reason : String

abbrev Aliases := Dict String Dotted

def Dotted.text (q : Dotted) : String := ".".intercalate q

def importEntries : Ast → List (String × Dotted)
  | .importStmt names => names.map fun (m, asname) => (asname.getD m.root, m.dotted)
  | .importFrom _ (some m) names => names.map fun (f, asname) => (asname.getD f, m.dotted ++ [f])
  | _ => []

def collectImportAliases (tree : Ast) : Aliases := .ofList (tree.walk.flatMap importEntries)

def getCallFullName (aliases : Aliases) : Ast → Option Dotted
  | .name id => some ((aliases.get? id).getD [id])
  | .attribute value attr => (getCallFullName aliases value).map (· ++ [attr])
  | _ => none

def isPathlikeExpr (aliases : Aliases) (pathNames : List String) : Ast → Bool
  | .name id => pathNames.contains id
  | .call func _ _ _ => (getCallFullName aliases func).any pathFactoryCalls.contains
  | .binOp left right => isPathlikeExpr aliases pathNames left || isPathlikeExpr aliases pathNames right
  | _ => false

def newPathNames (aliases : Aliases) (pathNames : List String) : Ast → List String
  | .assign targets value _ => if isPathlikeExpr aliases pathNames value then targets.flatMap nameTargets else []
  | .annAssign target _ (some value) _ => if isPathlikeExpr aliases pathNames value then target.nameTargets else []
  | _ => []

def collectPathNames (tree : Ast) (aliases : Aliases) : List String :=
  tree.walk.foldl (fun pathNames node => pathNames ++ newPathNames aliases pathNames node) []

def targetFullName (aliases : Aliases) : Ast → Option Dotted
  | .subscript value _ => targetFullName aliases value
  | .name id => some ((aliases.get? id).getD [id])
  | .attribute value attr => (targetFullName aliases value).map (· ++ [attr])
  | _ => none

def targetName (aliases : Aliases) : Ast → Option Dotted
  | .name id => some [id]
  | target => targetFullName aliases target

def violationsForTargets (path : String) (targets : List Ast) (aliases : Aliases) (line : ℕ) : List PurityViolation :=
  targets.flatMap fun target =>
    if targetName aliases target = some ["sys", "path"] then
      [{ path, line, api := "sys.path", reason := "sys.path mutation is forbidden" }]
    else
      []

def modeNode (args keywords : List Ast) : Option Ast :=
  let named := keywords.findSome? fun
    | .keyword (some "mode") value => some value
    | _ => none
  named.or args[1]?

/-- `repr` is how Python prints a string. -/
def openViolationReason (repr : String → String) (args keywords : List Ast) : Option String :=
  match modeNode args keywords with
  | none => none
  | some (.constant (some mode)) =>
    if mode ∉ readModes ∨ mode.toList.any writeModeChars.contains then
      some ("open() mode " ++ repr mode ++ " may write local files")
    else
      none
  | some _ => some "open() mode must be a literal read-only mode"

def attributeBaseName : Ast → Option String
  | .name id => some id
  | .attribute value _ => attributeBaseName value
  | _ => none

def accessReason (api : String) : String := "file system access via " ++ api ++ " is forbidden"

def violationForFullName (repr : String → String) (path : String) (args keywords : List Ast) (line : ℕ) (q : Dotted) :
    Option PurityViolation :=
  if runSkillCalls.contains q then
    some { path, line, api := "run_skill", reason := "run_skill orchestration is forbidden" }
  else if fileOpenCalls.contains q then
    some
      { path, line, api := "open"
        reason := (openViolationReason repr args keywords).getD "file system access open() is forbidden" }
  else if sysPathMutationCalls.contains q then
    some { path, line, api := q.text, reason := "sys.path mutation is forbidden" }
  else if dynamicImportCalls.contains q then
    some { path, line, api := q.text, reason := "dynamic import via " ++ q.text ++ " is forbidden" }
  else if osPathAccessCalls.contains q then
    some { path, line, api := q.text, reason := accessReason q.text }
  else if globCalls.contains q then
    some { path, line, api := q.text, reason := accessReason q.text }
  else
    none

def temporaryReason : String := "temporary files are local writes"

/-- A name below the module `tempfile` whose last part is one of its functions. -/
def Temporary (q : Dotted) : Prop := q.head? = some "tempfile" ∧ 2 ≤ q.length ∧ q.getLastD "" ∈ tempfileMethods

instance (q : Dotted) : Decidable (Temporary q) := by unfold Temporary; infer_instance

def violationForNameCall (repr : String → String) (path : String) (aliases : Aliases) (id : String)
    (args keywords : List Ast) (line : ℕ) : Option PurityViolation :=
  let qualified := (aliases.get? id).getD [id]
  let opened :=
    if id = "open" ∨ qualified = ["builtins", "open"] then openViolationReason repr args keywords else none
  match opened with
  | some reason => some { path, line, api := "open", reason }
  | none =>
    if Temporary qualified then
      some { path, line, api := qualified.text, reason := temporaryReason }
    else if id ∈ tempfileMethods then
      some { path, line, api := id, reason := temporaryReason }
    else
      none

def violationForAttributeCall (path : String) (aliases : Aliases) (pathNames : List String) (value : Ast)
    (attr : String) (line : ℕ) : Option PurityViolation :=
  let base := (attributeBaseName value).getD ""
  let qualifiedBase := (aliases.get? base).getD [base]
  if attr ∈ pathMutationMethods ∧ isPathlikeExpr aliases pathNames value then
    some { path, line, api := attr, reason := "path mutation APIs are forbidden" }
  else if attr ∈ pathAccessMethods ∧ isPathlikeExpr aliases pathNames value then
    some { path, line, api := attr, reason := accessReason ("Path." ++ attr) }
  else if qualifiedBase = ["os"] ∧ attr ∈ osMethods then
    if attr ∈ osAccessMethods then
      some { path, line, api := "os." ++ attr, reason := accessReason ("os." ++ attr) }
    else
      some { path, line, api := "os." ++ attr, reason := "os filesystem mutation is forbidden" }
  else if qualifiedBase = ["shutil"] ∧ attr ∈ shutilMethods then
    some { path, line, api := "shutil." ++ attr, reason := "shutil filesystem mutation is forbidden" }
  else if qualifiedBase = ["tempfile"] ∧ attr ∈ tempfileMethods then
    some { path, line, api := "tempfile." ++ attr, reason := temporaryReason }
  else
    none

def violationForCall (repr : String → String) (path : String) (aliases : Aliases) (pathNames : List String)
    (func : Ast) (args keywords : List Ast) (line : ℕ) : Option PurityViolation :=
  ((getCallFullName aliases func).bind (violationForFullName repr path args keywords line)).or
    (match func with
    | .name id => violationForNameCall repr path aliases id args keywords line
    | .attribute value attr => violationForAttributeCall path aliases pathNames value attr line
    | _ => none)

def violationsAt (repr : String → String) (path : String) (aliases : Aliases) (pathNames : List String) :
    Ast → List PurityViolation
  | .call func args keywords line =>
    (violationForCall repr path aliases pathNames func args keywords line).toList
  | .assign targets _ line | .delete targets line => violationsForTargets path targets aliases line
  | .annAssign target _ _ line | .augAssign target _ line => violationsForTargets path [target] aliases line
  | _ => []

structure SyntaxError where
  lineno : Option ℕ
  msg : String

/-- `exc.lineno or 1`. -/
def SyntaxError.line (e : SyntaxError) : ℕ :=
  match e.lineno with
  | some (n + 1) => n + 1
  | _ => 1

def nodeViolations (repr : String → String) (path : String) (tree node : Ast) : List PurityViolation :=
  violationsAt repr path (collectImportAliases tree) (collectPathNames tree (collectImportAliases tree)) node

def scanPythonPurity (repr : String → String) (path : String) (parsed : Except SyntaxError Ast) :
    List PurityViolation :=
  match parsed with
  | .error e => [{ path, line := e.line, api := "python", reason := "invalid Python syntax: " ++ e.msg }]
  | .ok tree => tree.walk.flatMap (nodeViolations repr path tree)

/-- `Binds stmt x target`: the import statement binds `x` to what the dotted name `target` stands for. -/
inductive Binds : Ast → String → Dotted → Prop
  | module {names : List (ModuleName × Option String)} {m : ModuleName} :
      (m, none) ∈ names → Binds (.importStmt names) m.root [m.root]
  | renamed {names : List (ModuleName × Option String)} {m : ModuleName} {a : String} :
      (m, some a) ∈ names → Binds (.importStmt names) a m.dotted
  | member {m : ModuleName} {names : List (String × Option String)} {f : String} {asname : Option String} :
      (f, asname) ∈ names → f ≠ "*" → Binds (.importFrom 0 (some m) names) (asname.getD f) (m.dotted ++ [f])

/-- Some import of the module lets the base name followed by the attributes stand for `q`. -/
def Denotes (tree : Ast) (base : String) (attrs : List String) (q : Dotted) : Prop :=
  ∃ stmt ∈ tree.walk, ∃ target, Binds stmt base target ∧ q = target ++ attrs

def moduleMethods : List (String × List String) :=
  [("os", osMethods), ("shutil", shutilMethods), ("tempfile", tempfileMethods)]

def memberCalls : List Dotted := moduleMethods.flatMap fun (m, methods) => methods.map fun f => [m, f]

def bannedCalls : List Dotted :=
  memberCalls ++ osPathAccessCalls ++ globCalls ++
    [["io", "open"], ["importlib", "import_module"], ["importlib", "util", "spec_from_file_location"]]

def boundNames : Ast → List String
  | .assign targets _ _ => targets.flatMap nameTargets
  | .annAssign target _ _ _ | .augAssign target _ _ => target.nameTargets
  | .node binds _ => binds
  | _ => []

def ImportsOnly (tree : Ast) : Prop := ∀ node ∈ tree.walk, boundNames node = []

def ReportedAt (repr : String → String) (path : String) (tree call : Ast) : Prop :=
  ∃ v ∈ nodeViolations repr path tree call, v ∈ scanPythonPurity repr path (.ok tree)

def wholeCalls : List Dotted :=
  runSkillCalls ++ fileOpenCalls ++ sysPathMutationCalls ++ dynamicImportCalls ++ osPathAccessCalls ++ globCalls

/-- The mode that a call of `open` gives, if any, is a literal one for reading. -/
def ReadMode (args keywords : List Ast) : Prop :=
  ∀ node ∈ modeNode args keywords, ∃ mode ∈ readModes, node = .constant (some mode)

/-- The name in the last import that binds the base name, as it is written there. -/
def written (tree : Ast) (base : String) : Dotted := ((collectImportAliases tree).get? base).getD [base]

/-- A call of a bare name is not compared with the members of `os` and `shutil`. -/
def Recognised (tree : Ast) (base : String) (attrs : List String) (args keywords : List Ast) : Prop :=
  let q := written tree base ++ attrs
  q ∈ wholeCalls ∨
    (attrs ≠ [] ∧ q ∈ memberCalls) ∨
    (attrs = [] ∧ (Temporary q ∨ base ∈ tempfileMethods ∨ (base = "open" ∧ ¬ ReadMode args keywords)))

theorem getCallFullName_chain (aliases : Aliases) (func : Ast) :
    getCallFullName aliases func = func.chain.map fun c => (aliases.get? c.1).getD [c.1] ++ c.2 := by
  fun_induction chain func with
  | case1 id => simp [getCallFullName]
  | case2 value attr ih => simp [getCallFullName, ih, Function.comp_def]
  | case3 => simp [getCallFullName, *]

theorem attributeBaseName_chain (func : Ast) : attributeBaseName func = func.chain.map Prod.fst := by
  fun_induction chain func with
  | case1 id => rfl
  | case2 value attr ih => simp [attributeBaseName, ih, Function.comp_def]
  | case3 => simp [attributeBaseName, *]

theorem not_pathlike_of_chain {aliases : Aliases} {e : Ast} {c : String × List String} (h : e.chain = some c) :
    isPathlikeExpr aliases [] e = false := by
  cases e <;> simp_all [chain, isPathlikeExpr]

theorem newPathNames_of_boundNames {node : Ast} (h : boundNames node = []) (aliases : Aliases)
    (pathNames : List String) : newPathNames aliases pathNames node = [] := by
  cases node with
  | assign targets value line =>
    simp only [boundNames] at h
    simp [newPathNames, h]
  | annAssign target annotation value line =>
    simp only [boundNames] at h
    cases value <;> simp [newPathNames, h]
  | _ => rfl

theorem collectPathNames_of_importsOnly {tree : Ast} (h : ImportsOnly tree) (aliases : Aliases) :
    collectPathNames tree aliases = [] := by
  unfold collectPathNames
  unfold ImportsOnly at h
  generalize tree.walk = nodes at h
  induction nodes with
  | nil => rfl
  | cons node nodes ih =>
    have hnode := newPathNames_of_boundNames (h node (by simp)) aliases []
    rw [List.foldl_cons, hnode, List.append_nil]
    exact ih fun n hn => h n (by simp [hn])

theorem openViolationReason_eq_none {repr : String → String} {args keywords : List Ast} :
    openViolationReason repr args keywords = none ↔ ReadMode args keywords := by
  have hread : ∀ mode ∈ readModes, mode.toList.any writeModeChars.contains = false := by decide
  unfold openViolationReason ReadMode
  cases hm : modeNode args keywords with
  | none => simp
  | some node =>
    cases node with
    | constant text =>
      cases text with
      | none => simp
      | some mode =>
        by_cases hmode : mode ∈ readModes
        · simp [hmode, hread mode hmode]
        · simp [hmode]
    | _ => simp

theorem violationForFullName_isSome {repr : String → String} {path : String} {args keywords : List Ast} {line : ℕ}
    {q : Dotted} : (violationForFullName repr path args keywords line q).isSome ↔ q ∈ wholeCalls := by
  unfold violationForFullName wholeCalls
  simp only [List.mem_append, List.contains_iff_mem]
  split
  · simp [*]
  split
  · simp [*]
  split
  · simp [*]
  split
  · simp [*]
  split
  · simp [*]
  split <;> simp [*]

theorem violationForNameCall_isSome {repr : String → String} {path : String} {aliases : Aliases} {id : String}
    {args keywords : List Ast} {line : ℕ} :
    (violationForNameCall repr path aliases id args keywords line).isSome ↔
      let q := (aliases.get? id).getD [id]
      ((id = "open" ∨ q = ["builtins", "open"]) ∧ ¬ ReadMode args keywords) ∨ Temporary q ∨ id ∈ tempfileMethods := by
  rw [← @openViolationReason_eq_none repr]
  unfold violationForNameCall
  simp only
  by_cases ho : id = "open" ∨ (aliases.get? id).getD [id] = ["builtins", "open"]
  · rw [if_pos ho]
    cases openViolationReason repr args keywords with
    | some reason => simp [ho]
    | none =>
      simp only [not_true, and_false, false_or]
      split
      · simp [*]
      split <;> simp [*]
  · rw [if_neg ho]
    simp only [ho, false_and, false_or]
    split
    · simp [*]
    split <;> simp [*]

theorem violationForAttributeCall_isSome {path : String} {aliases : Aliases} {value : Ast} {attr base : String}
    {attrs : List String} {line : ℕ} (h : value.chain = some (base, attrs)) :
    (violationForAttributeCall path aliases [] value attr line).isSome ↔
      ∃ e ∈ moduleMethods, (aliases.get? base).getD [base] = [e.1] ∧ attr ∈ e.2 := by
  unfold violationForAttributeCall
  simp only [not_pathlike_of_chain h, attributeBaseName_chain, h, Option.map_some, Option.getD_some,
    Bool.false_eq_true, and_false, if_false]
  generalize (aliases.get? base).getD [base] = q
  simp only [moduleMethods, List.mem_cons, List.not_mem_nil, or_false, exists_eq_or_imp, exists_eq_left]
  split
  · split <;> simp [*]
  split
  · simp [*]
  split <;> simp [*]

theorem get?_written (tree : Ast) (base : String) :
    ((collectImportAliases tree).get? base).getD [base] = written tree base := rfl

theorem violationForCall_isSome {repr : String → String} {path : String} {tree func : Ast} {base : String}
    {attrs : List String} {args keywords : List Ast} {line : ℕ} (h : func.chain = some (base, attrs)) :
    (violationForCall repr path (collectImportAliases tree) [] func args keywords line).isSome ↔
      written tree base ++ attrs ∈ wholeCalls ∨
        (∃ e ∈ moduleMethods, written tree base = [e.1] ∧ ∃ attr ∈ e.2, attrs.getLast? = some attr) ∨
        (attrs = [] ∧ (Temporary (written tree base) ∨ base ∈ tempfileMethods ∨
          (base = "open" ∧ ¬ ReadMode args keywords))) := by
  unfold violationForCall
  rw [Option.isSome_or, getCallFullName_chain, h]
  simp only [Option.map_some, Option.bind_some, Bool.or_eq_true, violationForFullName_isSome, get?_written]
  cases func with
  | name id =>
    simp only [chain, Option.some.injEq, Prod.mk.injEq] at h
    obtain ⟨rfl, rfl⟩ := h
    simp only [violationForNameCall_isSome, get?_written]
    by_cases hb : written tree id = ["builtins", "open"]
    · have : ["builtins", "open"] ∈ wholeCalls := by decide
      simp [hb, this]
    · simp [hb]
      tauto
  | «attribute» value attr =>
    simp only [chain, Option.map_eq_some_iff, Prod.mk.injEq] at h
    obtain ⟨⟨b, as⟩, hv, rfl, rfl⟩ := h
    simp [violationForAttributeCall_isSome hv, get?_written]
  | _ => simp [chain] at h

theorem nodeViolations_call {repr : String → String} {path : String} {tree func : Ast} {args keywords : List Ast}
    {line : ℕ} (h : ImportsOnly tree) :
    nodeViolations repr path tree (.call func args keywords line) =
      (violationForCall repr path (collectImportAliases tree) [] func args keywords line).toList := by
  rw [nodeViolations, collectPathNames_of_importsOnly h]
  rfl

theorem reportedAt_iff {repr : String → String} {path : String} {tree call : Ast} (h : call ∈ tree.walk) :
    ReportedAt repr path tree call ↔ nodeViolations repr path tree call ≠ [] := by
  constructor
  · rintro ⟨v, hv, -⟩
    exact List.ne_nil_of_mem hv
  · intro hne
    obtain ⟨v, hv⟩ := List.exists_mem_of_ne_nil _ hne
    exact ⟨v, hv, List.mem_flatMap.mpr ⟨call, h, hv⟩⟩

theorem dotted_ne_nil (m : ModuleName) : m.dotted ≠ [] := List.cons_ne_nil _ _

theorem written_ne_nil (tree : Ast) (base : String) : written tree base ≠ [] := by
  unfold written
  cases hw : (collectImportAliases tree).get? base with
  | none => simp
  | some q =>
    rw [collectImportAliases, Dict.get?_ofList] at hw
    have hmem := Dict.mem_of_find hw
    simp only [List.mem_reverse, List.mem_flatMap] at hmem
    obtain ⟨stmt, -, hq⟩ := hmem
    unfold importEntries at hq
    split at hq
    · obtain ⟨⟨m, asname⟩, -, he⟩ := List.mem_map.mp hq
      simp only [Prod.mk.injEq] at he
      simp [← he.2, ModuleName.dotted]
    · obtain ⟨⟨f, asname⟩, -, he⟩ := List.mem_map.mp hq
      simp only [Prod.mk.injEq] at he
      simp [← he.2]
    · simp at hq

theorem target_ne_nil {stmt : Ast} {base : String} {target : Dotted} (h : Binds stmt base target) : target ≠ [] := by
  cases h with
  | module => simp
  | renamed => exact dotted_ne_nil _
  | member => simp

theorem getLast_of_banned {target attrs : List String} (ht : target ≠ []) (ha : 2 ≤ attrs.length)
    (hb : target ++ attrs ∈ bannedCalls) {e : String × List String} (he : e ∈ moduleMethods) {attr : String}
    (hattr : attr ∈ e.2) : attrs.getLast? ≠ some attr := by
  have hlong : ∀ q ∈ bannedCalls, 3 ≤ q.length → ∀ e ∈ moduleMethods, q.getLastD "" ∉ e.2 := by decide +kernel
  intro hlast
  have hlen : 3 ≤ (target ++ attrs).length := by
    have := List.length_pos_of_ne_nil ht
    rw [List.length_append]
    omega
  apply hlong _ hb hlen e he
  have hne : attrs ≠ [] := List.ne_nil_of_length_pos (by omega)
  rw [List.getLastD_eq_getLast?, List.getLast?_append_of_ne_nil _ hne, hlast]
  exact hattr

theorem mem_memberCalls {p attrs : List String} (hp : p ≠ []) (ha : attrs ≠ []) :
    p ++ attrs ∈ memberCalls ↔
      attrs.length = 1 ∧ ∃ e ∈ moduleMethods, p = [e.1] ∧ ∃ attr ∈ e.2, attrs.getLast? = some attr := by
  simp only [memberCalls, List.mem_flatMap, List.mem_map]
  constructor
  · rintro ⟨e, he, attr, hattr, heq⟩
    match p, attrs, hp, ha, heq with
    | [x], [a], _, _, heq =>
      simp only [List.cons_append, List.nil_append, List.cons.injEq, and_true] at heq
      exact ⟨rfl, e, he, by rw [heq.1], attr, hattr, by simp [heq.2]⟩
    | [x], a :: b :: as, _, _, heq => simp at heq
    | x :: y :: zs, a :: as, _, _, heq => simp at heq
  · rintro ⟨hlen, e, he, rfl, attr, hattr, hlast⟩
    match attrs, hlen, hlast with
    | [a], _, hlast =>
      simp only [List.getLast?_singleton, Option.some.injEq] at hlast
      exact ⟨e, he, attr, hattr, by simp [hlast]⟩

theorem memberCalls_cases {q : Dotted} (h : q ∈ memberCalls) :
    Temporary q ∨ (∃ m ∈ osMethods, q = ["os", m]) ∨ ∃ m ∈ shutilMethods, q = ["shutil", m] := by
  obtain ⟨e, he, hq⟩ := List.mem_flatMap.mp h
  obtain ⟨m, hm, rfl⟩ := List.mem_map.mp hq
  simp only [moduleMethods, List.mem_cons, List.not_mem_nil, or_false] at he
  rcases he with rfl | rfl | rfl
  · exact .inr (.inl ⟨m, hm, rfl⟩)
  · exact .inr (.inr ⟨m, hm, rfl⟩)
  · exact .inl ⟨rfl, Nat.le_refl 2, hm⟩

theorem bannedCalls_cases {q : Dotted} (h : q ∈ bannedCalls) : q ∈ wholeCalls ∨ q ∈ memberCalls := by
  simp only [bannedCalls, List.mem_append] at h
  rcases h with ((hmember | hpath) | hglob) | hother
  · exact .inr hmember
  · exact .inl (List.mem_append_left _ (List.mem_append_right _ hpath))
  · exact .inl (List.mem_append_right _ hglob)
  · simp only [List.mem_cons, List.not_mem_nil, or_false] at hother
    rcases hother with rfl | rfl | rfl <;> exact .inl (by decide)

theorem recognised_of_written {tree : Ast} {base : String} {attrs : List String} {args keywords : List Ast}
    (hw : written tree base ++ attrs ∈ bannedCalls)
    (hbare : attrs = [] →
      (∀ m ∈ osMethods, written tree base ≠ ["os", m]) ∧ ∀ m ∈ shutilMethods, written tree base ≠ ["shutil", m]) :
    Recognised tree base attrs args keywords := by
  unfold Recognised
  rcases bannedCalls_cases hw with hq | hq
  · exact .inl hq
  · by_cases ha : attrs = []
    · subst ha
      rw [List.append_nil] at hq ⊢
      rcases memberCalls_cases hq with ht | ⟨m, hm, he⟩ | ⟨m, hm, he⟩
      · exact .inr (.inr ⟨rfl, .inl ht⟩)
      · exact absurd he ((hbare rfl).1 m hm)
      · exact absurd he ((hbare rfl).2 m hm)
    · exact .inr (.inl ⟨ha, hq⟩)

/-- A call of a banned function is reported exactly when the last import of its base name, as written, and the
attributes spell a name that the scan knows for the form of the call. -/
theorem banned_call_reported_iff (repr : String → String) (path : String) (tree : Ast) (himports : ImportsOnly tree)
    (func : Ast) (args keywords : List Ast) (line : ℕ) (hcall : .call func args keywords line ∈ tree.walk)
    (base : String) (attrs : List String) (hfunc : func.chain = some (base, attrs)) (q : Dotted)
    (hq : Denotes tree base attrs q) (hb : q ∈ bannedCalls) :
    ReportedAt repr path tree (.call func args keywords line) ↔ Recognised tree base attrs args keywords := by
  rw [reportedAt_iff hcall, nodeViolations_call himports]
  have hsome := @violationForCall_isSome repr path tree func base attrs args keywords line hfunc
  have hne : ∀ o : Option PurityViolation, o.toList ≠ [] ↔ o.isSome := by
    intro o
    cases o <;> simp
  rw [hne, hsome]
  unfold Recognised
  simp only
  by_cases ha : attrs = []
  · subst ha
    simp
  · obtain ⟨stmt, -, target, hbinds, rfl⟩ := hq
    have hone : (∃ e ∈ moduleMethods, written tree base = [e.1] ∧ ∃ attr ∈ e.2, attrs.getLast? = some attr) →
        attrs.length = 1 := by
      rintro ⟨e, he, -, attr, hattr, hlast⟩
      by_contra hlen
      have hpos := List.length_pos_of_ne_nil ha
      exact getLast_of_banned (target_ne_nil hbinds) (by omega) hb he hattr hlast
    rw [mem_memberCalls (written_ne_nil tree base) ha]
    simp only [ha, not_false_eq_true, true_and, ne_eq, false_and, or_false]
    exact or_congr_right ⟨fun h => ⟨hone h, h⟩, And.right⟩

/-- `import os`, `import os.path` and the call `os.remove("x")`. -/
def removeByAttribute : Ast := .call (.attribute (.name "os") "remove") [.constant (some "x")] [] 3

def dottedImportModule : Ast :=
  .node []
    [.importStmt [(⟨"os", []⟩, none)], .importStmt [(⟨"os", ["path"]⟩, none)], .node [] [removeByAttribute]]

theorem walk_dottedImportModule : dottedImportModule.walk =
    [dottedImportModule, .importStmt [(⟨"os", []⟩, none)], .importStmt [(⟨"os", ["path"]⟩, none)],
      .node [] [removeByAttribute], removeByAttribute, .attribute (.name "os") "remove", .constant (some "x"),
      .name "os"] := by
  simp [dottedImportModule, removeByAttribute, walk, walkQueue, children]

theorem written_dottedImportModule : written dottedImportModule "os" = ["os", "path"] := by
  rw [written, collectImportAliases, walk_dottedImportModule]
  rfl

theorem dotted_import_unreported : ¬ ReportedAt id "actions/x.py" dottedImportModule removeByAttribute := by
  apply (not_congr (banned_call_reported_iff id "actions/x.py" dottedImportModule ?_ (.attribute (.name "os") "remove")
    [.constant (some "x")] [] 3 ?_ "os" ["remove"] rfl ["os", "remove"] ?_ (by decide))).mpr
  · rintro (hwhole | ⟨-, hmember⟩ | ⟨hbare, -⟩)
    · rw [written_dottedImportModule] at hwhole
      revert hwhole
      decide
    · rw [written_dottedImportModule] at hmember
      revert hmember
      decide
    · cases hbare
  · intro node hnode
    rw [walk_dottedImportModule] at hnode
    simp only [List.mem_cons, List.not_mem_nil, or_false] at hnode
    rcases hnode with rfl | rfl | rfl | rfl | rfl | rfl | rfl | rfl <;> rfl
  · rw [walk_dottedImportModule]
    simp [removeByAttribute]
  · refine ⟨.importStmt [(⟨"os", []⟩, none)], ?_, ["os"], .module (m := ⟨"os", []⟩) (by simp), rfl⟩
    rw [walk_dottedImportModule]
    simp

/-- `from os import remove` and the call `remove("x")`. -/
def removeByName : Ast := .call (.name "remove") [.constant (some "x")] [] 2

def memberImportModule : Ast :=
  .node [] [.importFrom 0 (some ⟨"os", []⟩) [("remove", none)], .node [] [removeByName]]

theorem walk_memberImportModule : memberImportModule.walk =
    [memberImportModule, .importFrom 0 (some ⟨"os", []⟩) [("remove", none)], .node [] [removeByName], removeByName,
      .name "remove", .constant (some "x")] := by
  simp [memberImportModule, removeByName, walk, walkQueue, children]

theorem member_import_unreported :
    ImportsOnly memberImportModule ∧ removeByName ∈ memberImportModule.walk ∧
      Denotes memberImportModule "remove" [] ["os", "remove"] ∧ ["os", "remove"] ∈ bannedCalls ∧
      ¬ ReportedAt id "actions/x.py" memberImportModule removeByName := by
  have hmem : removeByName ∈ memberImportModule.walk := by simp [walk_memberImportModule]
  refine ⟨?_, hmem, ?_, by decide, ?_⟩
  · intro node hnode
    rw [walk_memberImportModule] at hnode
    simp only [List.mem_cons, List.not_mem_nil, or_false] at hnode
    rcases hnode with rfl | rfl | rfl | rfl | rfl | rfl <;> rfl
  · have hbinds : Binds (.importFrom 0 (some ⟨"os", []⟩) [("remove", none)]) "remove" ["os", "remove"] :=
      .member (List.mem_singleton_self _) (by decide)
    refine ⟨_, ?_, _, hbinds, rfl⟩
    rw [walk_memberImportModule]
    simp
  · rw [reportedAt_iff hmem, not_not, nodeViolations, collectImportAliases, walk_memberImportModule]
    rfl

end GraphSkillRuntime.PurityScan
