import GraphSkillRuntime.AgentMessages
import GraphSkillRuntime.LinkedPaths
import GraphSkillRuntime.PyData
import GraphSkillRuntime.Runs

/-!
Runtime input files: the text file that a path below the workspace names, and the numbered files of a directory.
-/

namespace GraphSkillRuntime.WorkspaceFiles

open LinkedPaths PyData

/-- A regular file; `bytes` is missing where reading fails. -/
structure Content where
  size : ℕ
  bytes : Option (List UInt8)

abbrev Files := FileSystem Content

structure Python where
  repr : String → String
  decode : List UInt8 → Option String
  /-- `\d`, and the number that `int` reads from such characters. -/
  isDigit : Char → Bool
  toInt : List Char → ℕ
  /-- What `Path.resolve` makes of a path that runs into a loop of links differs among versions. -/
  resolveLoop : Path → Except String Path

variable (py : Python) (fs : Files)

def resolve (p : Path) : Except String Path :=
  match fs.realpath p with
  | some q => .ok q
  | none => py.resolveLoop p

def isFile (p : Path) : Bool :=
  match fs.stat p with
  | some (.file _) => true
  | _ => false

def maxFileSizeBytes : ℕ := 200000

/-- `str(path or "").strip().replace("\\", "/")`. -/
def rawPath (path : String) : String := .ofList ((strip path).toList.map fun c => if c = '\\' then '/' else c)

def isAbsolute (raw : String) : Bool := raw.toList.head? = some '/'

def parts (raw : String) : List String := (raw.toList.splitOn '/').map String.ofList

def ensureUnderWorkspace (candidate root : Path) (raw : String) : Except String Unit :=
  if root <+: candidate then .ok () else .error ("file input path " ++ py.repr raw ++ " escapes workspace_dir")

def decodeContent (raw : String) (f : Content) : Except String String :=
  if maxFileSizeBytes < f.size then
    .error
      ("file input " ++ py.repr raw ++ " is too large (" ++ toString f.size ++ " bytes > " ++
        toString maxFileSizeBytes ++ ")")
  else
    match f.bytes with
    | none => .error ("file input " ++ py.repr raw ++ " could not be read")
    | some bytes =>
      match py.decode bytes with
      | none => .error ("file input " ++ py.repr raw ++ " is binary or non-text")
      | some text =>
        if text.toList.contains '\x00' then .error ("file input " ++ py.repr raw ++ " is binary or non-text")
        else .ok text

def readUtf8TextTarget (target : Path) (raw : String) : Except String String :=
  match fs.stat target with
  | none => .error ("file input " ++ py.repr raw ++ " could not be stat'ed")
  | some (.file f) => decodeContent py raw f
  | some _ => .error ("file input " ++ py.repr raw ++ " could not be read")

def resolveWorkspaceTextTarget (raw : String) (root : Path) : Except String Path := do
  let candidate ← resolve py fs (root ++ parts raw)
  ensureUnderWorkspace py candidate root raw
  match fs.stat candidate with
  | none => .error ("file input " ++ py.repr raw ++ " not found")
  | some _ =>
    let target ← resolve py fs candidate
    ensureUnderWorkspace py target root raw
    match fs.stat target with
    | some .dir => .error ("file input " ++ py.repr raw ++ " is a directory")
    | some (.file _) => .ok target
    | _ => .error ("file input " ++ py.repr raw ++ " is not a file")

/-- The file that `read_workspace_text_file` reads. -/
def workspaceTarget (path : String) (workspace : Path) : Except String Path :=
  let raw := rawPath path
  if raw = "" then
    .error "file input path is empty"
  else if isAbsolute raw then
    .error ("file input path " ++ py.repr raw ++ " escapes workspace_dir: absolute paths are not allowed")
  else do
    let root ← resolve py fs workspace
    resolveWorkspaceTextTarget py fs raw root

def readWorkspaceTextFile (path : String) (workspace : Path) : Except String String := do
  let target ← workspaceTarget py fs path workspace
  readUtf8TextTarget py fs target (rawPath path)

inductive Token where
  | literal (c : Char)
  | number
  | any
  deriving DecidableEq

/-- The regular expression of a pattern: `{n}` is a group of digits, `*` stands for any text on one line. -/
def tokens : List Char → List Token
  | [] => []
  | '{' :: 'n' :: '}' :: rest => .number :: tokens rest
  | '*' :: rest => .any :: tokens rest
  | c :: rest => .literal c :: tokens rest

/-- The groups of the first match in the order of backtracking; `$` allows one line break behind it. -/
def matchTokens : List Token → List Char → Option (List (List Char))
  | [], s => if s = [] ∨ s = ['\n'] then some [] else none
  | .literal _ :: _, [] => none
  | .literal c :: ts, d :: s => if c = d then matchTokens ts s else none
  | .any :: ts, s =>
    (List.range ((s.takeWhile (· ≠ '\n')).length + 1)).reverse.findSome? fun i => matchTokens ts (s.drop i)
  | .number :: ts, s =>
    (List.range (s.takeWhile py.isDigit).length).reverse.findSome? fun i =>
      (matchTokens ts (s.drop (i + 1))).map (s.take (i + 1) :: ·)

def nameNumber (pattern name : String) : Option ℕ :=
  (matchTokens py (tokens pattern.toList) name.toList).map fun groups => py.toInt (groups.headD [])

def batchDir (dirPath pattern : String) (workspace : Path) : Except String Path :=
  let raw := rawPath dirPath
  if raw = "" then
    .error "batch file input dir is empty"
  else if isAbsolute raw then
    .error ("batch file input dir " ++ py.repr raw ++ " escapes workspace_dir: absolute paths are not allowed")
  else if Token.number ∉ tokens pattern.toList then
    .error ("batch file input pattern " ++ py.repr pattern ++ " has no \x7bn\x7d number placeholder")
  else do
    let root ← resolve py fs workspace
    let target ← resolve py fs (root ++ parts raw)
    ensureUnderWorkspace py target root raw
    match fs.stat target with
    | some .dir => .ok target
    | _ => .error ("batch file input dir " ++ py.repr raw ++ " is not a directory")

def batchMember (pattern : String) (dir : Path) (name : String) : Option (ℕ × Path) :=
  if isFile fs (dir ++ [name]) then (nameNumber py pattern name).map (·, dir ++ [name]) else none

/-- `enumerate` is the order in which the system gives the entries of a directory. -/
def listWorkspaceBatchFiles (enumerate : Path → List String) (dirPath pattern : String) (workspace : Path) :
    Except String (List (ℕ × Path)) := do
  let dir ← batchDir py fs dirPath pattern workspace
  let found := (enumerate dir).filterMap (batchMember py fs pattern dir)
  if found.isEmpty then
    .error ("batch file input " ++ py.repr (rawPath dirPath) ++ " has no files matching " ++ py.repr pattern)
  else
    .ok (orderBy Prod.fst found)

def pathText (p : Path) : String := "/" ++ "/".intercalate p

def readBatchFileText (target : Path) : Except String String := readUtf8TextTarget py fs target (pathText target)

def Inside (root p : Path) : Prop := ∃ q, fs.locate p = some q ∧ root <+: q

def TextInside (root : Path) (path : String) (workspace : Path) : Prop :=
  ∀ target, workspaceTarget py fs path workspace = .ok target →
    ∀ text, readUtf8TextTarget py fs target (rawPath path) = .ok text → Inside fs root target

def Enumerates (enumerate : Path → List String) : Prop :=
  ∀ p q, fs.locate p = some q → fs.nodes.get? q = some .dir →
    (enumerate p).Nodup ∧ ∀ name, name ∈ enumerate p ↔ q ++ [name] ∈ fs.nodes.keys

def BatchInside (root : Path) (dirPath pattern : String) (workspace : Path) : Prop :=
  ∀ enumerate, Enumerates fs enumerate →
    ∀ listed, listWorkspaceBatchFiles py fs enumerate dirPath pattern workspace = .ok listed →
      ∀ e ∈ listed, ∀ text, readBatchFileText py fs e.2 = .ok text → Inside fs root e.2

def OrderFree (dirPath pattern : String) (workspace : Path) : Prop :=
  ∀ enumerate enumerate', Enumerates fs enumerate → Enumerates fs enumerate' →
    listWorkspaceBatchFiles py fs enumerate dirPath pattern workspace =
      listWorkspaceBatchFiles py fs enumerate' dirPath pattern workspace

def EntryInside (root real : Path) (name : String) : Prop :=
  match fs.nodes.get? (real ++ [name]) with
  | some (.link _) =>
    ∀ q f text, fs.locate (real ++ [name]) = some q → fs.nodes.get? q = some (.file f) →
      decodeContent py "" f = .ok text → root <+: q
  | some (.file f) => ∀ text, decodeContent py "" f = .ok text → root <+: real ++ [name]
  | _ => True

/-- Every matching entry of the directory stays inside, and different entries that lead to files have different
numbers. -/
def BatchSound (root : Path) (dirPath pattern : String) (workspace : Path) : Prop :=
  ∀ dir real, batchDir py fs dirPath pattern workspace = .ok dir → fs.locate dir = some real →
    (∀ name n, nameNumber py pattern name = some n → EntryInside py fs root real name) ∧
      ∀ name name' n, isFile fs (real ++ [name]) → isFile fs (real ++ [name']) →
        nameNumber py pattern name = some n → nameNumber py pattern name' = some n → name = name'

variable {py fs}

theorem decodeContent_raw {raw raw' text : String} {f : Content} (h : decodeContent py raw f = .ok text) :
    decodeContent py raw' f = .ok text := by
  unfold decodeContent at h ⊢
  split at h
  · simp at h
  · rename_i hsize
    rw [if_neg hsize]
    split at h
    · simp at h
    · split at h
      · simp at h
      · split at h
        · simp at h
        · rename_i hnul
          rw [if_neg hnul]
          exact h

theorem readUtf8TextTarget_ok {target : Path} {raw text : String}
    (h : readUtf8TextTarget py fs target raw = .ok text) :
    ∃ q f, fs.locate target = some q ∧ fs.nodes.get? q = some (.file f) ∧ decodeContent py "" f = .ok text := by
  unfold readUtf8TextTarget at h
  split at h
  · simp at h
  · rename_i f hstat
    obtain ⟨q, hq, hf⟩ := Option.bind_eq_some_iff.mp hstat
    exact ⟨q, f, hq, hf, decodeContent_raw h⟩
  · simp at h

theorem readUtf8TextTarget_of_decode {target q : Path} {f : Content} {raw text : String}
    (hq : fs.locate target = some q) (hf : fs.nodes.get? q = some (.file f))
    (h : decodeContent py "" f = .ok text) : readUtf8TextTarget py fs target raw = .ok text := by
  have hstat : fs.stat target = some (.file f) := by rw [FileSystem.stat, hq, Option.bind_some, hf]
  rw [readUtf8TextTarget, hstat]
  exact decodeContent_raw h

theorem isFile_iff {p : Path} :
    isFile fs p = true ↔ ∃ q f, fs.locate p = some q ∧ fs.nodes.get? q = some (.file f) := by
  unfold isFile
  constructor
  · intro h
    split at h
    · rename_i f hstat
      obtain ⟨q, hq, hf⟩ := Option.bind_eq_some_iff.mp hstat
      exact ⟨q, f, hq, hf⟩
    · simp at h
  · rintro ⟨q, f, hq, hf⟩
    have hstat : fs.stat p = some (.file f) := by rw [FileSystem.stat, hq, Option.bind_some, hf]
    rw [hstat]

theorem resolve_of_locate {p q : Path} (h : fs.locate p = some q) : resolve py fs p = .ok q := by
  rw [resolve, FileSystem.realpath_of_locate h]

theorem ensureUnderWorkspace_ok {candidate root : Path} {raw : String}
    (h : ensureUnderWorkspace py candidate root raw = .ok ()) : root <+: candidate := by
  unfold ensureUnderWorkspace at h
  by_contra hout
  rw [if_neg hout] at h
  simp at h

theorem resolveWorkspaceTextTarget_ok {raw : String} {root target : Path}
    (h : resolveWorkspaceTextTarget py fs raw root = .ok target) : Inside fs root target := by
  unfold resolveWorkspaceTextTarget at h
  obtain ⟨candidate, -, h⟩ := bind_ok h
  obtain ⟨-, -, h⟩ := bind_ok h
  split at h
  · simp at h
  · rename_i node hstat
    obtain ⟨q, hq, -⟩ := Option.bind_eq_some_iff.mp hstat
    rw [resolve_of_locate hq] at h
    obtain ⟨again, heq, h⟩ := bind_ok h
    obtain rfl := Except.ok.inj heq
    obtain ⟨_, hunder, h⟩ := bind_ok h
    have hin := ensureUnderWorkspace_ok hunder
    split at h
    · simp at h
    · obtain rfl := Except.ok.inj h
      exact ⟨q, FileSystem.locate_of_plain (FileSystem.locate_plain hq), hin⟩
    · simp at h

theorem text_inside {workspace root : Path} (hws : fs.locate workspace = some root) (path : String) :
    TextInside py fs root path workspace := by
  intro target htarget text htext
  unfold workspaceTarget at htarget
  simp only [resolve_of_locate hws] at htarget
  split_ifs at htarget
  exact resolveWorkspaceTextTarget_ok htarget

theorem batchDir_ok {dirPath pattern : String} {workspace dir : Path}
    (h : batchDir py fs dirPath pattern workspace = .ok dir) :
    ∃ real, fs.locate dir = some real ∧ fs.nodes.get? real = some .dir := by
  unfold batchDir at h
  simp only at h
  split_ifs at h
  obtain ⟨root, -, h⟩ := bind_ok h
  obtain ⟨target, -, h⟩ := bind_ok h
  obtain ⟨-, -, h⟩ := bind_ok h
  split at h
  · rename_i hstat
    obtain rfl := Except.ok.inj h
    obtain ⟨q, hq, hdir⟩ := Option.bind_eq_some_iff.mp hstat
    exact ⟨q, hq, hdir⟩
  · simp at h

theorem batchDir_inside {dirPath pattern : String} {workspace root dir real : Path}
    (hws : fs.locate workspace = some root) (h : batchDir py fs dirPath pattern workspace = .ok dir)
    (hloop : fs.realpath (root ++ parts (rawPath dirPath)) ≠ none) (hreal : fs.locate dir = some real) :
    real = dir ∧ root <+: dir := by
  obtain ⟨q, hq⟩ := Option.ne_none_iff_exists'.mp hloop
  unfold batchDir at h
  simp only [resolve_of_locate hws] at h
  split_ifs at h
  obtain ⟨root', heq, h⟩ := bind_ok h
  obtain rfl := Except.ok.inj heq
  obtain ⟨target, htarget, h⟩ := bind_ok h
  obtain ⟨_, hunder, h⟩ := bind_ok h
  rw [resolve, hq] at htarget
  obtain rfl := Except.ok.inj htarget
  split at h
  · obtain rfl := Except.ok.inj h
    exact ⟨FileSystem.locate_of_linkFree (FileSystem.realpath_linkFree hq) hreal, ensureUnderWorkspace_ok hunder⟩
  · simp at h

theorem child_of_isFile {real : Path} {name : String} (hdir : fs.nodes.get? real = some .dir)
    (h : isFile fs (real ++ [name]) = true) : real ++ [name] ∈ fs.nodes.keys := by
  obtain ⟨q, f, hq, hf⟩ := isFile_iff.mp h
  apply FileSystem.entry_of_locate (FileSystem.plain_of_dir (by simp [hdir, isDir])) hq
  simp [hf, isDir]

theorem mem_found {dir real : Path} {pattern name : String} {n : ℕ} (hreal : fs.locate dir = some real)
    (hdir : fs.nodes.get? real = some .dir) {enumerate : Path → List String} (hen : Enumerates fs enumerate)
    (hfile : isFile fs (real ++ [name]) = true) (hn : nameNumber py pattern name = some n) :
    (n, dir ++ [name]) ∈ (enumerate dir).filterMap (batchMember py fs pattern dir) := by
  have hmem := ((hen dir real hreal hdir).2 name).mpr (child_of_isFile hdir hfile)
  have hfile' : isFile fs (dir ++ [name]) = true := by
    rw [isFile, FileSystem.stat, FileSystem.locate_append hreal, ← FileSystem.stat, ← isFile]
    exact hfile
  exact List.mem_filterMap.mpr ⟨name, hmem, by simp [batchMember, hfile', hn]⟩

theorem listed_ok {enumerate : Path → List String} {dirPath pattern : String} {workspace : Path}
    {listed : List (ℕ × Path)} (h : listWorkspaceBatchFiles py fs enumerate dirPath pattern workspace = .ok listed) :
    ∃ dir, batchDir py fs dirPath pattern workspace = .ok dir ∧
      listed = orderBy Prod.fst ((enumerate dir).filterMap (batchMember py fs pattern dir)) := by
  unfold listWorkspaceBatchFiles at h
  obtain ⟨dir, hdir, h⟩ := bind_ok h
  simp only at h
  split_ifs at h
  exact ⟨dir, hdir, (Except.ok.inj h).symm⟩

theorem listed_of_found {enumerate : Path → List String} {dirPath pattern : String} {workspace dir : Path}
    (hdir : batchDir py fs dirPath pattern workspace = .ok dir) {e : ℕ × Path}
    (he : e ∈ (enumerate dir).filterMap (batchMember py fs pattern dir)) :
    listWorkspaceBatchFiles py fs enumerate dirPath pattern workspace =
      .ok (orderBy Prod.fst ((enumerate dir).filterMap (batchMember py fs pattern dir))) := by
  rw [listWorkspaceBatchFiles, hdir]
  simp only [bind, Except.bind]
  rw [if_neg (by simpa using List.ne_nil_of_mem he)]

theorem entryInside_iff {root real : Path} {name : String} (hdir : fs.nodes.get? real = some .dir) :
    EntryInside py fs root real name ↔
      ∀ q f text, fs.locate (real ++ [name]) = some q → fs.nodes.get? q = some (.file f) →
        decodeContent py "" f = .ok text → root <+: q := by
  have hplain : ∀ node, fs.nodes.get? (real ++ [name]) = some node → isPlain node = true →
      fs.locate (real ++ [name]) = some (real ++ [name]) := by
    intro node hn hp
    exact FileSystem.locate_of_plain (by simp [FileSystem.Plain, hn, hp])
  unfold EntryInside
  cases hn : fs.nodes.get? (real ++ [name]) with
  | none =>
    refine ⟨fun _ q f text hq hf _ => ?_, fun _ => trivial⟩
    have hkey := child_of_isFile hdir (isFile_iff.mpr ⟨q, f, hq, hf⟩)
    rw [OrderedDict.Dict.mem_keys, hn] at hkey
    simp at hkey
  | some node =>
    cases node with
    | link target => rfl
    | file f =>
      rw [hplain _ hn rfl]
      constructor
      · intro h q g text hq hg htext
        obtain rfl := Option.some.inj hq
        obtain rfl : f = g := by simpa [hn] using hg
        exact h text htext
      · exact fun h text htext => h _ f text rfl hn htext
    | dir =>
      rw [hplain _ hn rfl]
      refine ⟨fun _ q f text hq hf _ => ?_, fun _ => trivial⟩
      obtain rfl := Option.some.inj hq
      simp [hn] at hf
    | special =>
      rw [hplain _ hn rfl]
      refine ⟨fun _ q f text hq hf _ => ?_, fun _ => trivial⟩
      obtain rfl := Option.some.inj hq
      simp [hn] at hf

theorem batchInside_iff {root : Path} {dirPath pattern : String} {workspace dir real : Path}
    (hbatch : batchDir py fs dirPath pattern workspace = .ok dir) (hreal : fs.locate dir = some real)
    (hdir : fs.nodes.get? real = some .dir) {enumerate : Path → List String} (hen : Enumerates fs enumerate) :
    BatchInside py fs root dirPath pattern workspace ↔
      ∀ name n, nameNumber py pattern name = some n → EntryInside py fs root real name := by
  simp only [entryInside_iff hdir]
  constructor
  · intro h name n hn q f text hq hf htext
    have hmem := mem_found hreal hdir hen (isFile_iff.mpr ⟨q, f, hq, hf⟩) hn
    have hq' := hq
    rw [← FileSystem.locate_append hreal] at hq'
    obtain ⟨r, hr, hunder⟩ := h enumerate hen _ (listed_of_found hbatch hmem) _ (orderBy_perm.mem_iff.mpr hmem) text
      (readUtf8TextTarget_of_decode hq' hf htext)
    rw [hq'] at hr
    exact Option.some.inj hr ▸ hunder
  · intro h order horder listed hlisted e he text htext
    obtain ⟨dir', hdir', rfl⟩ := listed_ok hlisted
    obtain rfl := Except.ok.inj (hbatch.symm.trans hdir')
    obtain ⟨name, hname, hmember⟩ := List.mem_filterMap.mp (orderBy_perm.mem_iff.mp he)
    unfold batchMember at hmember
    split_ifs at hmember
    obtain ⟨n, hn, rfl⟩ := Option.map_eq_some_iff.mp hmember
    obtain ⟨q, f, hq, hf, hdecode⟩ := readUtf8TextTarget_ok htext
    refine ⟨q, hq, h name n hn q f text ?_ hf hdecode⟩
    rwa [← FileSystem.locate_append hreal]

variable (fs) in
def modelOrder (reversed : Bool) (p : Path) : List String :=
  let names := ((fs.locate p).map (entriesOf fs.nodes.keys)).getD []
  if reversed then names.reverse else names

theorem enumerates_modelOrder (reversed : Bool) : Enumerates fs (modelOrder fs reversed) := by
  intro p q hq _
  simp only [modelOrder, hq, Option.map_some, Option.getD_some]
  cases reversed with
  | false => exact ⟨entriesOf_nodup fs.nodes.nodup q, fun name => mem_entriesOf⟩
  | true =>
    refine ⟨List.nodup_reverse.mpr (entriesOf_nodup fs.nodes.nodup q), fun name => ?_⟩
    simpa using mem_entriesOf

theorem found_perm {dir real : Path} {pattern : String} {enumerate enumerate' : Path → List String}
    (hreal : fs.locate dir = some real) (hdir : fs.nodes.get? real = some .dir) (hen : Enumerates fs enumerate)
    (hen' : Enumerates fs enumerate') :
    ((enumerate dir).filterMap (batchMember py fs pattern dir)).Perm
      ((enumerate' dir).filterMap (batchMember py fs pattern dir)) := by
  obtain ⟨hnodup, hmem⟩ := hen dir real hreal hdir
  obtain ⟨hnodup', hmem'⟩ := hen' dir real hreal hdir
  apply List.Perm.filterMap
  exact (List.perm_ext_iff_of_nodup hnodup hnodup').mpr fun name => (hmem name).trans (hmem' name).symm

theorem orderBy_ne_of_pair {xs : List (ℕ × Path)} (hn : xs.Nodup) {a b : ℕ × Path} (h : [a, b].Sublist xs)
    (hab : a.1 = b.1) : orderBy Prod.fst xs ≠ orderBy Prod.fst xs.reverse := by
  intro heq
  have hsorted : [a, b].Sublist (orderBy Prod.fst xs) := List.pair_sublist_insertionSort hab.le h
  have hswapped : [b, a].Sublist (orderBy Prod.fst xs.reverse) :=
    List.pair_sublist_insertionSort hab.ge (by simpa using h.reverse)
  rw [← heq] at hswapped
  exact not_sublist_swap (orderBy_perm.nodup_iff.mpr hn) hsorted hswapped

theorem orderBy_ne_of_reverse {xs : List (ℕ × Path)} (hn : xs.Nodup) {a b : ℕ × Path} (ha : a ∈ xs) (hb : b ∈ xs)
    (hab : a.1 = b.1) (hne : a ≠ b) : orderBy Prod.fst xs ≠ orderBy Prod.fst xs.reverse := by
  rcases pair_sublist_of_mem ha hb hne with h | h
  · exact orderBy_ne_of_pair hn h hab
  · exact orderBy_ne_of_pair hn h hab.symm

theorem batchMember_eq {pattern name : String} {dir : Path} {e : ℕ × Path}
    (h : batchMember py fs pattern dir name = some e) :
    isFile fs (dir ++ [name]) = true ∧ nameNumber py pattern name = some e.1 ∧ e.2 = dir ++ [name] := by
  unfold batchMember at h
  split_ifs at h with hfile
  obtain ⟨n, hn, rfl⟩ := Option.map_eq_some_iff.mp h
  exact ⟨hfile, hn, rfl⟩

theorem found_nodup {pattern : String} {dir : Path} {names : List String} (h : names.Nodup) :
    (names.filterMap (batchMember py fs pattern dir)).Nodup := by
  apply h.filterMap
  intro x y e hx hy
  obtain ⟨-, -, hpath⟩ := batchMember_eq (Option.mem_def.mp hx)
  obtain ⟨-, -, hpath'⟩ := batchMember_eq (Option.mem_def.mp hy)
  simpa using hpath.symm.trans hpath'

theorem isFile_append {dir real : Path} (hreal : fs.locate dir = some real) (name : String) :
    isFile fs (dir ++ [name]) = isFile fs (real ++ [name]) := by
  rw [isFile, isFile, FileSystem.stat, FileSystem.stat, FileSystem.locate_append hreal]

theorem orderFree_iff {dirPath pattern : String} {workspace dir real : Path}
    (hbatch : batchDir py fs dirPath pattern workspace = .ok dir) (hreal : fs.locate dir = some real)
    (hdir : fs.nodes.get? real = some .dir) :
    OrderFree py fs dirPath pattern workspace ↔
      ∀ name name' n, isFile fs (real ++ [name]) → isFile fs (real ++ [name']) →
        nameNumber py pattern name = some n → nameNumber py pattern name' = some n → name = name' := by
  constructor
  · intro h name name' n hfile hfile' hn hn'
    by_contra hne
    have hmem := mem_found hreal hdir (enumerates_modelOrder false) hfile hn
    have hmem' := mem_found hreal hdir (enumerates_modelOrder false) hfile' hn'
    have hrev : ((modelOrder fs true) dir).filterMap (batchMember py fs pattern dir) =
        (((modelOrder fs false) dir).filterMap (batchMember py fs pattern dir)).reverse := by
      simp [modelOrder, List.filterMap_reverse]
    have hlists := h _ _ (enumerates_modelOrder false) (enumerates_modelOrder true)
    rw [listed_of_found hbatch hmem, listed_of_found hbatch (hrev ▸ List.mem_reverse.mpr hmem), hrev] at hlists
    have hnodup : ((modelOrder fs false dir).filterMap (batchMember py fs pattern dir)).Nodup :=
      found_nodup (enumerates_modelOrder false dir real hreal hdir).1
    exact orderBy_ne_of_reverse hnodup hmem hmem' rfl (by simpa using hne) (Except.ok.inj hlists)
  · intro h enumerate enumerate' hen hen'
    have hperm : ((enumerate dir).filterMap (batchMember py fs pattern dir)).Perm
        ((enumerate' dir).filterMap (batchMember py fs pattern dir)) := found_perm hreal hdir hen hen'
    rw [listWorkspaceBatchFiles, listWorkspaceBatchFiles, hbatch]
    simp only [bind, Except.bind, List.isEmpty_iff]
    have hempty : (enumerate dir).filterMap (batchMember py fs pattern dir) = [] ↔
        (enumerate' dir).filterMap (batchMember py fs pattern dir) = [] := by
      rw [← List.length_eq_zero_iff, ← List.length_eq_zero_iff, hperm.length_eq]
    rw [orderBy_eq_of_perm hperm]
    · simp only [hempty]
    · intro a ha b hb hab
      obtain ⟨x, -, hx⟩ := List.mem_filterMap.mp ha
      obtain ⟨y, -, hy⟩ := List.mem_filterMap.mp hb
      obtain ⟨hfx, hnx, hpx⟩ := batchMember_eq hx
      obtain ⟨hfy, hny, hpy⟩ := batchMember_eq hy
      rw [isFile_append hreal] at hfx hfy
      obtain rfl := h x y a.1 hfx hfy hnx (hab ▸ hny)
      exact Prod.ext hab (hpx.trans hpy.symm)

/-- What the reading functions deliver stays in the workspace and in order exactly when the entries of the directory
do. -/
theorem workspace_files_sound_iff (py : Python) (fs : Files) (workspace root : Path)
    (hws : fs.locate workspace = some root) (path dirPath pattern : String) :
    (TextInside py fs root path workspace ∧ BatchInside py fs root dirPath pattern workspace ∧
      OrderFree py fs dirPath pattern workspace) ↔ BatchSound py fs root dirPath pattern workspace := by
  rw [and_iff_right (text_inside hws path)]
  cases hbatch : batchDir py fs dirPath pattern workspace with
  | error e =>
    constructor
    · intro _ dir real hdir
      simp [hbatch] at hdir
    · intro _
      constructor
      · intro enumerate _ listed hlisted
        obtain ⟨dir, hdir, -⟩ := listed_ok hlisted
        simp [hbatch] at hdir
      · intro enumerate enumerate' _ _
        rw [listWorkspaceBatchFiles, listWorkspaceBatchFiles, hbatch]
        rfl
  | ok dir =>
    obtain ⟨real, hreal, hdir⟩ := batchDir_ok hbatch
    rw [batchInside_iff hbatch hreal hdir (enumerates_modelOrder false), orderFree_iff hbatch hreal hdir]
    constructor
    · intro h dir' real' hdir' hreal'
      obtain rfl := Except.ok.inj (hbatch.symm.trans hdir')
      obtain rfl := Option.some.inj (hreal.symm.trans hreal')
      exact h
    · exact fun h => h dir real hbatch hreal

/-- Files of one byte each, of which the decoder makes `"x"`, and ASCII digits. -/
def plainPython : Python where
  repr s := "'" ++ s ++ "'"
  decode _ := some "x"
  isDigit c := c.isDigit
  toInt ds := ds.foldl (fun n c => 10 * n + (c.toNat - 48)) 0
  resolveLoop _ := .error "Symlink loop"

/-- The workspace `/w` with the file `/w/in/1.txt` and the link `/w/in/2.txt` to `/w/notes`. -/
def numberedWorkspace : Files where
  nodes :=
    ⟨[([], .dir), (["w"], .dir), (["w", "notes"], .file ⟨1, some [0]⟩), (["w", "in"], .dir),
      (["w", "in", "1.txt"], .file ⟨1, some [0]⟩), (["w", "in", "2.txt"], .link ⟨false, ["..", "notes"]⟩)], by decide⟩
  root := rfl
  parents := by decide
  named := by decide

theorem numberedWorkspace_entry {name : String} (h : ["w", "in"] ++ [name] ∈ numberedWorkspace.nodes.keys) :
    name = "1.txt" ∨ name = "2.txt" := by
  simpa [numberedWorkspace, OrderedDict.Dict.keys] using h

theorem numberedWorkspace_sound :
    BatchSound plainPython numberedWorkspace ["w"] "in" "\x7bn\x7d.txt" ["w"] := by
  intro dir real hdir hreal
  obtain rfl : ["w", "in"] = dir := Except.ok.inj hdir
  obtain rfl : ["w", "in"] = real := Option.some.inj hreal
  constructor
  · intro name n _
    by_cases hentry : ["w", "in"] ++ [name] ∈ numberedWorkspace.nodes.keys
    · rcases numberedWorkspace_entry hentry with rfl | rfl
      · exact fun _ _ => List.prefix_append ["w"] _
      · intro q _ _ hq _ _
        obtain rfl : ["w", "notes"] = q := Option.some.inj hq
        exact List.prefix_append ["w"] _
    · unfold EntryInside
      rw [OrderedDict.Dict.get?_eq_none.mpr hentry]
      trivial
  · intro name name' n hname hname' hnumber hnumber'
    have hone : nameNumber plainPython "\x7bn\x7d.txt" "1.txt" = some 1 := rfl
    have htwo : nameNumber plainPython "\x7bn\x7d.txt" "2.txt" = some 2 := rfl
    have hdir : numberedWorkspace.nodes.get? ["w", "in"] = some .dir := rfl
    rcases numberedWorkspace_entry (child_of_isFile hdir hname) with rfl | rfl <;>
      rcases numberedWorkspace_entry (child_of_isFile hdir hname') with rfl | rfl
    · rfl
    · cases (hone.symm.trans hnumber).trans (hnumber'.symm.trans htwo)
    · cases (hone.symm.trans hnumber').trans (hnumber.symm.trans htwo)
    · rfl

theorem numberedWorkspace_inside :
    TextInside plainPython numberedWorkspace ["w"] "in/1.txt" ["w"] ∧
      BatchInside plainPython numberedWorkspace ["w"] "in" "\x7bn\x7d.txt" ["w"] ∧
      OrderFree plainPython numberedWorkspace "in" "\x7bn\x7d.txt" ["w"] :=
  (workspace_files_sound_iff plainPython numberedWorkspace ["w"] ["w"] rfl "in/1.txt" "in" "\x7bn\x7d.txt").mpr
    numberedWorkspace_sound

/-- The workspace `/w` with the link `/w/in/1.txt` to `/secret`. -/
def linkedWorkspace : Files where
  nodes :=
    ⟨[([], .dir), (["secret"], .file ⟨1, some [0]⟩), (["w"], .dir), (["w", "in"], .dir),
      (["w", "in", "1.txt"], .link ⟨true, ["secret"]⟩)], by decide⟩
  root := rfl
  parents := by decide
  named := by decide

theorem linked_batch_leaves_workspace :
    ¬ BatchInside plainPython linkedWorkspace ["w"] "in" "\x7bn\x7d.txt" ["w"] := by
  intro h
  have hlisted : listWorkspaceBatchFiles plainPython linkedWorkspace (modelOrder linkedWorkspace false) "in"
      "\x7bn\x7d.txt" ["w"] = .ok [(1, ["w", "in", "1.txt"])] := rfl
  have htext : readBatchFileText plainPython linkedWorkspace ["w", "in", "1.txt"] = .ok "x" := rfl
  obtain ⟨q, hq, hunder⟩ := h _ (enumerates_modelOrder false) _ hlisted _ (List.mem_singleton_self _) _ htext
  have hsecret : linkedWorkspace.locate ["w", "in", "1.txt"] = some ["secret"] := rfl
  obtain rfl := Option.some.inj (hsecret.symm.trans hq)
  exact absurd hunder (by decide)

end GraphSkillRuntime.WorkspaceFiles
