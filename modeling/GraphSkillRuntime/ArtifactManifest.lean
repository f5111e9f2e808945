import GraphSkillRuntime.Compaction
import GraphSkillRuntime.LinkedPaths
import GraphSkillRuntime.PyData

/-!
The files of declared artifacts: one file per declaration or per item, named after its stem and the time of the run,
and the archive of the files that stood there before.
-/

namespace GraphSkillRuntime.ArtifactManifest

open OrderedDict PyData Compaction
open LinkedPaths (entriesOf mem_entriesOf entriesOf_nodup entriesOf_pair not_sublist_swap pair_sublist_of_mem)

abbrev Name := List Char

abbrev Path := List Name

inductive Node where
  | dir
  | file (text : String)
  deriving DecidableEq

abbrev Disk := Dict Path Node

inductive Failure where
  | fatal (code detail : String)
  | value (message : String)
  | os (message : String)
  deriving DecidableEq

def fileAt (disk : Disk) (p : Path) : Option String :=
  match disk.get? p with
  | some (.file text) => some text
  | _ => none

def ways (p : Path) : List Path := (List.range (p.length + 1)).map p.take

def mkdir (disk : Disk) (p : Path) : Except Failure Disk :=
  match disk.get? p with
  | none => .ok (disk.set p .dir)
  | some .dir => .ok disk
  | some (.file _) => .error (.os "File exists")

/-- `mkdir(parents=True, exist_ok=True)`. -/
def mkdirs (disk : Disk) (p : Path) : Except Failure Disk := (ways p).foldlM mkdir disk

def writeText (disk : Disk) (p : Path) (text : String) : Except Failure Disk :=
  match disk.get? p with
  | some .dir => .error (.os "Is a directory")
  | _ => .ok (disk.set p (.file text))

/-- `Path.replace` of a file. -/
def replace (disk : Disk) (source target : Path) : Except Failure Disk :=
  match disk.get? source, disk.get? target with
  | none, _ => .error (.os "No such file or directory")
  | some _, some .dir => .error (.os "Is a directory")
  | some node, _ => .ok ((disk.erase source).set target node)

def iterdir (disk : Disk) (p : Path) : List Name := entriesOf disk.keys p

/-! Declarations and the files that they ask for. -/

structure Python (F : Type) where
  isDigit : Char → Bool
  str : Data F → String
  dumps : Data F → Except Failure String
  typeName : Data F → String

inductive Mode where
  | single
  | perItem
  deriving DecidableEq

inductive Format where
  | json
  | md
  deriving DecidableEq

def Format.ext : Format → Name
  | .json => ['j', 's', 'o', 'n']
  | .md => ['m', 'd']

/-- The pattern `^[A-Za-z0-9][A-Za-z0-9._-]*$`. -/
def isStem : Name → Bool
  | [] => false
  | c :: cs => c.isAlphanum && cs.all fun d => d.isAlphanum || d = '.' || d = '_' || d = '-'

structure ArtifactDeclaration where
  artifactId : String
  stem : Name
  fields : List String
  mode : Mode
  format : Format
  stem_form : isStem stem = true
  fields_nonempty : fields.isEmpty = false
  fields_unique : fields.Nodup

section

variable {F : Type}

abbrev Blackboard (F : Type) := Dict String (Data F)

/-- One file to write: `number` is the item's, where the declaration has a file per item. -/
structure Job (F : Type) where
  stem : Name
  number : Option ℕ
  format : Format
  payload : Data F

def itemNumber (element : Data F) (position : ℕ) : ℕ :=
  match element with
  | .dict kvs =>
    match (kvs.find? fun e => e.1.str? = some "chapter_number").map Prod.snd with
    | some (.int z) => if 0 ≤ z then z.toNat else position + 1
    | some (.bool b) => b.toNat
    | _ => position + 1
  | _ => position + 1

def dictOf (kvs : List (String × Data F)) : Data F := .dict (kvs.map fun e => (.str e.1, e.2))

def fieldMap (fields : List String) (blackboard : Blackboard F) : List (String × Data F) :=
  fields.filterMap fun f => (blackboard.get? f).map (f, ·)

def listOf (py : Python F) (stem : Name) (field : String) : Data F → Except Failure (List (Data F))
  | .list xs => .ok xs
  | v =>
    .error (.fatal "[F-v3-runtime-state-mapping-failed]"
      ("artifact '" ++ String.ofList stem ++ "' declares mode per-item but blackboard field '" ++ field ++ "' is " ++
        py.typeName v ++ ", not a list"))

def itemCount (lists : List (String × List (Data F))) : ℕ := (lists.map fun e => e.2.length).foldl max 0

def itemPayload (lists : List (String × List (Data F))) (i : ℕ) : List (String × Data F) :=
  lists.filterMap fun e => e.2[i]?.map (e.1, ·)

def firstValue (payload : List (String × Data F)) : Data F := (payload.head?.map Prod.snd).getD .null

def payloadFor (format : Format) (payload : List (String × Data F)) : Data F :=
  match format with
  | .md => firstValue payload
  | .json => dictOf payload

def perItemLists (py : Python F) (stem : Name) (fields : List String) (blackboard : Blackboard F) :
    Except Failure (List (String × List (Data F))) :=
  (fieldMap fields blackboard).mapM fun e => (listOf py stem e.1 e.2).map (e.1, ·)

def perItemRows (lists : List (String × List (Data F))) : List (ℕ × List (String × Data F)) :=
  (List.range (itemCount lists)).map fun i =>
    (itemNumber (firstValue (itemPayload lists i)) i, itemPayload lists i)

def jobsOf (py : Python F) (blackboard : Blackboard F) (spec : ArtifactDeclaration) :
    Except Failure (List (Job F)) :=
  match spec.mode with
  | .perItem =>
    (perItemLists py spec.stem spec.fields blackboard).map fun lists =>
      (perItemRows lists).map fun row =>
        { stem := spec.stem, number := some row.1, format := spec.format, payload := payloadFor spec.format row.2 }
  | .single =>
    match fieldMap spec.fields blackboard with
    | [] => .ok []
    | e :: es =>
      .ok [{ stem := spec.stem, number := none, format := spec.format, payload := payloadFor spec.format (e :: es) }]

def isStamp (py : Python F) (cs : Name) : Bool :=
  cs.length == 15 && (cs.take 8).all py.isDigit && cs[8]? == some '_' && (cs.drop 9).all py.isDigit

def latestMark : Name := ['_', 'l', 'a', 't', 'e', 's', 't', '_']

def archiveMark : Name := ['_', 'v']

def latestName (stem stamp ext : Name) : Name := stem ++ (latestMark ++ (stamp ++ '.' :: ext))

def historyName (stem stamp ext : Name) : Name := stem ++ (archiveMark ++ (stamp ++ '.' :: ext))

def history : Name := ['h', 'i', 's', 't', 'o', 'r', 'y']

/-- The group of the pattern `^stem_latest_(\d{8}_\d{6})\.ext$`; `$` also matches before a final line break. -/
def latestStamp (py : Python F) (stem ext name : Name) : Option Name :=
  if stem ++ latestMark <+: name then
    let rest := name.drop (stem ++ latestMark).length
    let stamp := rest.take 15
    if isStamp py stamp ∧ (rest.drop 15 = '.' :: ext ∨ rest.drop 15 = '.' :: ext ++ ['\n']) then some stamp else none
  else
    none

def Job.dir (job : Job F) : Path :=
  match job.number with
  | none => []
  | some _ => [job.stem]

def Job.fileStem (job : Job F) : Name :=
  match job.number with
  | none => job.stem
  | some n => job.stem ++ '_' :: paddedNumber n

def Job.target (job : Job F) (ts : Name) : Path := job.dir ++ [latestName job.fileStem ts job.format.ext]

def archiveEntry (py : Python F) (dir : Path) (stem ext : Name) (disk : Disk) (name : Name) : Except Failure Disk :=
  match latestStamp py stem ext name with
  | none => .ok disk
  | some stamp =>
    match disk.get? (dir ++ [name]) with
    | some (.file _) => do
      let disk ← mkdirs disk (dir ++ [history])
      replace disk (dir ++ [name]) (dir ++ [history, historyName stem stamp ext])
    | _ => .ok disk

def archivePreviousLatest (py : Python F) (dir : Path) (stem ext : Name) (disk : Disk) : Except Failure Disk :=
  if disk.get? dir = some .dir then (iterdir disk dir).foldlM (archiveEntry py dir stem ext) disk else .ok disk

def render (py : Python F) (job : Job F) : Except Failure String :=
  match job.format with
  | .md => .ok (py.str job.payload)
  | .json => (py.dumps job.payload).map (· ++ "\n")

def writePayload (py : Python F) (ts : Name) (disk : Disk) (job : Job F) : Except Failure Disk := do
  let disk ← mkdirs disk job.dir
  let text ← render py job
  writeText disk (job.target ts) text

def writeJob (py : Python F) (ts : Name) (disk : Disk) (job : Job F) : Except Failure Disk := do
  let disk ← archivePreviousLatest py job.dir job.fileStem job.format.ext disk
  writePayload py ts disk job

def writeDeclaration (py : Python F) (ts : Name) (blackboard : Blackboard F) (state : List Path × Disk)
    (spec : ArtifactDeclaration) : Except Failure (List Path × Disk) := do
  let jobs ← jobsOf py blackboard spec
  let disk ← jobs.foldlM (writeJob py ts) state.2
  return (state.1 ++ jobs.map (·.target ts), disk)

/-- `ts` has the form of `strftime("%Y%m%d_%H%M%S")`. -/
def writeManifestArtifacts (py : Python F) (ts : {cs : Name // isStamp py cs = true}) (blackboard : Blackboard F)
    (disk : Disk) (artifacts : List ArtifactDeclaration) : Except Failure (List Path × Disk) :=
  artifacts.foldlM (writeDeclaration py ts.1 blackboard) ([], disk)

theorem fileAt_set (disk : Disk) (p q : Path) (node : Node) :
    fileAt (disk.set p node) q = if p = q then (match node with | .file text => some text | .dir => none)
      else fileAt disk q := by
  unfold fileAt
  rw [Dict.get?_set]
  by_cases h : p = q
  · cases node <;> simp [h]
  · simp [h]

theorem fileAt_erase (disk : Disk) (p q : Path) :
    fileAt (disk.erase p) q = if q = p then none else fileAt disk q := by
  unfold fileAt
  rw [Dict.get?_erase]
  by_cases h : q = p <;> simp [h]

theorem fileAt_eq_some {disk : Disk} {p : Path} {text : String} :
    fileAt disk p = some text ↔ disk.get? p = some (.file text) := by
  unfold fileAt
  split
  · rename_i text' h
    simp [h]
  · rename_i h
    simp only [reduceCtorEq, false_iff]
    exact h text

theorem keys_set_sublist (disk : Disk) (p : Path) (node : Node) : disk.keys.Sublist (disk.set p node).keys := by
  have h : ∃ ks, (disk.set p node).keys = disk.keys ++ ks := by
    simp only [Dict.set, Dict.update, Dict.keys, Dict.mapValues, List.map_append, List.map_map, Function.comp_def]
    exact ⟨_, rfl⟩
  obtain ⟨ks, hks⟩ := h
  rw [hks]
  exact List.sublist_append_left _ _

theorem keys_erase (disk : Disk) (p : Path) : (disk.erase p).keys = disk.keys.filter fun q => q ≠ p := by
  simp only [Dict.erase, Dict.restrict, Dict.filter, Dict.keys, List.filter_map]
  rfl

/-- Directories stay, and outside `P` so do the files and their order. -/
structure Frame (P : Path → Prop) (disk disk' : Disk) : Prop where
  files : ∀ p, ¬ P p → fileAt disk' p = fileAt disk p
  dirs : ∀ p, disk.get? p = some .dir → disk'.get? p = some .dir
  order : ∀ p q, ¬ P p → ¬ P q → [p, q].Sublist disk.keys → [p, q].Sublist disk'.keys

theorem Frame.refl (P : Path → Prop) (disk : Disk) : Frame P disk disk :=
  ⟨fun _ _ => rfl, fun _ h => h, fun _ _ _ _ h => h⟩

theorem Frame.trans {P : Path → Prop} {a b c : Disk} (h : Frame P a b) (h' : Frame P b c) : Frame P a c where
  files p hp := (h'.files p hp).trans (h.files p hp)
  dirs p hp := h'.dirs p (h.dirs p hp)
  order p q hp hq hsub := h'.order p q hp hq (h.order p q hp hq hsub)

theorem Frame.mono {P Q : Path → Prop} {a b : Disk} (h : Frame P a b) (hsub : ∀ p, P p → Q p) : Frame Q a b where
  files p hp := h.files p fun hP => hp (hsub p hP)
  dirs := h.dirs
  order p q hp hq := h.order p q (fun hP => hp (hsub p hP)) fun hP => hq (hsub q hP)

theorem frame_foldlM {α : Type} {P : Path → Prop} {f : Disk → α → Except Failure Disk} {xs : List α}
    (hf : ∀ disk x disk', x ∈ xs → f disk x = .ok disk' → Frame P disk disk') {disk disk' : Disk}
    (h : xs.foldlM f disk = .ok disk') : Frame P disk disk' := by
  induction xs generalizing disk with
  | nil =>
    obtain rfl := Except.ok.inj h
    exact Frame.refl P disk
  | cons x xs ih =>
    rw [List.foldlM_cons] at h
    obtain ⟨next, hx, hxs⟩ := bind_ok h
    exact (hf disk x next (by simp) hx).trans (ih (fun d y d' hy => hf d y d' (by simp [hy])) hxs)

theorem mkdir_frame {disk disk' : Disk} {p : Path} (h : mkdir disk p = .ok disk') :
    Frame (fun _ => False) disk disk' := by
  unfold mkdir at h
  split at h
  · rename_i hp
    obtain rfl := Except.ok.inj h
    constructor
    · intro q _
      rw [fileAt_set]
      split_ifs with hq
      · simp [fileAt, ← hq, hp]
      · rfl
    · intro q hq
      have hne : p ≠ q := by
        rintro rfl
        simp [hp] at hq
      rw [Dict.get?_set, if_neg hne, hq]
    · exact fun q r _ _ hsub => hsub.trans (keys_set_sublist disk p .dir)
  · obtain rfl := Except.ok.inj h
    exact Frame.refl _ disk
  · simp at h

theorem mkdirs_frame {disk disk' : Disk} {p : Path} (h : mkdirs disk p = .ok disk') :
    Frame (fun _ => False) disk disk' :=
  frame_foldlM (fun _ _ _ _ => mkdir_frame) h

theorem writeText_ok {disk disk' : Disk} {p : Path} {text : String} (h : writeText disk p text = .ok disk') :
    Frame (· = p) disk disk' ∧ fileAt disk' p = some text := by
  unfold writeText at h
  split at h
  · simp at h
  · rename_i hdir
    obtain rfl := Except.ok.inj h
    refine ⟨⟨?_, ?_, ?_⟩, by simp [fileAt_set]⟩
    · intro q hq
      rw [fileAt_set, if_neg (Ne.symm hq)]
    · intro q hq
      have hne : p ≠ q := by
        rintro rfl
        exact hdir hq
      rw [Dict.get?_set, if_neg hne, hq]
    · exact fun q r _ _ hsub => hsub.trans (keys_set_sublist disk p _)

theorem replace_ok {disk disk' : Disk} {source target : Path} {text : String}
    (hsource : disk.get? source = some (.file text)) (hne : source ≠ target)
    (h : replace disk source target = .ok disk') :
    Frame (fun p => p = source ∨ p = target) disk disk' ∧ fileAt disk' source = none ∧
      fileAt disk' target = some text := by
  unfold replace at h
  rw [hsource] at h
  split at h
  · simp at *
  · simp at h
  · rename_i node hnode hdir
    obtain rfl := Option.some.inj hnode
    obtain rfl := Except.ok.inj h
    refine ⟨⟨?_, ?_, ?_⟩, ?_, by simp [fileAt_set]⟩
    · rintro q hq
      obtain ⟨hs, ht⟩ := not_or.mp hq
      rw [fileAt_set, if_neg (Ne.symm ht), fileAt_erase, if_neg hs]
    · intro q hq
      have hs : q ≠ source := by
        rintro rfl
        simp [hsource] at hq
      have ht : target ≠ q := by
        rintro rfl
        exact hdir hq
      rw [Dict.get?_set, if_neg ht, Dict.get?_erase, if_neg hs, hq]
    · intro q r hq hr hsub
      have hsub' : [q, r].Sublist (disk.erase source).keys := by
        rw [keys_erase]
        have hfilter := hsub.filter fun k => k ≠ source
        obtain ⟨hqs, -⟩ := not_or.mp hq
        obtain ⟨hrs, -⟩ := not_or.mp hr
        simpa [hqs, hrs] using hfilter
      exact hsub'.trans (keys_set_sublist _ _ _)
    · rw [fileAt_set, if_neg (Ne.symm hne), fileAt_erase, if_pos rfl]

theorem length_of_isStamp {py : Python F} {t : Name} (h : isStamp py t = true) : t.length = 15 := by
  simp only [isStamp, Bool.and_eq_true, beq_iff_eq] at h
  exact h.1.1.1

theorem ext_injective {f g : Format} (h : f.ext.getLast? = g.ext.getLast?) : f = g := by
  cases f <;> cases g <;> simp_all [Format.ext]

theorem name_parts {s s' t t' : Name} {f f' : Format} (ht : t.length = t'.length)
    (h : s ++ (t ++ '.' :: f.ext) = s' ++ (t' ++ '.' :: f'.ext)) : s = s' ∧ t = t' ∧ f = f' := by
  have hlast (s t : Name) (f : Format) : (s ++ (t ++ '.' :: f.ext)).getLast? = f.ext.getLast? := by
    cases f <;> simp [Format.ext, List.getLast?_append]
  obtain rfl : f = f' := ext_injective (by rw [← hlast s t f, h, hlast])
  obtain ⟨hs, htail⟩ := List.append_inj' h (by simp [ht])
  exact ⟨hs, (List.append_inj' htail rfl).1, rfl⟩

theorem latestName_eq (s t ext : Name) : latestName s t ext = (s ++ latestMark) ++ (t ++ '.' :: ext) := by
  simp [latestName]

theorem historyName_eq (s t ext : Name) : historyName s t ext = (s ++ archiveMark) ++ (t ++ '.' :: ext) := by
  simp [historyName]

theorem latestName_injective {s s' t t' : Name} {f f' : Format} (ht : t.length = t'.length)
    (h : latestName s t f.ext = latestName s' t' f'.ext) : s = s' ∧ t = t' ∧ f = f' := by
  rw [latestName_eq, latestName_eq] at h
  obtain ⟨hs, htt, hf⟩ := name_parts ht h
  exact ⟨List.append_cancel_right hs, htt, hf⟩

theorem historyName_injective {s s' t t' : Name} {f f' : Format} (ht : t.length = t'.length)
    (h : historyName s t f.ext = historyName s' t' f'.ext) : s = s' ∧ t = t' ∧ f = f' := by
  rw [historyName_eq, historyName_eq] at h
  obtain ⟨hs, htt, hf⟩ := name_parts ht h
  exact ⟨List.append_cancel_right hs, htt, hf⟩

theorem latestName_ne_historyName {s s' t t' : Name} {f f' : Format} (ht : t.length = t'.length) :
    latestName s t f.ext ≠ historyName s' t' f'.ext := by
  intro h
  rw [latestName_eq, historyName_eq] at h
  have hlast := congrArg List.getLast? (name_parts ht h).1
  simp [latestMark, archiveMark, List.getLast?_append] at hlast

theorem getLast_latestName (s t : Name) (f : Format) : (latestName s t f.ext).getLast? ≠ some '\n' := by
  cases f <;> simp [latestName, Format.ext, List.getLast?_append]

theorem getLast_historyName (s t : Name) (f : Format) : (historyName s t f.ext).getLast? ≠ some '\n' := by
  cases f <;> simp [historyName, Format.ext, List.getLast?_append]

theorem latestStamp_iff {py : Python F} {s t ext name : Name} :
    latestStamp py s ext name = some t ↔
      isStamp py t = true ∧ (name = latestName s t ext ∨ name = latestName s t ext ++ ['\n']) := by
  unfold latestStamp
  constructor
  · intro h
    split_ifs at h with hmark
    obtain ⟨rest, rfl⟩ := hmark
    simp only [List.drop_left] at h
    split_ifs at h with hrest
    obtain rfl := Option.some.inj h
    obtain ⟨hstamp, hend⟩ := hrest
    refine ⟨hstamp, ?_⟩
    rw [latestName_eq]
    rcases hend with hend | hend
    · left
      rw [← hend, List.take_append_drop]
    · right
      calc (s ++ latestMark) ++ rest
          = (s ++ latestMark) ++ (rest.take 15 ++ rest.drop 15) := by rw [List.take_append_drop]
        _ = (s ++ latestMark) ++ (rest.take 15 ++ '.' :: ext) ++ ['\n'] := by
          rw [hend]
          simp
  · rintro ⟨hstamp, hname⟩
    have hlen := length_of_isStamp hstamp
    have htail : ∃ tail, (tail = '.' :: ext ∨ tail = '.' :: ext ++ ['\n']) ∧
        name = (s ++ latestMark) ++ (t ++ tail) := by
      rw [latestName_eq] at hname
      rcases hname with rfl | rfl
      · exact ⟨_, .inl rfl, rfl⟩
      · exact ⟨_, .inr rfl, by simp⟩
    obtain ⟨tail, hend, rfl⟩ := htail
    rw [if_pos (List.prefix_append _ _)]
    simp only [List.drop_left, ← hlen, List.take_left]
    rw [if_pos ⟨hstamp, hend⟩]

structure Slot where
  dir : Path
  stem : Name
  format : Format
  deriving DecidableEq

namespace Slot

def latest (k : Slot) (t : Name) : Path := k.dir ++ [latestName k.stem t k.format.ext]

def twin (k : Slot) (t : Name) : Path := k.dir ++ [latestName k.stem t k.format.ext ++ ['\n']]

def archived (k : Slot) (t : Name) : Path := k.dir ++ [history, historyName k.stem t k.format.ext]

end Slot

def Job.slot (job : Job F) : Slot := ⟨job.dir, job.fileStem, job.format⟩

def Owned (py : Python F) (k : Slot) (p : Path) : Prop :=
  ∃ t, isStamp py t = true ∧ (p = k.latest t ∨ p = k.twin t ∨ p = k.archived t)

theorem append_singleton_injective {d d' : Path} {n n' : Name} (h : d ++ [n] = d' ++ [n']) : d = d' ∧ n = n' := by
  obtain ⟨hd, hn⟩ := List.append_inj' h rfl
  exact ⟨hd, by simpa using hn⟩

theorem archived_eq (k : Slot) (t : Name) :
    k.archived t = (k.dir ++ [history]) ++ [historyName k.stem t k.format.ext] := by
  simp [Slot.archived]

theorem slot_of_name {k k' : Slot} {t t' : Name} (ht : t.length = t'.length) (hd : k.dir = k'.dir)
    (h : latestName k.stem t k.format.ext = latestName k'.stem t' k'.format.ext) : k = k' := by
  obtain ⟨hs, -, hf⟩ := latestName_injective ht h
  cases k
  cases k'
  simp_all

theorem owned_unique {py : Python F} {k k' : Slot} {p : Path} (h : Owned py k p) (h' : Owned py k' p) : k = k' := by
  obtain ⟨t, hstamp, hp⟩ := h
  obtain ⟨t', hstamp', hp'⟩ := h'
  have ht : t.length = t'.length := by rw [length_of_isStamp hstamp, length_of_isStamp hstamp']
  rcases hp with rfl | rfl | rfl <;> rcases hp' with hp' | hp' | hp'
  · obtain ⟨hd, hn⟩ := append_singleton_injective hp'
    exact slot_of_name ht hd hn
  · have hn := congrArg List.getLast? (append_singleton_injective hp').2
    rw [List.getLast?_concat] at hn
    exact absurd hn (getLast_latestName _ _ _)
  · rw [archived_eq] at hp'
    exact absurd (append_singleton_injective hp').2 (latestName_ne_historyName ht)
  · have hn := congrArg List.getLast? (append_singleton_injective hp').2
    rw [List.getLast?_concat] at hn
    exact absurd hn.symm (getLast_latestName _ _ _)
  · obtain ⟨hd, hn⟩ := append_singleton_injective hp'
    exact slot_of_name ht hd (List.append_cancel_right hn)
  · rw [archived_eq] at hp'
    have hn := congrArg List.getLast? (append_singleton_injective hp').2
    rw [List.getLast?_concat] at hn
    exact absurd hn.symm (getLast_historyName _ _ _)
  · rw [archived_eq] at hp'
    exact absurd (append_singleton_injective hp').2.symm (latestName_ne_historyName ht.symm)
  · rw [archived_eq] at hp'
    have hn := congrArg List.getLast? (append_singleton_injective hp').2
    rw [List.getLast?_concat] at hn
    exact absurd hn (getLast_historyName _ _ _)
  · rw [archived_eq, archived_eq] at hp'
    obtain ⟨hd, hn⟩ := append_singleton_injective hp'
    obtain ⟨hs, -, hf⟩ := historyName_injective ht hn
    cases k
    cases k'
    simp_all

theorem archived_ne_child (k : Slot) (t n : Name) (h : k.archived t = k.dir ++ [n]) : False := by
  have hlen := congrArg List.length h
  simp [Slot.archived] at hlen

theorem archived_injective {py : Python F} {k : Slot} {t t' : Name} (ht : isStamp py t = true)
    (ht' : isStamp py t' = true) (h : k.archived t = k.archived t') : t = t' := by
  rw [archived_eq, archived_eq] at h
  exact (historyName_injective (by rw [length_of_isStamp ht, length_of_isStamp ht'])
    (append_singleton_injective h).2).2.1

theorem archiveEntry_ok {py : Python F} {k : Slot} {disk disk' : Disk} {name t : Name}
    (ht : latestStamp py k.stem k.format.ext name = some t)
    (h : archiveEntry py k.dir k.stem k.format.ext disk name = .ok disk') :
    Frame (fun p => p = k.dir ++ [name] ∨ p = k.archived t) disk disk' ∧ fileAt disk' (k.dir ++ [name]) = none ∧
      fileAt disk' (k.archived t) = (fileAt disk (k.dir ++ [name])).or (fileAt disk (k.archived t)) := by
  unfold archiveEntry at h
  rw [ht] at h
  simp only at h
  split at h
  · rename_i text hfile
    obtain ⟨next, hmk, h⟩ := bind_ok h
    have hframe := mkdirs_frame hmk
    have hfile' : next.get? (k.dir ++ [name]) = some (.file text) := by
      rw [← fileAt_eq_some, hframe.files _ id, fileAt_eq_some, hfile]
    obtain ⟨hmove, hsource, htarget⟩ :=
      replace_ok hfile' (fun he => archived_ne_child k t name he.symm) h
    refine ⟨(hframe.mono fun _ => False.elim).trans hmove, hsource, ?_⟩
    rw [fileAt_eq_some.mpr hfile]
    exact htarget
  · rename_i hfile
    obtain rfl := Except.ok.inj h
    have hnone : fileAt disk (k.dir ++ [name]) = none := by
      rw [Option.eq_none_iff_forall_ne_some]
      exact fun text ht => hfile text (fileAt_eq_some.mp ht)
    exact ⟨Frame.refl _ _, hnone, by rw [hnone, Option.none_or]⟩

theorem archiveEntry_other {py : Python F} {dir : Path} {stem ext : Name} {disk disk' : Disk} {name : Name}
    (ht : latestStamp py stem ext name = none) (h : archiveEntry py dir stem ext disk name = .ok disk') :
    disk' = disk := by
  rw [archiveEntry, ht] at h
  exact (Except.ok.inj h).symm

def moved (py : Python F) (k : Slot) (t : Name) (disk : Disk) (names : List Name) : List String :=
  (names.filter fun n => latestStamp py k.stem k.format.ext n = some t).filterMap fun n => fileAt disk (k.dir ++ [n])

theorem owned_of_stamp {py : Python F} {k : Slot} {name t : Name}
    (ht : latestStamp py k.stem k.format.ext name = some t) : Owned py k (k.dir ++ [name]) := by
  obtain ⟨hstamp, rfl | rfl⟩ := latestStamp_iff.mp ht
  · exact ⟨t, hstamp, .inl rfl⟩
  · exact ⟨t, hstamp, .inr (.inl rfl)⟩

theorem owned_archived {py : Python F} {k : Slot} {t : Name} (ht : isStamp py t = true) :
    Owned py k (k.archived t) := ⟨t, ht, .inr (.inr rfl)⟩

theorem moved_congr {py : Python F} {k : Slot} {t : Name} {disk disk' : Disk} {names : List Name}
    (h : ∀ n ∈ names, fileAt disk' (k.dir ++ [n]) = fileAt disk (k.dir ++ [n])) :
    moved py k t disk' names = moved py k t disk names := by
  unfold moved
  apply List.filterMap_congr
  intro n hn
  exact h n (List.mem_of_mem_filter hn)

def Touched (py : Python F) (k : Slot) (names : List Name) (p : Path) : Prop :=
  (∃ n ∈ names, (latestStamp py k.stem k.format.ext n).isSome ∧ p = k.dir ++ [n]) ∨
    ∃ t, isStamp py t = true ∧ p = k.archived t

theorem Touched.owned {py : Python F} {k : Slot} {names : List Name} {p : Path} (h : Touched py k names p) :
    Owned py k p := by
  rcases h with ⟨n, -, hsome, rfl⟩ | ⟨t, ht, rfl⟩
  · obtain ⟨t, ht⟩ := Option.isSome_iff_exists.mp hsome
    exact owned_of_stamp ht
  · exact owned_archived ht

theorem archive_fold {py : Python F} {k : Slot} {names : List Name} (hn : names.Nodup) {disk disk' : Disk}
    (h : names.foldlM (archiveEntry py k.dir k.stem k.format.ext) disk = .ok disk') :
    Frame (Touched py k names) disk disk' ∧
      (∀ n ∈ names, (latestStamp py k.stem k.format.ext n).isSome → fileAt disk' (k.dir ++ [n]) = none) ∧
      ∀ t, isStamp py t = true →
        fileAt disk' (k.archived t) = (moved py k t disk names).getLast?.or (fileAt disk (k.archived t)) := by
  induction names generalizing disk with
  | nil =>
    obtain rfl := Except.ok.inj h
    exact ⟨Frame.refl _ _, by simp, by simp [moved]⟩
  | cons name names ih =>
    rw [List.foldlM_cons] at h
    obtain ⟨next, hentry, hrest⟩ := bind_ok h
    obtain ⟨hname, hnodup⟩ := List.nodup_cons.mp hn
    obtain ⟨hframe, hgone, hhist⟩ := ih hnodup hrest
    have htouched : ∀ p, Touched py k names p → Touched py k (name :: names) p := by
      rintro p (⟨n, hmem, hsome, rfl⟩ | ht)
      · exact .inl ⟨n, by simp [hmem], hsome, rfl⟩
      · exact .inr ht
    cases hstamp : latestStamp py k.stem k.format.ext name with
    | none =>
      obtain rfl := archiveEntry_other hstamp hentry
      refine ⟨hframe.mono htouched, ?_, ?_⟩
      · intro n hmem hsome
        rcases List.mem_cons.mp hmem with rfl | hmem
        · simp [hstamp] at hsome
        · exact hgone n hmem hsome
      · intro t ht
        rw [hhist t ht]
        simp [moved, hstamp]
    | some t₀ =>
      have ht₀ := (latestStamp_iff.mp hstamp).1
      obtain ⟨hmove, hsource, htarget⟩ := archiveEntry_ok hstamp hentry
      have hmove' : Frame (Touched py k (name :: names)) disk next := by
        apply hmove.mono
        rintro p (rfl | rfl)
        · exact .inl ⟨name, by simp, by simp [hstamp], rfl⟩
        · exact .inr ⟨t₀, ht₀, rfl⟩
      have hsame : ∀ n ∈ names, fileAt next (k.dir ++ [n]) = fileAt disk (k.dir ++ [n]) := by
        intro n hmem
        apply hmove.files
        rintro (he | he)
        · exact hname ((append_singleton_injective he).2 ▸ hmem)
        · exact archived_ne_child k t₀ n he.symm
      refine ⟨hmove'.trans (hframe.mono htouched), ?_, ?_⟩
      · intro n hmem hsome
        rcases List.mem_cons.mp hmem with rfl | hmem
        · rw [hframe.files, hsource]
          rintro (⟨n', hmem', -, he⟩ | ⟨t, -, he⟩)
          · exact hname ((append_singleton_injective he).2 ▸ hmem')
          · exact archived_ne_child k t n he.symm
        · exact hgone n hmem hsome
      · intro t ht
        rw [hhist t ht, moved_congr hsame]
        by_cases he : t = t₀
        · subst he
          rw [htarget]
          cases hfile : fileAt disk (k.dir ++ [name]) with
          | none => simp [moved, hstamp, hfile]
          | some text => simp [moved, hstamp, hfile, List.getLast?_cons]
        · rw [hmove.files]
          · simp [moved, hstamp, Ne.symm he]
          · rintro (hp | hp)
            · exact archived_ne_child k t name hp
            · exact he (archived_injective ht ht₀ hp)

theorem archivePreviousLatest_frame {py : Python F} {k : Slot} {disk disk' : Disk}
    (h : archivePreviousLatest py k.dir k.stem k.format.ext disk = .ok disk') : Frame (Owned py k) disk disk' := by
  unfold archivePreviousLatest at h
  split_ifs at h
  · exact (archive_fold (entriesOf_nodup disk.nodup k.dir) h).1.mono fun _ => Touched.owned
  · obtain rfl := Except.ok.inj h
    exact Frame.refl _ _

theorem owned_target {py : Python F} (job : Job F) {ts : Name} (hts : isStamp py ts = true) :
    Owned py job.slot (job.target ts) := ⟨ts, hts, .inl rfl⟩

theorem writePayload_ok {py : Python F} {ts : Name} {disk disk' : Disk} {job : Job F}
    (h : writePayload py ts disk job = .ok disk') :
    Frame (· = job.target ts) disk disk' ∧
      ∃ text, render py job = .ok text ∧ fileAt disk' (job.target ts) = some text := by
  unfold writePayload at h
  obtain ⟨next, hmk, h⟩ := bind_ok h
  obtain ⟨text, htext, h⟩ := bind_ok h
  obtain ⟨hframe, hfile⟩ := writeText_ok h
  exact ⟨((mkdirs_frame hmk).mono fun _ => False.elim).trans hframe, text, htext, hfile⟩

theorem writeJob_ok {py : Python F} {ts : Name} (hts : isStamp py ts = true) {disk disk' : Disk} {job : Job F}
    (h : writeJob py ts disk job = .ok disk') :
    Frame (Owned py job.slot) disk disk' ∧
      ∃ text, render py job = .ok text ∧ fileAt disk' (job.target ts) = some text := by
  unfold writeJob at h
  obtain ⟨next, harchive, h⟩ := bind_ok h
  obtain ⟨hframe, htext⟩ := writePayload_ok h
  have harchive' : Frame (Owned py job.slot) disk next := archivePreviousLatest_frame harchive
  exact ⟨harchive'.trans (hframe.mono fun p hp => hp ▸ owned_target job hts), htext⟩

theorem latest_injective {py : Python F} {k : Slot} {t t' : Name} (ht : isStamp py t = true)
    (ht' : isStamp py t' = true) (h : k.latest t = k.latest t') : t = t' :=
  (latestName_injective (by rw [length_of_isStamp ht, length_of_isStamp ht']) (append_singleton_injective h).2).2.1

theorem mem_keys_of_fileAt {disk : Disk} {p : Path} {text : String} (h : fileAt disk p = some text) :
    p ∈ disk.keys := by
  rw [Dict.mem_keys, fileAt_eq_some.mp h]
  rfl

theorem writeJob_latest {py : Python F} {ts : Name} (hts : isStamp py ts = true) {disk disk' : Disk} {job : Job F}
    (h : writeJob py ts disk job = .ok disk') (hdir : disk.get? job.dir = some .dir) {t : Name}
    (ht : isStamp py t = true) {text : String} (htext : fileAt disk (job.slot.latest t) = some text) :
    fileAt disk' (job.slot.archived t) =
        (moved py job.slot t disk (iterdir disk job.dir)).getLast?.or (fileAt disk (job.slot.archived t)) ∧
      (t ≠ ts → fileAt disk' (job.slot.latest t) = none) := by
  unfold writeJob at h
  obtain ⟨next, harchive, h⟩ := bind_ok h
  rw [archivePreviousLatest, if_pos hdir] at harchive
  obtain ⟨-, hgone, hhist⟩ := archive_fold (k := job.slot) (entriesOf_nodup disk.nodup job.dir) harchive
  obtain ⟨hframe, -⟩ := writePayload_ok h
  constructor
  · rw [hframe.files _ (archived_ne_child job.slot t _)]
    exact hhist t ht
  · intro hne
    rw [hframe.files _ fun he => hne (latest_injective ht hts he)]
    apply hgone
    · exact mem_entriesOf.mpr (mem_keys_of_fileAt htext)
    · rw [latestStamp_iff.mpr ⟨ht, .inl rfl⟩]
      rfl

theorem eq_of_sublist_of_subset {α : Type} {l l' : List α} (hn : l.Nodup) (hsub : l ⊆ l') (h : l'.Sublist l) :
    l = l' := (h.eq_of_length_le (List.subperm_of_subset hn hsub).length_le).symm

theorem latest_ne_twin (k : Slot) (t : Name) : k.latest t ≠ k.twin t := by
  intro h
  have hn := congrArg List.getLast? (append_singleton_injective h).2
  rw [List.getLast?_concat] at hn
  exact getLast_latestName _ _ _ hn

theorem moved_last {py : Python F} {k : Slot} {disk : Disk} {t : Name} (ht : isStamp py t = true) {text : String}
    (htext : fileAt disk (k.latest t) = some text) :
    (moved py k t disk (iterdir disk k.dir)).getLast? =
      if [k.latest t, k.twin t].Sublist disk.keys then (fileAt disk (k.twin t)).or (some text) else some text := by
  have hkey := mem_keys_of_fileAt htext
  unfold moved
  set names := (iterdir disk k.dir).filter fun n => latestStamp py k.stem k.format.ext n = some t with hnames
  have hnodup : names.Nodup := (entriesOf_nodup disk.nodup k.dir).filter _
  have hmem : ∀ n ∈ names, n = latestName k.stem t k.format.ext ∨ n = latestName k.stem t k.format.ext ++ ['\n'] := by
    intro n hn
    exact (latestStamp_iff.mp (by simpa using (List.mem_filter.mp hn).2)).2
  have hstamped : ∀ n, n = latestName k.stem t k.format.ext ∨ n = latestName k.stem t k.format.ext ++ ['\n'] →
      latestStamp py k.stem k.format.ext n = some t := fun n hn => latestStamp_iff.mpr ⟨ht, hn⟩
  have hpair : ∀ x y, latestStamp py k.stem k.format.ext x = some t → latestStamp py k.stem k.format.ext y = some t →
      [k.dir ++ [x], k.dir ++ [y]].Sublist disk.keys → [x, y].Sublist names := by
    intro x y hx hy hxy
    have hfilter := (entriesOf_pair hxy).filter fun n => latestStamp py k.stem k.format.ext n = some t
    rw [List.filter_eq_self.mpr (by simp [hx, hy])] at hfilter
    exact hfilter
  by_cases htwin : k.twin t ∈ disk.keys
  · rcases pair_sublist_of_mem hkey htwin (latest_ne_twin k t) with h | h
    · have heq := eq_of_sublist_of_subset hnodup (fun n hn => by simpa using hmem n hn)
        (hpair _ _ (hstamped _ (.inl rfl)) (hstamped _ (.inr rfl)) h)
      rw [heq, if_pos h]
      rw [Slot.latest] at htext
      cases hfile : fileAt disk (k.twin t) <;> rw [Slot.twin] at hfile <;> simp [htext, hfile]
    · have heq := eq_of_sublist_of_subset hnodup (fun n hn => by simpa [or_comm] using hmem n hn)
        (hpair _ _ (hstamped _ (.inr rfl)) (hstamped _ (.inl rfl)) h)
      have hnot : ¬ [k.latest t, k.twin t].Sublist disk.keys := not_sublist_swap disk.nodup h
      rw [heq, if_neg hnot]
      rw [Slot.latest] at htext
      cases hfile : fileAt disk (k.twin t) <;> rw [Slot.twin] at hfile <;> simp [htext, hfile]
  · have hone : [latestName k.stem t k.format.ext].Sublist names :=
      List.singleton_sublist.mpr
        (List.mem_filter.mpr ⟨mem_entriesOf.mpr hkey, decide_eq_true (hstamped _ (.inl rfl))⟩)
    have hsub : names ⊆ [latestName k.stem t k.format.ext] := by
      intro n hn
      rcases hmem n hn with rfl | rfl
      · simp
      · exact absurd (mem_entriesOf.mp (List.mem_of_mem_filter hn)) htwin
    rw [eq_of_sublist_of_subset hnodup hsub hone, if_neg fun h => htwin (h.subset (by simp))]
    rw [Slot.latest] at htext
    simp [htext]

theorem writeJob_keeps {py : Python F} {ts : Name} (hts : isStamp py ts = true) {disk disk' : Disk} {job : Job F}
    (h : writeJob py ts disk job = .ok disk') (hdir : disk.get? job.dir = some .dir) {t : Name}
    (ht : isStamp py t = true) {text : String} (htext : fileAt disk (job.slot.latest t) = some text) :
    (fileAt disk' (job.slot.latest t) = some text ∨ fileAt disk' (job.slot.archived t) = some text) ↔
      ∀ other, fileAt disk (job.slot.twin t) = some other →
        [job.slot.latest t, job.slot.twin t].Sublist disk.keys →
          other = text ∨ (t = ts ∧ render py job = .ok text) := by
  obtain ⟨harchived, hlatest⟩ := writeJob_latest hts h hdir ht htext
  obtain ⟨-, new, hrender, hnew⟩ := writeJob_ok hts h
  rw [harchived, show job.dir = job.slot.dir from rfl, moved_last ht htext]
  have hplace : fileAt disk' (job.slot.latest t) = some text ↔ t = ts ∧ render py job = .ok text := by
    by_cases he : t = ts
    · subst he
      rw [show job.slot.latest t = job.target t from rfl, hnew, hrender]
      simp
    · rw [hlatest he]
      simp [he]
  rw [hplace]
  by_cases horder : [job.slot.latest t, job.slot.twin t].Sublist disk.keys
  · rw [if_pos horder]
    cases htwin : fileAt disk (job.slot.twin t) with
    | none => simp
    | some other =>
      simp only [Option.some_or, Option.some.injEq, horder, true_implies, forall_eq']
      exact or_comm
  · simp [horder]

def plan (py : Python F) (blackboard : Blackboard F) (artifacts : List ArtifactDeclaration) :
    Except Failure (List (Job F)) := (artifacts.mapM (jobsOf py blackboard)).map List.flatten

/-- What tells two files apart: the stem, the item's number and the format. -/
def Job.key (job : Job F) : Name × Option ℕ × Format := (job.stem, job.number, job.format)

theorem plan_of_forall₂ {py : Python F} {blackboard : Blackboard F} {artifacts : List ArtifactDeclaration}
    {jobss : List (List (Job F))}
    (h : List.Forall₂ (fun spec jobs => jobsOf py blackboard spec = .ok jobs) artifacts jobss) :
    plan py blackboard artifacts = .ok jobss.flatten := by
  rw [plan, mapM_ok_iff.mpr h]
  rfl

theorem writeDeclarations_ok {py : Python F} {ts : Name} {blackboard : Blackboard F}
    {disk disk' : Disk} {artifacts : List ArtifactDeclaration} {before written : List Path}
    (h : artifacts.foldlM (writeDeclaration py ts blackboard) (before, disk) = .ok (written, disk')) :
    ∃ jobss, List.Forall₂ (fun spec jobs => jobsOf py blackboard spec = .ok jobs) artifacts jobss ∧
      jobss.flatten.foldlM (writeJob py ts) disk = .ok disk' ∧
      written = before ++ jobss.flatten.map fun job => job.target ts := by
  induction artifacts generalizing before disk with
  | nil =>
    obtain ⟨rfl, rfl⟩ := Prod.mk.inj (Except.ok.inj h)
    exact ⟨[], .nil, rfl, by simp⟩
  | cons spec artifacts ih =>
    rw [List.foldlM_cons] at h
    obtain ⟨state, hspec, hrest⟩ := bind_ok h
    unfold writeDeclaration at hspec
    obtain ⟨jobs, hjobs, hspec⟩ := bind_ok hspec
    obtain ⟨next, hnext, hspec⟩ := bind_ok hspec
    obtain rfl := Except.ok.inj hspec
    obtain ⟨jobss, hjobss, hwrite, hwritten⟩ := ih hrest
    refine ⟨jobs :: jobss, .cons hjobs hjobss, ?_, ?_⟩
    · rw [List.flatten_cons, List.foldlM_append, hnext]
      exact hwrite
    · rw [hwritten, List.flatten_cons, List.map_append, List.append_assoc]

theorem slot_injective {job job' : Job F} (h : job.slot = job'.slot) : job.key = job'.key := by
  obtain ⟨stem, number, format, payload⟩ := job
  obtain ⟨stem', number', format', payload'⟩ := job'
  simp only [Job.slot, Job.dir, Job.fileStem, Slot.mk.injEq] at h
  obtain ⟨hdir, hstem, rfl⟩ := h
  cases number with
  | none =>
    cases number' with
    | none => simpa [Job.key] using hstem
    | some n' => simp at hdir
  | some n =>
    cases number' with
    | none => simp at hdir
    | some n' =>
      obtain rfl : stem = stem' := by simpa using hdir
      simp only [List.append_cancel_left_eq, List.cons.injEq, true_and] at hstem
      rw [Job.key, Job.key, paddedNumber_injective hstem]

theorem key_injective {job job' : Job F} (h : job.key = job'.key) : job.slot = job'.slot := by
  simp only [Job.key, Prod.mk.injEq] at h
  simp [Job.slot, Job.dir, Job.fileStem, h.1, h.2.1, h.2.2]

theorem target_eq_iff {py : Python F} {ts : Name} (hts : isStamp py ts = true) {job job' : Job F} :
    job.target ts = job'.target ts ↔ job.slot = job'.slot := by
  constructor
  · intro h
    exact owned_unique (owned_target job hts) (h ▸ owned_target job' hts)
  · intro h
    rw [show job.target ts = job.slot.latest ts from rfl, h]
    rfl

theorem nodup_map_congr {α β γ : Type} {f : α → β} {g : α → γ} {xs : List α} (h : ∀ a b, f a = f b ↔ g a = g b) :
    (xs.map f).Nodup ↔ (xs.map g).Nodup := by
  simp only [List.Nodup, List.pairwise_map, ne_eq, h]

theorem nodup_targets {py : Python F} {ts : Name} (hts : isStamp py ts = true) (jobs : List (Job F)) :
    (jobs.map (·.target ts)).Nodup ↔ (jobs.map Job.key).Nodup :=
  nodup_map_congr fun _ _ => (target_eq_iff hts).trans ⟨slot_injective, key_injective⟩

theorem writeJobs_frame {py : Python F} {ts : Name} (hts : isStamp py ts = true) {jobs : List (Job F)}
    {disk disk' : Disk} (h : jobs.foldlM (writeJob py ts) disk = .ok disk') :
    Frame (fun p => ∃ job ∈ jobs, Owned py job.slot p) disk disk' := by
  apply frame_foldlM _ h
  intro d job d' hjob hd
  exact (writeJob_ok hts hd).1.mono fun p hp => ⟨job, hjob, hp⟩

theorem not_owned_of_slot {py : Python F} {k : Slot} {jobs : List (Job F)} (hk : ∀ job ∈ jobs, job.slot ≠ k)
    {p : Path} (hp : Owned py k p) : ¬ ∃ job ∈ jobs, Owned py job.slot p := by
  rintro ⟨job, hjob, howned⟩
  exact hk job hjob (owned_unique howned hp)

theorem slots_around {before after : List (Job F)} {job : Job F}
    (h : ((before ++ job :: after).map Job.key).Nodup) :
    (∀ j ∈ before, j.slot ≠ job.slot) ∧ ∀ j ∈ after, j.slot ≠ job.slot := by
  rw [nodup_map_congr (g := Job.slot) fun a b => ⟨key_injective, slot_injective⟩] at h
  simp only [List.map_append, List.map_cons, List.nodup_append, List.nodup_cons, List.mem_map, List.mem_cons] at h
  obtain ⟨-, ⟨hafter, -⟩, hbefore⟩ := h
  constructor
  · intro j hj he
    exact hbefore _ ⟨j, hj, rfl⟩ _ (.inl rfl) he
  · intro j hj he
    exact hafter ⟨j, hj, he⟩

theorem writeJobs_filled {py : Python F} {ts : Name} (hts : isStamp py ts = true) {jobs : List (Job F)}
    (hkeys : (jobs.map Job.key).Nodup) {disk disk' : Disk} (h : jobs.foldlM (writeJob py ts) disk = .ok disk')
    {job : Job F} (hjob : job ∈ jobs) :
    ∃ text, render py job = .ok text ∧ fileAt disk' (job.target ts) = some text := by
  obtain ⟨before, after, rfl⟩ := List.append_of_mem hjob
  rw [List.foldlM_append] at h
  obtain ⟨mid, -, h⟩ := bind_ok h
  rw [List.foldlM_cons] at h
  obtain ⟨next, hnext, h⟩ := bind_ok h
  obtain ⟨-, text, hrender, htext⟩ := writeJob_ok hts hnext
  refine ⟨text, hrender, ?_⟩
  rw [(writeJobs_frame hts h).files _ (not_owned_of_slot (slots_around hkeys).2 (owned_target job hts))]
  exact htext

theorem owned_latest {py : Python F} {k : Slot} {t : Name} (ht : isStamp py t = true) : Owned py k (k.latest t) :=
  ⟨t, ht, .inl rfl⟩

theorem owned_twin {py : Python F} {k : Slot} {t : Name} (ht : isStamp py t = true) : Owned py k (k.twin t) :=
  ⟨t, ht, .inr (.inl rfl)⟩

theorem Frame.order_iff {P : Path → Prop} {disk disk' : Disk} (h : Frame P disk disk') {p q : Path} (hp : ¬ P p)
    (hq : ¬ P q) (hpk : p ∈ disk.keys) (hqk : q ∈ disk.keys) (hne : p ≠ q) :
    [p, q].Sublist disk'.keys ↔ [p, q].Sublist disk.keys := by
  refine ⟨fun hpq => ?_, h.order p q hp hq⟩
  rcases pair_sublist_of_mem hpk hqk hne with hsub | hsub
  · exact hsub
  · exact absurd hpq (not_sublist_swap disk'.nodup (h.order q p hq hp hsub))

theorem writeJobs_keeps {py : Python F} {ts : Name} (hts : isStamp py ts = true) {jobs : List (Job F)}
    (hkeys : (jobs.map Job.key).Nodup) {disk disk' : Disk} (h : jobs.foldlM (writeJob py ts) disk = .ok disk')
    {k : Slot} (hdir : disk.get? k.dir = some .dir) {t : Name} (ht : isStamp py t = true) {text : String}
    (htext : fileAt disk (k.latest t) = some text) :
    (fileAt disk' (k.latest t) = some text ∨ fileAt disk' (k.archived t) = some text) ↔
      ∀ job ∈ jobs, job.slot = k → ∀ other, fileAt disk (k.twin t) = some other →
        [k.latest t, k.twin t].Sublist disk.keys → other = text ∨ (t = ts ∧ render py job = .ok text) := by
  by_cases hk : ∃ job ∈ jobs, job.slot = k
  · obtain ⟨job, hjob, rfl⟩ := hk
    obtain ⟨before, after, rfl⟩ := List.append_of_mem hjob
    obtain ⟨hbefore, hafter⟩ := slots_around hkeys
    rw [List.foldlM_append] at h
    obtain ⟨mid, hmid, h⟩ := bind_ok h
    rw [List.foldlM_cons] at h
    obtain ⟨next, hnext, h⟩ := bind_ok h
    have hfirst := writeJobs_frame hts hmid
    have hlast := writeJobs_frame hts h
    have hout (p : Path) (hp : Owned py job.slot p) := not_owned_of_slot hbefore hp
    rw [hlast.files _ (not_owned_of_slot hafter (owned_latest ht)),
      hlast.files _ (not_owned_of_slot hafter (owned_archived ht)),
      writeJob_keeps hts hnext (hfirst.dirs _ hdir) ht ((hfirst.files _ (hout _ (owned_latest ht))).trans htext),
      hfirst.files _ (hout _ (owned_twin ht))]
    have horder (other : String) (hother : fileAt disk (job.slot.twin t) = some other) :=
      hfirst.order_iff (hout _ (owned_latest ht)) (hout _ (owned_twin ht)) (mem_keys_of_fileAt htext)
        (mem_keys_of_fileAt hother) (latest_ne_twin job.slot t)
    constructor
    · intro hkeep job' hjob' hslot other hother hsub
      rcases List.mem_append.mp hjob' with hmem | hmem
      · exact absurd hslot (hbefore job' hmem)
      · rcases List.mem_cons.mp hmem with rfl | hmem
        · exact hkeep other hother ((horder other hother).mpr hsub)
        · exact absurd hslot (hafter job' hmem)
    · intro hkeep other hother hsub
      exact hkeep job (by simp) rfl other hother ((horder other hother).mp hsub)
  · have hslots : ∀ job ∈ jobs, job.slot ≠ k := fun job hjob he => hk ⟨job, hjob, he⟩
    refine iff_of_true (.inl ?_) fun job hjob he => absurd he (hslots job hjob)
    rw [(writeJobs_frame hts h).files _ (not_owned_of_slot hslots (owned_latest ht)), htext]

/-- What a run promises for the paths that it returns and for the files that it found. -/
structure Kept (py : Python F) (ts : Name) (blackboard : Blackboard F) (disk : Disk)
    (artifacts : List ArtifactDeclaration) (written : List Path) (disk' : Disk) : Prop where
  distinct : written.Nodup
  filled : ∀ jobs, plan py blackboard artifacts = .ok jobs →
    List.Forall₂ (fun job p => ∃ text, render py job = .ok text ∧ fileAt disk' p = some text) jobs written
  items : ∀ spec ∈ artifacts, spec.mode = .perItem → ∀ lists jobs,
    perItemLists py spec.stem spec.fields blackboard = .ok lists → jobsOf py blackboard spec = .ok jobs →
      jobs.length = itemCount lists ∧ (jobs.map fun job => job.target ts).Nodup
  conserved : ∀ (k : Slot) t text, disk.get? k.dir = some .dir → isStamp py t = true →
    fileAt disk (k.latest t) = some text → fileAt disk (k.archived t) = none →
      fileAt disk' (k.latest t) = some text ∨ fileAt disk' (k.archived t) = some text

/-- The files asked for differ in stem, item number or format, and no latest version of one of them is followed by
another file of its name with a line break. -/
structure Undisturbed (py : Python F) (ts : Name) (blackboard : Blackboard F) (disk : Disk)
    (artifacts : List ArtifactDeclaration) : Prop where
  spaced : ∀ jobs, plan py blackboard artifacts = .ok jobs → (jobs.map Job.key).Nodup
  untwinned : ∀ jobs, plan py blackboard artifacts = .ok jobs → ∀ job ∈ jobs, ∀ t text other,
    disk.get? job.dir = some .dir → isStamp py t = true → fileAt disk (job.slot.latest t) = some text →
      fileAt disk (job.slot.archived t) = none → fileAt disk (job.slot.twin t) = some other →
        [job.slot.latest t, job.slot.twin t].Sublist disk.keys →
          other = text ∨ (t = ts ∧ render py job = .ok text)

theorem jobsOf_perItem {py : Python F} {blackboard : Blackboard F} {spec : ArtifactDeclaration}
    (hmode : spec.mode = .perItem) {lists : List (String × List (Data F))}
    (hlists : perItemLists py spec.stem spec.fields blackboard = .ok lists) {jobs : List (Job F)}
    (h : jobsOf py blackboard spec = .ok jobs) : jobs.length = itemCount lists := by
  rw [jobsOf, hmode] at h
  simp only [hlists, Except.map, Except.ok.injEq] at h
  rw [← h]
  simp [perItemRows]

theorem artifacts_kept_iff (py : Python F) (ts : {cs : Name // isStamp py cs = true}) (blackboard : Blackboard F)
    (disk disk' : Disk) (artifacts : List ArtifactDeclaration) (written : List Path)
    (hrun : writeManifestArtifacts py ts blackboard disk artifacts = .ok (written, disk')) :
    Kept py ts.1 blackboard disk artifacts written disk' ↔ Undisturbed py ts.1 blackboard disk artifacts := by
  obtain ⟨jobss, hjobss, hwrite, hwritten⟩ := writeDeclarations_ok hrun
  have hplan := plan_of_forall₂ hjobss
  rw [List.nil_append] at hwritten
  subst hwritten
  constructor
  · intro h
    have hkeys := (nodup_targets ts.2 jobss.flatten).mp h.distinct
    constructor
    · intro jobs hjobs
      obtain rfl := Except.ok.inj (hplan.symm.trans hjobs)
      exact hkeys
    · intro jobs hjobs job hjob t text other hdir ht htext hfree hother horder
      obtain rfl := Except.ok.inj (hplan.symm.trans hjobs)
      exact (writeJobs_keeps ts.2 hkeys hwrite hdir ht htext).mp (h.conserved job.slot t text hdir ht htext hfree)
        job hjob rfl other hother horder
  · intro h
    have hkeys := h.spaced _ hplan
    have hdistinct := (nodup_targets ts.2 jobss.flatten).mpr hkeys
    constructor
    · exact hdistinct
    · intro jobs hjobs
      obtain rfl := Except.ok.inj (hplan.symm.trans hjobs)
      rw [List.forall₂_map_right_iff, List.forall₂_same]
      exact fun job hjob => writeJobs_filled ts.2 hkeys hwrite hjob
    · intro spec hspec hmode lists jobs hlists hjobs
      obtain ⟨own, hown, hof⟩ := exists_mem_of_forall₂ hjobss.flip hspec
      obtain rfl := Except.ok.inj (hjobs.symm.trans hof)
      exact ⟨jobsOf_perItem hmode hlists hjobs, hdistinct.sublist ((List.sublist_flatten_of_mem hown).map _)⟩
    · intro k t text hdir ht htext hfree
      apply (writeJobs_keeps ts.2 hkeys hwrite hdir ht htext).mpr
      rintro job hjob rfl other hother horder
      exact h.untwinned _ hplan job hjob t text other hdir ht htext hfree hother horder

end

def asciiPython : Python Unit where
  isDigit c := c.isDigit
  str _ := "text"
  dumps _ := .ok "\x7b\x7d"
  typeName _ := "object"

def noon : {cs : Name // isStamp asciiPython cs = true} :=
  ⟨['2', '0', '2', '6', '0', '1', '0', '1', '_', '1', '2', '0', '0', '0', '0'], rfl⟩

def chapters : ArtifactDeclaration where
  artifactId := "chapters"
  stem := ['a']
  fields := ["items"]
  mode := .perItem
  format := .json
  stem_form := rfl
  fields_nonempty := rfl
  fields_unique := List.nodup_singleton _

def chapterName (digit : Char) (stamp : Name) : Path :=
  [['a'], ['a', '_', '0', '0', digit] ++ latestMark ++ stamp ++ ['.', 'j', 's', 'o', 'n']]

def numberedChapters : Blackboard Unit :=
  Dict.single "items"
    (.list [.dict [(.str "chapter_number", .int 2)], .dict [(.str "chapter_number", .int 1)]])

def morning : Name := ['2', '0', '2', '6', '0', '1', '0', '1', '_', '0', '9', '0', '0', '0', '0']

def earlierChapters : Disk := (Dict.single [['a']] Node.dir).set (chapterName '1' morning) (.file "earlier")

theorem numbered_chapters_undisturbed :
    Undisturbed asciiPython noon.1 numberedChapters earlierChapters [chapters] := by
  constructor
  · rintro jobs ⟨⟩
    decide
  · intro jobs _ job _ t text other _ _ _ _ hother
    -- no name on the disk ends in a line break
    have hends : ∀ p ∈ earlierChapters.keys, (p.getLast?.bind List.getLast?) ≠ some '\n' := by decide
    apply absurd _ (hends _ (mem_keys_of_fileAt hother))
    simp [Slot.twin]

theorem numbered_chapters_kept : ∃ disk',
    writeManifestArtifacts asciiPython noon numberedChapters earlierChapters [chapters] =
      .ok ([chapterName '2' noon.1, chapterName '1' noon.1], disk') ∧
    Kept asciiPython noon.1 numberedChapters earlierChapters [chapters]
      [chapterName '2' noon.1, chapterName '1' noon.1] disk' :=
  ⟨_, rfl, (artifacts_kept_iff asciiPython noon numberedChapters earlierChapters _ [chapters] _ rfl).mpr
    numbered_chapters_undisturbed⟩

def repeatedChapter : Blackboard Unit :=
  Dict.single "items"
    (.list [.dict [(.str "chapter_number", .int 1)], .dict [(.str "chapter_number", .int 1)]])

theorem repeated_chapter_displaced : ∃ disk',
    writeManifestArtifacts asciiPython noon repeatedChapter ∅ [chapters] =
      .ok ([chapterName '1' noon.1, chapterName '1' noon.1], disk') ∧
    ¬ Kept asciiPython noon.1 repeatedChapter ∅ [chapters] [chapterName '1' noon.1, chapterName '1' noon.1]
      disk' := by
  refine ⟨_, rfl, fun h => ?_⟩
  have hdistinct := h.distinct
  simp at hdistinct

end GraphSkillRuntime.ArtifactManifest
