import GraphSkillRuntime.MarkdownBlocks

/-! What becomes of the lines of a block: each is the value of a field, part of one, or reported as unread. -/

namespace GraphSkillRuntime.Markdown

open OrderedDict JsonText

section Fields

variable {F : Type} (R : Reader F) (annotations : Dict String Annotation)

def ownChildren : List SourceLine → List NestedChild
  | [] => []
  | line :: rest =>
    match classifyBlockLine R line.text with
    | none => ownChildren rest
    | some (.child payload) => (line, payload) :: ownChildren rest
    | some _ => []

structure BlockField (F : Type) where
  line : SourceLine
  key : String
  value : Json F
  children : List NestedChild

def BlockField.entry (f : BlockField F) : String × Json F := (f.key, f.value)

def nestedBlockField (line : SourceLine) (key : String) (children : List NestedChild) : BlockField F :=
  ⟨line, key, (nestedField R annotations key children).1, children⟩

def blockFields : List SourceLine → List (BlockField F)
  | [] => []
  | line :: rest =>
    match classifyBlockLine R line.text with
    | some (.flat key rawVal) => ⟨line, key, coerceScalar R annotations key rawVal, []⟩ :: blockFields rest
    | some (.nested key) => nestedBlockField R annotations line key (ownChildren R rest) :: blockFields rest
    | _ => blockFields rest

def blockUnread (owned : Bool) : List SourceLine → List UnreadLine
  | [] => []
  | line :: rest =>
    match classifyBlockLine R line.text with
    | none => blockUnread owned rest
    | some (.child _) =>
      if owned then blockUnread owned rest else unreadLine line unreadNoOwningField :: blockUnread owned rest
    | some (.flat _ _) => blockUnread false rest
    | some (.nested key) => (nestedField R annotations key (ownChildren R rest)).2 ++ blockUnread true rest
    | some .unknown =>
      if announcesStructure R line.text then unreadLine line unreadNotAFieldBullet :: blockUnread false rest
      else blockUnread false rest

def pendingField (s : BlockState F) (lines : List SourceLine) : List (String × Json F) :=
  match s.nested with
  | none => []
  | some (key, children) => [(key, (nestedField R annotations key (children ++ ownChildren R lines)).1)]

def pendingUnread (s : BlockState F) (lines : List SourceLine) : List UnreadLine :=
  match s.nested with
  | none => []
  | some (key, children) => (nestedField R annotations key (children ++ ownChildren R lines)).2

def finishBlock (s : BlockState F) (lines : List SourceLine) : BlockState F :=
  flushNested R annotations (lines.foldl (blockStep R annotations) s)

def setEntries (item : Dict String (Json F)) (entries : List (String × Json F)) : Dict String (Json F) :=
  entries.foldl (fun d e => d.set e.1 e.2) item

variable {R annotations}

theorem flushNested_nested (s : BlockState F) : (flushNested R annotations s).nested = none := by
  unfold flushNested
  split
  · assumption
  · rfl

theorem flushNested_item (s : BlockState F) {lines : List SourceLine} (h : ownChildren R lines = []) :
    (flushNested R annotations s).item = setEntries s.item (pendingField R annotations s lines) := by
  unfold flushNested pendingField
  cases s.nested with
  | none => rfl
  | some open' => simp [h, setEntries]

theorem mem_flushNested_unread (s : BlockState F) {lines : List SourceLine} (h : ownChildren R lines = [])
    (e : UnreadLine) : e ∈ (flushNested R annotations s).unread ↔
      e ∈ s.unread ∨ e ∈ pendingUnread R annotations s lines := by
  unfold flushNested pendingUnread
  cases s.nested with
  | none => simp
  | some open' => simp [h]

theorem finishBlock_item (s : BlockState F) (lines : List SourceLine) :
    (finishBlock R annotations s lines).item =
      setEntries s.item
        (pendingField R annotations s lines ++ (blockFields R annotations lines).map BlockField.entry) := by
  -- along the lines; what is open at the start takes the children that stand first
  induction lines generalizing s with
  | nil => simpa [finishBlock, blockFields] using @flushNested_item F R annotations s [] rfl
  | cons line rest ih =>
    have hstep : finishBlock R annotations s (line :: rest) =
        finishBlock R annotations (blockStep R annotations s line) rest := rfl
    rw [hstep, ih]
    cases hc : classifyBlockLine R line.text with
    | none => simp [blockStep, blockFields, pendingField, ownChildren, hc]
    | some kind =>
      cases kind with
      | child payload =>
        cases hn : s.nested with
        | none => simp [blockStep, blockFields, pendingField, hc, hn]
        | some open' => simp [blockStep, blockFields, pendingField, ownChildren, hc, hn]
      | flat key rawVal =>
        have hown : ownChildren R (line :: rest) = [] := by simp [ownChildren, hc]
        have hflush := @flushNested_item F R annotations s _ hown
        have hnone := @flushNested_nested F R annotations s
        simp [blockStep, blockFields, hc, setEntries, List.foldl_append, BlockField.entry, hflush, pendingField, hnone]
      | nested key =>
        have hown : ownChildren R (line :: rest) = [] := by simp [ownChildren, hc]
        have hflush := @flushNested_item F R annotations s _ hown
        simp [blockStep, blockFields, hc, setEntries, List.foldl_append, BlockField.entry, nestedBlockField, hflush,
          pendingField]
      | unknown =>
        have hown : ownChildren R (line :: rest) = [] := by simp [ownChildren, hc]
        have hflush := @flushNested_item F R annotations s _ hown
        have hnone := @flushNested_nested F R annotations s
        by_cases ha : announcesStructure R line.text = true
        · simp [blockStep, blockFields, hc, ha, setEntries, List.foldl_append, hflush, pendingField, hnone]
        · simp [blockStep, blockFields, hc, ha, setEntries, List.foldl_append, hflush, pendingField, hnone]

theorem mem_finishBlock_unread (s : BlockState F) (lines : List SourceLine) (e : UnreadLine) :
    e ∈ (finishBlock R annotations s lines).unread ↔ e ∈ s.unread ∨ e ∈ pendingUnread R annotations s lines ∨
      e ∈ blockUnread R annotations s.nested.isSome lines := by
  induction lines generalizing s with
  | nil => simpa [finishBlock, blockUnread] using @mem_flushNested_unread F R annotations s [] rfl e
  | cons line rest ih =>
    have hstep : finishBlock R annotations s (line :: rest) =
        finishBlock R annotations (blockStep R annotations s line) rest := rfl
    rw [hstep, ih]
    cases hc : classifyBlockLine R line.text with
    | none => simp [blockStep, blockUnread, pendingUnread, ownChildren, hc]
    | some kind =>
      cases kind with
      | child payload =>
        cases hn : s.nested with
        | none => simp [blockStep, blockUnread, pendingUnread, hc, hn, or_assoc]
        | some open' => simp [blockStep, blockUnread, pendingUnread, ownChildren, hc, hn]
      | flat key rawVal =>
        have hown : ownChildren R (line :: rest) = [] := by simp [ownChildren, hc]
        have hflush := @mem_flushNested_unread F R annotations s _ hown e
        have hnone := @flushNested_nested F R annotations s
        simp [blockStep, blockUnread, hc, hflush, pendingUnread, hnone, or_assoc]
      | nested key =>
        have hown : ownChildren R (line :: rest) = [] := by simp [ownChildren, hc]
        have hflush := @mem_flushNested_unread F R annotations s _ hown e
        simp [blockStep, blockUnread, hc, hflush, pendingUnread, or_assoc]
      | unknown =>
        have hown : ownChildren R (line :: rest) = [] := by simp [ownChildren, hc]
        have hflush := @mem_flushNested_unread F R annotations s _ hown e
        have hnone := @flushNested_nested F R annotations s
        by_cases ha : announcesStructure R line.text = true
        · simp [blockStep, blockUnread, hc, ha, hflush, pendingUnread, hnone, or_assoc]
        · simp [blockStep, blockUnread, hc, ha, hflush, pendingUnread, hnone, or_assoc]

theorem parseBlockData_item (lines : List SourceLine) : (parseBlockData R annotations lines).1 =
    Dict.ofList ((blockFields R annotations lines).map BlockField.entry) :=
  finishBlock_item ⟨∅, [], none⟩ lines

theorem mem_parseBlockData_unread (lines : List SourceLine) (e : UnreadLine) :
    e ∈ (parseBlockData R annotations lines).2 ↔ e ∈ blockUnread R annotations false lines := by
  have hrun := @mem_finishBlock_unread F R annotations ⟨∅, [], none⟩ lines e
  simpa [parseBlockData, finishBlock, pendingUnread] using hrun

variable (R) in
def Occurs (payload : List Char) : Json F → Prop
  | .str s => strip payload <:+: s.toList
  | .list xs => .str (.ofList (strip payload)) ∈ xs ∨
      ∃ key val, atKey R payload = some (key, val) ∧ ∃ kvs, .dict kvs ∈ xs ∧ (key, .str val) ∈ kvs
  | _ => False

def Listed (unread : List UnreadLine) (line : SourceLine) : Prop :=
  ∃ e ∈ unread, e.lineNumber = line.number ∧ e.text = line.text

/-- Some object has the entry; the open object is the last one. -/
def AtKeyState.Has (s : AtKeyState F) (key val : String) : Prop :=
  ∃ kvs, .dict kvs ∈ s.objects ++ [.dict s.current.entries] ∧ (key, .str val) ∈ kvs

theorem atKeyLine_has {s : AtKeyState F} {key val : String} (h : s.Has key val) (child : NestedChild) :
    (atKeyLine R s child).Has key val := by
  obtain ⟨kvs, hmem, hkv⟩ := h
  unfold atKeyLine
  split
  · next key' val' _ =>
    split_ifs with hkey
    · exact ⟨kvs, List.mem_append_left _ hmem, hkv⟩
    · rcases List.mem_append.mp hmem with hmem | hmem
      · exact ⟨kvs, List.mem_append_left _ hmem, hkv⟩
      · obtain rfl : kvs = s.current.entries := by simpa using hmem
        have hnew : key' ∉ s.current.keys := fun hk => hkey (Dict.contains_iff.mpr hk)
        refine ⟨_, List.mem_append_right _ (List.mem_singleton.mpr rfl), ?_⟩
        rw [Dict.entries_set_new hnew]
        exact List.mem_append_left _ hkv
  · split_ifs
    · exact ⟨kvs, hmem, hkv⟩
    · exact ⟨kvs, hmem, hkv⟩

theorem atKeyLine_reads (s : AtKeyState F) {child : NestedChild} {key val : String}
    (h : atKey R child.2 = some (key, val)) : (atKeyLine R s child).Has key val := by
  unfold atKeyLine
  simp only [h]
  split_ifs with hkey
  · exact ⟨_, List.mem_append_right _ (List.mem_singleton.mpr rfl), by simp [Dict.single]⟩
  · have hnew : key ∉ s.current.keys := fun hk => hkey (Dict.contains_iff.mpr hk)
    refine ⟨_, List.mem_append_right _ (List.mem_singleton.mpr rfl), ?_⟩
    rw [Dict.entries_set_new hnew]
    simp

theorem atKeyLine_unread (s : AtKeyState F) (child : NestedChild) (e : UnreadLine) :
    e ∈ (atKeyLine R s child).unread ↔ e ∈ s.unread ∨
      (atKey R child.2 = none ∧ strip child.2 ≠ [] ∧ e = unreadLine child.1 unreadNotAtKey) := by
  unfold atKeyLine
  split
  · next heq => split_ifs <;> simp [heq]
  · next heq => split_ifs with hblank <;> simp [heq, hblank]

theorem foldl_atKeyLine_has (children : List NestedChild) (s : AtKeyState F) {key val : String}
    (h : s.Has key val) : (children.foldl (atKeyLine R) s).Has key val := by
  induction children generalizing s with
  | nil => exact h
  | cons child children ih => exact ih _ (atKeyLine_has h child)

theorem foldl_atKeyLine_reads {children : List NestedChild} (s : AtKeyState F) {child : NestedChild}
    (hmem : child ∈ children) {key val : String} (h : atKey R child.2 = some (key, val)) :
    (children.foldl (atKeyLine R) s).Has key val := by
  induction children generalizing s with
  | nil => cases hmem
  | cons first children ih =>
    rcases List.mem_cons.mp hmem with rfl | hmem
    · exact foldl_atKeyLine_has children _ (atKeyLine_reads s h)
    · exact ih _ hmem

theorem mem_foldl_atKeyLine_unread (children : List NestedChild) (s : AtKeyState F) (e : UnreadLine) :
    e ∈ (children.foldl (atKeyLine R) s).unread ↔ e ∈ s.unread ∨ ∃ child ∈ children,
      atKey R child.2 = none ∧ strip child.2 ≠ [] ∧ e = unreadLine child.1 unreadNotAtKey := by
  induction children generalizing s with
  | nil => simp
  | cons child children ih =>
    rw [List.foldl_cons, ih, atKeyLine_unread]
    simp [or_assoc]

theorem parseAtKeyLines_reads {children : List NestedChild} {child : NestedChild} (hmem : child ∈ children)
    (hblank : strip child.2 ≠ []) : Occurs R child.2 (.list (parseAtKeyLines R children).1) ∨
      Listed (parseAtKeyLines R children).2 child.1 := by
  cases hkey : atKey R child.2 with
  | none =>
    right
    have hunread := (mem_foldl_atKeyLine_unread children (⟨[], [], ∅⟩ : AtKeyState F)
      (unreadLine child.1 unreadNotAtKey)).mpr (.inr ⟨child, hmem, hkey, hblank, rfl⟩)
    exact ⟨_, hunread, rfl, rfl⟩
  | some m =>
    obtain ⟨key, val⟩ := m
    obtain ⟨kvs, hobjects, hkv⟩ := foldl_atKeyLine_reads (⟨[], [], ∅⟩ : AtKeyState F) hmem hkey
    refine .inl (.inr ⟨key, val, hkey, kvs, ?_, hkv⟩)
    simp only [parseAtKeyLines]
    split_ifs with hempty
    · rcases List.mem_append.mp hobjects with hobjects | hobjects
      · exact hobjects
      · obtain rfl := Json.dict.inj (List.mem_singleton.mp hobjects)
        rw [List.isEmpty_iff.mp hempty] at hkv
        cases hkv
    · exact hobjects

theorem parseAtKeyLines_unread {children : List NestedChild} {e : UnreadLine}
    (h : e ∈ (parseAtKeyLines R children).2) : ∃ child ∈ children, e.lineNumber = child.1.number := by
  rcases (mem_foldl_atKeyLine_unread children (⟨[], [], ∅⟩ : AtKeyState F) e).mp h with h | ⟨child, hmem, -, -, rfl⟩
  · cases h
  · exact ⟨child, hmem, rfl⟩

theorem mem_nestedTexts {children : List NestedChild} {child : NestedChild} (hmem : child ∈ children)
    (hblank : strip child.2 ≠ []) : strip child.2 ∈ nestedTexts children :=
  List.mem_filter.mpr ⟨List.mem_map_of_mem (f := fun child : NestedChild => strip child.2) hmem, by simpa using hblank⟩

theorem infix_flatten_intersperse {α : Type} (sep : List α) {part : List α} {parts : List (List α)}
    (h : part ∈ parts) : part <:+: (parts.intersperse sep).flatten := by
  have hmem : part ∈ parts.intersperse sep := by
    induction parts with
    | nil => cases h
    | cons first parts ih =>
      cases parts with
      | nil => simpa using h
      | cons second parts =>
        rcases List.mem_cons.mp h with rfl | h
        · simp
        · simp [ih h]
  exact List.infix_of_mem_flatten hmem

theorem nestedField_reads (key : String) {children : List NestedChild} {child : NestedChild} (hmem : child ∈ children)
    (hblank : strip child.2 ≠ []) : Occurs R child.2 (nestedField R annotations key children).1 ∨
      Listed (nestedField R annotations key children).2 child.1 := by
  have htext : Occurs R child.2 (.str (.ofList ((nestedTexts children).intersperse [',', ' ']).flatten)) := by
    simpa [Occurs] using infix_flatten_intersperse _ (mem_nestedTexts hmem hblank)
  unfold nestedField
  split
  · next ann _ =>
    split_ifs with hlist
    · simp only [parseListNestedChildren]
      split_ifs with hmodels hat
      · exact parseAtKeyLines_reads hmem hblank
      · exact parseAtKeyLines_reads hmem hblank
      · exact .inl (.inl (List.mem_map_of_mem (f := fun text => Json.str (.ofList text)) (mem_nestedTexts hmem hblank)))
    · exact .inl htext
  · exact .inl htext

theorem nestedField_unread {key : String} {children : List NestedChild} {e : UnreadLine}
    (h : e ∈ (nestedField R annotations key children).2) : ∃ child ∈ children, e.lineNumber = child.1.number := by
  unfold nestedField at h
  split at h
  · split_ifs at h
    · simp only [parseListNestedChildren] at h
      split_ifs at h
      · exact parseAtKeyLines_unread h
      · exact parseAtKeyLines_unread h
      · cases h
    · cases h
  · cases h

theorem isBullet_space {c : Char} (h : isBullet c = true) : isPythonSpace c = false := by
  simp only [isBullet, Bool.or_eq_true, decide_eq_true_eq] at h
  rcases h with (rfl | rfl) | rfl <;> decide

theorem isBullet_word {c : Char} (h : isBullet c = true) : R.isWord c = false := by
  simp only [isBullet, Bool.or_eq_true, decide_eq_true_eq] at h
  rcases h with (rfl | rfl) | rfl
  · exact R.isWord_ascii '-' (by decide)
  · exact R.isWord_ascii '*' (by decide)
  · exact R.isWord_bullet

theorem head_dropWhile {p : Char → Bool} {s rest : List Char} {c : Char} (h : s.dropWhile p = c :: rest) :
    p c = false := by
  have hne : s.dropWhile p ≠ [] := by simp [h]
  simpa [h] using List.head_dropWhile_not p hne

theorem announces_cases {line : List Char} (h : announcesStructure R line = true) : ∃ c rest,
    line.dropWhile isPythonSpace = c :: rest ∧ ((isBullet c = true ∧ rest.dropWhile isPythonSpace ≠ []) ∨
      R.isWord c = true) := by
  unfold announcesStructure at h
  split at h
  · next c rest heq =>
    refine ⟨c, rest, heq, ?_⟩
    rw [Bool.or_eq_true, Bool.and_eq_true, Bool.and_eq_true, Bool.and_eq_true] at h
    rcases h with ⟨⟨hbullet, -⟩, hrest⟩ | ⟨hword, -⟩
    · exact .inl ⟨hbullet, by simpa using hrest⟩
    · exact .inr hword
  · cases h

theorem announces_not_blank {line : List Char} (h : announcesStructure R line = true) : strip line ≠ [] := by
  obtain ⟨c, rest, heq, -⟩ := announces_cases h
  intro hblank
  have hc : c ∈ line := (List.dropWhile_suffix isPythonSpace).subset (by simp [heq])
  have hspace := head_dropWhile heq
  rw [strip_eq_nil.mp hblank c hc] at hspace
  cases hspace

theorem classifyField_ne_child (line payload : List Char) : classifyField R line ≠ .child payload := by
  unfold classifyField
  split
  · split
    · simp
    · split_ifs <;> simp
  · simp

theorem classifyBlockLine_child {line payload : List Char} (h : classifyBlockLine R line = some (.child payload)) :
    indentedChild line = some payload := by
  unfold classifyBlockLine at h
  split_ifs at h
  cases hchild : indentedChild line with
  | none =>
    rw [hchild] at h
    exact absurd (Option.some.inj h) (classifyField_ne_child line payload)
  | some text =>
    rw [hchild] at h
    exact congrArg some (BlockLine.child.inj (Option.some.inj h))

theorem indentedChild_some {line payload : List Char} (h : indentedChild line = some payload) : ∃ c rest,
    line.dropWhile isPythonSpace = c :: rest ∧ isBullet c = true ∧ afterSpaces rest = some payload := by
  unfold indentedChild at h
  split_ifs at h
  split at h
  · next c rest heq =>
    split_ifs at h with hbullet
    exact ⟨c, rest, heq, hbullet, h⟩
  · cases h

theorem afterSpaces_text {s payload rest : List Char} {c : Char} (h : afterSpaces s = some payload)
    (hs : s.dropWhile isPythonSpace = c :: rest) : payload = c :: rest := by
  unfold afterSpaces at h
  rw [hs] at h
  by_cases hspace : s.head?.any isPythonSpace = true
  · rw [if_pos hspace] at h
    exact (Option.some.inj h).symm
  · rw [if_neg hspace] at h
    cases h

theorem announces_child {line payload : List Char} (h : announcesStructure R line = true)
    (hchild : classifyBlockLine R line = some (.child payload)) : strip payload ≠ [] := by
  obtain ⟨c, rest, heq, hbullet, hafter⟩ := indentedChild_some (classifyBlockLine_child hchild)
  obtain ⟨c', rest', heq', hkind⟩ := announces_cases h
  rw [heq] at heq'
  obtain ⟨rfl, rfl⟩ := List.cons.inj heq'
  rcases hkind with ⟨-, hrest⟩ | hword
  · obtain ⟨d, tail, htail⟩ := List.exists_cons_of_ne_nil hrest
    obtain rfl := afterSpaces_text hafter htail
    intro hblank
    have hspace := head_dropWhile htail
    rw [strip_eq_nil.mp hblank d (by simp)] at hspace
    cases hspace
  · rw [isBullet_word hbullet] at hword
    cases hword

def OpensField (R : Reader F) (line : List Char) : Prop :=
  ∃ key, classifyBlockLine R line = some (.nested key) ∨ ∃ rawVal, classifyBlockLine R line = some (.flat key rawVal)

theorem OpensField.announces {line : List Char} (h : OpensField R line) : announcesStructure R line = true := by
  have hhead : ∃ key rest, fieldHead R line = some (key, rest) := by
    cases hfield : fieldHead R line with
    | some m => exact ⟨m.1, m.2, rfl⟩
    | none =>
      obtain ⟨key, h⟩ := h
      unfold classifyBlockLine classifyField at h
      rw [hfield] at h
      split_ifs at h
      · simp at h
      · cases hchild : indentedChild line <;> simp [hchild] at h
  obtain ⟨key, rest, hhead⟩ := hhead
  cases line with
  | nil => cases hhead
  | cons c tail =>
    rw [fieldHead] at hhead
    split_ifs at hhead with hbullet
    rw [Bool.and_eq_true] at hbullet
    have hdrop : (c :: tail).dropWhile isPythonSpace = c :: tail := by simp [isBullet_space hbullet.1]
    have hne : tail.dropWhile isPythonSpace ≠ [] := by
      intro hnil
      rw [hnil] at hhead
      cases hhead
    simp [announcesStructure, hdrop, hbullet, hne]

def BlockField.Covers (R : Reader F) (f : BlockField F) (line : SourceLine) : Prop :=
  f.line = line ∨ ∃ payload, (line, payload) ∈ f.children ∧ Occurs R payload f.value

theorem Listed.mono {unread unread' : List UnreadLine} {line : SourceLine} (h : Listed unread line)
    (hsub : unread ⊆ unread') : Listed unread' line := by
  obtain ⟨e, he, hline⟩ := h
  exact ⟨e, hsub he, hline⟩

theorem line_accounted {line : SourceLine} (ha : announcesStructure R line.text = true) (lines : List SourceLine)
    (owned : Bool) (hmem : line ∈ lines) : Listed (blockUnread R annotations owned lines) line ∨
      (∃ f ∈ blockFields R annotations lines, f.Covers R line) ∨
      (owned = true ∧ ∃ payload, (line, payload) ∈ ownChildren R lines ∧ strip payload ≠ []) := by
  induction lines generalizing owned with
  | nil => cases hmem
  | cons first rest ih =>
    rcases List.mem_cons.mp hmem with rfl | hmem
    · cases hc : classifyBlockLine R line.text with
      | none =>
        unfold classifyBlockLine at hc
        rw [if_neg (announces_not_blank ha)] at hc
        cases hchild : indentedChild line.text <;> simp [hchild] at hc
      | some kind =>
        cases kind with
        | child payload =>
          cases owned with
          | true => exact .inr (.inr ⟨rfl, payload, by simp [ownChildren, hc], announces_child ha hc⟩)
          | false => exact .inl ⟨_, by simp [blockUnread, hc]; exact .inl rfl, rfl, rfl⟩
        | flat key rawVal => exact .inr (.inl ⟨_, by simp [blockFields, hc]; exact .inl rfl, .inl rfl⟩)
        | nested key => exact .inr (.inl ⟨_, by simp [blockFields, hc]; exact .inl rfl, .inl rfl⟩)
        | unknown => exact .inl ⟨_, by simp [blockUnread, hc, ha]; exact .inl rfl, rfl, rfl⟩
    · cases hc : classifyBlockLine R first.text with
      | none => simpa [blockUnread, blockFields, ownChildren, hc] using ih owned hmem
      | some kind =>
        cases kind with
        | child payload =>
          rcases ih owned hmem with h | h | ⟨howned, text, htext, hblank⟩
          · refine .inl (h.mono ?_)
            cases owned <;> simp [blockUnread, hc]
          · exact .inr (.inl (by simpa [blockFields, hc] using h))
          · exact .inr (.inr ⟨howned, text, by simp [ownChildren, hc, htext], hblank⟩)
        | flat key rawVal =>
          rcases ih false hmem with h | ⟨f, hf, hcovers⟩ | ⟨hfalse, -⟩
          · exact .inl (by simpa [blockUnread, hc] using h)
          · exact .inr (.inl ⟨f, by simp [blockFields, hc, hf], hcovers⟩)
          · cases hfalse
        | nested key =>
          rcases ih true hmem with h | ⟨f, hf, hcovers⟩ | ⟨-, text, htext, hblank⟩
          · exact .inl (h.mono (by simp [blockUnread, hc]))
          · exact .inr (.inl ⟨f, by simp [blockFields, hc, hf], hcovers⟩)
          · rcases @nestedField_reads F R annotations key _ _ htext hblank with hreads | hunread
            · exact .inr (.inl ⟨nestedBlockField R annotations first key (ownChildren R rest),
                by simp [blockFields, hc], .inr ⟨text, htext, hreads⟩⟩)
            · exact .inl (hunread.mono (by simp [blockUnread, hc]))
        | unknown =>
          rcases ih false hmem with h | ⟨f, hf, hcovers⟩ | ⟨hfalse, -⟩
          · refine .inl (h.mono ?_)
            by_cases hfirst : announcesStructure R first.text = true <;> simp [blockUnread, hc, hfirst]
          · exact .inr (.inl ⟨f, by simp [blockFields, hc, hf], hcovers⟩)
          · cases hfalse

theorem mem_ownChildren {lines : List SourceLine} {child : NestedChild} (h : child ∈ ownChildren R lines) :
    child.1 ∈ lines ∧ classifyBlockLine R child.1.text = some (.child child.2) := by
  induction lines with
  | nil => cases h
  | cons first rest ih =>
    unfold ownChildren at h
    split at h
    · exact ⟨List.mem_cons_of_mem _ (ih h).1, (ih h).2⟩
    · next payload hc =>
      rcases List.mem_cons.mp h with rfl | h
      · exact ⟨List.mem_cons_self, hc⟩
      · exact ⟨List.mem_cons_of_mem _ (ih h).1, (ih h).2⟩
    · cases h

theorem OpensField.not_child {line payload : List Char} (h : OpensField R line) :
    classifyBlockLine R line ≠ some (.child payload) := by
  obtain ⟨key, h | ⟨rawVal, h⟩⟩ := h <;> simp [h]

theorem blockUnread_source {owned : Bool} {lines : List SourceLine} {e : UnreadLine}
    (h : e ∈ blockUnread R annotations owned lines) :
    ∃ line ∈ lines, e.lineNumber = line.number ∧ ¬ OpensField R line.text := by
  induction lines generalizing owned with
  | nil => cases h
  | cons first rest ih =>
    have hrest : ∀ {owned}, e ∈ blockUnread R annotations owned rest →
        ∃ line ∈ first :: rest, e.lineNumber = line.number ∧ ¬ OpensField R line.text := by
      intro owned h
      obtain ⟨line, hmem, hline⟩ := ih h
      exact ⟨line, List.mem_cons_of_mem _ hmem, hline⟩
    unfold blockUnread at h
    split at h
    · exact hrest h
    · next hc =>
      split_ifs at h
      · exact hrest h
      · rcases List.mem_cons.mp h with rfl | h
        · exact ⟨first, List.mem_cons_self, rfl, fun hopens => hopens.not_child hc⟩
        · exact hrest h
    · exact hrest h
    · rcases List.mem_append.mp h with h | h
      · obtain ⟨child, hchild, hnumber⟩ := nestedField_unread h
        obtain ⟨hmem, hc⟩ := mem_ownChildren hchild
        exact ⟨child.1, List.mem_cons_of_mem _ hmem, hnumber, fun hopens => hopens.not_child hc⟩
      · exact hrest h
    · next hc =>
      split_ifs at h
      · rcases List.mem_cons.mp h with rfl | h
        · exact ⟨first, List.mem_cons_self, rfl, fun ⟨key, hopens⟩ => by simp [hc] at hopens⟩
        · exact hrest h
      · exact hrest h

theorem blockFields_opens {lines : List SourceLine} {f : BlockField F} (h : f ∈ blockFields R annotations lines) :
    OpensField R f.line.text ∧
      ∀ child ∈ f.children, classifyBlockLine R child.1.text = some (.child child.2) := by
  induction lines with
  | nil => cases h
  | cons first rest ih =>
    unfold blockFields at h
    split at h
    · next key rawVal hc =>
      rcases List.mem_cons.mp h with rfl | h
      · exact ⟨⟨key, .inr ⟨rawVal, hc⟩⟩, by simp⟩
      · exact ih h
    · next key hc =>
      rcases List.mem_cons.mp h with rfl | h
      · exact ⟨⟨key, .inl hc⟩, fun child hchild => (mem_ownChildren hchild).2⟩
      · exact ih h
    · exact ih h

theorem blockFields_lines (lines : List SourceLine) :
    ((blockFields R annotations lines).map BlockField.line).Sublist lines := by
  induction lines with
  | nil => exact .slnil
  | cons first rest ih =>
    unfold blockFields
    split
    · exact ih.cons_cons first
    · exact ih.cons_cons first
    · exact ih.cons first

theorem blocksFrom_sublist (current : Option (String × List SourceLine)) (lines : List SourceLine) :
    ∀ block ∈ blocksFrom current lines, block.2.Sublist ((current.map Prod.snd).getD [] ++ lines) := by
  induction lines generalizing current with
  | nil =>
    intro block hblock
    obtain rfl := Option.mem_toList.mp hblock
    simp
  | cons line rest ih =>
    intro block hblock
    unfold blocksFrom at hblock
    split at hblock
    · rcases List.mem_append.mp hblock with hblock | hblock
      · obtain rfl := Option.mem_toList.mp hblock
        exact List.sublist_append_left _ _
      · have hrest : block.2.Sublist rest := by simpa using ih _ block hblock
        exact (hrest.cons line).trans (List.sublist_append_right _ _)
    · have hrest := ih _ block hblock
      cases current with
      | none => exact (by simpa using hrest : block.2.Sublist rest).cons line
      | some open' => simpa using hrest

theorem splitIntoBlocks_numbers {mdText : List Char} {block : String × List SourceLine}
    (h : block ∈ splitIntoBlocks mdText) : (block.2.map SourceLine.number).Nodup := by
  have hsub := (blocksFrom_sublist none _ block h).map SourceLine.number
  refine hsub.nodup ?_
  have hnumbers : ((splitlines mdText).zipIdx 1).map Prod.snd = List.range' 1 (splitlines mdText).length := by
    exact List.zipIdx_map_snd 1 _
  simp only [Option.map_none, Option.getD_none, List.nil_append, List.map_map]
  exact hnumbers ▸ List.nodup_range'

variable (R annotations) in
inductive LineRead (lines : List SourceLine) (data : Dict String (Json F)) (line : SourceLine) : Prop where
  | field (f : BlockField F) (hf : f ∈ blockFields R annotations lines) (hcovers : f.Covers R line)
      (hdata : data.get? f.key = some f.value) : LineRead lines data line
  | json (hbody : strip line.text ∈ jsonBody (meaningfulLines (lines.map SourceLine.text)))
      (hjson : (parseJsonBlock R (lines.map SourceLine.text)).isSome = true) : LineRead lines data line

def PartOf (v : Json F) (data : Dict String (Json F)) : Prop :=
  (∃ kvs, v = .dict kvs ∧ data = Dict.ofList kvs) ∨ ∃ key, data.get? key = some v

variable (R annotations) in
structure BlockKept (block : String × List SourceLine) (parsed : ParsedBlock F) : Prop where
  lines : ∀ line ∈ block.2, announcesStructure R line.text = true →
    Listed parsed.unread line ∨ LineRead R annotations block.2 parsed.data line
  json : ∀ v, parseJsonBlock R (block.2.map SourceLine.text) = some v → PartOf v parsed.data

variable (R annotations) in
/-- No field is written twice with different values, and a JSON body that is no object has a place in the schema. -/
def Lossless (block : String × List SourceLine) : Prop :=
  match parseJsonBlock R (block.2.map SourceLine.text) with
  | some v => (∃ kvs, v = .dict kvs) ∨ annotations.contains block.1 = true
  | none => ∀ f ∈ blockFields R annotations block.2, ∀ f' ∈ blockFields R annotations block.2,
      f.key = f'.key → f.value = f'.value

theorem partOf_dataFromJsonBlock (itemId : String) (v : Json F) :
    PartOf v (dataFromJsonBlock annotations itemId v) ↔
      (∃ kvs, v = .dict kvs) ∨ annotations.contains itemId = true := by
  by_cases hdict : ∃ kvs, v = .dict kvs
  · obtain ⟨kvs, rfl⟩ := hdict
    refine iff_of_true ?_ (.inl ⟨kvs, rfl⟩)
    simp only [dataFromJsonBlock]
    split_ifs
    · exact .inr ⟨itemId, by simp⟩
    · exact .inl ⟨kvs, rfl, rfl⟩
  · have hdata : dataFromJsonBlock annotations itemId v =
        if annotations.contains itemId then Dict.single itemId v else ∅ := by
      unfold dataFromJsonBlock
      split
      · exact absurd ⟨_, rfl⟩ hdict
      · rfl
    rw [hdata]
    by_cases hdeclared : annotations.contains itemId = true
    · exact iff_of_true (.inr ⟨itemId, by simp [hdeclared]⟩) (.inr hdeclared)
    · refine iff_of_false ?_ (not_or.mpr ⟨hdict, hdeclared⟩)
      rintro (⟨kvs, hv, -⟩ | ⟨key, hget⟩)
      · exact hdict ⟨kvs, hv⟩
      · simp [hdeclared] at hget

theorem not_fence {line : List Char} (h : announcesStructure R line = true) :
    fence.isPrefixOf (strip line) = false := by
  obtain ⟨c, rest, heq, hkind⟩ := announces_cases h
  have hc : c ≠ '`' := by
    rintro rfl
    rcases hkind with ⟨hbullet, -⟩ | hword
    · exact absurd hbullet (by decide)
    · rw [R.isWord_ascii _ (by decide)] at hword
      exact absurd hword (by decide)
  obtain ⟨first, others, hstrip⟩ := List.exists_cons_of_ne_nil (announces_not_blank h)
  have hfirst : (strip line).head? = some c := by
    have hspace := head_dropWhile heq
    rw [strip, heq, List.reverse_cons, List.dropWhile_append, List.head?_reverse]
    split_ifs <;> simp [hspace]
  rw [hstrip, List.head?_cons] at hfirst
  obtain rfl := Option.some.inj hfirst
  rw [hstrip]
  simp only [fence, List.isPrefixOf_cons_cons]
  simp [Ne.symm hc]

theorem mem_tail_dropLast {α : Type} {x : α} {xs : List α} (h : x ∈ xs) (hhead : xs.head? ≠ some x)
    (hlast : xs.getLast? ≠ some x) : x ∈ xs.tail.dropLast := by
  cases xs with
  | nil => cases h
  | cons first rest =>
    have hrest : x ∈ rest := (List.mem_cons.mp h).resolve_left (fun heq => hhead (by simp [heq]))
    obtain ⟨init, last, rfl⟩ := List.eq_nil_or_concat rest |>.resolve_left (List.ne_nil_of_mem hrest)
    rw [List.concat_eq_append] at hrest hlast ⊢
    rw [List.tail_cons, List.dropLast_concat]
    rcases List.mem_append.mp hrest with hrest | hrest
    · exact hrest
    · obtain rfl := List.mem_singleton.mp hrest
      exact absurd (by rw [← List.cons_append, List.getLast?_concat]) hlast

theorem mem_jsonBody {lines : List SourceLine} {line : SourceLine} (hmem : line ∈ lines)
    (h : announcesStructure R line.text = true) :
    strip line.text ∈ jsonBody (meaningfulLines (lines.map SourceLine.text)) := by
  have hline : strip line.text ∈ meaningfulLines (lines.map SourceLine.text) :=
    List.mem_filter.mpr ⟨List.mem_map_of_mem (List.mem_map_of_mem hmem), by simpa using announces_not_blank h⟩
  have hfence := not_fence h
  unfold jsonBody
  split_ifs with hfenced
  · apply mem_tail_dropLast hline
    · intro hhead
      rw [hhead] at hfenced
      simp [hfence] at hfenced
    · intro hlast
      rw [hlast] at hfenced
      rw [Option.some.inj hfenced.2] at hfence
      exact absurd hfence (by decide)
  · exact hline

theorem get?_ofList_same {es : List (String × Json F)} {e : String × Json F} (he : e ∈ es)
    (hsame : ∀ e' ∈ es, e'.1 = e.1 → e'.2 = e.2) : (Dict.ofList es).get? e.1 = some e.2 := by
  rw [Dict.get?_ofList]
  have hsome : (Dict.find es.reverse e.1).isSome := by
    rw [Dict.find_isSome]
    exact List.mem_map_of_mem (List.mem_reverse.mpr he)
  obtain ⟨v, hv⟩ := Option.isSome_iff_exists.mp hsome
  have heq : v = e.2 := hsame (e.1, v) (List.mem_reverse.mp (Dict.mem_of_find hv)) rfl
  rw [hv, heq]

theorem field_kept {lines : List SourceLine} (hn : (lines.map SourceLine.number).Nodup)
    {parsed : ParsedBlock F} (hunread : parsed.unread = (parseBlockData R annotations lines).2)
    (hjson : parseJsonBlock R (lines.map SourceLine.text) = none) {f : BlockField F}
    (hf : f ∈ blockFields R annotations lines)
    (h : Listed parsed.unread f.line ∨ LineRead R annotations lines parsed.data f.line) :
    parsed.data.get? f.key = some f.value := by
  obtain ⟨hopens, -⟩ := blockFields_opens hf
  have hsub := @blockFields_lines F R annotations lines
  rcases h with ⟨e, he, hnumber, -⟩ | h
  · rw [hunread, mem_parseBlockData_unread] at he
    obtain ⟨line, hline, hsource, hnot⟩ := blockUnread_source he
    have hsame : line = f.line := List.inj_on_of_nodup_map hn hline (hsub.subset (List.mem_map_of_mem hf))
      (hsource.symm.trans hnumber)
    exact absurd (hsame ▸ hopens) hnot
  · cases h with
    | field f' hf' hcovers hdata =>
      rcases hcovers with hline | ⟨payload, hchild, -⟩
      · have hnodup : ((blockFields R annotations lines).map BlockField.line).Nodup := hn.of_map.sublist hsub
        rwa [List.inj_on_of_nodup_map hnodup hf' hf hline] at hdata
      · exact absurd ((blockFields_opens hf').2 _ hchild) hopens.not_child
    | json _ hsome =>
      rw [hjson] at hsome
      cases hsome

theorem blockKept_iff {block : String × List SourceLine} (hn : (block.2.map SourceLine.number).Nodup) :
    BlockKept R annotations block (parseBlock R annotations block) ↔ Lossless R annotations block := by
  cases hjson : parseJsonBlock R (block.2.map SourceLine.text) with
  | some v =>
    simp only [parseBlock, Lossless, hjson]
    rw [← partOf_dataFromJsonBlock block.1 v]
    constructor
    · exact fun h => h.json v hjson
    · intro hpart
      refine ⟨fun line hline ha => .inr (.json (mem_jsonBody hline ha) (by simp [hjson])), ?_⟩
      intro w hw
      rw [hjson] at hw
      exact Option.some.inj hw ▸ hpart
  | none =>
    simp only [parseBlock, Lossless, hjson]
    constructor
    · intro h
      have hkept : ∀ f ∈ blockFields R annotations block.2,
          (parseBlockData R annotations block.2).1.get? f.key = some f.value := by
        intro f hf
        have hline := (blockFields_lines block.2).subset (List.mem_map_of_mem hf)
        exact field_kept hn rfl hjson hf (h.lines f.line hline (blockFields_opens hf).1.announces)
      intro f hf f' hf' hkey
      have heq := hkept f hf
      rw [hkey, hkept f' hf'] at heq
      exact (Option.some.inj heq).symm
    · intro hsame
      refine ⟨fun line hline ha => ?_, fun v hv => by simp [hjson] at hv⟩
      rcases @line_accounted F R annotations _ ha block.2 false hline with
        ⟨e, he, hsource⟩ | ⟨f, hf, hcovers⟩ | ⟨hfalse, -⟩
      · exact .inl ⟨e, (mem_parseBlockData_unread _ _).mpr he, hsource⟩
      · refine .inr (.field f hf hcovers ?_)
        rw [parseBlockData_item]
        apply get?_ofList_same (e := f.entry) (List.mem_map_of_mem hf)
        rintro _ hmem hkey
        obtain ⟨f', hf', rfl⟩ := List.mem_map.mp hmem
        exact hsame f' hf' f hf hkey
      · cases hfalse

end Fields

theorem no_line_dropped_iff {F : Type} (R : Reader F) (annotations : Dict String Annotation) (mdText : List Char) :
    List.Forall₂ (BlockKept R annotations) (splitIntoBlocks mdText) (parseMd R annotations mdText) ↔
      ∀ block ∈ splitIntoBlocks mdText, Lossless R annotations block := by
  rw [parseMd, List.forall₂_map_right_iff, List.forall₂_same]
  constructor
  · exact fun h block hblock => (blockKept_iff (splitIntoBlocks_numbers hblock)).mp (h block hblock)
  · exact fun h block hblock => (blockKept_iff (splitIntoBlocks_numbers hblock)).mpr (h block hblock)

def asciiReader : Reader Unit where
  floats := ⟨fun _ => .nan, fun _ => (), fun _ => rfl⟩
  isWord c := decide (c.toNat < 128) && (c.isAlphanum || c = '_')
  isWord_ascii c hc := by simp [hc]
  isWord_space c hc := by
    simp only [Bool.and_eq_true, decide_eq_true_eq] at hc
    have hascii : ∀ n < 128, ((Char.ofNat n).isAlphanum || Char.ofNat n = '_') = true →
        isPythonSpace (Char.ofNat n) = false := by decide
    have hchar := hascii c.toNat hc.1
    rw [Char.ofNat_toNat] at hchar
    exact hchar hc.2
  isWord_bullet := by decide
  int? _ := none
  float? _ := none

def scoredTwice : List Char :=
  ['#', '#', ' ', 'a', '\n', '-', ' ', 's', ':', ' ', '1', '\n', '-', ' ', 's', ':', ' ', '2']

def scoredLines : List SourceLine := [⟨2, ['-', ' ', 's', ':', ' ', '1']⟩, ⟨3, ['-', ' ', 's', ':', ' ', '2']⟩]

theorem repeated_field_drops_line :
    ¬ List.Forall₂ (BlockKept asciiReader ∅) (splitIntoBlocks scoredTwice) (parseMd asciiReader ∅ scoredTwice) := by
  have hblocks : splitIntoBlocks scoredTwice = [(.ofList ['a'], scoredLines)] := rfl
  have hfields : blockFields asciiReader ∅ scoredLines =
      [⟨⟨2, ['-', ' ', 's', ':', ' ', '1']⟩, .ofList ['s'], .str (.ofList ['1']), []⟩,
        ⟨⟨3, ['-', ' ', 's', ':', ' ', '2']⟩, .ofList ['s'], .str (.ofList ['2']), []⟩] := rfl
  have hjson : parseJsonBlock asciiReader (scoredLines.map SourceLine.text) = none := rfl
  rw [parseMd, List.forall₂_map_right_iff, List.forall₂_same, hblocks]
  intro h
  have hlossless := (blockKept_iff (by decide)).mp (h _ List.mem_cons_self)
  simp only [Lossless, hjson, hfields] at hlossless
  have hvalue := Json.str.inj (hlossless _ List.mem_cons_self _ (List.mem_cons_of_mem _ List.mem_cons_self) rfl)
  simp at hvalue

end GraphSkillRuntime.Markdown
