import GraphSkillRuntime.MarkdownFields
import GraphSkillRuntime.JsonIndent

/-!
Every text that the parser reads stands in a line of the submission, or is read from it as JSON text that the writer
could have written. A line break that the writer leaves raw is in none of them.
-/

namespace GraphSkillRuntime.Markdown

open OrderedDict JsonText

def Clear (s : List Char) : Prop := ∀ c ∈ s, isRawBreak c = false

abbrev WrittenLine (s : List Char) : Prop := Written (fun c => isLineBreak c = false) s

theorem clear_written {s : List Char} (h : WrittenLine s) : Clear s := fun c hc =>
  notRaw_of_noBreak (h.mem (fun _ => printable_isLineBreak) c hc)

theorem Clear.mono {s t : List Char} (h : Clear s) (hsub : t ⊆ s) : Clear t := fun c hc => h c (hsub hc)

theorem strip_subset (s : List Char) : strip s ⊆ s := by
  intro c hc
  rw [strip, List.mem_reverse] at hc
  exact (List.dropWhile_suffix _).subset (List.mem_reverse.mp ((List.dropWhile_suffix _).subset hc))

theorem bare_of_printable {c : Char} (h : printable c) (hc : c ≠ ' ') : isPythonSpace c = false := by
  have hne : c.toNat ≠ 32 := fun heq => hc (Char.ext (UInt32.toNat_inj.mp heq))
  obtain ⟨hlow, hhigh⟩ := h
  simp only [isPythonSpace, Bool.or_eq_false_iff, Bool.and_eq_false_iff, decide_eq_false_iff_not]
  omega

theorem written_strip {p : Char → Prop} {s : List Char} (h : Written p s) : Written p (strip s) :=
  (h.dropWhile (by decide)).rdropWhile (fun _ => bare_of_printable)

theorem written_joinLines {lines : List (List Char)} (h : ∀ line ∈ lines, WrittenLine line) :
    Written (fun c => isRawBreak c = false) (joinLines lines) := by
  induction lines with
  | nil => exact .nil
  | cons line lines ih =>
    rw [List.forall_mem_cons] at h
    have hline := h.1.mono fun c => notRaw_of_noBreak
    by_cases hne : lines = []
    · subst hne
      simpa [joinLines] using hline
    · rw [joinLines_cons hne]
      exact hline.append (.raw (by decide) (by decide) (ih h.2))

section

variable {F : Type} {R : Reader F} {annotations : Dict String Annotation}

theorem loads_clear (P : FloatFormat F) {s : List Char} (h : Written (fun c => isRawBreak c = false) s) {v : Json F}
    (hv : loads P s = some v) : Clear v.chars := by
  have hlow : ∀ c : Char, c.toNat < 0x7F → isRawBreak c = false := by
    intro c hc
    simp only [isRawBreak, Bool.or_eq_false_iff, decide_eq_false_iff_not]
    omega
  exact loads_escaped P hlow (h.escaped fun c hc => hlow c hc.2) hv

theorem parseJsonBlock_clear {lines : List (List Char)} (h : ∀ line ∈ lines, WrittenLine line) {v : Json F}
    (hv : parseJsonBlock R lines = some v) : Clear v.chars := by
  rw [parseJsonBlock, Option.bind_eq_some_iff] at hv
  obtain ⟨payload, hpayload, hv⟩ := hv
  have hmeaningful : ∀ line ∈ jsonBody (meaningfulLines lines), WrittenLine line := by
    intro line hline
    have hmem : line ∈ meaningfulLines lines := by
      unfold jsonBody at hline
      split_ifs at hline
      · exact List.mem_of_mem_tail ((List.dropLast_sublist _).subset hline)
      · exact hline
    obtain ⟨source, hsource, rfl⟩ := List.mem_map.mp (List.mem_filter.mp hmem).1
    exact written_strip (h source hsource)
  unfold jsonPayload at hpayload
  dsimp only at hpayload
  split_ifs at hpayload
  obtain rfl := Option.some.inj hpayload
  exact loads_clear R.floats (written_strip (written_joinLines hmeaningful)) hv

theorem clear_single {key : String} {v : Json F} (hkey : Clear key.toList) (hv : Clear v.chars) :
    Clear (charsMembers (Dict.single key v).entries) := by
  intro c hc
  simp only [Dict.single, charsMembers, List.append_nil, List.mem_append] at hc
  exact hc.elim (hkey c) (hv c)

theorem clear_dataFromJsonBlock {id : String} (hid : Clear id.toList) {v : Json F} (hv : Clear v.chars) :
    Clear (charsMembers (dataFromJsonBlock annotations id v).entries) := by
  unfold dataFromJsonBlock
  split
  · split_ifs
    · exact clear_single hid hv
    · exact fun c hc => hv c (charsMembers_ofList hc)
  · split_ifs
    · exact clear_single hid hv
    · exact fun c hc => absurd hc (List.not_mem_nil)

theorem afterSpaces_subset {s t : List Char} (h : afterSpaces s = some t) : t ⊆ s := by
  cases hdrop : s.dropWhile isPythonSpace with
  | cons c rest =>
    rw [afterSpaces_text h hdrop, ← hdrop]
    exact (List.dropWhile_suffix _).subset
  | nil =>
    rw [afterSpaces, hdrop] at h
    split_ifs at h
    obtain ⟨c, hc, rfl⟩ := Option.map_eq_some_iff.mp h
    simpa using List.mem_of_getLast? hc

theorem written_afterSpaces {s t : List Char} (hs : WrittenLine s) (h : afterSpaces s = some t) :
    WrittenLine (strip t) := by
  cases hdrop : s.dropWhile isPythonSpace with
  | cons c rest =>
    rw [afterSpaces_text h hdrop, ← hdrop]
    exact written_strip (hs.dropWhile (by decide))
  | nil =>
    have hspaces : ∀ c ∈ t, isPythonSpace c = true := fun c hc =>
      List.dropWhile_eq_nil_iff.mp hdrop c (afterSpaces_subset h hc)
    rw [strip_eq_nil.mpr hspaces]
    exact .nil

theorem wordColon_eq {s key rest : List Char} (h : wordColon R s = some (key, rest)) :
    s = key ++ ':' :: rest ∧ ∀ c ∈ key, R.isWord c = true := by
  unfold wordColon at h
  split at h
  · next c key' rest' htake hdrop =>
    obtain ⟨rfl, rfl⟩ := Prod.mk.inj (Option.some.inj h)
    rw [← htake, ← hdrop, List.takeWhile_append_dropWhile]
    exact ⟨rfl, fun d hd => List.mem_takeWhile_imp hd⟩
  · cases h

theorem fieldHead_eq {line key rest : List Char} (h : fieldHead R line = some (key, rest)) :
    ∃ opening, line = opening ++ rest ∧ key ⊆ line ∧ ∀ c ∈ opening, c ≠ '\\' := by
  cases line with
  | nil => cases h
  | cons c line =>
    rw [fieldHead] at h
    split_ifs at h with hhead
    obtain ⟨hword, hkey⟩ := wordColon_eq h
    have hline : c :: line = (c :: line.takeWhile isPythonSpace ++ key ++ [':']) ++ rest := by
      rw [List.append_assoc, List.append_assoc, List.singleton_append, ← hword, List.cons_append,
        List.takeWhile_append_dropWhile]
    refine ⟨c :: line.takeWhile isPythonSpace ++ key ++ [':'], hline, ?_, ?_⟩
    · intro d hd
      rw [hline]
      simp [hd]
    · rw [Bool.and_eq_true] at hhead
      intro d hd hslash
      subst hslash
      simp only [List.mem_append, List.mem_cons, List.not_mem_nil, or_false] at hd
      rcases hd with ((rfl | hspace) | hd) | hd
      · exact absurd hhead.1 (by decide)
      · exact absurd (List.mem_takeWhile_imp hspace) (by decide)
      · have hword := hkey _ hd
        rw [R.isWord_ascii _ (by decide)] at hword
        exact absurd hword (by decide)
      · exact absurd hd (by decide)

theorem classifyBlockLine_field {line : List Char} {kind : BlockLine} (h : classifyBlockLine R line = some kind)
    (hchild : ∀ payload, kind ≠ .child payload) : classifyField R line = kind := by
  unfold classifyBlockLine at h
  split_ifs at h
  cases hindented : indentedChild line with
  | none =>
    rw [hindented] at h
    exact Option.some.inj h
  | some payload =>
    rw [hindented] at h
    exact absurd (Option.some.inj h).symm (hchild payload)

theorem flat_clear {line rawVal : List Char} {key : String} (hline : WrittenLine line)
    (h : classifyBlockLine R line = some (.flat key rawVal)) : Clear key.toList ∧ WrittenLine rawVal := by
  have hfield := classifyBlockLine_field h (by simp)
  unfold classifyField at hfield
  split at hfield
  · next key' rest hhead =>
    obtain ⟨opening, hopening, hkey, hslash⟩ := fieldHead_eq hhead
    split at hfield
    · next raw hafter =>
      obtain ⟨rfl, rfl⟩ := BlockLine.flat.inj hfield
      rw [String.toList_ofList]
      refine ⟨(clear_written hline).mono hkey, written_afterSpaces ?_ hafter⟩
      rw [hopening] at hline
      exact hline.drop hslash
    · split_ifs at hfield
  · cases hfield

theorem nested_clear {line : List Char} {key : String} (hline : WrittenLine line)
    (h : classifyBlockLine R line = some (.nested key)) : Clear key.toList := by
  have hfield := classifyBlockLine_field h (by simp)
  unfold classifyField at hfield
  split at hfield
  · next key' rest hhead =>
    obtain ⟨opening, -, hkey, -⟩ := fieldHead_eq hhead
    split at hfield
    · cases hfield
    · split_ifs at hfield
      obtain rfl := BlockLine.nested.inj hfield
      rw [String.toList_ofList]
      exact (clear_written hline).mono hkey
  · cases hfield

theorem child_clear {line payload : List Char} (hline : WrittenLine line)
    (h : classifyBlockLine R line = some (.child payload)) : Clear payload := by
  obtain ⟨c, rest, hdrop, -, hafter⟩ := indentedChild_some (classifyBlockLine_child h)
  refine (clear_written hline).mono (List.Subset.trans (afterSpaces_subset hafter) ?_)
  refine List.Subset.trans (List.subset_cons_self c rest) ?_
  exact hdrop ▸ (List.dropWhile_suffix _).subset

theorem stripOuterFence_written {s : List Char} (h : WrittenLine s) :
    Written (fun c => isRawBreak c = false) (stripOuterFence s) := by
  have hr : ∀ c, isLineBreak c = false → c ≠ '\r' := by
    rintro c hc rfl
    exact absurd hc (by decide)
  have hstrip := written_strip h
  have hplain := hstrip.mono fun c => notRaw_of_noBreak
  unfold stripOuterFence
  dsimp only
  split_ifs
  · refine written_strip (written_joinLines fun line hline => ?_)
    exact written_splitlines hr hstrip line (List.mem_of_mem_tail ((List.dropLast_sublist _).subset hline))
  · exact hplain
  · exact hplain

theorem splitCommas_subset {s part : List Char} (h : part ∈ splitCommas s) : part ⊆ s := by
  have hjoin : [','].intercalate (splitCommas s) = s := List.intercalate_splitOn ','
  rw [List.intercalate] at hjoin
  have hinfix := infix_flatten_intersperse [','] h
  rw [hjoin] at hinfix
  exact hinfix.subset

theorem clear_list {xs : List (Json F)} (h : ∀ x ∈ xs, Clear x.chars) : Clear (Json.list xs).chars := by
  rw [Json.chars]
  induction xs with
  | nil => simp [Clear, charsElements]
  | cons x xs ih =>
    rw [List.forall_mem_cons] at h
    rw [charsElements]
    exact List.forall_mem_append.mpr ⟨h.1, ih h.2⟩

theorem clear_str {s : List Char} (h : Clear s) : Clear (Json.str (.ofList s) : Json F).chars := by
  rwa [Json.chars, String.toList_ofList]

theorem parseListValue_clear {raw : List Char} (h : WrittenLine raw) : Clear (parseListValue R raw).chars := by
  have hvalue := written_strip h
  unfold parseListValue
  dsimp only
  split_ifs
  · cases hload : loads R.floats (stripOuterFence (strip raw)) with
    | none => exact clear_str (clear_written hvalue)
    | some v => exact loads_clear R.floats (stripOuterFence_written hvalue) hload
  · apply clear_list
    rw [List.forall_mem_map]
    intro text htext
    obtain ⟨part, hpart, rfl⟩ := List.mem_map.mp (List.mem_filter.mp htext).1
    apply clear_str
    exact (clear_written hvalue).mono (List.Subset.trans (strip_subset part) (splitCommas_subset hpart))

theorem coerceScalar_clear {key : String} {rawVal : List Char} (h : WrittenLine rawVal) :
    Clear (coerceScalar R annotations key rawVal).chars := by
  have hstr := clear_str (F := F) (clear_written h)
  unfold coerceScalar
  split
  · exact hstr
  · split_ifs
    · exact parseListValue_clear h
    · split
      · cases R.int? rawVal with
        | none => exact hstr
        | some z => exact fun c hc => absurd hc (List.not_mem_nil)
      · cases R.float? rawVal with
        | none => exact hstr
        | some x => exact fun c hc => absurd hc (List.not_mem_nil)
      · exact hstr

theorem atKey_clear {payload : List Char} {key val : String} (hp : Clear payload)
    (h : atKey R payload = some (key, val)) : Clear key.toList ∧ Clear val.toList := by
  unfold atKey at h
  split at h
  · next rest heq =>
    obtain ⟨⟨word, tail⟩, hword, hpair⟩ := Option.map_eq_some_iff.mp h
    obtain ⟨rfl, rfl⟩ := Prod.mk.inj hpair
    have hrest : Clear rest := by
      refine hp.mono (List.Subset.trans ?_ (strip_subset payload))
      rw [heq]
      exact List.subset_cons_self _ _
    rw [(wordColon_eq hword).1] at hrest
    rw [String.toList_ofList, String.toList_ofList]
    refine ⟨hrest.mono (List.subset_append_left _ _), hrest.mono (List.Subset.trans (strip_subset tail) ?_)⟩
    exact List.Subset.trans (List.subset_cons_self _ _) (List.subset_append_right _ _)
  · cases h

theorem clear_set {d : Dict String (Json F)} {key : String} {v : Json F} (hd : Clear (charsMembers d.entries))
    (hkey : Clear key.toList) (hv : Clear v.chars) : Clear (charsMembers (d.set key v).entries) := by
  intro c hmem
  obtain ⟨e, he, hc⟩ := mem_charsMembers.mp hmem
  rw [← Dict.get?_mem, Dict.get?_set] at he
  split_ifs at he with hsame
  · rw [← hsame, ← Option.some.inj he] at hc
    exact hc.elim (hkey c) (hv c)
  · exact hd c (mem_charsMembers.mpr ⟨e, Dict.get?_mem.mp he, hc⟩)

structure ClearObjects (s : AtKeyState F) : Prop where
  objects : ∀ object ∈ s.objects, Clear object.chars
  current : Clear (charsMembers s.current.entries)

theorem atKeyLine_clear {s : AtKeyState F} (h : ClearObjects s) {child : NestedChild} (hchild : Clear child.2) :
    ClearObjects (atKeyLine R s child) := by
  unfold atKeyLine
  split
  · next key val hkey =>
    obtain ⟨hk, hval⟩ := atKey_clear hchild hkey
    have hv : Clear (Json.str val : Json F).chars := by rwa [Json.chars]
    split_ifs
    · refine ⟨?_, clear_single hk hv⟩
      rw [List.forall_mem_append, List.forall_mem_singleton]
      exact ⟨h.objects, by rw [Json.chars]; exact h.current⟩
    · exact ⟨h.objects, clear_set h.current hk hv⟩
  · split_ifs
    · exact h
    · exact ⟨h.objects, h.current⟩

theorem parseAtKeyLines_clear {children : List NestedChild} (h : ∀ child ∈ children, Clear child.2) :
    Clear (Json.list (parseAtKeyLines R children).1 : Json F).chars := by
  have hrun : ∀ s : AtKeyState F, ClearObjects s → ClearObjects (children.foldl (atKeyLine R) s) := by
    induction children with
    | nil => exact fun _ hs => hs
    | cons child children ih =>
      rw [List.forall_mem_cons] at h
      exact fun s hs => ih h.2 _ (atKeyLine_clear hs h.1)
  have hempty : Clear (charsMembers (∅ : Dict String (Json F)).entries) := by
    rw [show (∅ : Dict String (Json F)).entries = [] from rfl]
    simp [Clear, charsMembers]
  obtain ⟨hobjects, hcurrent⟩ := hrun ⟨[], [], ∅⟩ ⟨by simp, hempty⟩
  simp only [parseAtKeyLines]
  split_ifs
  · exact clear_list hobjects
  · refine clear_list ?_
    rw [List.forall_mem_append, List.forall_mem_singleton]
    exact ⟨hobjects, by rw [Json.chars]; exact hcurrent⟩

theorem nestedTexts_clear {children : List NestedChild} (h : ∀ child ∈ children, Clear child.2) :
    ∀ text ∈ nestedTexts children, Clear text := by
  intro text htext
  obtain ⟨child, hchild, rfl⟩ := List.mem_map.mp (List.mem_filter.mp htext).1
  exact (h child hchild).mono (strip_subset child.2)

theorem clear_intersperse {sep : List Char} (hsep : Clear sep) {texts : List (List Char)}
    (h : ∀ text ∈ texts, Clear text) : Clear (texts.intersperse sep).flatten := by
  induction texts with
  | nil => simp [Clear]
  | cons text texts ih =>
    rw [List.forall_mem_cons] at h
    cases texts with
    | nil => simpa using h.1
    | cons next rest =>
      have ih := ih h.2
      intro c hc
      simp only [List.intersperse_cons_cons, List.flatten_cons, List.mem_append] at hc
      rcases hc with hc | hc | hc
      · exact h.1 c hc
      · exact hsep c hc
      · exact ih c hc

theorem nestedField_clear (key : String) {children : List NestedChild} (h : ∀ child ∈ children, Clear child.2) :
    Clear (nestedField R annotations key children).1.chars := by
  have htexts := nestedTexts_clear h
  have hjoined := clear_str (F := F) (@clear_intersperse [',', ' '] (by simp [Clear, isRawBreak]) _ htexts)
  unfold nestedField
  split
  · split_ifs
    · simp only [parseListNestedChildren]
      split_ifs
      · exact parseAtKeyLines_clear h
      · exact parseAtKeyLines_clear h
      · apply clear_list
        rw [List.forall_mem_map]
        exact fun text htext => clear_str (htexts text htext)
    · exact hjoined
  · exact hjoined

theorem blockFields_clear {lines : List SourceLine} (h : ∀ line ∈ lines, WrittenLine line.text) :
    ∀ f ∈ blockFields R annotations lines, Clear f.key.toList ∧ Clear f.value.chars := by
  induction lines with
  | nil => simp [blockFields]
  | cons line lines ih =>
    rw [List.forall_mem_cons] at h
    unfold blockFields
    split
    · next key rawVal hline =>
      obtain ⟨hkey, hraw⟩ := flat_clear h.1 hline
      rw [List.forall_mem_cons]
      exact ⟨⟨hkey, coerceScalar_clear hraw⟩, ih h.2⟩
    · next key hline =>
      rw [List.forall_mem_cons]
      refine ⟨⟨nested_clear h.1 hline, nestedField_clear key fun child hchild => ?_⟩, ih h.2⟩
      obtain ⟨hmem, hkind⟩ := mem_ownChildren hchild
      exact child_clear (h.2 _ hmem) hkind
    · exact ih h.2

theorem clear_ofList {kvs : List (String × Json F)} (h : ∀ e ∈ kvs, Clear e.1.toList ∧ Clear e.2.chars) :
    Clear (charsMembers (Dict.ofList kvs).entries) := by
  intro c hmem
  obtain ⟨e, he, hc⟩ := mem_charsMembers.mp (charsMembers_ofList hmem)
  exact hc.elim ((h e he).1 c) ((h e he).2 c)

theorem parseBlock_clear {block : String × List SourceLine} (hid : Clear block.1.toList)
    (h : ∀ line ∈ block.2, WrittenLine line.text) :
    Clear (charsMembers (parseBlock R annotations block).data.entries) := by
  cases hjson : parseJsonBlock R (block.2.map SourceLine.text) with
  | some v =>
    simp only [parseBlock, hjson]
    exact clear_dataFromJsonBlock hid (parseJsonBlock_clear (List.forall_mem_map.mpr h) hjson)
  | none =>
    simp only [parseBlock, hjson]
    rw [parseBlockData_item]
    exact clear_ofList (List.forall_mem_map.mpr (blockFields_clear h))

theorem itemHeader_clear {line : List Char} (h : Clear line) {id : String} (hid : itemHeader line = some id) :
    Clear id.toList := by
  unfold itemHeader at hid
  split at hid
  · next rest =>
    obtain ⟨text, htext, rfl⟩ := Option.map_eq_some_iff.mp hid
    rw [String.toList_ofList]
    refine h.mono (List.Subset.trans (strip_subset text) (List.Subset.trans (afterSpaces_subset htext) ?_))
    exact List.Subset.trans (List.subset_cons_self _ _) (List.subset_cons_self _ _)
  · cases hid

theorem blocksFrom_clear {lines : List SourceLine} (h : ∀ line ∈ lines, WrittenLine line.text)
    {current : Option (String × List SourceLine)}
    (hcurrent : ∀ block ∈ current, Clear block.1.toList ∧ ∀ line ∈ block.2, WrittenLine line.text) :
    ∀ block ∈ blocksFrom current lines, Clear block.1.toList ∧ ∀ line ∈ block.2, WrittenLine line.text := by
  induction lines generalizing current with
  | nil => simpa [blocksFrom] using hcurrent
  | cons line lines ih =>
    rw [List.forall_mem_cons] at h
    unfold blocksFrom
    split
    · next id hid =>
      rw [List.forall_mem_append]
      refine ⟨by simpa using hcurrent, ih h.2 ?_⟩
      intro block hblock
      obtain rfl := Option.mem_some_iff.mp hblock
      exact ⟨itemHeader_clear (clear_written h.1) hid, by simp⟩
    · apply ih h.2
      intro block hblock
      obtain ⟨open', hopen, rfl⟩ := Option.map_eq_some_iff.mp (Option.mem_def.mp hblock)
      obtain ⟨hid, hlines⟩ := hcurrent open' hopen
      refine ⟨hid, List.forall_mem_append.mpr ⟨hlines, by simpa using h.1⟩⟩

theorem parseMd_clear {mdText : List Char} (h : Written (· ≠ '\r') mdText) :
    ∀ block ∈ parseMd R annotations mdText, Clear (charsMembers block.data.entries) := by
  have hlines : ∀ line ∈ ((splitlines mdText).zipIdx 1).map fun line => (⟨line.2, line.1⟩ : SourceLine),
      WrittenLine line.text := by
    rw [List.forall_mem_map]
    intro line hline
    exact written_splitlines (fun _ hc => hc) h _ (List.fst_mem_of_mem_zipIdx hline)
  rw [parseMd, List.forall_mem_map]
  intro block hblock
  obtain ⟨hid, hwritten⟩ := blocksFrom_clear hlines (by simp) block hblock
  exact parseBlock_clear hid hwritten

end

end GraphSkillRuntime.Markdown
