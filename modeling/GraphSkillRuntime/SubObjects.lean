import GraphSkillRuntime.MarkdownFields

/-!
Sub-objects written as `@key: value` lines. Where one ends is not written: it is read off the first key, which the next
one repeats.
-/

namespace GraphSkillRuntime.Markdown

open OrderedDict JsonText

theorem strip_space {c : Char} (hc : isPythonSpace c = true) (s : List Char) : strip (c :: s) = strip s := by
  rw [strip, List.dropWhile_cons_of_pos hc, strip]

/-- An object with at least one key; its keys are words and its values trimmed texts of one line. -/
structure SubObject {F : Type} (R : Reader F) where
  entries : List (String × String)
  nonempty : entries ≠ []
  nodup : (entries.map Prod.fst).Nodup
  words : ∀ e ∈ entries, e.1.toList ≠ [] ∧ ∀ c ∈ e.1.toList, R.isWord c = true
  trimmed : ∀ e ∈ entries, strip e.2.toList = e.2.toList
  oneLine : ∀ e ∈ entries, '\n' ∉ e.2.toList

def atLine (e : String × String) : List Char := '@' :: (e.1.toList ++ ':' :: ' ' :: e.2.toList)

def closed {F : Type} (current : Dict String (Json F)) : List (Json F) :=
  if current.entries.isEmpty then [] else [.dict current.entries]

section

variable {F : Type} {R : Reader F}

namespace SubObject

def firstKey (o : SubObject R) : String := (o.entries.head o.nonempty).1

def lines (o : SubObject R) : List (List Char) := o.entries.map atLine

def fields (o : SubObject R) : List (String × Json F) := o.entries.map fun e => (e.1, .str e.2)

end SubObject

theorem wordColon_word {key rest : List Char} (hne : key ≠ []) (hkey : ∀ c ∈ key, R.isWord c = true) :
    wordColon R (key ++ ':' :: rest) = some (key, rest) := by
  have hcolon : R.isWord ':' = false := by
    rw [R.isWord_ascii ':' (by decide)]
    decide
  have htake : (key ++ ':' :: rest).takeWhile R.isWord = key := by
    rw [List.takeWhile_append_of_pos hkey, List.takeWhile_cons_of_neg (by simp [hcolon]), List.append_nil]
  have hdrop : (key ++ ':' :: rest).dropWhile R.isWord = ':' :: rest := by
    rw [List.dropWhile_append_of_pos hkey, List.dropWhile_cons_of_neg (by simp [hcolon])]
  obtain ⟨c, tail, rfl⟩ := List.exists_cons_of_ne_nil hne
  rw [wordColon, htake, hdrop]
  rfl

theorem atKey_atLine {e : String × String} (hne : e.1.toList ≠ []) (hkey : ∀ c ∈ e.1.toList, R.isWord c = true)
    (htrim : strip e.2.toList = e.2.toList) : atKey R (atLine e) = some e := by
  obtain ⟨key, val⟩ := e
  have hspace : isPythonSpace ' ' = true := by decide
  -- the blank behind the colon of an empty value goes with the strip of the line
  have hline : ∃ rest, strip (atLine (key, val)) = '@' :: (key.toList ++ ':' :: rest) ∧ strip rest = val.toList := by
    by_cases hval : val.toList = []
    · refine ⟨[], ?_, by rw [hval]; rfl⟩
      have hcut : ('@' :: (key.toList ++ [':', ' '])).reverse.dropWhile isPythonSpace =
          ('@' :: (key.toList ++ [':'])).reverse := by
        simp [List.dropWhile_cons_of_pos hspace, show isPythonSpace ':' = false by decide]
      rw [atLine, hval, strip, List.dropWhile_cons_of_neg (by decide), hcut, List.reverse_reverse]
    · refine ⟨' ' :: val.toList, ?_, (strip_space hspace _).trans htrim⟩
      apply strip_of_ends
      · rintro c hc
        obtain rfl := Option.some.inj hc
        decide
      · intro c hc
        apply strip_last htrim
        rw [Option.mem_def, List.getLast?_eq_some_getLast hval]
        simpa [atLine, List.getLast?_append, List.getLast?_cons, hval, List.getLast?_eq_some_getLast hval] using hc
  obtain ⟨rest, hstrip, hrest⟩ := hline
  simp only [atKey, hstrip, wordColon_word hne hkey, Option.map_some, hrest, String.ofList_toList]

variable {children : List NestedChild}

theorem foldl_atKeyLine_new {es : List (String × String)} {s : AtKeyState F}
    (hkeys : ∀ e ∈ es, atKey R (atLine e) = some e) (hchildren : children.map Prod.snd = es.map atLine)
    (hnodup : (s.current.keys ++ es.map Prod.fst).Nodup) :
    ∃ current : Dict String (Json F), children.foldl (atKeyLine R) s = { s with current := current } ∧
      current.entries = s.current.entries ++ es.map fun e => (e.1, .str e.2) := by
  induction es generalizing children s with
  | nil =>
    obtain rfl := List.map_eq_nil_iff.mp hchildren
    exact ⟨s.current, rfl, by simp⟩
  | cons e es ih =>
    obtain ⟨child, rest, rfl, hchild, hrest⟩ := List.map_eq_cons_iff.mp hchildren
    rw [List.forall_mem_cons] at hkeys
    have hnew : e.1 ∉ s.current.keys := by
      intro hm
      exact (List.nodup_append'.mp hnodup).2.2 hm (by simp)
    have hstep : atKeyLine R s child = { s with current := s.current.set e.1 (.str e.2) } := by
      rw [atKeyLine, hchild, hkeys.1]
      simp only [Bool.eq_false_iff.mpr (fun h => hnew (Dict.contains_iff.mp h))]
      rfl
    have hentries := Dict.entries_set_new hnew (.str e.2 : Json F)
    rw [List.foldl_cons, hstep]
    obtain ⟨current, hfold, hcurrent⟩ := ih (s := { s with current := s.current.set e.1 (.str e.2) }) hkeys.2 hrest (by
      simpa [Dict.keys, hentries] using hnodup)
    refine ⟨current, hfold, ?_⟩
    rw [hcurrent, hentries]
    simp

theorem foldl_atKeyLine_object {o : SubObject R} {s : AtKeyState F}
    (hopen : s.current.entries = [] ∨ o.firstKey ∈ s.current.keys) (hchildren : children.map Prod.snd = o.lines) :
    ∃ current : Dict String (Json F), children.foldl (atKeyLine R) s =
        ⟨s.objects ++ closed s.current, s.unread, current⟩ ∧ current.entries = o.fields := by
  have hread : ∀ e ∈ o.entries, atKey R (atLine e) = some e :=
    fun e he => atKey_atLine (o.words e he).1 (o.words e he).2 (o.trimmed e he)
  obtain ⟨e, es, hes⟩ := List.exists_cons_of_ne_nil o.nonempty
  have hfirst : o.firstKey = e.1 := by simp only [SubObject.firstKey, hes, List.head_cons]
  have hnodup := o.nodup
  rw [SubObject.lines, hes] at hchildren
  rw [hes] at hread hnodup
  obtain ⟨child, rest, rfl, hchild, hrest⟩ := List.map_eq_cons_iff.mp hchildren
  rw [List.forall_mem_cons] at hread
  have hstep : atKeyLine R s child =
      ⟨s.objects ++ closed s.current, s.unread, Dict.single e.1 (.str e.2)⟩ := by
    rw [atKeyLine, hchild, hread.1]
    rcases hopen with hempty | hmem
    · have hcurrent : s.current = ∅ := Dict.ext_entries hempty
      have hset : (∅ : Dict String (Json F)).set e.1 (.str e.2) = Dict.single e.1 (.str e.2) :=
        Dict.ext_entries (Dict.entries_set_new (by simp) _)
      have hnone : closed (∅ : Dict String (Json F)) = [] := rfl
      simp [hcurrent, hset, hnone, Dict.contains]
    · have hfull : s.current.entries.isEmpty = false := by
        rw [List.isEmpty_eq_false_iff]
        intro hnil
        simp [Dict.keys, hnil] at hmem
      rw [hfirst] at hmem
      simp only [Dict.contains_iff.mpr hmem, closed, hfull]
      rfl
  rw [List.foldl_cons, hstep]
  obtain ⟨current, hfold, hcurrent⟩ := foldl_atKeyLine_new (R := R)
    (s := ⟨s.objects ++ closed s.current, s.unread, Dict.single e.1 (.str e.2)⟩) hread.2 hrest (by
      simpa [Dict.keys, Dict.single] using hnodup)
  exact ⟨current, hfold, by rw [hcurrent, SubObject.fields, hes]; rfl⟩

theorem foldl_atKeyLine_objects {first : String} {objects : List (SubObject R)} {s : AtKeyState F}
    (hfirst : ∀ o ∈ objects, o.firstKey = first) (hopen : s.current.entries = [] ∨ first ∈ s.current.keys)
    (hchildren : children.map Prod.snd = objects.flatMap SubObject.lines) :
    ∃ read : AtKeyState F, children.foldl (atKeyLine R) s = read ∧ read.unread = s.unread ∧
      read.objects ++ closed read.current =
        s.objects ++ closed s.current ++ objects.map fun o => .dict o.fields := by
  induction objects generalizing children s with
  | nil =>
    obtain rfl := List.map_eq_nil_iff.mp hchildren
    exact ⟨s, rfl, rfl, by simp⟩
  | cons o objects ih =>
    rw [List.forall_mem_cons] at hfirst
    rw [List.flatMap_cons, List.map_eq_append_iff] at hchildren
    obtain ⟨own, others, rfl, hown, hothers⟩ := hchildren
    obtain ⟨current, hfold, hcurrent⟩ := foldl_atKeyLine_object (s := s) (by rwa [hfirst.1]) hown
    have hkey : first ∈ current.keys := by
      rw [Dict.keys, hcurrent, SubObject.fields, List.map_map, ← hfirst.1, SubObject.firstKey]
      exact List.mem_map_of_mem (f := Prod.fst) (List.head_mem o.nonempty)
    have hclosed : closed current = [.dict o.fields] := by
      have hne : o.fields ≠ [] := by
        simp only [SubObject.fields, ne_eq, List.map_eq_nil_iff]
        exact o.nonempty
      rw [closed, hcurrent, List.isEmpty_eq_false_iff.mpr hne]
      rfl
    obtain ⟨read, hread, hunread, hobjects⟩ :=
      ih (s := ⟨s.objects ++ closed s.current, s.unread, current⟩) hfirst.2 (.inr hkey) hothers
    refine ⟨read, by rw [List.foldl_append, hfold, hread], hunread, ?_⟩
    rw [hobjects, hclosed, List.map_cons, List.append_assoc _ [_], List.singleton_append]

theorem sub_objects_round_trip {objects : List (SubObject R)} {first : String}
    (hfirst : ∀ o ∈ objects, o.firstKey = first)
    (hchildren : children.map Prod.snd = objects.flatMap SubObject.lines) :
    parseAtKeyLines R children = (objects.map fun o => .dict o.fields, []) := by
  obtain ⟨read, hfold, hunread, hobjects⟩ :=
    foldl_atKeyLine_objects (s := ⟨[], [], ∅⟩) hfirst (.inl rfl) hchildren
  have hread : (if read.current.entries.isEmpty then read.objects
      else read.objects ++ [.dict read.current.entries]) = read.objects ++ closed read.current := by
    rw [closed]
    split_ifs
    · rw [List.append_nil]
    · rfl
  simp only [parseAtKeyLines, hfold, hread, hobjects, hunread]
  rfl

end

theorem words_of_all {entries : List (String × String)}
    (h : entries.all (fun e => !e.1.toList.isEmpty && e.1.toList.all asciiReader.isWord) = true) :
    ∀ e ∈ entries, e.1.toList ≠ [] ∧ ∀ c ∈ e.1.toList, asciiReader.isWord c = true := by
  intro e he
  have hword := List.all_eq_true.mp h e he
  rw [Bool.and_eq_true, List.all_eq_true] at hword
  exact ⟨by simpa using hword.1, hword.2⟩

def speech : List (SubObject asciiReader) :=
  [⟨[("speaker", "host"), ("tone", ""), ("text", "@all: come in")], by simp, by simp, words_of_all (by decide),
      by decide, by decide⟩,
    ⟨[("speaker", "guest"), ("text", "thanks")], by simp, by simp, words_of_all (by decide), by decide, by decide⟩]

theorem sub_objects_round_trip_speech :
    parseAtKeyLines asciiReader ((speech.flatMap SubObject.lines).map fun line => (⟨1, line⟩, line)) =
      ([.dict [("speaker", .str "host"), ("tone", .str ""), ("text", .str "@all: come in")],
        .dict [("speaker", .str "guest"), ("text", .str "thanks")]], []) := by
  have hfirst : ∀ o ∈ speech, o.firstKey = "speaker" := by simp [speech, SubObject.firstKey]
  apply sub_objects_round_trip hfirst
  rw [List.map_map]
  exact List.map_id _

end GraphSkillRuntime.Markdown
