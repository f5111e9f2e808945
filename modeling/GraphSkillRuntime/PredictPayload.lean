import GraphSkillRuntime.MarkdownTexts
import GraphSkillRuntime.PyData

/-!
The payload of a predicted phase, written as a markdown submission and read back. The reader strips the lines of the
JSON text, which is harmless: what it strips is the indentation. The line breaks that `json.dumps` leaves in a string
are not.
-/

namespace GraphSkillRuntime.Markdown

open OrderedDict JsonText PyData

/-- A line break of `json.dumps(indent=2)`. -/
def indentNewline (level : ℕ) : List Char := '\n' :: List.replicate (2 * level) ' '

def itemOne : List Char := ['i', 't', 'e', 'm', '-', '1']

def openingFence : List Char := fence ++ ['j', 's', 'o', 'n']

section

variable {F : Type} (P : FloatFormat F)

def payloadToBusinessDataMd (payload : Dict String (Json F)) : List Char :=
  ('#' :: '#' :: ' ' :: itemOne) ++ '\n' :: (openingFence ++ '\n' ::
    (dumpsAt P indentNewline 0 (sortJson (.dict payload.entries)) ++ '\n' :: (fence ++ ['\n'])))

end

def opensLine (c : Char) : Bool := !isPythonSpace c && c ≠ '#'

inductive Indented (tail : List Char) : List Char → List Char → Prop where
  | base : Indented tail ('\n' :: tail) []
  | chunk {l t u : List Char} (hl : ∀ c ∈ l, isLineBreak c = false) (hend : l.getLast?.any (!isPythonSpace ·) = true) :
      Indented tail t u → Indented tail (l ++ t) (l ++ u)
  | gap {t u : List Char} (ht : t.head?.any opensLine = true) : Indented tail t u → Indented tail (' ' :: t) (' ' :: u)
  | line {t u : List Char} (level : ℕ) (ht : t.head?.any opensLine = true) :
      Indented tail t u → Indented tail (indentNewline level ++ t) ('\n' :: u)

def Unindents (text tail body : List Char) : Prop :=
  ∃ lines, lines ≠ [] ∧ splitlines text = lines ++ splitlines tail ∧ joinLines (lines.map strip) = body ∧
    ∀ line ∈ lines, strip line ≠ [] ∧ line.head? ≠ some '#'

theorem strip_indented {pad cur : List Char} (hpad : ∀ c ∈ pad, c = ' ') (hopen : cur.head?.any opensLine = true)
    (hend : cur.getLast?.any (!isPythonSpace ·) = true) : strip (pad ++ cur) = cur := by
  have hdrop : (pad ++ cur).dropWhile isPythonSpace = cur := by
    rw [List.dropWhile_append_of_pos fun c hc => by rw [hpad c hc]; rfl]
    cases cur with
    | nil => rfl
    | cons c rest =>
      have hc : isPythonSpace c = false := by
        simp only [List.head?_cons, Option.any_some, opensLine, Bool.and_eq_true, Bool.not_eq_true'] at hopen
        exact hopen.1
      rw [List.dropWhile_cons_of_neg (by simp [hc])]
  rw [strip, hdrop]
  obtain ⟨init, last, rfl⟩ : ∃ init last, cur = init ++ [last] := by
    rcases List.eq_nil_or_concat cur with rfl | ⟨init, last, h⟩
    · cases hend
    · exact ⟨init, last, by rw [h, List.concat_eq_append]⟩
  simp only [List.getLast?_concat, Option.any_some, Bool.not_eq_true'] at hend
  rw [List.reverse_append, List.reverse_singleton, List.singleton_append,
    List.dropWhile_cons_of_neg (by simp [hend]), List.reverse_cons, List.reverse_reverse]

theorem headed_line {pad cur : List Char} (hpad : ∀ c ∈ pad, c = ' ') (hopen : cur.head?.any opensLine = true) :
    cur ≠ [] ∧ (pad ++ cur).head? ≠ some '#' := by
  constructor
  · rintro rfl
    cases hopen
  · intro h
    cases pad with
    | nil =>
      rw [List.nil_append] at h
      rw [h] at hopen
      exact absurd hopen (by decide)
    | cons c pad =>
      obtain rfl := Option.some.inj h
      exact absurd (hpad _ List.mem_cons_self) (by decide)

theorem unindents_cons {pad cur text rest tail u : List Char} (hpad : ∀ c ∈ pad, c = ' ')
    (hopen : cur.head?.any opensLine = true) (hend : cur.getLast?.any (!isPythonSpace ·) = true)
    (htext : splitlines text = (pad ++ cur) :: splitlines rest) (h : Unindents rest tail u) :
    Unindents text tail (cur ++ '\n' :: u) := by
  obtain ⟨lines, hne, hlines, hbody, hall⟩ := h
  have hstrip := strip_indented hpad hopen hend
  refine ⟨(pad ++ cur) :: lines, by simp, by rw [htext, hlines, List.cons_append], ?_, ?_⟩
  · rw [List.map_cons, joinLines_cons (by simpa using hne), hstrip, hbody]
  · rw [List.forall_mem_cons, hstrip]
    exact ⟨headed_line hpad hopen, hall⟩

theorem unindents_last {pad cur text tail : List Char} (hpad : ∀ c ∈ pad, c = ' ')
    (hopen : cur.head?.any opensLine = true) (hend : cur.getLast?.any (!isPythonSpace ·) = true)
    (htext : splitlines text = (pad ++ cur) :: splitlines tail) : Unindents text tail cur := by
  have hstrip := strip_indented hpad hopen hend
  refine ⟨[pad ++ cur], by simp, htext, by simp [joinLines, hstrip], ?_⟩
  rw [List.forall_mem_singleton, hstrip]
  exact headed_line hpad hopen

theorem Indented.unindents {tail t u : List Char} (h : Indented tail t u) {pad cur : List Char}
    (hpad : ∀ c ∈ pad, c = ' ') (hcur : ∀ c ∈ cur, isLineBreak c = false)
    (hopen : (cur ++ t).head?.any opensLine = true)
    (hend : cur.getLast?.any (!isPythonSpace ·) = true ∨ t.head?.any opensLine = true) :
    Unindents (pad ++ (cur ++ t)) tail (cur ++ u) := by
  have hline : ∀ c ∈ pad ++ cur, isLineBreak c = false := by
    intro c hc
    rcases List.mem_append.mp hc with hc | hc
    · rw [hpad c hc]
      rfl
    · exact hcur c hc
  have hbreak : ¬ ('\n' :: tail).head?.any opensLine = true := by simp [opensLine, isPythonSpace]
  induction h generalizing pad cur with
  | base =>
    have hend := hend.resolve_right hbreak
    have hne : cur ≠ [] := by
      rintro rfl
      cases hend
    rw [List.head?_append_of_ne_nil _ hne] at hopen
    rw [List.append_nil]
    exact unindents_last hpad hopen hend (by rw [← List.append_assoc, splitlines_line hline])
  | @chunk l t u hl hlast _ ih =>
    have hne : l ≠ [] := by
      rintro rfl
      cases hlast
    rw [← List.append_assoc cur l t, ← List.append_assoc cur l u]
    rw [← List.append_assoc] at hopen
    refine ih hpad ?_ hopen (.inl ?_) ?_
    · exact List.forall_mem_append.mpr ⟨hcur, hl⟩
    · rwa [List.getLast?_append_of_ne_nil _ hne]
    · rw [← List.append_assoc]
      exact List.forall_mem_append.mpr ⟨hline, hl⟩
  | @gap t u ht _ ih =>
    have hassoc : ∀ s : List Char, cur ++ ' ' :: s = (cur ++ [' ']) ++ s := by simp
    rw [hassoc t, hassoc u]
    rw [hassoc] at hopen
    refine ih hpad ?_ hopen (.inr ht) ?_
    · exact List.forall_mem_append.mpr ⟨hcur, by simp [isLineBreak]⟩
    · rw [← List.append_assoc]
      exact List.forall_mem_append.mpr ⟨hline, by simp [isLineBreak]⟩
  | @line t u level ht _ ih =>
    have hend := hend.resolve_right hbreak
    have hne : cur ≠ [] := by
      rintro rfl
      cases hend
    rw [List.head?_append_of_ne_nil _ hne] at hopen
    have hblank : ∀ c ∈ List.replicate (2 * level) ' ', c = ' ' := fun c hc => List.eq_of_mem_replicate hc
    have hrest := @ih (List.replicate (2 * level) ' ') [] hblank (by simp) ht (.inr ht) (by
      intro c hc
      rw [hblank c (by simpa using hc)]
      rfl)
    have htext : splitlines (pad ++ (cur ++ (indentNewline level ++ t))) =
        (pad ++ cur) :: splitlines (List.replicate (2 * level) ' ' ++ t) := by
      rw [← List.append_assoc, indentNewline, List.cons_append, splitlines_line hline]
    exact unindents_cons hpad hopen hend htext hrest

theorem quote_last (k : String) : (quote k).getLast? = some '"' := by
  rw [quote, ← List.cons_append, List.getLast?_concat]

theorem numberText_noBlank (negative : Bool) (whole : ℕ) (fraction : Option Digits)
    (exponent : Option (Option Bool × Digits)) : ' ' ∉ numberText negative whole fraction exponent := by
  intro h
  exact absurd (numberText_numberChars negative whole fraction exponent ' ' h) (by decide)

theorem floatText_noBlank (l : FloatLiteral) : ' ' ∉ l.text := by
  match l with
  | .nan => decide
  | .infinity true => decide
  | .infinity false => decide
  | .decimal negative whole fraction exponent _ => exact numberText_noBlank negative whole fraction exponent

theorem literal_last {F : Type} (P : FloatFormat F) {v : Json F} (hlist : ∀ x xs, v ≠ .list (x :: xs))
    (hdict : ∀ e kvs, v ≠ .dict (e :: kvs)) : (dumps P v).getLast?.any (!isPythonSpace ·) = true := by
  have hplain : plainChars (dumps P v) → ' ' ∉ dumps P v → (dumps P v).getLast?.any (!isPythonSpace ·) = true := by
    intro hchars hblank
    have hne : dumps P v ≠ [] := by
      obtain ⟨c, t, h, -⟩ := dumps_head P v
      simp [h]
    have hmem := List.getLast_mem hne
    have hbare := bare_of_printable (hchars _ hmem).1 (fun heq => hblank (heq ▸ hmem))
    rw [List.getLast?_eq_some_getLast hne]
    simp [hbare]
  match v with
  | .null | .bool true | .bool false | .list [] | .dict [] => rw [dumps]; decide
  | .int z =>
    rw [dumps, intText_eq] at hplain ⊢
    exact hplain (numberText_plainChars _ _ _ _) (numberText_noBlank _ _ _ _)
  | .float x =>
    rw [dumps] at hplain ⊢
    exact hplain (floatText_plainChars _) (floatText_noBlank _)
  | .str s =>
    rw [dumps, quote_last]
    decide
  | .list (x :: xs) => exact absurd rfl (hlist x xs)
  | .dict (e :: kvs) => exact absurd rfl (hdict e kvs)

section

variable {F : Type} (P : FloatFormat F) {tail : List Char}

theorem opensLine_dumpsAt (newline : ℕ → List Char) (n : ℕ) (v : Json F) (s : List Char) :
    (dumpsAt P newline n v ++ s).head?.any opensLine = true := by
  obtain ⟨c, t, h, hc⟩ := @dumpsAt_head F P newline n v
  rw [h, List.cons_append, List.head?_cons, Option.any_some]
  rcases hc with hc | rfl | rfl | rfl
  · have hhash : c ≠ '#' := opensLiteral_ne hc rfl
    have hblank : c ≠ ' ' := opensLiteral_ne hc rfl
    have hprint : printable c := by
      simp only [opensLiteral, Bool.or_eq_true, decide_eq_true_eq] at hc
      rcases hc with (((((rfl | rfl) | rfl) | rfl) | rfl) | rfl) | hdigit
      · decide
      · decide
      · decide
      · decide
      · decide
      · decide
      · rw [Char.isDigit_iff_toNat, show '0'.toNat = 48 from rfl, show '9'.toNat = 57 from rfl] at hdigit
        exact ⟨by omega, by omega⟩
    simp [opensLine, bare_of_printable hprint hblank, hhash]
  · rfl
  · rfl
  · rfl

theorem indented_literal {v : Json F} (hlist : ∀ x xs, v ≠ .list (x :: xs)) (hdict : ∀ e kvs, v ≠ .dict (e :: kvs))
    (hv : ∀ c ∈ v.chars, isRawBreak c = false) (n m : ℕ) {t u : List Char} (h : Indented tail t u) :
    Indented tail (dumpsAt P indentNewline n v ++ t) (dumpsAt P (fun _ => ['\n']) m v ++ u) := by
  rw [dumpsAt_literal P hlist hdict, dumpsAt_literal P hlist hdict]
  exact .chunk (dumps_noBreak P hv) (literal_last P hlist hdict) h

theorem indented_char {c : Char} (hc : isLineBreak c = false) (hbare : isPythonSpace c = false) {t u : List Char}
    (h : Indented tail t u) : Indented tail (c :: t) (c :: u) :=
  .chunk (l := [c]) (by simpa using hc) (by simpa using hbare) h

theorem indented_key {k : String} (hk : ∀ c ∈ k.toList, isRawBreak c = false) {t u : List Char}
    (ht : t.head?.any opensLine = true) (h : Indented tail t u) :
    Indented tail (quote k ++ ':' :: ' ' :: t) (quote k ++ ':' :: ' ' :: u) :=
  .chunk (@dumps_noBreak _ literalFormat (.str k) hk) (by rw [quote_last]; decide) (indented_char rfl rfl (.gap ht h))

mutual

theorem indented_dumpsAt : ∀ (n m : ℕ) (v : Json F), (∀ c ∈ v.chars, isRawBreak c = false) → ∀ {t u},
    Indented tail t u → Indented tail (dumpsAt P indentNewline n v ++ t) (dumpsAt P (fun _ => ['\n']) m v ++ u)
  | n, m, .null, hv, _, _, h | n, m, .bool _, hv, _, _, h | n, m, .int _, hv, _, _, h | n, m, .float _, hv, _, _, h
  | n, m, .str _, hv, _, _, h | n, m, .list [], hv, _, _, h | n, m, .dict [], hv, _, _, h =>
    indented_literal P (by simp) (by simp) hv n m h
  | n, m, .list (x :: xs), hv, _, _, h => by
    rw [Json.chars, charsElements, List.forall_mem_append] at hv
    have hxs := indented_elementsAt n m xs hv.2 h
    have hx := indented_dumpsAt (n + 1) (m + 1) x hv.1 hxs
    rw [dumpsAt, dumpsAt]
    simp only [List.cons_append, List.append_assoc, List.nil_append]
    exact indented_char rfl rfl (.line (n + 1) (opensLine_dumpsAt P indentNewline _ _ _) hx)
  | n, m, .dict ((k, v) :: kvs), hv, _, _, h => by
    rw [Json.chars, charsMembers, List.forall_mem_append, List.forall_mem_append] at hv
    have hkvs := indented_membersAt n m kvs hv.2.2 h
    have hv' := indented_dumpsAt (n + 1) (m + 1) v hv.2.1 hkvs
    rw [dumpsAt, dumpsAt]
    simp only [List.cons_append, List.append_assoc, List.nil_append]
    exact indented_char rfl rfl (.line (n + 1) (by rfl)
      (indented_key hv.1 (opensLine_dumpsAt P indentNewline _ _ _) hv'))

theorem indented_elementsAt : ∀ (n m : ℕ) (xs : List (Json F)), (∀ c ∈ charsElements xs, isRawBreak c = false) →
    ∀ {t u}, Indented tail t u →
      Indented tail (elementsAt P indentNewline n xs ++ t) (elementsAt P (fun _ => ['\n']) m xs ++ u)
  | n, m, [], _, _, _, h => by
    rw [elementsAt, elementsAt]
    simp only [List.append_assoc, List.cons_append, List.nil_append]
    exact .line n rfl (indented_char rfl rfl h)
  | n, m, x :: xs, hv, _, _, h => by
    rw [charsElements, List.forall_mem_append] at hv
    have hxs := indented_elementsAt n m xs hv.2 h
    have hx := indented_dumpsAt (n + 1) (m + 1) x hv.1 hxs
    rw [elementsAt, elementsAt]
    simp only [List.cons_append, List.append_assoc, List.nil_append]
    exact indented_char rfl rfl (.line (n + 1) (opensLine_dumpsAt P indentNewline _ _ _) hx)

theorem indented_membersAt : ∀ (n m : ℕ) (kvs : List (String × Json F)),
    (∀ c ∈ charsMembers kvs, isRawBreak c = false) → ∀ {t u}, Indented tail t u →
      Indented tail (membersAt P indentNewline n kvs ++ t) (membersAt P (fun _ => ['\n']) m kvs ++ u)
  | n, m, [], _, _, _, h => by
    rw [membersAt, membersAt]
    simp only [List.append_assoc, List.cons_append, List.nil_append]
    exact .line n rfl (indented_char rfl rfl h)
  | n, m, (k, v) :: kvs, hv, _, _, h => by
    rw [charsMembers, List.forall_mem_append, List.forall_mem_append] at hv
    have hkvs := indented_membersAt n m kvs hv.2.2 h
    have hv' := indented_dumpsAt (n + 1) (m + 1) v hv.2.1 hkvs
    rw [membersAt, membersAt]
    simp only [List.cons_append, List.append_assoc, List.nil_append]
    exact indented_char rfl rfl (.line (n + 1) (by rfl)
      (indented_key hv.1 (opensLine_dumpsAt P indentNewline _ _ _) hv'))

end

theorem membersAt_last (newline : ℕ → List Char) (n : ℕ) (kvs : List (String × Json F)) :
    (membersAt P newline n kvs).getLast? = some '}' := by
  induction kvs with
  | nil => rw [membersAt, List.getLast?_concat]
  | cons e kvs ih =>
    have hsplit : membersAt P newline n (e :: kvs) =
        (',' :: (newline (n + 1) ++ (quote e.1 ++ ':' :: ' ' :: dumpsAt P newline (n + 1) e.2))) ++
          membersAt P newline n kvs := by
      rw [membersAt]
      simp
    rw [hsplit, List.getLast?_append, ih, Option.some_or]

theorem dumpsAt_braces (newline : ℕ → List Char) (n : ℕ) (kvs : List (String × Json F)) :
    (dumpsAt P newline n (.dict kvs)).head? = some '{' ∧ (dumpsAt P newline n (.dict kvs)).getLast? = some '}' := by
  cases kvs with
  | nil =>
    rw [dumpsAt, dumps]
    exact ⟨rfl, rfl⟩
  | cons e kvs =>
    have hsplit : dumpsAt P newline n (.dict (e :: kvs)) =
        ('{' :: (newline (n + 1) ++ (quote e.1 ++ ':' :: ' ' :: dumpsAt P newline (n + 1) e.2))) ++
          membersAt P newline n kvs := by
      rw [dumpsAt]
      simp
    rw [hsplit, List.getLast?_append, membersAt_last, Option.some_or]
    exact ⟨rfl, rfl⟩

end

section

variable {F : Type} {R : Reader F} {annotations : Dict String Annotation}

theorem blocksFrom_plain {id : String} (lines read : List SourceLine)
    (h : ∀ line ∈ lines, itemHeader line.text = none) :
    blocksFrom (some (id, read)) lines = [(id, read ++ lines)] := by
  induction lines generalizing read with
  | nil => simp [blocksFrom]
  | cons line lines ih =>
    rw [List.forall_mem_cons] at h
    rw [blocksFrom, h.1, Option.map_some, ih _ h.2, List.append_assoc, List.singleton_append]

theorem itemHeader_none {line : List Char} (h : line.head? ≠ some '#') : itemHeader line = none := by
  unfold itemHeader
  split
  · exact absurd rfl h
  · rfl

theorem strip_braced {s : List Char} (hhead : s.head? = some '{') (hlast : s.getLast? = some '}') : strip s = s := by
  simpa using @strip_indented [] s (by simp) (by rw [hhead]; rfl) (by rw [hlast]; rfl)

theorem parseJsonBlock_fenced {lines : List (List Char)} (hlines : ∀ line ∈ lines, strip line ≠ [])
    (hhead : (joinLines (lines.map strip)).head? = some '{')
    (hlast : (joinLines (lines.map strip)).getLast? = some '}') :
    parseJsonBlock R (openingFence :: (lines ++ [fence])) = loads R.floats (joinLines (lines.map strip)) := by
  have hmeaningful : meaningfulLines (openingFence :: (lines ++ [fence])) =
      openingFence :: (lines.map strip ++ [fence]) := by
    have hfilter : (lines.map strip).filter (· ≠ []) = lines.map strip := by
      rw [List.filter_eq_self, List.forall_mem_map]
      simpa using hlines
    rw [meaningfulLines, List.map_cons, List.map_append, List.map_singleton,
      show strip openingFence = openingFence from rfl, show strip fence = fence from rfl,
      List.filter_cons_of_pos (by rfl), List.filter_append, hfilter]
    rfl
  have hbody : jsonBody (openingFence :: (lines.map strip ++ [fence])) = lines.map strip := by
    have hfenced : (openingFence :: (lines.map strip ++ [fence])).head?.any fence.isPrefixOf ∧
        (openingFence :: (lines.map strip ++ [fence])).getLast? = some fence := by
      rw [← List.cons_append, List.getLast?_concat]
      exact ⟨rfl, rfl⟩
    rw [jsonBody, if_pos hfenced, List.tail_cons, List.dropLast_concat]
  have hstrip := strip_braced hhead hlast
  rw [parseJsonBlock, jsonPayload, hmeaningful, hbody]
  rw [hstrip, if_pos (.inl ⟨hhead, hlast⟩), Option.bind_some]

theorem splitIntoBlocks_single {text header : List Char} {lines : List (List Char)} {id : String}
    (hlines : splitlines text = header :: lines) (hheader : itemHeader header = some id)
    (h : ∀ line ∈ lines, itemHeader line = none) :
    ∃ block, splitIntoBlocks text = [(id, block)] ∧ block.map SourceLine.text = lines := by
  have htexts : ((lines.zipIdx 2).map fun line => (⟨line.2, line.1⟩ : SourceLine)).map SourceLine.text = lines := by
    rw [List.map_map]
    exact List.zipIdx_map_fst 2 lines
  refine ⟨(lines.zipIdx 2).map fun line => ⟨line.2, line.1⟩, ?_, htexts⟩
  rw [splitIntoBlocks, hlines, List.zipIdx_cons, List.map_cons, blocksFrom, hheader]
  refine blocksFrom_plain _ [] fun line hline => h _ ?_
  rw [← htexts]
  exact List.mem_map_of_mem hline

theorem splitlines_payload {payload : Dict String (Json F)}
    (h : ∀ c ∈ (sortJson (.dict payload.entries)).chars, isRawBreak c = false) :
    ∃ lines, splitlines (payloadToBusinessDataMd R.floats payload) =
        ('#' :: '#' :: ' ' :: itemOne) :: openingFence :: (lines ++ [fence]) ∧
      joinLines (lines.map strip) = dumpsAt R.floats (fun _ => ['\n']) 0 (sortJson (.dict payload.entries)) ∧
      ∀ line ∈ lines, strip line ≠ [] ∧ line.head? ≠ some '#' := by
  have hbase : Indented (fence ++ ['\n']) ('\n' :: (fence ++ ['\n'])) [] := .base
  have hindented := indented_dumpsAt R.floats 0 0 _ h hbase
  have hopen := opensLine_dumpsAt R.floats indentNewline 0 (sortJson (.dict payload.entries))
    ('\n' :: (fence ++ ['\n']))
  obtain ⟨lines, -, hlines, hbody, hall⟩ := @Indented.unindents _ _ _ hindented [] [] (by simp) (by simp)
    (by simpa using hopen) (.inr hopen)
  rw [List.nil_append, List.append_nil] at hbody
  refine ⟨lines, ?_, hbody, hall⟩
  rw [payloadToBusinessDataMd, @splitlines_line ('#' :: '#' :: ' ' :: itemOne) (by simp [isLineBreak, itemOne]),
    splitlines_line (by simp [isLineBreak, openingFence, fence])]
  rw [List.nil_append, List.nil_append] at hlines
  rw [hlines]
  rfl

theorem parseMd_payload {payload : Dict String (Json F)} (hdistinct : (Json.dict payload.entries).Distinct)
    (hname : annotations.contains "item-1" = false)
    (h : ∀ c ∈ (Json.dict payload.entries).chars, isRawBreak c = false) :
    ∃ data, parseMd R annotations (payloadToBusinessDataMd R.floats payload) = [⟨"item-1", [], data⟩] ∧
      .dict data.entries = sortJson (.dict payload.entries) := by
  obtain ⟨lines, hsplit, hbody, hall⟩ := @splitlines_payload F R payload
      fun c hc => h c ((mem_chars_sortJson c _).mp hc)
  obtain ⟨block, hblocks, htexts⟩ := @splitIntoBlocks_single _ _ _ "item-1" hsplit rfl (by
    rw [List.forall_mem_cons, List.forall_mem_append, List.forall_mem_singleton]
    exact ⟨rfl, fun line hline => itemHeader_none (hall line hline).2, rfl⟩)
  have hsorted := distinct_sortJson _ hdistinct
  rw [sortJson] at hsorted hbody ⊢
  have hbraces := dumpsAt_braces R.floats (fun _ => ['\n']) 0 (orderBy Prod.fst (sortMembers payload.entries))
  rw [← hbody] at hbraces
  have hjson : parseJsonBlock R (block.map SourceLine.text) =
      some (.dict (orderBy Prod.fst (sortMembers payload.entries))) := by
    rw [htexts, parseJsonBlock_fenced (fun line hline => (hall line hline).1) hbraces.1 hbraces.2, hbody,
      loads_dumpsAt R.floats (fun n => ⟨[], rfl, by simp⟩) 0 hsorted]
  rw [Json.Distinct] at hsorted
  refine ⟨Dict.ofList (orderBy Prod.fst (sortMembers payload.entries)), ?_, by rw [Dict.entries_ofList hsorted.1]⟩
  have hplain : ¬ (annotations.contains "item-1" = true ∧
      (Dict.ofList (orderBy Prod.fst (sortMembers payload.entries))).contains "item-1" = false) := by
    rw [hname]
    exact fun hboth => Bool.noConfusion hboth.1
  rw [parseMd, hblocks, List.map_singleton, parseBlock, hjson]
  simp only [dataFromJsonBlock, if_neg hplain]

theorem written_payload (P : FloatFormat F) (payload : Dict String (Json F)) :
    Written (· ≠ '\r') (payloadToBusinessDataMd P payload) := by
  have hp : ∀ c : Char, 0x20 ≤ c.toNat → c ≠ '\r' := by
    rintro c hc rfl
    exact absurd hc (by decide)
  have hindent : ∀ n, ∀ c ∈ indentNewline n, c ≠ '\\' ∧ c ≠ '\r' := by
    intro n c hc
    rcases List.mem_cons.mp hc with rfl | hc
    · decide
    · rw [List.eq_of_mem_replicate hc]
      decide
  have hclose : Written (· ≠ '\r') ('\n' :: (fence ++ ['\n'])) :=
    .chars (l := '\n' :: (fence ++ ['\n'])) (by simp [fence]) .nil
  have hbody := written_dumpsAt P (fun c hc => hp c hc.1) hindent 0 (sortJson (.dict payload.entries))
    (fun c _ => hp c) hclose
  rw [payloadToBusinessDataMd]
  exact .chars (by simp [itemOne]) (.raw (by decide) (by decide)
    (.chars (by simp [openingFence, fence]) (.raw (by decide) (by decide) hbody)))

theorem payload_clear {payload data : Dict String (Json F)}
    (hparse : parseMd R annotations (payloadToBusinessDataMd R.floats payload) = [⟨"item-1", [], data⟩])
    (hsame : sortJson (.dict data.entries) = sortJson (.dict payload.entries)) :
    ∀ c ∈ (Json.dict payload.entries).chars, isRawBreak c = false := by
  intro c hc
  have hclear := @parseMd_clear F R annotations _ (written_payload R.floats payload)
  rw [hparse, List.forall_mem_singleton] at hclear
  rw [← mem_chars_sortJson, ← hsame, mem_chars_sortJson] at hc
  exact hclear c hc

/-- The payload of a prediction reads back exactly when no text in it holds a line break that JSON leaves raw. -/
theorem predict_payload_survives_iff {payload : Dict String (Json F)} (hdistinct : (Json.dict payload.entries).Distinct)
    (hname : annotations.contains "item-1" = false) :
    (∃ data, parseMd R annotations (payloadToBusinessDataMd R.floats payload) = [⟨"item-1", [], data⟩] ∧
        sortJson (.dict data.entries) = sortJson (.dict payload.entries)) ↔
      ∀ c ∈ (Json.dict payload.entries).chars, isRawBreak c = false := by
  constructor
  · rintro ⟨data, hparse, hsame⟩
    exact payload_clear hparse hsame
  · intro h
    obtain ⟨data, hparse, hdata⟩ := parseMd_payload hdistinct hname h
    exact ⟨data, hparse, by rw [hdata, sortJson_sortJson]⟩

end

theorem predict_payload_survives_plain :
    ∃ data, parseMd asciiReader ∅ (payloadToBusinessDataMd asciiReader.floats (Dict.single "k" (.str "## v"))) =
        [⟨"item-1", [], data⟩] ∧
      sortJson (.dict data.entries) = sortJson (.dict (Dict.single "k" (Json.str "## v")).entries) := by
  have hdistinct : (Json.dict (Dict.single "k" (Json.str "## v" : Json Unit)).entries).Distinct :=
    ⟨by decide, trivial, trivial⟩
  have hchars : ∀ c ∈ (Json.dict (Dict.single "k" (Json.str "## v" : Json Unit)).entries).chars,
      isRawBreak c = false := by
    change ∀ c ∈ ['k', '#', '#', ' ', 'v'], isRawBreak c = false
    simp [isRawBreak]
  exact (predict_payload_survives_iff hdistinct rfl).mpr hchars

theorem line_separator_breaks_payload :
    ¬ ∃ data, parseMd asciiReader ∅ (payloadToBusinessDataMd asciiReader.floats (Dict.single "k" (.str "a\u2028b"))) =
        [⟨"item-1", [], data⟩] ∧
      sortJson (.dict data.entries) = sortJson (.dict (Dict.single "k" (Json.str "a\u2028b")).entries) := by
  rintro ⟨data, hparse, hsame⟩
  have hclear := payload_clear hparse hsame '\u2028' (by decide)
  exact absurd hclear (by decide)

end GraphSkillRuntime.Markdown
