import GraphSkillRuntime.JsonPlaces
import GraphSkillRuntime.MarkdownFields

/-!
Markdown values that are declared to be lists. A value that announces structure is read as JSON or not at all; in a
fence its lines are split and joined again, which loses the line breaks that stand in its strings.
-/

namespace GraphSkillRuntime.Markdown

open OrderedDict JsonText

def lineFeed (c : Char) : Char := if isLineBreak c then '\n' else c

theorem consHead_ne_nil (c : Char) (lines : List (List Char)) : consHead c lines ≠ [] := by
  cases lines <;> simp [consHead]

theorem joinLines_consHead (c : Char) (lines : List (List Char)) :
    joinLines (consHead c lines) = c :: joinLines lines := by
  cases lines with
  | nil => rfl
  | cons line lines =>
    by_cases hlines : lines = []
    · simp [hlines, consHead, joinLines]
    · rw [consHead, joinLines_cons hlines, joinLines_cons hlines, List.cons_append]

theorem consHead_append {c : Char} {lines : List (List Char)} (h : lines ≠ []) (more : List (List Char)) :
    consHead c (lines ++ more) = consHead c lines ++ more := by
  cases lines with
  | nil => exact absurd rfl h
  | cons line lines => rfl

theorem splitlines_closed {s : List Char} (h : ∀ c ∈ s, c ≠ '\r') : ∃ lines, lines ≠ [] ∧
    splitlines (s ++ '\n' :: fence) = lines ++ [fence] ∧ joinLines lines = s.map lineFeed := by
  induction s with
  | nil => exact ⟨[[]], by simp, rfl, rfl⟩
  | cons c s ih =>
    rw [List.forall_mem_cons] at h
    obtain ⟨lines, hne, hlines, hjoin⟩ := ih h.2
    rw [List.cons_append]
    cases hc : isLineBreak c with
    | true =>
      refine ⟨[] :: lines, by simp, ?_, ?_⟩
      · rw [splitlines_break h.1 hc, hlines, List.cons_append]
      · rw [joinLines_cons hne, hjoin, List.nil_append, List.map_cons, lineFeed, if_pos hc]
    | false =>
      refine ⟨consHead c lines, consHead_ne_nil c lines, ?_, ?_⟩
      · rw [splitlines_plain hc, hlines, consHead_append hne]
      · rw [joinLines_consHead, hjoin, List.map_cons, lineFeed, hc]
        rfl

theorem lineFeed_eq {c : Char} (h : isLineBreak c = true → c = '\n') : lineFeed c = c := by
  rw [lineFeed]
  split_ifs with hc
  · exact (h hc).symm
  · rfl

theorem map_lineFeed {s : List Char} (h : ∀ c ∈ s, isLineBreak c = true → c = '\n') : s.map lineFeed = s :=
  (List.map_congr_left fun c hc => lineFeed_eq (h c hc)).trans (List.map_id s)

def fenced (info body : List Char) : List Char := fence ++ (info ++ '\n' :: (body ++ '\n' :: fence))

theorem strip_fenced (info body : List Char) : strip (fenced info body) = fenced info body := by
  refine strip_of_ends (fun c hc => ?_) (fun c hc => ?_)
  · obtain rfl : '`' = c := Option.some.inj hc
    decide
  · have hlast : (fenced info body).getLast? = some '`' := by
      simp [fenced, fence, List.getLast?_append, List.getLast?_cons]
    rw [hlast] at hc
    obtain rfl := Option.some.inj hc
    decide

theorem isPrefixOf_fenced (info body : List Char) : fence.isPrefixOf (fenced info body) = true := rfl

theorem universalNewlines_fenced {info body text : List Char} (hinfo : ∀ c ∈ info, c ≠ '\r')
    (hbody : Translates body text) : universalNewlines (fenced info body) = fenced info text := by
  have hclose : Translates ('\n' :: fence) ('\n' :: fence) := translates_of_ne (by simp [fence])
  have hopen : Translates fence fence := translates_of_ne (by simp [fence])
  have h := hopen.append ((translates_of_ne hinfo).append ((hbody.append hclose).cons (c := '\n') (by decide))) []
  simpa only [fenced, List.append_nil, show universalNewlines [] = [] from rfl] using h

theorem stripOuterFence_fenced {info body text : List Char} (hinfo : ∀ c ∈ info, isLineBreak c = false)
    (hbody : Translates body text) (htext : ∀ c ∈ text, c ≠ '\r') :
    stripOuterFence (fenced info body) = strip (text.map lineFeed) := by
  have hreturn : ∀ c ∈ info, c ≠ '\r' := by
    rintro c hc rfl
    exact absurd (hinfo _ hc) (by decide)
  obtain ⟨lines, hne, hlines, hjoin⟩ := splitlines_closed htext
  have hsplit : splitlines (fenced info body) = (fence ++ info) :: (lines ++ [fence]) := by
    rw [← splitlines_universalNewlines, universalNewlines_fenced hreturn hbody, fenced, ← List.append_assoc,
      splitlines_line, hlines]
    exact List.forall_mem_append.mpr ⟨by simp [fence, isLineBreak], hinfo⟩
  have hclosed : 2 ≤ ((fence ++ info) :: (lines ++ [fence])).length ∧
      ((fence ++ info) :: (lines ++ [fence])).getLast?.map strip = some fence := by
    refine ⟨by simp, ?_⟩
    rw [← List.cons_append, List.getLast?_concat]
    rfl
  unfold stripOuterFence
  dsimp only
  rw [strip_fenced, if_pos (isPrefixOf_fenced info body), hsplit, if_pos hclosed, List.tail_cons, List.dropLast_concat,
    hjoin]

/-- The text opens and closes with JSON delimiters, which need not match. -/
def delimited (s : List Char) : Bool :=
  s.head?.any (fun c => c = '[' || c = '{') && s.getLast?.any (fun c => c = ']' || c = '}')

theorem delimited_iff {s : List Char} : delimited s = true ↔
    (∃ c ∈ s.head?, c = '[' ∨ c = '{') ∧ ∃ c ∈ s.getLast?, c = ']' ∨ c = '}' := by
  cases hhead : s.head? <;> cases hlast : s.getLast? <;> simp [delimited, hhead, hlast]

theorem strip_delimited {s : List Char} (h : delimited s = true) : strip s = s := by
  obtain ⟨⟨c, hc, hopen⟩, d, hd, hclose⟩ := delimited_iff.mp h
  refine strip_of_ends (fun e he => ?_) (fun e he => ?_)
  · obtain rfl := Option.mem_unique hc he
    rcases hopen with rfl | rfl <;> decide
  · obtain rfl := Option.mem_unique hd he
    rcases hclose with rfl | rfl <;> decide

theorem delimited_noFence {s : List Char} (h : delimited s = true) : fence.isPrefixOf s = false := by
  obtain ⟨⟨c, hc, hopen⟩, -⟩ := delimited_iff.mp h
  cases s with
  | nil => cases hc
  | cons d s =>
    obtain rfl := Option.some.inj hc
    rcases hopen with rfl | rfl <;> rfl

theorem stripOuterFence_plain {s : List Char} (hstrip : strip s = s) (h : fence.isPrefixOf s = false) :
    stripOuterFence s = s := by
  unfold stripOuterFence
  dsimp only
  rw [hstrip, h]
  rfl

theorem looksLikeJsonLiteral_eq (s : List Char) : looksLikeJsonLiteral s = delimited (stripOuterFence s) := rfl

theorem delimited_map_lineFeed {s : List Char} (h : delimited s = true) : delimited (s.map lineFeed) = true := by
  obtain ⟨⟨c, hc, hopen⟩, d, hd, hclose⟩ := delimited_iff.mp h
  refine delimited_iff.mpr ⟨⟨c, ?_, hopen⟩, d, ?_, hclose⟩
  · rw [List.head?_map, Option.mem_def.mp hc]
    rcases hopen with rfl | rfl <;> rfl
  · rw [List.getLast?_map, Option.mem_def.mp hd]
    rcases hclose with rfl | rfl <;> rfl

section

variable {F : Type} {R : Reader F}

theorem parseListValue_announced {raw : List Char}
    (h : fence.isPrefixOf (strip raw) = true ∨ delimited (strip raw) = true) :
    parseListValue R raw = (loads R.floats (stripOuterFence (strip raw))).getD (.str (.ofList (strip raw))) := by
  have hannounced : (fence.isPrefixOf (strip raw) || looksLikeJsonLiteral (strip raw)) = true := by
    rw [Bool.or_eq_true]
    refine h.imp_right fun hdelimited => ?_
    rw [looksLikeJsonLiteral_eq,
      stripOuterFence_plain (strip_delimited hdelimited) (delimited_noFence hdelimited), hdelimited]
  unfold parseListValue
  dsimp only
  rw [if_pos hannounced]

theorem parseListValue_delimited {s : List Char} (h : delimited s = true) :
    parseListValue R s = (loads R.floats s).getD (.str (.ofList s)) := by
  have hstrip := strip_delimited h
  rw [parseListValue_announced (.inr (hstrip.symm ▸ h)), hstrip, stripOuterFence_plain hstrip (delimited_noFence h)]

def isContainer : Json F → Bool
  | .list _ | .dict _ => true
  | _ => false

theorem delimited_rendering {esc : Char → Prop} {v : Json F} (hv : isContainer v = true) {s : List Char}
    (h : Renders R.floats esc (.value v) s) : delimited s = true := by
  have hlast := h.last
  cases h with
  | null | bool | int | float | str => cases hv
  | emptyList | list => simp [delimited, hlast ']' rfl]
  | emptyDict | dict => simp [delimited, hlast '}' rfl]

theorem parseListValue_rendering {esc : Char → Prop} {v : Json F} (hv : isContainer v = true) (hd : v.Distinct)
    {s : List Char} (h : Renders R.floats esc (.value v) s) : parseListValue R s = v := by
  rw [parseListValue_delimited (delimited_rendering hv h), h.loads R.floats hd]
  rfl

theorem parseListValue_fenced {esc : Char → Prop} {v : Json F} (hv : isContainer v = true) {info s : List Char}
    (hinfo : ∀ c ∈ info, isLineBreak c = false) (h : Renders R.floats esc (.value v) s) :
    parseListValue R (fenced info s) =
      (loads R.floats ((universalNewlines s).map lineFeed)).getD (.str (.ofList (fenced info s))) := by
  obtain ⟨htext, hbody⟩ := h.universalNewlines R.floats
  have hdelimited := delimited_map_lineFeed (delimited_rendering hv htext)
  have hstrip := strip_fenced info s
  rw [parseListValue_announced (.inl (hstrip.symm ▸ isPrefixOf_fenced info s)), hstrip,
    stripOuterFence_fenced hinfo hbody (universalNewlines_ne_return s), strip_delimited hdelimited]

theorem parseListValue_fenced_clear {esc : Char → Prop} {v : Json F} (hv : isContainer v = true) (hd : v.Distinct)
    {info s : List Char} (hinfo : ∀ c ∈ info, isLineBreak c = false) (h : Renders R.floats esc (.value v) s)
    (hclear : ∀ c ∈ s, isRawBreak c = false) : parseListValue R (fenced info s) = v := by
  have htext := (h.universalNewlines R.floats).1
  have hfeed : ∀ c ∈ universalNewlines s, isLineBreak c = true → c = '\n' := by
    intro c hc hbreak
    rcases htext.breaksIn R.floats c hc hbreak with hn | hr | ⟨hraw, -⟩
    · exact hn
    · exact absurd hr (universalNewlines_ne_return s c hc)
    · by_cases hn : c = '\n'
      · exact hn
      · rw [mem_universalNewlines hn (universalNewlines_ne_return s c hc)] at hc
        rw [hclear c hc] at hraw
        cases hraw
  rw [parseListValue_fenced hv hinfo h, map_lineFeed hfeed, htext.loads R.floats hd]
  rfl

theorem parseListValue_fenced_broken {esc : Char → Prop} {v : Json F} (hv : isContainer v = true) (hd : v.Distinct)
    {info s : List Char} (hinfo : ∀ c ∈ info, isLineBreak c = false) (h : Renders R.floats esc (.value v) s)
    (hbroken : ∃ c ∈ s, isRawBreak c = true) : parseListValue R (fenced info s) = .str (.ofList (fenced info s)) := by
  have htext := (h.universalNewlines R.floats).1
  have hreturn := universalNewlines_ne_return s
  obtain ⟨b, hb, hraw⟩ := hbroken
  have hmem : b ∈ universalNewlines s := by
    refine (mem_universalNewlines ?_ ?_).mpr hb
    · rintro rfl
      exact absurd hraw (by decide)
    · rintro rfl
      exact absurd hraw (by decide)
  obtain ⟨c, hfind⟩ := Option.isSome_iff_exists.mp (List.find?_isSome.mpr ⟨b, hmem, hraw⟩)
  obtain ⟨hc, u, t, hsplit, hu⟩ := List.find?_eq_some_iff_append.mp hfind
  have hloads := htext.loads R.floats hd
  rw [parseListValue_fenced hv hinfo h]
  rw [hsplit] at hloads hreturn ⊢
  have hfeed : u.map lineFeed = u := by
    refine map_lineFeed fun d hd' hbreak => ?_
    have hmem' : d ∈ universalNewlines s := by simp [hsplit, hd']
    rcases htext.breaksIn R.floats d hmem' hbreak with hn | hr | ⟨hraw', -⟩
    · exact hn
    · exact absurd hr (hreturn d (by simp [hd']))
    · exact absurd (hu d hd') (by simp [hraw'])
  rw [List.map_append, List.map_cons, hfeed, lineFeed, if_pos (isLineBreak_raw hc), loads_broken R.floats hloads hc]
  rfl

def commaJoined (parts : List (List Char)) : List Char := [','].intercalate parts

theorem commaJoined_head {x : List Char} (hx : x ≠ []) (parts : List (List Char)) :
    (commaJoined (x :: parts)).head? = x.head? := by
  obtain ⟨c, t, rfl⟩ := List.exists_cons_of_ne_nil hx
  cases parts with
  | nil => rw [commaJoined, List.intercalate_singleton]
  | cons y parts => simp [commaJoined, List.intercalate_cons_cons]

theorem commaJoined_last {parts : List (List Char)} (hne : parts ≠ []) (h : ∀ x ∈ parts, x ≠ []) :
    ∃ x ∈ parts, (commaJoined parts).getLast? = x.getLast? := by
  induction parts with
  | nil => exact absurd rfl hne
  | cons x parts ih =>
    rw [List.forall_mem_cons] at h
    cases parts with
    | nil => exact ⟨x, List.mem_cons_self, by rw [commaJoined, List.intercalate_singleton]⟩
    | cons y parts =>
      obtain ⟨z, hz, hlast⟩ := ih (by simp) h.2
      refine ⟨z, List.mem_cons_of_mem _ hz, ?_⟩
      have hsome := List.getLast?_isSome.mpr (h.2 z hz)
      rw [commaJoined] at hlast
      rw [commaJoined, List.intercalate_cons_cons, List.getLast?_append, hlast, Option.or_of_isSome hsome]

theorem strip_commaJoined {parts : List (List Char)} (hne : parts ≠ []) (h : ∀ x ∈ parts, x ≠ [] ∧ strip x = x) :
    strip (commaJoined parts) = commaJoined parts := by
  refine strip_of_ends (fun c hc => ?_) (fun c hc => ?_)
  · obtain ⟨x, parts, rfl⟩ := List.exists_cons_of_ne_nil hne
    have hx := h x List.mem_cons_self
    rw [commaJoined_head hx.1] at hc
    exact strip_head hx.2 c hc
  · obtain ⟨x, hx, hlast⟩ := commaJoined_last hne fun x hx => (h x hx).1
    rw [hlast] at hc
    exact strip_last (h x hx).2 c hc

theorem parseListValue_commas {parts : List (List Char)} (hne : parts ≠ [])
    (h : ∀ x ∈ parts, x ≠ [] ∧ ',' ∉ x ∧ strip x = x) (hfence : fence.isPrefixOf (commaJoined parts) = false)
    (hdelimited : delimited (commaJoined parts) = false) :
    parseListValue R (commaJoined parts) = .list (parts.map fun x => .str (.ofList x)) := by
  have hstrip := strip_commaJoined hne fun x hx => ⟨(h x hx).1, (h x hx).2.2⟩
  have hsplit : splitCommas (commaJoined parts) = parts :=
    List.splitOn_intercalate ',' (fun x hx => (h x hx).2.1) hne
  have hmap : parts.map strip = parts := (List.map_congr_left fun x hx => (h x hx).2.2).trans (List.map_id' parts)
  have hfilter : parts.filter (· ≠ []) = parts :=
    List.filter_eq_self.mpr fun x hx => decide_eq_true (h x hx).1
  have hplain : ¬ (fence.isPrefixOf (commaJoined parts) || looksLikeJsonLiteral (commaJoined parts)) = true := by
    rw [looksLikeJsonLiteral_eq, stripOuterFence_plain hstrip hfence, hfence, hdelimited]
    decide
  unfold parseListValue
  dsimp only
  rw [hstrip, if_neg hplain, hsplit, hmap, hfilter]

theorem parseListValue_unreadable {info body : List Char} (hinfo : ∀ c ∈ info, isLineBreak c = false)
    (hbody : ∀ c ∈ body, isLineBreak c = true → c = '\n') (h : loads R.floats (strip body) = none) :
    parseListValue R (fenced info body) = .str (.ofList (fenced info body)) := by
  have hreturn : ∀ c ∈ body, c ≠ '\r' := by
    rintro c hc rfl
    exact absurd (hbody _ hc (by decide)) (by decide)
  have hstrip := strip_fenced info body
  rw [parseListValue_announced (.inl (hstrip.symm ▸ isPrefixOf_fenced info body)), hstrip,
    stripOuterFence_fenced hinfo (translates_of_ne hreturn) hreturn, map_lineFeed hbody, h]
  rfl

/-- A value is read whole, except that a fence loses the line breaks that stand in its strings. -/
theorem list_values_read_iff (R : Reader F) :
    (∀ (v : Json F) (s : List Char), isContainer v = true → v.Distinct →
      Renders R.floats (fun _ => True) (.value v) s →
      parseListValue R s = v ∧ ∀ info : List Char, (∀ c ∈ info, isLineBreak c = false) →
        (parseListValue R (fenced info s) = v ↔ ∀ c ∈ s, isRawBreak c = false)) ∧
    (∀ parts : List (List Char), parts ≠ [] → (∀ x ∈ parts, x ≠ [] ∧ ',' ∉ x ∧ strip x = x) →
      fence.isPrefixOf (commaJoined parts) = false → delimited (commaJoined parts) = false →
      parseListValue R (commaJoined parts) = .list (parts.map fun x => .str (.ofList x))) ∧
    (∀ raw : List Char, fence.isPrefixOf (strip raw) = true ∨ delimited (strip raw) = true →
      loads R.floats (stripOuterFence (strip raw)) = none → parseListValue R raw = .str (.ofList (strip raw))) ∧
    ∀ info body : List Char, (∀ c ∈ info, isLineBreak c = false) → (∀ c ∈ body, isLineBreak c = true → c = '\n') →
      loads R.floats (strip body) = none → parseListValue R (fenced info body) = .str (.ofList (fenced info body)) := by
  refine ⟨fun v s hv hd h => ⟨parseListValue_rendering hv hd h, fun info hinfo => ⟨fun hread => ?_, ?_⟩⟩,
    fun parts => parseListValue_commas, fun raw hannounced hloads => ?_, fun info body => parseListValue_unreadable⟩
  · by_contra hbroken
    simp only [not_forall, Bool.not_eq_false] at hbroken
    obtain ⟨c, hc, hraw⟩ := hbroken
    rw [parseListValue_fenced_broken hv hd hinfo h ⟨c, hc, hraw⟩] at hread
    rw [← hread] at hv
    cases hv
  · exact parseListValue_fenced_clear hv hd hinfo h
  · rw [parseListValue_announced hannounced, hloads]
    rfl

end

def json : List Char := ['j', 's', 'o', 'n']

theorem json_oneLine : ∀ c ∈ json, isLineBreak c = false := by simp [json, isLineBreak]

theorem list_values_read_sample :
    let v : Json Unit := .list [.str "café", .dict [("tags", .list [])]]
    parseListValue asciiReader (fenced json (dumps asciiReader.floats v)) = v ∧
      parseListValue asciiReader (commaJoined [['a', 'b'], ['c', ' ', 'd']]) = .list [.str "ab", .str "c d"] ∧
      parseListValue asciiReader [' ', '[', 'a', ']'] = .str "[a]" := by
  intro v
  obtain ⟨hread, hcommas, hrefused, -⟩ := list_values_read_iff asciiReader
  have hd : v.Distinct := by simp [v, Json.Distinct, distinctElements, distinctMembers]
  have hrenders := (renders_dumps asciiReader.floats v).mono fun _ _ => trivial
  have hclear : ((dumps asciiReader.floats v).all fun c => !isRawBreak c) = true := by decide
  refine ⟨((hread v _ rfl hd hrenders).2 json json_oneLine).mpr (by simpa using hclear), ?_, ?_⟩
  · exact hcommas [['a', 'b'], ['c', ' ', 'd']] (by simp) (by decide) rfl rfl
  · exact hrefused [' ', '[', 'a', ']'] (.inr rfl) rfl

def brokenList : Json Unit := .list [.str "a\u2028b"]

theorem fenced_list_not_read :
    ¬ ∀ (v : Json Unit) (s info : List Char), isContainer v = true → v.Distinct →
      Renders asciiReader.floats (fun _ => True) (.value v) s → (∀ c ∈ info, isLineBreak c = false) →
      parseListValue asciiReader (fenced info s) = v := by
  intro h
  have hd : brokenList.Distinct := by simp [brokenList, Json.Distinct, distinctElements]
  have hrenders := (renders_dumps asciiReader.floats brokenList).mono fun _ _ => trivial
  have hbroken : '\u2028' ∈ dumps asciiReader.floats brokenList := by decide
  have hread := h brokenList _ json rfl hd hrenders json_oneLine
  rw [parseListValue_fenced_broken rfl hd json_oneLine hrenders ⟨_, hbroken, by decide⟩] at hread
  cases hread

end GraphSkillRuntime.Markdown
