import GraphSkillRuntime.ListCuts
import GraphSkillRuntime.MarkdownFields
import Mathlib.Data.Finset.Sort

/-!
The excerpt for the patch agent: the items of a text are counted by another splitter than the one that parsed them.
-/

namespace GraphSkillRuntime.Markdown

open JsonText ListCuts

/-- `(?=##\s)`. -/
def opensBlock (s : List Char) : Bool :=
  match s with
  | '#' :: '#' :: c :: _ => isPythonSpace c
  | _ => false

/-- `re.split(r"(?m)^(?=##\s)", …)`; in a text of many lines `^` stands at the start and after each `\n`. -/
def splitHeads (atStart : Bool) : List Char → List Char × List (List Char)
  | [] => ([], [])
  | c :: rest =>
    let parts := splitHeads (c = '\n') rest
    if atStart && opensBlock (c :: rest) then ([], (c :: parts.1) :: parts.2) else (c :: parts.1, parts.2)

def rawParts (mdText : List Char) : List (List Char) := (splitHeads true mdText).1 :: (splitHeads true mdText).2

def isItemPart (part : List Char) : Bool := ['#', '#', ' '].isPrefixOf (part.dropWhile isPythonSpace)

def itemParts (mdText : List Char) : List (List Char) := (rawParts mdText).filter isItemPart

def extractMdExcerpt (mdText : List Char) (errorIndices : Finset ℕ) : List Char :=
  joinLines ((errorIndices.sort (· ≤ ·)).filterMap (fun i => (itemParts mdText)[i]?))

abbrev KeptLine := List Char × List Char

def lineText (line : KeptLine) : List Char := line.1 ++ line.2

def consText (c : Char) : List KeptLine → List KeptLine
  | [] => [([c], [])]
  | line :: lines => (c :: line.1, line.2) :: lines

/-- `str.splitlines(keepends=True)`. -/
def keptLines : List Char → List KeptLine
  | [] => []
  | c :: rest =>
    if c = '\r' then
      match rest with
      | '\n' :: rest => ([], ['\r', '\n']) :: keptLines rest
      | rest => ([], ['\r']) :: keptLines rest
    else if isLineBreak c then ([], [c]) :: keptLines rest
    else consText c (keptLines rest)

def isHeaderLine (line : KeptLine) : Bool := (itemHeader line.1).isSome

def blockLines (mdText : List Char) : List (List KeptLine) := (cutAt isHeaderLine (keptLines mdText)).2

def blockSources (mdText : List Char) : List (List Char) := (blockLines mdText).map (List.flatMap lineText)

theorem keptLines_text (s : List Char) : (keptLines s).flatMap lineText = s := by
  fun_induction keptLines s with
  | case1 => rfl
  | case2 rest ih => simp [lineText, ih]
  | case3 rest h ih => simp [lineText, ih]
  | case4 c rest hr hbreak ih => simp [lineText, ih]
  | case5 c rest hr hbreak ih =>
    cases hlines : keptLines rest with
    | nil =>
      rw [hlines] at ih
      simp [consText, lineText, ← ih]
    | cons line lines =>
      rw [hlines] at ih
      simp [consText, lineText, ← ih]

theorem splitlines_keptLines (s : List Char) : splitlines s = (keptLines s).map Prod.fst := by
  fun_induction keptLines s with
  | case1 => rfl
  | case2 rest ih => simp [splitlines, ih]
  | case3 rest h ih =>
    rw [splitlines.eq_def]
    simp only [if_true]
    rw [ih]
    rfl
  | case4 c rest hr hbreak ih => simp [splitlines_break hr hbreak, ih]
  | case5 c rest hr hbreak ih =>
    rw [splitlines_plain (by simpa using hbreak), ih]
    cases keptLines rest <;> rfl

theorem blockLines_blocks (mdText : List Char) :
    List.Forall₂ (fun piece block => ∃ header body, piece = header :: body ∧ itemHeader header.1 = some block.1 ∧
      body.map Prod.fst = block.2.map SourceLine.text) (blockLines mdText) (splitIntoBlocks mdText) := by
  have hloop : ∀ (lines : List KeptLine) (first : ℕ) (current : Option (String × List SourceLine)),
      ∃ last, blocksFrom current (((lines.map Prod.fst).zipIdx first).map (fun line => ⟨line.2, line.1⟩)) =
          (current.map (fun block => (block.1, block.2 ++ last))).toList ++
            blocksFrom none (((lines.map Prod.fst).zipIdx first).map (fun line => ⟨line.2, line.1⟩)) ∧
        last.map SourceLine.text = (cutAt isHeaderLine lines).1.map Prod.fst := by
    intro lines
    induction lines with
    | nil => exact fun first current => ⟨[], by cases current <;> simp [blocksFrom, cutAt]⟩
    | cons line lines ih =>
      intro first current
      cases hheader : itemHeader line.1 with
      | some id =>
        refine ⟨[], ?_, ?_⟩
        · simp only [List.map_cons, List.zipIdx_cons, blocksFrom, hheader]
          cases current <;> simp
        · rw [cutAt_marked (by simp [isHeaderLine, hheader])]
          rfl
      | none =>
        obtain ⟨last, hlast, htext⟩ := ih (first + 1) (current.map
          (fun block => (block.1, block.2 ++ [⟨first, line.1⟩])))
        refine ⟨⟨first, line.1⟩ :: last, ?_, ?_⟩
        · simp only [List.map_cons, List.zipIdx_cons, blocksFrom, hheader, Option.map_none]
          rw [hlast]
          cases current <;> simp
        · rw [cutAt_unmarked (by simp [isHeaderLine, hheader])]
          simp [htext]
  have hblocks : ∀ (lines : List KeptLine) (first : ℕ),
      List.Forall₂ (fun piece block => ∃ header body, piece = header :: body ∧ itemHeader header.1 = some block.1 ∧
        body.map Prod.fst = block.2.map SourceLine.text) (cutAt isHeaderLine lines).2
        (blocksFrom none (((lines.map Prod.fst).zipIdx first).map (fun line => ⟨line.2, line.1⟩))) := by
    intro lines
    induction lines with
    | nil => exact fun first => .nil
    | cons line lines ih =>
      intro first
      cases hheader : itemHeader line.1 with
      | some id =>
        obtain ⟨last, hlast, htext⟩ := hloop lines (first + 1) (some (id, []))
        rw [cutAt_marked (by simp [isHeaderLine, hheader])]
        simp only [List.map_cons, List.zipIdx_cons, blocksFrom, hheader, hlast]
        exact .cons ⟨line, _, rfl, hheader, htext.symm⟩ (ih (first + 1))
      | none =>
        rw [cutAt_unmarked (by simp [isHeaderLine, hheader])]
        simp only [List.map_cons, List.zipIdx_cons, blocksFrom, hheader, Option.map_none]
        exact ih (first + 1)
  rw [blockLines, splitIntoBlocks, splitlines_keptLines]
  exact hblocks (keptLines mdText) 1

def WellKept : List KeptLine → Prop
  | [] => True
  | line :: rest => (∀ c ∈ line.1, isLineBreak c = false) ∧ (∀ c ∈ line.2, isLineBreak c = true) ∧
      (∀ c ∈ line.2.dropLast, c ≠ '\n') ∧ lineText line ≠ [] ∧ (line.2 = [] → rest = []) ∧ WellKept rest

theorem wellKept_keptLines (s : List Char) : WellKept (keptLines s) := by
  fun_induction keptLines s with
  | case1 => trivial
  | case2 rest ih => exact ⟨by simp, by simp [isLineBreak], by simp, by simp [lineText], by simp, ih⟩
  | case3 rest h ih => exact ⟨by simp, by simp [isLineBreak], by simp, by simp [lineText], by simp, ih⟩
  | case4 c rest hr hbreak ih => exact ⟨by simp, by simpa using hbreak, by simp, by simp [lineText], by simp, ih⟩
  | case5 c rest hr hbreak ih =>
    rw [Bool.not_eq_true] at hbreak
    cases hlines : keptLines rest with
    | nil => exact ⟨by simpa using hbreak, by simp, by simp, by simp [lineText], fun _ => rfl, trivial⟩
    | cons line lines =>
      rw [hlines] at ih
      obtain ⟨htext, hend, hlast, -, hrest⟩ := ih
      exact ⟨List.forall_mem_cons.mpr ⟨hbreak, htext⟩, hend, hlast, by simp [lineText], hrest⟩

/-- A line with whether it stands at the start of the text or after a `\n`. -/
abbrev PlacedLine := Bool × KeptLine

def placedLines (atStart : Bool) : List KeptLine → List PlacedLine
  | [] => []
  | line :: rest => (atStart, line) :: placedLines (line.2.getLast? = some '\n') rest

def placedText (line : PlacedLine) : List Char := lineText line.2

def opensHere (line : PlacedLine) : Bool := line.1 && opensBlock (placedText line)

theorem placedLines_lines (atStart : Bool) (lines : List KeptLine) :
    (placedLines atStart lines).map Prod.snd = lines := by
  induction lines generalizing atStart with
  | nil => rfl
  | cons line rest ih => rw [placedLines, List.map_cons, ih]

theorem splitHeads_append {l : List Char} (hne : l ≠ []) (hl : ∀ c ∈ l.dropLast, c ≠ '\n') (atStart : Bool)
    (s : List Char) :
    splitHeads atStart (l ++ s) =
      (if atStart && opensBlock (l ++ s) then
        ([], (l ++ (splitHeads (l.getLast? = some '\n') s).1) :: (splitHeads (l.getLast? = some '\n') s).2)
      else (l ++ (splitHeads (l.getLast? = some '\n') s).1, (splitHeads (l.getLast? = some '\n') s).2)) := by
  induction l generalizing atStart with
  | nil => exact absurd rfl hne
  | cons c l ih =>
    cases l with
    | nil => simp [splitHeads]
    | cons d l =>
      rw [List.dropLast_cons_cons, List.forall_mem_cons] at hl
      have hrest := ih (by simp) hl.2 false
      rw [List.cons_append, splitHeads, decide_eq_false hl.1, hrest, List.getLast?_cons_cons]
      simp

theorem opensBlock_line {line : KeptLine} (htext : ∀ c ∈ line.1, isLineBreak c = false)
    (hend : ∀ c ∈ line.2, isLineBreak c = true) {s : List Char} (hs : line.2 = [] → s = []) :
    opensBlock (lineText line ++ s) = opensBlock (lineText line) := by
  obtain ⟨text, ending⟩ := line
  cases ending with
  | nil =>
    rw [hs rfl, List.append_nil]
  | cons e ending =>
    have he : isLineBreak e = true := hend e List.mem_cons_self
    have hsharp : e ≠ '#' := by
      rintro rfl
      exact absurd he (by decide)
    match text with
    | [] => simp [lineText, opensBlock, hsharp]
    | [a] => simp [lineText, opensBlock, hsharp]
    | [a, b] => by_cases ha : a = '#' <;> by_cases hb : b = '#' <;> simp [lineText, opensBlock, ha, hb]
    | a :: b :: c :: rest => by_cases ha : a = '#' <;> by_cases hb : b = '#' <;> simp [lineText, opensBlock, ha, hb]

theorem splitHeads_lines {lines : List KeptLine} (h : WellKept lines) (atStart : Bool) :
    splitHeads atStart (lines.flatMap lineText) =
      ((cutAt opensHere (placedLines atStart lines)).1.flatMap placedText,
        (cutAt opensHere (placedLines atStart lines)).2.map (List.flatMap placedText)) := by
  induction lines generalizing atStart with
  | nil => rfl
  | cons line rest ih =>
    obtain ⟨htext, hend, hlast, hne, hrest, hkept⟩ := h
    have hdrop : ∀ c ∈ (lineText line).dropLast, c ≠ '\n' := by
      intro c hc
      by_cases hnil : line.2 = []
      · rw [lineText, hnil, List.append_nil] at hc
        rintro rfl
        exact absurd (htext _ (List.mem_of_mem_dropLast hc)) (by decide)
      · rw [lineText, List.dropLast_append_of_ne_nil hnil] at hc
        rcases List.mem_append.mp hc with hc | hc
        · rintro rfl
          exact absurd (htext _ hc) (by decide)
        · exact hlast c hc
    have hgetLast : ((lineText line).getLast? = some '\n') = (line.2.getLast? = some '\n') := by
      by_cases hnil : line.2 = []
      · have hno : ∀ c ∈ line.1, c ≠ '\n' := by
          rintro c hc rfl
          exact absurd (htext _ hc) (by decide)
        simp only [lineText, hnil, List.append_nil, List.getLast?_nil, eq_iff_iff, reduceCtorEq, iff_false]
        exact fun hget => hno _ (List.mem_of_getLast? hget) rfl
      · rw [lineText, List.getLast?_append_of_ne_nil _ hnil]
    have hopens := opensBlock_line htext hend (s := rest.flatMap lineText) (fun hnil => by simp [hrest hnil])
    rw [List.flatMap_cons, splitHeads_append hne hdrop, hopens, placedLines]
    simp only [hgetLast, ih hkept]
    by_cases hmark : (atStart && opensBlock (lineText line)) = true
    · rw [@cutAt_marked _ opensHere (atStart, line) hmark, if_pos hmark]
      simp [placedText]
    · rw [@cutAt_unmarked _ opensHere (atStart, line) (Bool.not_eq_true _ ▸ hmark), if_neg hmark]
      simp [placedText]

theorem wellKept_append {xs ys : List KeptLine} (h : WellKept (xs ++ ys)) :
    WellKept xs ∧ (ys ≠ [] → ∀ line ∈ xs, line.2 ≠ []) := by
  induction xs with
  | nil => exact ⟨trivial, by simp⟩
  | cons line xs ih =>
    obtain ⟨htext, hend, hlast, hne, hrest, hkept⟩ := h
    obtain ⟨hxs, hends⟩ := ih hkept
    refine ⟨⟨htext, hend, hlast, hne, fun hnil => (List.append_eq_nil_iff.mp (hrest hnil)).1, hxs⟩, ?_⟩
    intro hys
    rw [List.forall_mem_cons]
    exact ⟨fun hnil => hys (List.append_eq_nil_iff.mp (hrest hnil)).2, hends hys⟩

theorem wellKept_mem {lines : List KeptLine} (h : WellKept lines) : ∀ line ∈ lines,
    (∀ c ∈ line.1, isLineBreak c = false) ∧ (∀ c ∈ line.2, isLineBreak c = true) ∧ lineText line ≠ [] := by
  induction lines with
  | nil => simp
  | cons line rest ih =>
    obtain ⟨htext, hend, -, hne, -, hkept⟩ := h
    rw [List.forall_mem_cons]
    exact ⟨⟨htext, hend, hne⟩, ih hkept⟩

theorem placedLines_append (atStart : Bool) (xs ys : List KeptLine) : ∃ atStart',
    placedLines atStart (xs ++ ys) = placedLines atStart xs ++ placedLines atStart' ys := by
  induction xs generalizing atStart with
  | nil => exact ⟨atStart, rfl⟩
  | cons line xs ih =>
    obtain ⟨atStart', h⟩ := ih (line.2.getLast? = some '\n')
    exact ⟨atStart', by rw [List.cons_append, placedLines, h]; rfl⟩

theorem opensBlock_cases {s : List Char} (h : opensBlock s = true) :
    ∃ c rest, s = '#' :: '#' :: c :: rest ∧ isPythonSpace c = true := by
  unfold opensBlock at h
  split at h
  · exact ⟨_, _, rfl, h⟩
  · cases h

theorem isItemPart_sharps (c : Char) (rest : List Char) : isItemPart ('#' :: '#' :: c :: rest) = (' ' == c) := by
  have hsharp : isPythonSpace '#' = false := by decide
  rw [isItemPart, List.dropWhile_cons_of_neg (by simp [hsharp])]
  simp only [List.isPrefixOf_cons_cons, List.isPrefixOf_nil_left, beq_self_eq_true, Bool.true_and, Bool.and_true]

theorem isItemPart_of_opens {s : List Char} (h : opensBlock s = true) (t : List Char) :
    isItemPart (s ++ t) = isItemPart s := by
  obtain ⟨c, rest, rfl, -⟩ := opensBlock_cases h
  rw [List.cons_append, List.cons_append, List.cons_append, isItemPart_sharps, isItemPart_sharps]

theorem isHeaderLine_opens {line : KeptLine} (h : isHeaderLine line = true) (t : List Char) :
    opensBlock (lineText line ++ t) = true ∧ ∃ a b c rest, line.1 = a :: b :: c :: rest ∧ rest ≠ [] := by
  obtain ⟨text, ending⟩ := line
  simp only [isHeaderLine] at h
  unfold itemHeader at h
  split at h
  · next rest =>
    rw [Option.isSome_map] at h
    unfold afterSpaces at h
    cases rest with
    | nil => simp at h
    | cons c rest =>
      by_cases hspace : isPythonSpace c = true
      · refine ⟨by simpa [lineText, opensBlock] using hspace, '#', '#', c, rest, rfl, ?_⟩
        rintro rfl
        simp [hspace] at h
      · simp [hspace] at h
  · cases h

theorem short_header {line : KeptLine} (hend : ∀ c ∈ line.2, isLineBreak c = true)
    (hnot : isHeaderLine line = false) (hopens : opensBlock (lineText line) = true)
    (hitem : isItemPart (lineText line) = true) : line.1 = ['#', '#', ' '] := by
  obtain ⟨text, ending⟩ := line
  obtain ⟨c, rest, htext, -⟩ := opensBlock_cases hopens
  rw [htext, isItemPart_sharps] at hitem
  obtain rfl : ' ' = c := by simpa using hitem
  have hbreak : ∀ d ∈ ending, d ≠ '#' ∧ d ≠ ' ' := by
    intro d hd
    constructor
    · rintro rfl
      exact absurd (hend _ hd) (by decide)
    · rintro rfl
      exact absurd (hend _ hd) (by decide)
  rw [lineText] at htext
  match text with
  | [] =>
    have hmem : '#' ∈ ending := by simp only [List.nil_append] at htext; simp [htext]
    exact absurd rfl (hbreak _ hmem).1
  | [a] =>
    have hmem : '#' ∈ ending := by
      simp only [List.cons_append, List.nil_append, List.cons.injEq] at htext
      simp [htext.2]
    exact absurd rfl (hbreak _ hmem).1
  | [a, b] =>
    have hmem : ' ' ∈ ending := by
      simp only [List.cons_append, List.nil_append, List.cons.injEq] at htext
      simp [htext.2]
    exact absurd rfl (hbreak _ hmem).2
  | a :: b :: d :: tail =>
    simp only [List.cons_append, List.cons.injEq] at htext
    obtain ⟨rfl, rfl, rfl, -⟩ := htext
    cases tail with
    | nil => rfl
    | cons x tail =>
      have hspace : isPythonSpace ' ' = true := by decide
      have hafter : ∃ id, afterSpaces (' ' :: x :: tail) = some id := by
        unfold afterSpaces
        rw [if_pos (by simp [hspace])]
        split
        · rw [if_pos (by simp), List.getLast?_eq_some_getLast (by simp)]
          exact ⟨_, rfl⟩
        · exact ⟨_, rfl⟩
      obtain ⟨id, hafter⟩ := hafter
      simp [isHeaderLine, itemHeader, hafter] at hnot

section Numbering

variable (mdText : List Char)

def textLines : List PlacedLine := placedLines true (keptLines mdText)

def isPlacedHeader (line : PlacedLine) : Bool := isHeaderLine line.2

def headless : List Char := (cutAt isPlacedHeader (textLines mdText)).1.flatMap placedText

def headedLines : List PlacedLine := (cutAt isPlacedHeader (textLines mdText)).2.flatten

/-- When there is a header at all: the other splitter cuts at the headers and nowhere else from the first of them on,
and takes them for items, and it sees no item before. -/
def NumbersAgree : Prop :=
  headedLines mdText ≠ [] → (∀ part ∈ rawParts (headless mdText), isItemPart part = false) ∧
    ∀ line ∈ headedLines mdText, opensHere line = isPlacedHeader line ∧
      (isPlacedHeader line = true → isItemPart (placedText line) = true)

theorem textLines_eq : (cutAt isPlacedHeader (textLines mdText)).1 ++ headedLines mdText = textLines mdText :=
  cutAt_flatten _ _

theorem blockSources_eq : blockSources mdText =
    (cutAt isPlacedHeader (headedLines mdText)).2.map (List.flatMap placedText) := by
  have hlines : keptLines mdText = (textLines mdText).map Prod.snd := (placedLines_lines true _).symm
  have hcut := cutAt_map isHeaderLine Prod.snd (textLines mdText)
  rw [← hlines] at hcut
  rw [headedLines, cutAt_pieces_flatten, blockSources, blockLines, hcut, List.map_map]
  apply List.map_congr_left
  intro piece _
  rw [Function.comp_apply, List.flatMap_map]
  rfl

theorem itemParts_eq : itemParts mdText =
    ((cutAt opensHere (textLines mdText)).1.flatMap placedText ::
      (cutAt opensHere (textLines mdText)).2.map (List.flatMap placedText)).filter isItemPart := by
  have hsplit := splitHeads_lines (wellKept_keptLines mdText) true
  rw [keptLines_text] at hsplit
  rw [itemParts, rawParts, hsplit]
  rfl

theorem rawParts_headless : rawParts (headless mdText) =
    (cutAt opensHere (cutAt isPlacedHeader (textLines mdText)).1).1.flatMap placedText ::
      (cutAt opensHere (cutAt isPlacedHeader (textLines mdText)).1).2.map (List.flatMap placedText) := by
  have hparts := textLines_eq mdText
  have hlines : keptLines mdText = (textLines mdText).map Prod.snd := (placedLines_lines true _).symm
  rw [← hparts, List.map_append] at hlines
  have hkept := wellKept_keptLines mdText
  rw [hlines] at hkept
  obtain ⟨atStart, hplaced⟩ := placedLines_append true ((cutAt isPlacedHeader (textLines mdText)).1.map Prod.snd)
    ((headedLines mdText).map Prod.snd)
  have hfirst : placedLines true ((cutAt isPlacedHeader (textLines mdText)).1.map Prod.snd) =
      (cutAt isPlacedHeader (textLines mdText)).1 := by
    rw [← hlines] at hplaced
    have hlength := congrArg List.length (placedLines_lines true
      ((cutAt isPlacedHeader (textLines mdText)).1.map Prod.snd))
    simp only [List.length_map] at hlength
    exact (List.append_inj_left (hparts.trans hplaced) hlength.symm).symm
  have hsplit := splitHeads_lines (wellKept_append hkept).1 true
  rw [hfirst, List.flatMap_map] at hsplit
  have htext : headless mdText =
      (cutAt isPlacedHeader (textLines mdText)).1.flatMap (fun line => lineText line.2) := rfl
  rw [rawParts, htext, hsplit]

variable {mdText}

theorem textLines_mem {line : PlacedLine} (h : line ∈ textLines mdText) : (∀ c ∈ line.2.1, isLineBreak c = false) ∧
    (∀ c ∈ line.2.2, isLineBreak c = true) ∧ placedText line ≠ [] := by
  have hmem : line.2 ∈ keptLines mdText := by
    rw [← placedLines_lines true (keptLines mdText)]
    exact List.mem_map_of_mem h
  exact wellKept_mem (wellKept_keptLines mdText) line.2 hmem

theorem textLines_ended {xs ys : List PlacedLine} (h : textLines mdText = xs ++ ys) (hys : ys ≠ []) :
    ∀ line ∈ xs, line.2.2 ≠ [] := by
  have hlines := placedLines_lines true (keptLines mdText)
  have hkept := wellKept_keptLines mdText
  rw [← hlines, ← textLines, h, List.map_append] at hkept
  intro line hline
  exact (wellKept_append hkept).2 (by simpa using hys) line.2 (List.mem_map_of_mem hline)

theorem textLines_head {line : PlacedLine} {rest : List PlacedLine} (h : textLines mdText = line :: rest) :
    line.1 = true := by
  unfold textLines at h
  cases hlines : keptLines mdText with
  | nil => simp [hlines, placedLines] at h
  | cons first others =>
    rw [hlines, placedLines] at h
    rw [← (List.cons.inj h).1]

theorem early_not_source {header : KeptLine} (hheader : isHeaderLine header = true)
    (hbreaks : ∀ c ∈ header.1, isLineBreak c = false) (t : List Char) {piece : List PlacedLine}
    (hpiece : piece = (cutAt opensHere (textLines mdText)).1 ∨ ∃ line rest, piece = line :: rest ∧
      opensHere line = true ∧ line ∈ (cutAt isPlacedHeader (textLines mdText)).1)
    (hheaded : headedLines mdText ≠ []) (hitem : isItemPart (piece.flatMap placedText) = true) :
    piece.flatMap placedText ≠ lineText header ++ t := by
  intro heq
  obtain ⟨hopens, a, b, c, tail, htext, htail⟩ := isHeaderLine_opens hheader t
  rcases hpiece with hfirst | ⟨line, rest, rfl, hline, hmem⟩
  · cases piece with
    | nil => exact absurd hitem (by decide)
    | cons line rest =>
      have hcut := cutAt_flatten opensHere (textLines mdText)
      rw [← hfirst, List.cons_append] at hcut
      have hstart := textLines_head hcut.symm
      have hunmarked := @cutAt_first_unmarked _ opensHere (textLines mdText) line (by simp [← hfirst])
      obtain ⟨hno, hend, -⟩ := @textLines_mem mdText line (by rw [← hcut]; simp)
      have hlast : line.2.2 = [] → rest.flatMap placedText = [] := by
        intro hnil
        by_contra hne
        have hrest : rest ≠ [] := by
          rintro rfl
          exact hne rfl
        exact @textLines_ended _ [line] _ hcut.symm (by simp [hrest]) line (by simp) hnil
      rw [List.flatMap_cons] at heq
      have hsame := opensBlock_line hno hend hlast
      rw [opensHere, hstart, Bool.true_and] at hunmarked
      rw [← heq, placedText, hsame] at hopens
      rw [placedText, hopens] at hunmarked
      cases hunmarked
  · have hparts := (textLines_eq mdText).symm
    obtain ⟨-, hend, -⟩ := @textLines_mem mdText line
      (by rw [hparts]; exact List.mem_append_left _ hmem)
    have hopensLine : opensBlock (lineText line.2) = true := (Bool.and_eq_true_iff.mp hline).2
    rw [List.flatMap_cons, placedText, isItemPart_of_opens hopensLine] at hitem
    have hshort := short_header hend (cutAt_first_unmarked line hmem) hopensLine hitem
    obtain ⟨e, ending, hending⟩ := List.exists_cons_of_ne_nil (textLines_ended hparts hheaded line hmem)
    -- the fourth characters differ: a line break on the left, the header's text on the right
    obtain ⟨d, tail, rfl⟩ := List.exists_cons_of_ne_nil htail
    rw [List.flatMap_cons, placedText, lineText, lineText, hshort, hending, htext] at heq
    simp only [List.cons_append, List.nil_append, List.cons.injEq] at heq
    have hbreak : isLineBreak e = true := hend e (by simp [hending])
    rw [heq.2.2.2.1, hbreaks d (by simp [htext])] at hbreak
    cases hbreak

theorem flatten_map_flatMap {α β : Type} (f : α → List β) (pieces : List (List α)) :
    (pieces.map (List.flatMap f)).flatten = pieces.flatten.flatMap f := by
  induction pieces with
  | nil => rfl
  | cons piece pieces ih => simp [ih]

theorem headedLines_mem {line : PlacedLine} (h : line ∈ headedLines mdText) : placedText line ≠ [] := by
  have hmem : line ∈ textLines mdText := by
    rw [← textLines_eq mdText]
    exact List.mem_append_right _ h
  exact (textLines_mem hmem).2.2

theorem sources_ne_nil : ∀ source ∈ blockSources mdText, source ≠ [] := by
  rw [blockSources_eq, List.forall_mem_map]
  intro piece hpiece
  obtain ⟨line, rest, rfl, -, hmem⟩ := cutAt_head piece hpiece
  simp [headedLines_mem hmem]

theorem headed_pieces : (cutAt isPlacedHeader (headedLines mdText)).1 = [] ∧
    (cutAt isPlacedHeader (headedLines mdText)).2.flatten = headedLines mdText := by
  rw [headedLines, cutAt_pieces_flatten]
  exact ⟨rfl, rfl⟩

theorem sources_of_agree (h : NumbersAgree mdText) : blockSources mdText <+: itemParts mdText := by
  by_cases hheaded : headedLines mdText = []
  · rw [blockSources_eq, hheaded]
    exact List.nil_prefix
  · obtain ⟨hbefore, hlines⟩ := h hheaded
    have hsame := cutAt_congr (fun line hline => (hlines line hline).1)
    obtain ⟨early, hpieces, hearly, -⟩ := cutAt_append opensHere (cutAt isPlacedHeader (textLines mdText)).1
      (headedLines mdText)
    rw [textLines_eq] at hpieces hearly
    obtain ⟨hone, hrest⟩ := hearly (by rw [hsame, headed_pieces.1])
    have hitems : ∀ part ∈ (cutAt isPlacedHeader (headedLines mdText)).2.map (List.flatMap placedText),
        isItemPart part = true := by
      rw [List.forall_mem_map]
      intro piece hpiece
      obtain ⟨line, rest, rfl, hheader, hmem⟩ := cutAt_head piece hpiece
      have hopens := (isHeaderLine_opens hheader []).1
      rw [List.append_nil] at hopens
      rw [List.flatMap_cons, placedText, isItemPart_of_opens hopens]
      exact (hlines line hmem).2 hheader
    rw [rawParts_headless] at hbefore
    have hnone := List.filter_eq_nil_iff.mpr (fun part hpart => Bool.not_eq_true _ ▸ hbefore part hpart)
    rw [blockSources_eq, itemParts_eq, hpieces, hone, hrest, hsame, List.map_append, ← List.cons_append,
      List.filter_append, hnone, List.nil_append, List.filter_eq_self.mpr hitems]

theorem early_not_items (hheaded : headedLines mdText ≠ []) {early : List (List PlacedLine)} {later : List (List Char)}
    (hearly : ∀ piece ∈ early, ∃ line rest, piece = line :: rest ∧ opensHere line = true ∧
      line ∈ (cutAt isPlacedHeader (textLines mdText)).1)
    (hleading : blockSources mdText <+: ((cutAt opensHere (textLines mdText)).1.flatMap placedText ::
      early.map (List.flatMap placedText)).filter isItemPart ++ later) :
    ((cutAt opensHere (textLines mdText)).1.flatMap placedText ::
      early.map (List.flatMap placedText)).filter isItemPart = [] := by
  by_contra hsome
  obtain ⟨part, parts, hparts⟩ := List.exists_cons_of_ne_nil hsome
  have hpieces : (cutAt isPlacedHeader (headedLines mdText)).2 ≠ [] := by
    intro hnil
    apply hheaded
    rw [← headed_pieces.2, hnil, List.flatten_nil]
  obtain ⟨piece, pieces, hpiece⟩ := List.exists_cons_of_ne_nil hpieces
  rw [hparts, blockSources_eq, hpiece, List.map_cons, List.cons_append, List.cons_prefix_cons] at hleading
  obtain ⟨header, rest, rfl, hheader, hmem⟩ := cutAt_head piece (by rw [hpiece]; exact List.mem_cons_self)
  have hpart : part ∈ ((cutAt opensHere (textLines mdText)).1 :: early).map (List.flatMap placedText) ∧
      isItemPart part = true := by
    rw [List.map_cons, ← List.mem_filter, hparts]
    exact List.mem_cons_self
  obtain ⟨⟨candidate, hcandidate, rfl⟩, hitem⟩ := And.imp_left List.mem_map.mp hpart
  have htext : header ∈ textLines mdText := by
    rw [← textLines_eq mdText]
    exact List.mem_append_right _ hmem
  refine early_not_source hheader (textLines_mem htext).1 _ ?_ hheaded hitem hleading.1.symm
  rcases List.mem_cons.mp hcandidate with rfl | hcandidate
  · exact .inl rfl
  · exact .inr (hearly candidate hcandidate)

theorem pieces_of_sublist (hsub : (blockSources mdText).Sublist
      ((cutAt opensHere (headedLines mdText)).2.map (List.flatMap placedText))) :
    (cutAt opensHere (headedLines mdText)).1 = [] ∧
      blockSources mdText = (cutAt opensHere (headedLines mdText)).2.map (List.flatMap placedText) := by
  have hopens := cutAt_flatten opensHere (headedLines mdText)
  have hfull := congrArg (fun lines => (lines.flatMap placedText).length) hopens
  simp only [List.flatMap_append, List.length_append] at hfull
  have hsources : (blockSources mdText).flatten.length = ((headedLines mdText).flatMap placedText).length := by
    rw [blockSources_eq, flatten_map_flatMap, headed_pieces.2]
  have hlength := length_flatten_le hsub
  rw [hsources, flatten_map_flatMap] at hlength
  constructor
  · cases hcut : (cutAt opensHere (headedLines mdText)).1 with
    | nil => rfl
    | cons line rest =>
      have hmem : line ∈ headedLines mdText := by
        rw [← hopens, hcut]
        simp
      have hpos := List.length_pos_iff.mpr (headedLines_mem hmem)
      rw [hcut, List.flatMap_cons, List.length_append] at hfull
      omega
  · apply eq_of_sublist hsub
    · rw [List.forall_mem_map]
      intro piece hpiece
      obtain ⟨line, rest, rfl, -, hmem⟩ := cutAt_head piece hpiece
      simp [headedLines_mem hmem]
    · rw [hsources, flatten_map_flatMap]
      omega

theorem agree_of_sources (hleading : blockSources mdText <+: itemParts mdText) : NumbersAgree mdText := by
  intro hheaded
  obtain ⟨early, hpieces, hsame, hearly⟩ := cutAt_append opensHere (cutAt isPlacedHeader (textLines mdText)).1
    (headedLines mdText)
  rw [textLines_eq] at hpieces hsame
  rw [itemParts_eq, hpieces, List.map_append, ← List.cons_append, List.filter_append] at hleading
  have hnone := early_not_items hheaded hearly hleading
  rw [hnone, List.nil_append] at hleading
  obtain ⟨hempty, heq⟩ := pieces_of_sublist (hleading.sublist.trans List.filter_sublist)
  have hall := List.filter_eq_self.mp (List.Sublist.antisymm List.filter_sublist (heq ▸ hleading.sublist))
  rw [blockSources_eq] at heq
  have hmarks := marks_eq (fun line => headedLines_mem) (by rw [headed_pieces.1, hempty]) heq
  obtain ⟨hone, hrest⟩ := hsame hempty
  rw [hone, hrest, ← rawParts_headless] at hnone
  constructor
  · exact fun part hpart => by simpa using List.filter_eq_nil_iff.mp hnone part hpart
  · intro line hline
    refine ⟨(hmarks line hline).symm, fun hheader => ?_⟩
    have hopen : opensHere line = true := (hmarks line hline).symm.trans hheader
    obtain ⟨rest, hpiece⟩ := exists_piece hline hopen
    have hitem := hall _ (List.mem_map_of_mem hpiece)
    rwa [List.flatMap_cons, isItemPart_of_opens (Bool.and_eq_true_iff.mp hopen).2] at hitem

end Numbering

/-- The excerpt is the source text of the blocks with the given numbers, in order. -/
def ExcerptExact (mdText : List Char) : Prop :=
  ∀ errorIndices : Finset ℕ, (∀ i ∈ errorIndices, i < (splitIntoBlocks mdText).length) →
    extractMdExcerpt mdText errorIndices =
      joinLines ((errorIndices.sort (· ≤ ·)).map (fun i => ((blockSources mdText)[i]?).getD []))

theorem excerptExact_iff_leading (mdText : List Char) :
    ExcerptExact mdText ↔ blockSources mdText <+: itemParts mdText := by
  have hcount : (splitIntoBlocks mdText).length = (blockSources mdText).length := by
    rw [← (blockLines_blocks mdText).length_eq, blockSources, List.length_map]
  rw [List.prefix_iff_getElem?]
  constructor
  · intro h i hi
    have hone := h {i} (by simpa [hcount] using hi)
    have hjoin : ∀ part : List Char, joinLines [part] = part := by simp [joinLines]
    rw [extractMdExcerpt, Finset.sort_singleton, List.map_singleton, hjoin, List.getElem?_eq_getElem hi,
      Option.getD_some] at hone
    cases hpart : (itemParts mdText)[i]? with
    | none =>
      rw [List.filterMap_cons_none hpart] at hone
      exact absurd hone.symm (sources_ne_nil _ (List.getElem_mem hi))
    | some part =>
      rw [List.filterMap_cons_some hpart, List.filterMap_nil, hjoin] at hone
      rw [hone]
  · intro h errorIndices hindices
    rw [extractMdExcerpt]
    congr 1
    rw [← List.filterMap_eq_map]
    apply List.filterMap_congr
    intro i hi
    have hlt := hindices i ((Finset.mem_sort (· ≤ ·)).mp hi)
    rw [hcount] at hlt
    rw [h i hlt, Function.comp_apply, List.getElem?_eq_getElem hlt, Option.getD_some]

theorem excerpt_exact_iff (mdText : List Char) : ExcerptExact mdText ↔ NumbersAgree mdText := by
  rw [excerptExact_iff_leading]
  exact ⟨agree_of_sources, sources_of_agree⟩

def emptyHeading : List Char := ['#', '#', ' ', '\n', '#', '#', ' ', 'a', '\n', '-', ' ', 'x', ':', ' ', '1']

theorem empty_heading_shifts_excerpt :
    extractMdExcerpt emptyHeading {0} = ['#', '#', ' ', '\n'] ∧ ¬ ExcerptExact emptyHeading := by
  have hparts : itemParts emptyHeading = [['#', '#', ' ', '\n'], emptyHeading.drop 4] := by decide
  constructor
  · rw [extractMdExcerpt, Finset.sort_singleton, hparts]
    rfl
  · rw [excerptExact_iff_leading, hparts]
    decide

end GraphSkillRuntime.Markdown
