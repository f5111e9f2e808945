import GraphSkillRuntime.JsonLines
import GraphSkillRuntime.JsonRenderings

/-!
JSON text of many lines, as Python's `json` writes it with `indent`. It reads back whatever the blanks at the line
starts are, so that the lines may be stripped in between.
-/

namespace GraphSkillRuntime.JsonText

open OrderedDict

section

variable {F : Type} (P : FloatFormat F) (newline : ℕ → List Char)

mutual

/-- `newline n` is the line break with the blanks of level `n`. -/
def dumpsAt : ℕ → Json F → List Char
  | n, .list (x :: xs) => '[' :: (newline (n + 1) ++ (dumpsAt (n + 1) x ++ elementsAt n xs))
  | n, .dict ((k, v) :: kvs) =>
    '{' :: (newline (n + 1) ++ (quote k ++ ':' :: ' ' :: (dumpsAt (n + 1) v ++ membersAt n kvs)))
  | _, .null => dumps P .null
  | _, .bool b => dumps P (.bool b)
  | _, .int z => dumps P (.int z)
  | _, .float x => dumps P (.float x)
  | _, .str s => dumps P (.str s)
  | _, .list [] => dumps P (.list [])
  | _, .dict [] => dumps P (.dict [])

def elementsAt : ℕ → List (Json F) → List Char
  | n, [] => newline n ++ [']']
  | n, x :: xs => ',' :: (newline (n + 1) ++ (dumpsAt (n + 1) x ++ elementsAt n xs))

def membersAt : ℕ → List (String × Json F) → List Char
  | n, [] => newline n ++ ['}']
  | n, (k, v) :: kvs =>
    ',' :: (newline (n + 1) ++ (quote k ++ ':' :: ' ' :: (dumpsAt (n + 1) v ++ membersAt n kvs)))

end

end

def IsNewline (newline : ℕ → List Char) : Prop :=
  ∀ n, ∃ blanks, newline n = '\n' :: blanks ∧ ∀ c ∈ blanks, c = ' '

section

variable {F : Type} (P : FloatFormat F) {newline : ℕ → List Char}

theorem dumpsAt_literal {v : Json F} (hlist : ∀ x xs, v ≠ .list (x :: xs)) (hdict : ∀ e kvs, v ≠ .dict (e :: kvs))
    (n : ℕ) : dumpsAt P newline n v = dumps P v := by
  match v with
  | .null | .bool _ | .int _ | .float _ | .str _ | .list [] | .dict [] => rw [dumpsAt]
  | .list (x :: xs) => exact absurd rfl (hlist x xs)
  | .dict (e :: kvs) => exact absurd rfl (hdict e kvs)

theorem dumpsAt_head (n : ℕ) (v : Json F) :
    ∃ c t, dumpsAt P newline n v = c :: t ∧ (opensLiteral c = true ∨ c = '"' ∨ c = '[' ∨ c = '{') := by
  rcases v with _ | b | i | f | s | (_ | ⟨x, xs⟩) | (_ | ⟨⟨k, w⟩, kvs⟩)
  case list.cons => exact ⟨_, _, by rw [dumpsAt], .inr (.inr (.inl rfl))⟩
  case dict.cons => exact ⟨_, _, by rw [dumpsAt], .inr (.inr (.inr rfl))⟩
  all_goals
    rw [dumpsAt]
    exact dumps_head P _

theorem blanks_newline (hn : IsNewline newline) (n : ℕ) : Blanks (newline n) := by
  obtain ⟨blanks, h, hblanks⟩ := hn n
  rw [h]
  intro c hc
  rcases List.mem_cons.mp hc with rfl | hc
  · rfl
  · rw [hblanks c hc]
    rfl

mutual

theorem renders_dumpsAt (hn : IsNewline newline) : ∀ (n : ℕ) (v : Json F),
    Renders P (fun c => escapeChar c ≠ [c]) (.value v) (dumpsAt P newline n v)
  | _, .null => by
    rw [dumpsAt]
    exact .null
  | _, .bool b => by
    rw [dumpsAt]
    exact .bool b
  | _, .int z => by
    rw [dumpsAt]
    exact .int z
  | _, .float x => by
    have hfloat : Renders P (fun c => escapeChar c ≠ [c]) _ _ := .float (P.repr x)
    rw [P.ofLiteral_repr] at hfloat
    rw [dumpsAt]
    exact hfloat
  | _, .str s => by
    rw [dumpsAt]
    exact .str literal_quote
  | _, .list [] => by
    rw [dumpsAt]
    exact .emptyList blanks_nil
  | _, .dict [] => by
    rw [dumpsAt]
    exact .emptyDict blanks_nil
  | n, .list (x :: xs) => by
    rw [dumpsAt]
    exact .list (blanks_newline hn (n + 1)) (renders_elementsAt hn n xs x _ (renders_dumpsAt hn (n + 1) x))
  | n, .dict ((k, v) :: kvs) => by
    have hmembers := renders_membersAt hn n kvs k v _ (renders_dumpsAt hn (n + 1) v)
    rw [dumpsAt]
    exact .dict (blanks_newline hn (n + 1)) hmembers

theorem renders_elementsAt (hn : IsNewline newline) : ∀ (n : ℕ) (xs : List (Json F)) (x : Json F) (t : List Char),
    Renders P (fun c => escapeChar c ≠ [c]) (.value x) t →
      Renders P (fun c => escapeChar c ≠ [c]) (.elements (x :: xs)) (t ++ elementsAt P newline n xs)
  | n, [], x, t, hx => by
    rw [elementsAt]
    exact .lastElement (blanks_newline hn n) hx
  | n, y :: ys, x, t, hx => by
    have hys := renders_elementsAt hn n ys y _ (renders_dumpsAt hn (n + 1) y)
    rw [elementsAt]
    exact .element blanks_nil (blanks_newline hn (n + 1)) hx hys

theorem renders_membersAt (hn : IsNewline newline) : ∀ (n : ℕ) (kvs : List (String × Json F)) (k : String)
    (v : Json F) (t : List Char), Renders P (fun c => escapeChar c ≠ [c]) (.value v) t →
      Renders P (fun c => escapeChar c ≠ [c]) (.members ((k, v) :: kvs))
        (quote k ++ ':' :: ' ' :: (t ++ membersAt P newline n kvs))
  | n, [], k, v, t, hv => by
    have hlast := Renders.lastMember (k := k) literal_quote blanks_nil blanks_space (blanks_newline hn n) hv
    rw [membersAt]
    simpa [quote] using hlast
  | n, (j, w) :: kvs, k, v, t, hv => by
    have hkvs := renders_membersAt hn n kvs j w _ (renders_dumpsAt hn (n + 1) w)
    have hmember := Renders.member (k := k) literal_quote blanks_nil blanks_space blanks_nil
      (blanks_newline hn (n + 1)) hv hkvs
    rw [membersAt]
    simpa [quote] using hmember

end

theorem loads_dumpsAt (hn : IsNewline newline) (n : ℕ) {v : Json F} (h : v.Distinct) :
    loads P (dumpsAt P newline n v) = some v :=
  (renders_dumpsAt P hn n v).loads P h

end

/-! Text that is put together of raw characters and whole escapes of the writer. Unlike the texts above it may be cut
and stripped, since no escape ends in a blank. -/

inductive Written (p : Char → Prop) : List Char → Prop where
  | nil : Written p []
  | raw {c : Char} {s : List Char} (hc : c ≠ '\\') (hp : p c) : Written p s → Written p (c :: s)
  | escape {c : Char} {s : List Char} (hc : escapeChar c ≠ [c]) : Written p s → Written p (escapeChar c ++ s)

theorem escapeChar_slash {c : Char} (hc : escapeChar c ≠ [c]) :
    (∃ t, escapeChar c = '\\' :: t) ∧ ∀ d ∈ escapeChar c, printable d ∧ d ≠ ' ' := by
  have hdigit : ∀ n < 16, printable (Nat.digitChar n) ∧ Nat.digitChar n ≠ ' ' := by decide
  rcases escapeChar_cases c with ⟨e, hmem, -, hesc, -⟩ | ⟨hcontrol, hesc⟩ | ⟨-, -, -, hesc⟩
  · rw [hesc]
    refine ⟨⟨_, rfl⟩, ?_⟩
    simp only [List.forall_mem_cons]
    obtain ⟨hprint, hblank, -⟩ := shortEscape_printable hmem
    exact ⟨by decide, ⟨hprint, hblank⟩, by simp⟩
  · rw [hesc]
    refine ⟨⟨_, rfl⟩, ?_⟩
    simp only [List.forall_mem_cons]
    exact ⟨by decide, by decide, by decide, by decide, hdigit _ (by omega), hdigit _ (by omega), by simp⟩
  · exact absurd hesc hc

namespace Written

variable {p q : Char → Prop} {s t : List Char}

theorem chars {l : List Char} (hl : ∀ c ∈ l, c ≠ '\\' ∧ p c) (h : Written p s) : Written p (l ++ s) := by
  induction l with
  | nil => exact h
  | cons c l ih =>
    rw [List.forall_mem_cons] at hl
    exact .raw hl.1.1 hl.1.2 (ih hl.2)

theorem append (hs : Written p s) (ht : Written p t) : Written p (s ++ t) := by
  induction hs with
  | nil => exact ht
  | raw hc hp _ ih => exact .raw hc hp ih
  | escape hc _ ih =>
    rw [List.append_assoc]
    exact .escape hc ih

theorem mono (hpq : ∀ c, p c → q c) (h : Written p s) : Written q s := by
  induction h with
  | nil => exact .nil
  | raw hc hp _ ih => exact .raw hc (hpq _ hp) ih
  | escape hc _ ih => exact .escape hc ih

theorem mem (hp : ∀ c, printable c → p c) (h : Written p s) : ∀ c ∈ s, p c := by
  induction h with
  | nil => simp
  | raw hc hp' _ ih => exact List.forall_mem_cons.mpr ⟨hp', ih⟩
  | escape hc _ ih =>
    rw [List.forall_mem_append]
    exact ⟨fun d hd => hp d ((escapeChar_slash hc).2 d hd).1, ih⟩

theorem escaped (hp : ∀ c, printable c → p c) (h : Written p s) : Escaped p s := by
  induction h with
  | nil => exact .nil
  | raw hc hp' _ ih => exact .raw hc hp' ih
  | @escape c s hc _ ih =>
    apply Escaped.escapeChar _ ih
    intro hlow
    rcases escapeChar_cases c with ⟨e, hmem, -, -, heq⟩ | ⟨hcontrol, -⟩ | ⟨-, -, -, hesc⟩
    · rw [heq hlow]
      exact hp e (shortEscape_printable hmem).1
    · omega
    · exact absurd hesc hc

theorem tail {c : Char} (h : Written p (c :: s)) (hc : c ≠ '\\') : p c ∧ Written p s := by
  generalize htext : c :: s = text at h
  cases h with
  | nil => cases htext
  | raw _ hp hs =>
    obtain ⟨rfl, rfl⟩ := List.cons.inj htext
    exact ⟨hp, hs⟩
  | escape hesc _ =>
    obtain ⟨⟨t, ht⟩, -⟩ := escapeChar_slash hesc
    rw [ht, List.cons_append] at htext
    exact absurd (List.cons.inj htext).1 hc

theorem drop {l : List Char} (hl : ∀ c ∈ l, c ≠ '\\') (h : Written p (l ++ s)) : Written p s := by
  induction l with
  | nil => exact h
  | cons c l ih =>
    rw [List.forall_mem_cons] at hl
    exact ih hl.2 (h.tail hl.1).2

theorem dropWhile {f : Char → Bool} (hf : f '\\' = false) (h : Written p s) : Written p (s.dropWhile f) := by
  refine drop (l := s.takeWhile f) ?_ (by rwa [List.takeWhile_append_dropWhile])
  rintro c hc rfl
  rw [List.mem_takeWhile_imp hc] at hf
  cases hf

theorem rdropWhile {f : Char → Bool} (hf : ∀ c, printable c → c ≠ ' ' → f c = false) (h : Written p s) :
    Written p (s.reverse.dropWhile f).reverse := by
  have hcons : ∀ (l : List Char) (s : List Char), ((l ++ s).reverse.dropWhile f).reverse =
      if (s.reverse.dropWhile f).isEmpty then (l.reverse.dropWhile f).reverse
      else l ++ (s.reverse.dropWhile f).reverse := by
    intro l s
    rw [List.reverse_append, List.dropWhile_append]
    split_ifs <;> simp
  induction h with
  | nil => exact .nil
  | @raw c s hc hp _ ih =>
    have hone := hcons [c] s
    rw [List.singleton_append] at hone
    rw [hone]
    split_ifs with hempty
    · by_cases hfc : f c = true
      · simp [hfc, nil]
      · simp [hfc, Written.raw hc hp nil]
    · exact .raw hc hp ih
  | @escape c s hc _ ih =>
    obtain ⟨⟨t, ht⟩, hchars⟩ := escapeChar_slash hc
    rw [hcons]
    split_ifs with hempty
    · have hkeep : (JsonText.escapeChar c).reverse.dropWhile f = (JsonText.escapeChar c).reverse := by
        cases hrev : (JsonText.escapeChar c).reverse with
        | nil => rfl
        | cons d rest =>
          have hmem : d ∈ JsonText.escapeChar c := List.mem_reverse.mp (by simp [hrev])
          have hd := hf d (hchars d hmem).1 (hchars d hmem).2
          rw [List.dropWhile_cons_of_neg (by simp [hd])]
      rw [hkeep, List.reverse_reverse, ← List.append_nil (JsonText.escapeChar c)]
      exact .escape hc .nil
    · exact .escape hc ih

theorem quote (hp : ∀ c, printable c → p c) {k : String} (hk : ∀ c ∈ k.toList, 0x20 ≤ c.toNat → p c)
    (h : Written p s) : Written p (JsonText.quote k ++ s) := by
  have hchars : ∀ l : List Char, (∀ c ∈ l, 0x20 ≤ c.toNat → p c) → ∀ {s}, Written p s →
      Written p (l.flatMap JsonText.escapeChar ++ s) := by
    intro l
    induction l with
    | nil => exact fun _ _ h => h
    | cons c l ih =>
      intro hl s h
      rw [List.forall_mem_cons] at hl
      rw [List.flatMap_cons, List.append_assoc]
      by_cases hesc : JsonText.escapeChar c = [c]
      · rw [hesc]
        have hlow : 0x20 ≤ c.toNat ∧ c ≠ '\\' := by
          rcases escapeChar_cases c with ⟨e, -, -, hshort, -⟩ | ⟨-, hcontrol⟩ | ⟨hlow, -, hslash, -⟩
          · cases hesc.symm.trans hshort
          · cases hesc.symm.trans hcontrol
          · exact ⟨hlow, hslash⟩
        exact .raw hlow.2 (hl.1 hlow.1) (ih hl.2 h)
      · exact .escape hesc (ih hl.2 h)
  have hq : p '"' := hp _ (by decide)
  rw [JsonText.quote, List.cons_append, List.append_assoc]
  exact .raw (by decide) hq (hchars k.toList hk (.raw (by decide) hq h))

theorem printed (hp : ∀ c, printable c → p c) {l : List Char} (hl : plainChars l) (h : Written p s) :
    Written p (l ++ s) :=
  h.chars fun c hc => ⟨(hl c hc).2, hp c (hl c hc).1⟩

end Written

theorem written_splitlines {p : Char → Prop} (hr : ∀ c, p c → c ≠ '\r') {s : List Char} (h : Written p s) :
    ∀ line ∈ splitlines s, Written (fun c => isLineBreak c = false) line := by
  induction h with
  | nil => simp [splitlines]
  | @raw c s hc hp _ ih =>
    by_cases hb : isLineBreak c = true
    · rw [splitlines_break (hr c hp) hb, List.forall_mem_cons]
      exact ⟨.nil, ih⟩
    · rw [Bool.not_eq_true] at hb
      exact forall_splitlines_append (u := [c]) (by simpa using hb) (by simp) (.raw hc hb .nil)
        (fun line hline => .raw hc hb (ih line hline)) ih
  | @escape c s hc _ ih =>
    obtain ⟨⟨t, ht⟩, hchars⟩ := escapeChar_slash hc
    have hone : Written (fun c => isLineBreak c = false) (escapeChar c) := by
      rw [← List.append_nil (escapeChar c)]
      exact .escape hc .nil
    exact forall_splitlines_append (fun d hd => printable_isLineBreak (hchars d hd).1) (by simp [ht]) hone
      (fun line hline => .escape hc (ih line hline)) ih

section

variable {F : Type} (P : FloatFormat F) {newline : ℕ → List Char} {p : Char → Prop}

mutual

theorem written_dumpsAt (hp : ∀ c, printable c → p c) (hn : ∀ n, ∀ c ∈ newline n, c ≠ '\\' ∧ p c) :
    ∀ (n : ℕ) (v : Json F), (∀ c ∈ v.chars, 0x20 ≤ c.toNat → p c) →
    ∀ {s}, Written p s → Written p (dumpsAt P newline n v ++ s)
  | n, .null, _, _, h => h.printed hp (by rw [dumpsAt, dumps]; decide)
  | n, .bool true, _, _, h => h.printed hp (by rw [dumpsAt, dumps]; decide)
  | n, .bool false, _, _, h => h.printed hp (by rw [dumpsAt, dumps]; decide)
  | n, .int z, _, _, h => h.printed hp (by rw [dumpsAt, dumps, intText_eq]; exact numberText_plainChars _ _ _ _)
  | n, .float x, _, _, h => h.printed hp (by rw [dumpsAt, dumps]; exact floatText_plainChars (P.repr x))
  | n, .str k, hv, _, h => by
    rw [dumpsAt, dumps]
    exact h.quote hp hv
  | n, .list [], _, _, h => h.printed hp (by rw [dumpsAt, dumps]; decide)
  | n, .list (x :: xs), hv, _, h => by
    rw [Json.chars, charsElements, List.forall_mem_append] at hv
    rw [dumpsAt]
    simp only [List.cons_append, List.append_assoc]
    exact .raw (by decide) (hp _ (by decide)) (.chars (hn (n + 1)) (written_dumpsAt hp hn (n + 1) x hv.1
      (written_elementsAt hp hn n xs hv.2 h)))
  | n, .dict [], _, _, h => h.printed hp (by rw [dumpsAt, dumps]; decide)
  | n, .dict ((k, v) :: kvs), hv, _, h => by
    rw [Json.chars, charsMembers, List.forall_mem_append, List.forall_mem_append] at hv
    rw [dumpsAt]
    simp only [List.cons_append, List.append_assoc]
    exact .raw (by decide) (hp _ (by decide)) (.chars (hn (n + 1)) (.quote hp hv.1 (.raw (by decide)
      (hp _ (by decide)) (.raw (by decide) (hp _ (by decide)) (written_dumpsAt hp hn (n + 1) v hv.2.1
      (written_membersAt hp hn n kvs hv.2.2 h))))))

theorem written_elementsAt (hp : ∀ c, printable c → p c) (hn : ∀ n, ∀ c ∈ newline n, c ≠ '\\' ∧ p c) :
    ∀ (n : ℕ) (xs : List (Json F)), (∀ c ∈ charsElements xs, 0x20 ≤ c.toNat → p c) →
    ∀ {s}, Written p s → Written p (elementsAt P newline n xs ++ s)
  | n, [], _, _, h => by
    rw [elementsAt, List.append_assoc]
    exact .chars (hn n) (.raw (by decide) (hp _ (by decide)) h)
  | n, x :: xs, hv, _, h => by
    rw [charsElements, List.forall_mem_append] at hv
    rw [elementsAt]
    simp only [List.cons_append, List.append_assoc]
    exact .raw (by decide) (hp _ (by decide)) (.chars (hn (n + 1)) (written_dumpsAt hp hn (n + 1) x hv.1
      (written_elementsAt hp hn n xs hv.2 h)))

theorem written_membersAt (hp : ∀ c, printable c → p c) (hn : ∀ n, ∀ c ∈ newline n, c ≠ '\\' ∧ p c) :
    ∀ (n : ℕ) (kvs : List (String × Json F)), (∀ c ∈ charsMembers kvs, 0x20 ≤ c.toNat → p c) →
    ∀ {s}, Written p s → Written p (membersAt P newline n kvs ++ s)
  | n, [], _, _, h => by
    rw [membersAt, List.append_assoc]
    exact .chars (hn n) (.raw (by decide) (hp _ (by decide)) h)
  | n, (k, v) :: kvs, hv, _, h => by
    rw [charsMembers, List.forall_mem_append, List.forall_mem_append] at hv
    rw [membersAt]
    simp only [List.cons_append, List.append_assoc]
    exact .raw (by decide) (hp _ (by decide)) (.chars (hn (n + 1)) (.quote hp hv.1 (.raw (by decide)
      (hp _ (by decide)) (.raw (by decide) (hp _ (by decide)) (written_dumpsAt hp hn (n + 1) v hv.2.1
      (written_membersAt hp hn n kvs hv.2.2 h))))))

end

end

end GraphSkillRuntime.JsonText
