import GraphSkillRuntime.JsonRoundTrip

/-!
The JSON texts of a value: blanks stand where JSON allows them, and a character of a string may be escaped in each of
its ways. The reader reads each of them back as the value.
-/

namespace GraphSkillRuntime.JsonText

open OrderedDict

def Blanks (s : List Char) : Prop := ∀ c ∈ s, (c = ' ' || c = '\t' || c = '\n' || c = '\r') = true

theorem blanks_nil : Blanks [] := by simp [Blanks]

theorem blanks_space : Blanks [' '] := by simp [Blanks]

/-- The rest of a string literal, behind the opening quote. The characters in `esc` may be escaped. -/
inductive Literal (esc : Char → Prop) : List Char → List Char → Prop where
  | close : Literal esc [] ['"']
  | raw {c : Char} {k s : List Char} (hlow : 0x20 ≤ c.toNat) (hquote : c ≠ '"') (hslash : c ≠ '\\') :
      Literal esc k s → Literal esc (c :: k) (c :: s)
  | short {e c : Char} {k s : List Char} (hesc : esc c) (h : shortEscape? e = some c) :
      Literal esc k s → Literal esc (c :: k) ('\\' :: e :: s)
  | unicode {a b c d x : Char} {k s : List Char} (hesc : esc x) (h : unicodeEscape? a b c d = some x) :
      Literal esc k s → Literal esc (x :: k) ('\\' :: 'u' :: a :: b :: c :: d :: s)
  | pair {a b c d e f g i x : Char} {k s : List Char} (hesc : esc x)
      (h : surrogatePair? (hexUnit? a b c d) (hexUnit? e f g i) = some x) : Literal esc k s →
      Literal esc (x :: k) ('\\' :: 'u' :: a :: b :: c :: d :: '\\' :: 'u' :: e :: f :: g :: i :: s)

inductive Part (F : Type) where
  | value (v : Json F)
  | elements (xs : List (Json F))
  | members (kvs : List (String × Json F))

inductive Renders {F : Type} (P : FloatFormat F) (esc : Char → Prop) : Part F → List Char → Prop where
  | null : Renders P esc (.value .null) (dumps P .null)
  | bool (b : Bool) : Renders P esc (.value (.bool b)) (dumps P (.bool b))
  | int (z : ℤ) : Renders P esc (.value (.int z)) (intText z)
  | float (l : FloatLiteral) : Renders P esc (.value (.float (P.ofLiteral l))) l.text
  | str {k : String} {s : List Char} (hk : Literal esc k.toList s) : Renders P esc (.value (.str k)) ('"' :: s)
  | emptyList {b : List Char} (hb : Blanks b) : Renders P esc (.value (.list [])) ('[' :: (b ++ [']']))
  | list {b s : List Char} {xs : List (Json F)} (hb : Blanks b) :
      Renders P esc (.elements xs) s → Renders P esc (.value (.list xs)) ('[' :: (b ++ s))
  | emptyDict {b : List Char} (hb : Blanks b) : Renders P esc (.value (.dict [])) ('{' :: (b ++ ['}']))
  | dict {b s : List Char} {kvs : List (String × Json F)} (hb : Blanks b) :
      Renders P esc (.members kvs) s → Renders P esc (.value (.dict kvs)) ('{' :: (b ++ s))
  | lastElement {x : Json F} {t b : List Char} (hb : Blanks b) :
      Renders P esc (.value x) t → Renders P esc (.elements [x]) (t ++ (b ++ [']']))
  | element {x : Json F} {xs : List (Json F)} {t b b' s : List Char} (hb : Blanks b) (hb' : Blanks b') :
      Renders P esc (.value x) t → Renders P esc (.elements xs) s →
      Renders P esc (.elements (x :: xs)) (t ++ (b ++ ',' :: (b' ++ s)))
  | lastMember {k : String} {v : Json F} {u t b b' b'' : List Char} (hk : Literal esc k.toList u) (hb : Blanks b)
      (hb' : Blanks b') (hb'' : Blanks b'') : Renders P esc (.value v) t →
      Renders P esc (.members [(k, v)]) ('"' :: (u ++ (b ++ ':' :: (b' ++ (t ++ (b'' ++ ['}']))))))
  | member {k : String} {v : Json F} {kvs : List (String × Json F)} {u t b b' b'' c s : List Char}
      (hk : Literal esc k.toList u) (hb : Blanks b) (hb' : Blanks b') (hb'' : Blanks b'') (hc : Blanks c) :
      Renders P esc (.value v) t → Renders P esc (.members kvs) s →
      Renders P esc (.members ((k, v) :: kvs)) ('"' :: (u ++ (b ++ ':' :: (b' ++ (t ++ (b'' ++ ',' :: (c ++ s)))))))

theorem skipSpace_blanks {b s : List Char} (hb : Blanks b) (hs : skipSpace s = s) : skipSpace (b ++ s) = s := by
  rw [skipSpace, List.dropWhile_append_of_pos hb]
  exact hs

theorem ends_blanks {b s : List Char} (hb : Blanks b) (hs : Ends s) : Ends (b ++ s) := by
  cases b with
  | nil => exact hs
  | cons c b =>
    intro d hd
    obtain rfl := Option.some.inj hd
    have hc := hb c List.mem_cons_self
    simp only [Bool.or_eq_true, decide_eq_true_eq] at hc
    rcases hc with ((rfl | rfl) | rfl) | rfl <;> simp

theorem surrogatePair?_high {n m : Option ℕ} {x : Char} (h : surrogatePair? n m = some x) :
    ∃ high, n = some high ∧ 0xD800 ≤ high ∧ high ≤ 0xDBFF := by
  simp only [surrogatePair?, Option.bind_eq_bind, Option.bind_eq_some_iff] at h
  obtain ⟨high, hhigh, low, -, hpair⟩ := h
  split_ifs at hpair with hrange
  exact ⟨high, hhigh, hrange.1, hrange.2.1⟩

theorem unicodeEscape?_high {a b c d x : Char} {low : Option ℕ}
    (h : surrogatePair? (hexUnit? a b c d) low = some x) : unicodeEscape? a b c d = none := by
  obtain ⟨high, hhigh, hlow, hle⟩ := surrogatePair?_high h
  have hinvalid : ¬ high.isValidChar := by
    simp only [Nat.isValidChar]
    omega
  simp only [unicodeEscape?, hhigh, Option.bind_eq_bind, Option.bind_some, if_neg hinvalid]

theorem shortEscape?_ne {e c : Char} (h : shortEscape? e = some c) : e ≠ 'u' := by
  rintro rfl
  have hnone : shortEscape? 'u' = none := rfl
  rw [hnone] at h
  cases h

theorem scanString_literal {esc : Char → Prop} {k s : List Char} (h : Literal esc k s) (rest : List Char) :
    scanString (s ++ rest) = some (k, rest) := by
  induction h with
  | close => exact scanString_quote rest
  | raw hlow hquote hslash _ ih =>
    rw [List.cons_append, scanString_plain hquote hslash (by omega), ih]
    rfl
  | short _ h _ ih =>
    rw [List.cons_append, List.cons_append, scanString_short (shortEscape?_ne h), h, Option.bind_some, ih]
    rfl
  | unicode _ h _ ih =>
    simp only [List.cons_append]
    rw [scanString_unicode h, ih]
    rfl
  | pair _ h _ ih =>
    simp only [List.cons_append]
    rw [scanString_pair (unicodeEscape?_high h) h, ih]
    rfl

theorem literal_quote {k : List Char} : Literal (fun c => escapeChar c ≠ [c]) k (k.flatMap escapeChar ++ ['"']) := by
  induction k with
  | nil => exact .close
  | cons c k ih =>
    rw [List.flatMap_cons, List.append_assoc]
    rcases escapeChar_cases c with ⟨e, -, he, hesc, -⟩ | ⟨hcontrol, hesc⟩ | ⟨hlow, hquote, hslash, hesc⟩
    · rw [hesc]
      exact .short (by simp [hesc]) he ih
    · rw [hesc]
      exact .unicode (by simp [hesc]) (unicodeEscape?_control hcontrol) ih
    · rw [hesc]
      exact .raw hlow hquote hslash ih

section

variable {F : Type} (P : FloatFormat F) {esc : Char → Prop}

theorem scanMembers_close {fuel : ℕ} {k : List Char} {v : Json F} {s t u rest rest' : List Char}
    (hkey : scanString s = some (k, t)) (hcolon : skipSpace t = ':' :: u)
    (hscan : scanOnce P fuel (skipSpace u) = some (v, rest)) (hrest : skipSpace rest = '}' :: rest') :
    scanMembers P (fuel + 1) ('"' :: s) = some ([(.ofList k, v)], rest') := by
  simp only [scanMembers, hkey, hcolon, hscan, hrest]

theorem scanMembers_next {fuel : ℕ} {k : List Char} {v : Json F} {s t u rest rest' : List Char}
    (hkey : scanString s = some (k, t)) (hcolon : skipSpace t = ':' :: u)
    (hscan : scanOnce P fuel (skipSpace u) = some (v, rest)) (hrest : skipSpace rest = ',' :: rest') :
    scanMembers P (fuel + 1) ('"' :: s) =
      (scanMembers P fuel (skipSpace rest')).map fun r => ((.ofList k, v) :: r.1, r.2) := by
  simp only [scanMembers, hkey, hcolon, hscan, hrest]

theorem scanOnce_list {s t : List Char} (hs : skipSpace s = t) (hne : ∀ u, t ≠ ']' :: u) (fuel : ℕ) :
    scanOnce P (fuel + 1) ('[' :: s) = (scanElements P fuel t).map fun r => (.list r.1, r.2) := by
  have hquote : ¬ '[' = '"' := by decide
  have hbrace : ¬ '[' = '{' := by decide
  rw [scanOnce, if_neg hquote, if_neg hbrace, if_pos rfl, hs]
  split
  · next u => exact absurd rfl (hne u)
  · rfl

theorem scanOnce_dict {s t : List Char} (hs : skipSpace s = t) (hne : ∀ u, t ≠ '}' :: u) (fuel : ℕ) :
    scanOnce P (fuel + 1) ('{' :: s) =
      (scanMembers P fuel t).map fun r => (.dict (Dict.ofList r.1).entries, r.2) := by
  have hquote : ¬ '{' = '"' := by decide
  rw [scanOnce, if_neg hquote, if_pos rfl, hs]
  split
  · next u => exact absurd rfl (hne u)
  · rfl

theorem scanOnce_emptyList {s rest : List Char} (hs : skipSpace s = ']' :: rest) (fuel : ℕ) :
    scanOnce P (fuel + 1) ('[' :: s) = some (.list [], rest) := by
  have hquote : ¬ '[' = '"' := by decide
  have hbrace : ¬ '[' = '{' := by decide
  rw [scanOnce, if_neg hquote, if_neg hbrace, if_pos rfl, hs]
  rfl

theorem scanOnce_emptyDict {s rest : List Char} (hs : skipSpace s = '}' :: rest) (fuel : ℕ) :
    scanOnce P (fuel + 1) ('{' :: s) = some (.dict [], rest) := by
  have hquote : ¬ '{' = '"' := by decide
  rw [scanOnce, if_neg hquote, if_pos rfl, hs]
  rfl

theorem scanElements_close {fuel : ℕ} {x : Json F} {s rest rest' : List Char}
    (hscan : scanOnce P fuel s = some (x, rest)) (hrest : skipSpace rest = ']' :: rest') :
    scanElements P (fuel + 1) s = some ([x], rest') := by
  simp only [scanElements, hscan, hrest]

theorem scanElements_next {fuel : ℕ} {x : Json F} {s rest rest' : List Char}
    (hscan : scanOnce P fuel s = some (x, rest)) (hrest : skipSpace rest = ',' :: rest') :
    scanElements P (fuel + 1) s = (scanElements P fuel (skipSpace rest')).map fun r => (x :: r.1, r.2) := by
  simp only [scanElements, hscan, hrest]

theorem Renders.head {p : Part F} {s : List Char} (h : Renders P esc p s) :
    ∃ c t, s = c :: t ∧ (opensLiteral c = true ∨ c = '"' ∨ c = '[' ∨ c = '{') := by
  have hquote : ∀ t : List Char, ∃ c u, '"' :: t = c :: u ∧ (opensLiteral c = true ∨ c = '"' ∨ c = '[' ∨ c = '{') :=
    fun t => ⟨_, _, rfl, .inr (.inl rfl)⟩
  have hbracket : ∀ t : List Char, ∃ c u, '[' :: t = c :: u ∧ (opensLiteral c = true ∨ c = '"' ∨ c = '[' ∨ c = '{') :=
    fun t => ⟨_, _, rfl, .inr (.inr (.inl rfl))⟩
  have hbrace : ∀ t : List Char, ∃ c u, '{' :: t = c :: u ∧ (opensLiteral c = true ∨ c = '"' ∨ c = '[' ∨ c = '{') :=
    fun t => ⟨_, _, rfl, .inr (.inr (.inr rfl))⟩
  induction h with
  | null => exact dumps_head P _
  | bool b => exact dumps_head P _
  | int z =>
    obtain ⟨c, t, ht, hc⟩ := intText_head z
    exact ⟨c, t, ht, .inl hc⟩
  | float l =>
    obtain ⟨c, t, ht, hc⟩ := floatText_head l
    exact ⟨c, t, ht, .inl hc⟩
  | str _ => exact hquote _
  | emptyList _ => exact hbracket _
  | list _ _ _ => exact hbracket _
  | emptyDict _ => exact hbrace _
  | dict _ _ _ => exact hbrace _
  | lastElement _ _ ih =>
    obtain ⟨c, t, rfl, hc⟩ := ih
    exact ⟨c, _, rfl, hc⟩
  | element _ _ _ _ ih _ =>
    obtain ⟨c, t, rfl, hc⟩ := ih
    exact ⟨c, _, rfl, hc⟩
  | lastMember _ _ _ _ _ _ => exact hquote _
  | member _ _ _ _ _ _ _ _ _ => exact hquote _

theorem Renders.skipSpace {p : Part F} {s : List Char} (h : Renders P esc p s) (rest : List Char) :
    skipSpace (s ++ rest) = s ++ rest := by
  obtain ⟨c, t, rfl, hc⟩ := h.head
  apply skipSpace_cons
  rcases hc with hc | rfl | rfl | rfl
  · simp [opensLiteral_ne hc (d := ' ') rfl, opensLiteral_ne hc (d := '\t') rfl,
      opensLiteral_ne hc (d := '\n') rfl, opensLiteral_ne hc (d := '\r') rfl]
  · rfl
  · rfl
  · rfl

theorem Renders.ne_close {p : Part F} {s : List Char} (h : Renders P esc p s) {d : Char} (hd : d = ']' ∨ d = '}')
    (rest t : List Char) : s ++ rest ≠ d :: t := by
  obtain ⟨c, u, rfl, hc⟩ := h.head
  intro heq
  obtain rfl := (List.cons.inj heq).1
  rcases hd with rfl | rfl
  · exact absurd hc (by decide)
  · exact absurd hc (by decide)

def Part.close? : Part F → Option Char
  | .value (.list _) | .elements _ => some ']'
  | .value (.dict _) | .members _ => some '}'
  | .value _ => none

theorem Renders.last {p : Part F} {s : List Char} (h : Renders P esc p s) :
    ∀ c, p.close? = some c → s.getLast? = some c := by
  have hcons : ∀ {c d : Char} {s : List Char}, s.getLast? = some c → (d :: s).getLast? = some c := by
    intro c d s hs
    simp [List.getLast?_cons, hs]
  have happend : ∀ {c : Char} {u s : List Char}, s.getLast? = some c → (u ++ s).getLast? = some c := by
    intro c u s hs
    simp [List.getLast?_append, hs]
  induction h with
  | null => intro c hc; cases hc
  | bool => intro c hc; cases hc
  | int => intro c hc; cases hc
  | float => intro c hc; cases hc
  | str => intro c hc; cases hc
  | emptyList hb => exact fun c hc => hcons (happend hc)
  | list hb _ ih => exact fun c hc => hcons (happend (ih c hc))
  | emptyDict hb => exact fun c hc => hcons (happend hc)
  | dict hb _ ih => exact fun c hc => hcons (happend (ih c hc))
  | lastElement hb _ _ => exact fun c hc => happend (happend hc)
  | element hb hb' _ _ _ ihs => exact fun c hc => happend (happend (hcons (happend (ihs c hc))))
  | lastMember hk hb hb' hb'' _ _ =>
    exact fun c hc => hcons (happend (happend (hcons (happend (happend (happend hc))))))
  | member hk hb hb' hb'' hc' _ _ _ ihs =>
    exact fun c hc => hcons (happend (happend (hcons (happend (happend (happend (hcons (happend (ihs c hc)))))))))

/-- Enough fuel reads the part back and stops where its text ends. -/
def Part.ReadsBack : Part F → List Char → Prop
  | .value v, s => v.Distinct → ∀ fuel rest, s.length ≤ fuel → Ends rest →
      scanOnce P fuel (s ++ rest) = some (v, rest)
  | .elements xs, s => distinctElements xs → ∀ fuel rest, s.length ≤ fuel →
      scanElements P fuel (s ++ rest) = some (xs, rest)
  | .members kvs, s => distinctMembers kvs → ∀ fuel rest, s.length ≤ fuel →
      scanMembers P fuel (s ++ rest) = some (kvs, rest)

theorem scanOnce_text {v : Json F} {s rest : List Char} {fuel : ℕ} (hhead : ∃ c t, s = c :: t ∧ opensLiteral c = true)
    (hfuel : s.length ≤ fuel) (h : scanLiteral P (s ++ rest) = some (v, rest)) :
    scanOnce P fuel (s ++ rest) = some (v, rest) := by
  obtain ⟨c, t, rfl, hc⟩ := hhead
  obtain ⟨m, rfl⟩ : ∃ m, fuel = m + 1 := ⟨fuel - 1, by simp at hfuel; omega⟩
  rw [List.cons_append] at h ⊢
  rw [scanOnce_literal P hc, h]

theorem Renders.readsBack {p : Part F} {s : List Char} (h : Renders P esc p s) : p.ReadsBack P s := by
  have hfuel : ∀ {n fuel : ℕ}, n + 1 ≤ fuel → ∃ m, fuel = m + 1 ∧ n ≤ m :=
    fun {n fuel} h => ⟨fuel - 1, by omega, by omega⟩
  induction h with
  | null => exact fun _ fuel rest hf _ => scanOnce_text P ⟨_, _, rfl, rfl⟩ hf rfl
  | bool b =>
    cases b with
    | true => exact fun _ fuel rest hf _ => scanOnce_text P ⟨_, _, rfl, rfl⟩ hf rfl
    | false => exact fun _ fuel rest hf _ => scanOnce_text P ⟨_, _, rfl, rfl⟩ hf rfl
  | int z =>
    intro _ fuel rest hf hrest
    apply scanOnce_text P (intText_head z) hf
    rw [intText_eq, scanLiteral_numberText P _ _ _ _ hrest, number_int]
  | float l => exact fun _ fuel rest hf hrest => scanOnce_text P (floatText_head l) hf (scanLiteral_text P l hrest)
  | str hk =>
    intro _ fuel rest hf _
    obtain ⟨m, rfl, -⟩ := hfuel hf
    rw [List.cons_append, scanOnce, if_pos rfl, scanString_literal hk, Option.map_some, String.ofList_toList]
  | @emptyList b hb =>
    intro _ fuel rest hf _
    obtain ⟨m, rfl, -⟩ := hfuel hf
    rw [List.cons_append, List.append_assoc]
    exact scanOnce_emptyList P (skipSpace_blanks hb (skipSpace_cons (by decide) rest)) m
  | @list b s xs hb h ih =>
    intro hd fuel rest hf _
    obtain ⟨m, rfl, hm⟩ := hfuel hf
    rw [List.length_append] at hm
    have hskip := skipSpace_blanks hb (h.skipSpace P rest)
    rw [List.cons_append, List.append_assoc, scanOnce_list P hskip (h.ne_close P (.inl rfl) rest),
      ih hd m rest (by omega), Option.map_some]
  | @emptyDict b hb =>
    intro _ fuel rest hf _
    obtain ⟨m, rfl, -⟩ := hfuel hf
    rw [List.cons_append, List.append_assoc]
    exact scanOnce_emptyDict P (skipSpace_blanks hb (skipSpace_cons (by decide) rest)) m
  | @dict b s kvs hb h ih =>
    intro hd fuel rest hf _
    obtain ⟨m, rfl, hm⟩ := hfuel hf
    rw [List.length_append] at hm
    have hskip := skipSpace_blanks hb (h.skipSpace P rest)
    rw [List.cons_append, List.append_assoc, scanOnce_dict P hskip (h.ne_close P (.inr rfl) rest),
      ih hd.2 m rest (by omega), Option.map_some, Dict.entries_ofList hd.1]
  | @lastElement x t b hb h ih =>
    intro hd fuel rest hf
    simp only [List.length_append, List.length_singleton] at hf
    obtain ⟨m, rfl, hm⟩ : ∃ m, fuel = m + 1 ∧ t.length + b.length ≤ m := ⟨fuel - 1, by omega, by omega⟩
    simp only [List.append_assoc, List.singleton_append]
    exact scanElements_close P (ih hd.1 m _ (by omega) (ends_blanks hb (ends_bracket rest)))
      (skipSpace_blanks hb (skipSpace_cons (by decide) rest))
  | @element x xs t b b' s hb hb' h hs ih ihs =>
    intro hd fuel rest hf
    simp only [List.length_append, List.length_cons] at hf
    obtain ⟨m, rfl, hm⟩ : ∃ m, fuel = m + 1 ∧ t.length + b.length + b'.length + s.length ≤ m :=
      ⟨fuel - 1, by omega, by omega⟩
    simp only [List.append_assoc, List.cons_append]
    rw [scanElements_next P (ih hd.1 m _ (by omega) (ends_blanks hb (ends_comma _)))
      (skipSpace_blanks hb (skipSpace_cons (by decide) _)), skipSpace_blanks hb' (hs.skipSpace P rest),
      ihs hd.2 m rest (by omega)]
    rfl
  | @lastMember k v u t b b' b'' hk hb hb' hb'' h ih =>
    intro hd fuel rest hf
    simp only [List.length_append, List.length_cons, List.length_nil] at hf
    obtain ⟨m, rfl, hm⟩ : ∃ m, fuel = m + 1 ∧ t.length ≤ m := ⟨fuel - 1, by omega, by omega⟩
    simp only [List.cons_append, List.append_assoc, List.nil_append]
    have hvalue := ih hd.1 m (b'' ++ '}' :: rest) hm (ends_blanks hb'' (ends_brace rest))
    rw [← skipSpace_blanks hb' (h.skipSpace P _)] at hvalue
    rw [scanMembers_close P (scanString_literal hk _) (skipSpace_blanks hb (skipSpace_cons (by decide) _)) hvalue
      (skipSpace_blanks hb'' (skipSpace_cons (by decide) rest)), String.ofList_toList]
  | @member k v kvs u t b b' b'' c s hk hb hb' hb'' hc h hs ih ihs =>
    intro hd fuel rest hf
    simp only [List.length_append, List.length_cons] at hf
    obtain ⟨m, rfl, hm⟩ : ∃ m, fuel = m + 1 ∧ t.length + s.length ≤ m := ⟨fuel - 1, by omega, by omega⟩
    simp only [List.cons_append, List.append_assoc]
    have hvalue := ih hd.1 m (b'' ++ ',' :: (c ++ (s ++ rest))) (by omega) (ends_blanks hb'' (ends_comma _))
    rw [← skipSpace_blanks hb' (h.skipSpace P _)] at hvalue
    rw [scanMembers_next P (scanString_literal hk _) (skipSpace_blanks hb (skipSpace_cons (by decide) _)) hvalue
      (skipSpace_blanks hb'' (skipSpace_cons (by decide) _)), skipSpace_blanks hc (hs.skipSpace P rest),
      ihs hd.2 m rest (by omega), String.ofList_toList]
    rfl

theorem Renders.loads {v : Json F} {s : List Char} (h : Renders P esc (.value v) s) (hd : v.Distinct) :
    loads P s = some v := by
  have hread := h.readsBack P hd (2 * s.length + 1) [] (by omega) ends_nil
  have hskip := h.skipSpace P []
  rw [List.append_nil] at hread hskip
  rw [JsonText.loads, hskip, hread]
  rfl

theorem Renders.unique {v w : Json F} {s t u u' : List Char} (hs : Renders P esc (.value v) s)
    (ht : Renders P esc (.value w) t) (hv : v.Distinct) (hw : w.Distinct) (hu : Ends u) (hu' : Ends u')
    (h : s ++ u = t ++ u') : v = w ∧ u = u' := by
  have hleft := hs.readsBack P hv (max s.length t.length) u (le_max_left _ _) hu
  have hright := ht.readsBack P hw (max s.length t.length) u' (le_max_right _ _) hu'
  rw [h, hright] at hleft
  exact ⟨(congrArg Prod.fst (Option.some.inj hleft)).symm, (congrArg Prod.snd (Option.some.inj hleft)).symm⟩

mutual

theorem renders_dumps : ∀ v : Json F, Renders P (fun c => escapeChar c ≠ [c]) (.value v) (dumps P v)
  | .null => .null
  | .bool b => .bool b
  | .int z => by
    rw [dumps]
    exact .int z
  | .float x => by
    have hfloat : Renders P (fun c => escapeChar c ≠ [c]) _ _ := .float (P.repr x)
    rw [P.ofLiteral_repr] at hfloat
    rw [dumps]
    exact hfloat
  | .str s => by
    rw [dumps]
    exact .str literal_quote
  | .list [] => by
    rw [dumps]
    exact .emptyList blanks_nil
  | .dict [] => by
    rw [dumps]
    exact .emptyDict blanks_nil
  | .list (x :: xs) => by
    rw [dumps]
    exact .list (b := []) blanks_nil (renders_dumpsElements xs x _ (renders_dumps x))
  | .dict ((k, v) :: kvs) => by
    rw [dumps]
    exact .dict (b := []) blanks_nil (renders_dumpsMembers kvs k v _ (renders_dumps v))

theorem renders_dumpsElements : ∀ (xs : List (Json F)) (x : Json F) (t : List Char),
    Renders P (fun c => escapeChar c ≠ [c]) (.value x) t →
      Renders P (fun c => escapeChar c ≠ [c]) (.elements (x :: xs)) (t ++ dumpsElements P xs)
  | [], x, t, hx => by
    rw [dumpsElements]
    exact .lastElement blanks_nil hx
  | y :: ys, x, t, hx => by
    rw [dumpsElements]
    exact .element blanks_nil blanks_space hx (renders_dumpsElements ys y _ (renders_dumps y))

theorem renders_dumpsMembers : ∀ (kvs : List (String × Json F)) (k : String) (v : Json F) (t : List Char),
    Renders P (fun c => escapeChar c ≠ [c]) (.value v) t →
      Renders P (fun c => escapeChar c ≠ [c]) (.members ((k, v) :: kvs))
        (quote k ++ ':' :: ' ' :: (t ++ dumpsMembers P kvs))
  | [], k, v, t, hv => by
    have hlast := Renders.lastMember (k := k) literal_quote blanks_nil blanks_space blanks_nil hv
    rw [dumpsMembers]
    simpa [quote] using hlast
  | (j, w) :: kvs, k, v, t, hv => by
    have hkvs := renders_dumpsMembers kvs j w _ (renders_dumps w)
    have hmember := Renders.member (k := k) literal_quote blanks_nil blanks_space blanks_nil blanks_space hv hkvs
    rw [dumpsMembers]
    simpa [quote] using hmember

end

theorem Literal.mono {esc esc' : Char → Prop} (hesc : ∀ c, esc c → esc' c) {k s : List Char}
    (h : Literal esc k s) : Literal esc' k s := by
  induction h with
  | close => exact .close
  | raw hlow hquote hslash _ ih => exact .raw hlow hquote hslash ih
  | short hx he _ ih => exact .short (hesc _ hx) he ih
  | unicode hx hu _ ih => exact .unicode (hesc _ hx) hu ih
  | pair hx hu _ ih => exact .pair (hesc _ hx) hu ih

variable {P}

theorem Renders.mono {esc esc' : Char → Prop} (hesc : ∀ c, esc c → esc' c) {p : Part F} {s : List Char}
    (h : Renders P esc p s) : Renders P esc' p s := by
  induction h with
  | null => exact .null
  | bool b => exact .bool b
  | int z => exact .int z
  | float l => exact .float l
  | str hk => exact .str (hk.mono hesc)
  | emptyList hb => exact .emptyList hb
  | list hb _ ih => exact .list hb ih
  | emptyDict hb => exact .emptyDict hb
  | dict hb _ ih => exact .dict hb ih
  | lastElement hb _ ih => exact .lastElement hb ih
  | element hb hb' _ _ ih ihs => exact .element hb hb' ih ihs
  | lastMember hk hb hb' hb'' _ ih => exact .lastMember (hk.mono hesc) hb hb' hb'' ih
  | member hk hb hb' hb'' hc _ _ ih ihs => exact .member (hk.mono hesc) hb hb' hb'' hc ih ihs

end

end GraphSkillRuntime.JsonText
