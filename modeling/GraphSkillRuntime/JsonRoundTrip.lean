import GraphSkillRuntime.JsonText

/-! What the writer writes, the reader reads back: a value whose dictionaries have distinct keys. -/

namespace GraphSkillRuntime.JsonText

open OrderedDict

theorem unicodeEscape?_control {c : Char} (h : c.toNat < 32) :
    unicodeEscape? '0' '0' (Nat.digitChar (c.toNat / 16)) (Nat.digitChar (c.toNat % 16)) = some c := by
  have hall : ∀ n < 32, unicodeEscape? '0' '0' (Nat.digitChar (n / 16)) (Nat.digitChar (n % 16)) =
      some (Char.ofNat n) := by decide
  rw [hall c.toNat h, Char.ofNat_toNat]

theorem scanString_quote (rest : List Char) : scanString ('"' :: rest) = some ([], rest) := by
  rw [scanString.eq_def]
  rfl

theorem scanString_plain {c : Char} (hquote : c ≠ '"') (hslash : c ≠ '\\') (h : ¬ c.toNat < 32)
    (rest : List Char) : scanString (c :: rest) = (scanString rest).map (pushChar c) := by
  rw [scanString.eq_def]
  simp only [hquote, hslash, h, if_false]

theorem escapeChar_cases (c : Char) :
    (∃ e ∈ ['"', '\\', 'n', 'r', 't', 'f', 'b'], shortEscape? e = some c ∧ escapeChar c = ['\\', e] ∧
      (0x20 ≤ c.toNat → c = e)) ∨
    (c.toNat < 0x20 ∧ escapeChar c =
      ['\\', 'u', '0', '0', Nat.digitChar (c.toNat / 16), Nat.digitChar (c.toNat % 16)]) ∨
    (0x20 ≤ c.toNat ∧ c ≠ '"' ∧ c ≠ '\\' ∧ escapeChar c = [c]) := by
  by_cases hquote : c = '"'
  · exact .inl ⟨'"', by simp, by subst hquote; decide⟩
  by_cases hslash : c = '\\'
  · exact .inl ⟨'\\', by simp, by subst hslash; decide⟩
  by_cases hn : c = '\n'
  · exact .inl ⟨'n', by simp, by subst hn; decide⟩
  by_cases hr : c = '\r'
  · exact .inl ⟨'r', by simp, by subst hr; decide⟩
  by_cases ht : c = '\t'
  · exact .inl ⟨'t', by simp, by subst ht; decide⟩
  by_cases hf : c = '\x0c'
  · exact .inl ⟨'f', by simp, by subst hf; decide⟩
  by_cases hb : c = '\x08'
  · exact .inl ⟨'b', by simp, by subst hb; decide⟩
  right
  rw [escapeChar, if_neg hquote, if_neg hslash, if_neg hn, if_neg hr, if_neg ht, if_neg hf, if_neg hb]
  by_cases hcontrol : c.toNat < 0x20
  · exact .inl ⟨hcontrol, if_pos hcontrol⟩
  · exact .inr ⟨by omega, hquote, hslash, if_neg hcontrol⟩

theorem scanString_short {e : Char} (he : e ≠ 'u') (rest : List Char) :
    scanString ('\\' :: e :: rest) = (shortEscape? e).bind fun c => (scanString rest).map (pushChar c) := by
  rw [scanString.eq_def]
  simp only [show ('\\' = '"') = False by decide, if_false, if_true]
  split
  · next heq => exact absurd (List.cons.inj heq).1 he
  · next heq =>
    obtain ⟨rfl, rfl⟩ := List.cons.inj heq
    cases shortEscape? e <;> rfl
  · next heq => cases heq

theorem scanString_unicode {a b c d e : Char} (h : unicodeEscape? a b c d = some e) (rest : List Char) :
    scanString ('\\' :: 'u' :: a :: b :: c :: d :: rest) = (scanString rest).map (pushChar e) := by
  rw [scanString.eq_def]
  simp only [show ('\\' = '"') = False by decide, if_false, if_true, h]

theorem scanString_pair {a b c d e f g h x : Char} (hhigh : unicodeEscape? a b c d = none)
    (hpair : surrogatePair? (hexUnit? a b c d) (hexUnit? e f g h) = some x) (rest : List Char) :
    scanString ('\\' :: 'u' :: a :: b :: c :: d :: '\\' :: 'u' :: e :: f :: g :: h :: rest) =
      (scanString rest).map (pushChar x) := by
  rw [scanString.eq_def]
  simp only [show ('\\' = '"') = False by decide, if_false, if_true, hhigh, hpair]

theorem scanString_escapeChar (c : Char) (s : List Char) :
    scanString (escapeChar c ++ s) = (scanString s).map (pushChar c) := by
  rcases escapeChar_cases c with ⟨e, hmem, he, hesc, -⟩ | ⟨hcontrol, hesc⟩ | ⟨hcontrol, hquote, hslash, hesc⟩
  · rw [hesc]
    have hu : e ≠ 'u' := by
      rintro rfl
      simp at hmem
    exact (scanString_short hu s).trans (by rw [he, Option.bind_some])
  · rw [hesc]
    exact scanString_unicode (unicodeEscape?_control hcontrol) s
  · rw [hesc]
    exact scanString_plain hquote hslash (by omega) s

theorem scanString_flatMap (cs rest : List Char) :
    scanString (cs.flatMap escapeChar ++ '"' :: rest) = some (cs, rest) := by
  induction cs with
  | nil => exact scanString_quote rest
  | cons c cs ih => rw [List.flatMap_cons, List.append_assoc, scanString_escapeChar, ih]; rfl

theorem skipSpace_cons {c : Char} (h : (c = ' ' || c = '\t' || c = '\n' || c = '\r') = false) (s : List Char) :
    skipSpace (c :: s) = c :: s := by
  rw [skipSpace, List.dropWhile_cons_of_neg]
  simp [h]

def Ends (rest : List Char) : Prop :=
  ∀ c ∈ rest.head?, c = ',' ∨ c = ']' ∨ c = '}' ∨ c = '\n' ∨ c = ' ' ∨ c = '\t' ∨ c = '\r'

def NoDigit (rest : List Char) : Prop := ∀ c ∈ rest.head?, c.isDigit = false

theorem Ends.noDigit {rest : List Char} (h : Ends rest) : NoDigit rest := by
  intro c hc
  rcases h c hc with rfl | rfl | rfl | rfl | rfl | rfl | rfl <;> rfl

theorem noDigit_cons {c : Char} (h : c.isDigit = false) (rest : List Char) : NoDigit (c :: rest) := by
  intro d hd
  rw [List.head?_cons, Option.mem_some_iff] at hd
  rwa [← hd]

theorem scanDigits_append (ds : Digits) {rest : List Char} (h : NoDigit rest) :
    scanDigits (ds.chars ++ rest) = some (ds, rest) := by
  have htake : rest.takeWhile Char.isDigit = [] := by
    cases rest with
    | nil => rfl
    | cons c rest => rw [List.takeWhile_cons_of_neg]; simp [h c rfl]
  have hdrop : rest.dropWhile Char.isDigit = rest := by
    cases rest with
    | nil => rfl
    | cons c rest => rw [List.dropWhile_cons_of_neg]; simp [h c rfl]
  have hall : (ds.chars ++ rest).takeWhile Char.isDigit = ds.chars := by
    rw [List.takeWhile_append_of_pos ds.digits, htake, List.append_nil]
  have hrest : (ds.chars ++ rest).dropWhile Char.isDigit = rest := by
    rw [List.dropWhile_append_of_pos ds.digits, hdrop]
  have hne : ¬ (ds.chars ++ rest).takeWhile Char.isDigit = [] := by
    rw [hall]
    exact ds.nonempty
  rw [scanDigits, dif_neg hne]
  simp only [hall, hrest]

theorem Digits.head (ds : Digits) : ∃ c cs, ds.chars = c :: cs ∧ c.isDigit = true := by
  obtain ⟨c, cs, h⟩ := List.exists_cons_of_ne_nil ds.nonempty
  exact ⟨c, cs, h, ds.digits c (h ▸ List.mem_cons_self)⟩

def natDigits (n : ℕ) : Digits where
  chars := Nat.toDigits 10 n
  nonempty := Nat.toDigits_ne_nil
  digits _ := Nat.isDigit_of_mem_toDigits (by decide) (by decide)

theorem toDigits_zero_head {n : ℕ} (hn : 0 < n) : ∀ cs, Nat.toDigits 10 n ≠ '0' :: cs := by
  induction n using Nat.strong_induction_on with
  | _ n ih =>
    intro cs hcs
    by_cases hlt : n < 10
    · rw [Nat.toDigits_of_lt_base hlt, List.cons.injEq, Nat.digitChar_eq_zero] at hcs
      omega
    · have hsplit : Nat.toDigits 10 n = Nat.toDigits 10 (n / 10) ++ [Nat.digitChar (n % 10)] :=
        Nat.toDigits_of_base_le (by decide) (by omega)
      obtain ⟨d, ds, hd⟩ := List.exists_cons_of_ne_nil (Nat.toDigits_ne_nil (n := n / 10) (b := 10))
      rw [hsplit, hd, List.cons_append, List.cons.injEq] at hcs
      exact ih (n / 10) (by omega) (by omega) ds (hcs.1 ▸ hd)

theorem scanWhole_toDigits (n : ℕ) {rest : List Char} (h : NoDigit rest) :
    scanWhole (Nat.toDigits 10 n ++ rest) = some (n, rest) := by
  by_cases hn : n = 0
  · subst hn
    rw [Nat.toDigits_zero]
    rfl
  · have hscan := scanDigits_append (natDigits n) h
    unfold scanWhole
    split
    · next cs hcs =>
      obtain ⟨d, ds, hd⟩ := List.exists_cons_of_ne_nil (Nat.toDigits_ne_nil (n := n) (b := 10))
      rw [hd, List.cons_append, List.cons.injEq] at hcs
      exact absurd (hcs.1 ▸ hd) (toDigits_zero_head (by omega) ds)
    · have hval : Nat.ofDigitChars 10 (natDigits n).chars 0 = n := Nat.ofDigitChars_ten_toDigits
      change (scanDigits ((natDigits n).chars ++ rest)).map _ = _
      rw [hscan, Option.map_some, hval]

theorem scanFraction_append (fraction : Option Digits) {rest : List Char} (h : NoDigit rest)
    (hpoint : ∀ c ∈ rest.head?, c ≠ '.') :
    scanFraction (fractionText fraction ++ rest) = (fraction, rest) := by
  cases fraction with
  | some ds => simp [fractionText, scanFraction, scanDigits_append ds h]
  | none =>
    cases rest with
    | nil => rfl
    | cons c rest =>
      have hc : c ≠ '.' := hpoint c rfl
      simp [fractionText, scanFraction, hc]

theorem scanSign_digits (ds : Digits) (rest : List Char) :
    scanSign (ds.chars ++ rest) = (none, ds.chars ++ rest) := by
  obtain ⟨c, cs, hcs, hc⟩ := ds.head
  have hminus : c ≠ '-' := by rintro rfl; exact absurd hc (by decide)
  have hplus : c ≠ '+' := by rintro rfl; exact absurd hc (by decide)
  rw [hcs, List.cons_append]
  simp [scanSign, hminus, hplus]

theorem scanExponent_append (exponent : Option (Option Bool × Digits)) {rest : List Char} (h : Ends rest) :
    scanExponent (exponentText exponent ++ rest) = (exponent, rest) := by
  match exponent with
  | some (some true, ds) => simp [exponentText, scanExponent, scanSign, scanDigits_append ds h.noDigit]
  | some (some false, ds) => simp [exponentText, scanExponent, scanSign, scanDigits_append ds h.noDigit]
  | some (none, ds) =>
    simp [exponentText, scanExponent, scanSign_digits, scanDigits_append ds h.noDigit]
  | none =>
    cases rest with
    | nil => rfl
    | cons c rest =>
      have hc : ¬ (c = 'e' ∨ c = 'E') := by
        rcases h c rfl with rfl | rfl | rfl | rfl | rfl | rfl | rfl <;> decide
      simp [exponentText, scanExponent, hc]

theorem exponentText_noDigit (exponent : Option (Option Bool × Digits)) {rest : List Char} (h : Ends rest) :
    NoDigit (exponentText exponent ++ rest) ∧ ∀ c ∈ (exponentText exponent ++ rest).head?, c ≠ '.' := by
  match exponent with
  | some (some true, ds) | some (some false, ds) | some (none, ds) =>
    exact ⟨noDigit_cons (by decide) _, by simp [exponentText]⟩
  | none =>
    refine ⟨h.noDigit, ?_⟩
    intro c hc
    rcases h c hc with rfl | rfl | rfl | rfl | rfl | rfl | rfl <;> decide

theorem fractionText_noDigit (fraction : Option Digits) {rest : List Char} (h : NoDigit rest) :
    NoDigit (fractionText fraction ++ rest) := by
  cases fraction with
  | some ds => exact noDigit_cons (by decide) _
  | none => exact h

theorem scanMinus_signText (negative : Bool) (ds : Digits) (rest : List Char) :
    scanMinus (signText negative ++ (ds.chars ++ rest)) = (negative, ds.chars ++ rest) := by
  cases negative with
  | true => rfl
  | false =>
    obtain ⟨c, cs, hcs, hc⟩ := ds.head
    have hminus : c ≠ '-' := by rintro rfl; exact absurd hc (by decide)
    rw [hcs]
    simp [signText, scanMinus, hminus]

section

variable {F : Type} (P : FloatFormat F)

def numberText (negative : Bool) (whole : ℕ) (fraction : Option Digits) (exponent : Option (Option Bool × Digits)) :
    List Char :=
  signText negative ++ Nat.toDigits 10 whole ++ fractionText fraction ++ exponentText exponent

theorem scanNumber_numberText (negative : Bool) (whole : ℕ) (fraction : Option Digits)
    (exponent : Option (Option Bool × Digits)) {rest : List Char} (h : Ends rest) :
    scanNumber P (numberText negative whole fraction exponent ++ rest) =
      some (number P negative whole fraction exponent, rest) := by
  have hexp := exponentText_noDigit exponent h
  have hwhole := scanWhole_toDigits whole (fractionText_noDigit fraction hexp.1)
  have hminus := scanMinus_signText negative (natDigits whole)
    (fractionText fraction ++ (exponentText exponent ++ rest))
  have htext : numberText negative whole fraction exponent ++ rest =
      signText negative ++ ((natDigits whole).chars ++ (fractionText fraction ++ (exponentText exponent ++ rest))) := by
    simp [numberText, natDigits]
  rw [scanNumber, htext, hminus]
  change (scanWhole (Nat.toDigits 10 whole ++ _)).map _ = _
  rw [hwhole, Option.map_some, scanFraction_append fraction hexp.1 hexp.2, scanExponent_append exponent h]

theorem number_int (z : ℤ) : number P (z < 0) z.natAbs none none = .int z := by
  rw [number, dif_neg (by decide)]
  congr 1
  by_cases hz : z < 0
  · simp only [hz, decide_true, if_true]
    omega
  · simp only [hz, decide_false, Bool.false_eq_true, if_false]
    omega

theorem intText_eq (z : ℤ) : intText z = numberText (z < 0) z.natAbs none none := by
  simp [intText, numberText, fractionText, exponentText]

theorem scanWord_digit {c : Char} (h : c.isDigit = true) (s : List Char) : scanWord P (c :: s) = none := by
  have hne (d : Char) (hd : d.isDigit = false) : d ≠ c := by
    rintro rfl
    rw [h] at hd
    exact Bool.noConfusion hd
  simp [scanWord, words, after?, hne 'n' (by decide), hne 't' (by decide), hne 'f' (by decide),
    hne 'N' (by decide), hne 'I' (by decide), hne '-' (by decide)]

theorem scanWord_minus {c : Char} (h : c.isDigit = true) (s : List Char) : scanWord P ('-' :: c :: s) = none := by
  have hne : 'I' ≠ c := by
    rintro rfl
    exact absurd h (by decide)
  simp [scanWord, words, after?, hne]

theorem scanWord_numberText (negative : Bool) (whole : ℕ) (fraction : Option Digits)
    (exponent : Option (Option Bool × Digits)) (rest : List Char) :
    scanWord P (numberText negative whole fraction exponent ++ rest) = none := by
  obtain ⟨c, cs, hcs, hc⟩ := (natDigits whole).head
  have hdigits : Nat.toDigits 10 whole = c :: cs := hcs
  cases negative with
  | true => simp [numberText, hdigits, signText, scanWord_minus P hc]
  | false => simp [numberText, hdigits, signText, scanWord_digit P hc]

theorem scanLiteral_numberText (negative : Bool) (whole : ℕ) (fraction : Option Digits)
    (exponent : Option (Option Bool × Digits)) {rest : List Char} (h : Ends rest) :
    scanLiteral P (numberText negative whole fraction exponent ++ rest) =
      some (number P negative whole fraction exponent, rest) := by
  rw [scanLiteral, scanWord_numberText, Option.none_or, scanNumber_numberText P _ _ _ _ h]

theorem scanLiteral_text (l : FloatLiteral) {rest : List Char} (h : Ends rest) :
    scanLiteral P (l.text ++ rest) = some (.float (P.ofLiteral l), rest) := by
  cases l with
  | nan => simp [FloatLiteral.text, scanLiteral, scanWord, words, after?]
  | infinity negative =>
    cases negative with
    | true => simp [FloatLiteral.text, signText, scanLiteral, scanWord, words, after?]
    | false => simp [FloatLiteral.text, signText, scanLiteral, scanWord, words, after?]
  | decimal negative whole fraction exponent hf =>
    have hscan := scanLiteral_numberText P negative whole fraction exponent h
    rw [number, dif_pos hf] at hscan
    exact hscan

theorem scanLiteral_float (x : F) {rest : List Char} (h : Ends rest) :
    scanLiteral P ((P.repr x).text ++ rest) = some (.float x, rest) := by
  rw [scanLiteral_text P _ h, P.ofLiteral_repr]

mutual

def Json.Distinct : Json F → Prop
  | .list xs => distinctElements xs
  | .dict kvs => (kvs.map Prod.fst).Nodup ∧ distinctMembers kvs
  | _ => True

def distinctElements : List (Json F) → Prop
  | [] => True
  | x :: xs => x.Distinct ∧ distinctElements xs

def distinctMembers : List (String × Json F) → Prop
  | [] => True
  | (_, v) :: kvs => v.Distinct ∧ distinctMembers kvs

end

mutual

def Json.reread : Json F → Json F
  | .list xs => .list (rereadElements xs)
  | .dict kvs => .dict (Dict.ofList (rereadMembers kvs)).entries
  | v => v

def rereadElements : List (Json F) → List (Json F)
  | [] => []
  | x :: xs => x.reread :: rereadElements xs

def rereadMembers : List (String × Json F) → List (String × Json F)
  | [] => []
  | (k, v) :: kvs => (k, v.reread) :: rereadMembers kvs

end

theorem numberText_head (negative : Bool) (whole : ℕ) (fraction : Option Digits)
    (exponent : Option (Option Bool × Digits)) :
    ∃ c t, numberText negative whole fraction exponent = c :: t ∧ (c = '-' ∨ c.isDigit = true) := by
  obtain ⟨c, cs, hcs, hc⟩ := (natDigits whole).head
  have hdigits : Nat.toDigits 10 whole = c :: cs := hcs
  cases negative with
  | true => exact ⟨'-', _, rfl, .inl rfl⟩
  | false => exact ⟨c, cs ++ fractionText fraction ++ exponentText exponent, by simp [numberText, hdigits, signText],
      .inr hc⟩

def opensLiteral (c : Char) : Bool :=
  c = 'n' || c = 't' || c = 'f' || c = 'N' || c = 'I' || c = '-' || c.isDigit

theorem opensLiteral_ne {c d : Char} (hc : opensLiteral c = true) (hd : opensLiteral d = false) : c ≠ d := by
  rintro rfl
  rw [hc] at hd
  exact Bool.noConfusion hd

theorem floatText_head (l : FloatLiteral) : ∃ c t, l.text = c :: t ∧ opensLiteral c = true := by
  cases l with
  | nan => exact ⟨'N', _, rfl, rfl⟩
  | infinity negative =>
    cases negative with
    | true => exact ⟨'-', _, rfl, rfl⟩
    | false => exact ⟨'I', _, rfl, rfl⟩
  | decimal negative whole fraction exponent _ =>
    obtain ⟨c, t, ht, hc⟩ := numberText_head negative whole fraction exponent
    refine ⟨c, t, ht, ?_⟩
    rcases hc with rfl | hc
    · rfl
    · simp [opensLiteral, hc]

theorem intText_head (z : ℤ) : ∃ c t, intText z = c :: t ∧ opensLiteral c = true := by
  obtain ⟨c, t, ht, hc⟩ := numberText_head (z < 0) z.natAbs none none
  refine ⟨c, t, (intText_eq z).trans ht, ?_⟩
  rcases hc with rfl | hc
  · rfl
  · simp [opensLiteral, hc]

theorem dumps_head (v : Json F) :
    ∃ c t, dumps P v = c :: t ∧ (opensLiteral c = true ∨ c = '"' ∨ c = '[' ∨ c = '{') := by
  match v with
  | .null => exact ⟨_, _, rfl, .inl rfl⟩
  | .bool true => exact ⟨_, _, rfl, .inl rfl⟩
  | .bool false => exact ⟨_, _, rfl, .inl rfl⟩
  | .int z =>
    obtain ⟨c, t, ht, hc⟩ := intText_head z
    exact ⟨c, t, ht, .inl hc⟩
  | .float x =>
    obtain ⟨c, t, ht, hc⟩ := floatText_head (P.repr x)
    exact ⟨c, t, ht, .inl hc⟩
  | .str s => exact ⟨_, _, rfl, .inr (.inl rfl)⟩
  | .list [] | .list (x :: xs) => exact ⟨_, _, rfl, .inr (.inr (.inl rfl))⟩
  | .dict [] | .dict ((k, w) :: kvs) => exact ⟨_, _, rfl, .inr (.inr (.inr rfl))⟩

theorem skipSpace_dumps (v : Json F) (s : List Char) : skipSpace (dumps P v ++ s) = dumps P v ++ s := by
  obtain ⟨c, t, ht, hc⟩ := dumps_head P v
  have hspace : (c = ' ' || c = '\t' || c = '\n' || c = '\r') = false := by
    rcases hc with hc | rfl | rfl | rfl
    · simp [opensLiteral_ne hc (d := ' ') rfl, opensLiteral_ne hc (d := '\t') rfl,
        opensLiteral_ne hc (d := '\n') rfl, opensLiteral_ne hc (d := '\r') rfl]
    · rfl
    · rfl
    · rfl
  rw [ht, List.cons_append, skipSpace_cons hspace]

theorem scanOnce_literal {c : Char} (hc : opensLiteral c = true) (n : ℕ) (s : List Char) :
    scanOnce P (n + 1) (c :: s) = scanLiteral P (c :: s) := by
  have hquote : c ≠ '"' := opensLiteral_ne hc rfl
  have hbrace : c ≠ '{' := opensLiteral_ne hc rfl
  have hbracket : c ≠ '[' := opensLiteral_ne hc rfl
  simp only [scanOnce, hquote, hbrace, hbracket, if_false]

theorem scanOnce_quote (n : ℕ) (s : String) (rest : List Char) :
    scanOnce P (n + 1) (quote s ++ rest) = some (.str s, rest) := by
  have hscan := scanString_flatMap s.toList rest
  simp [quote, scanOnce, hscan]

def ReadsAs (v w : Json F) : Prop :=
  ∀ n rest, (dumps P v).length ≤ n → Ends rest → scanOnce P n (dumps P v ++ rest) = some (w, rest)

theorem reads_literal {v : Json F} (h : ∃ c t, dumps P v = c :: t ∧ opensLiteral c = true)
    (hscan : ∀ rest, Ends rest → scanLiteral P (dumps P v ++ rest) = some (v, rest)) : ReadsAs P v v := by
  intro n rest hn hrest
  obtain ⟨c, t, ht, hc⟩ := h
  have hlit := hscan rest hrest
  rw [ht] at hn hlit ⊢
  obtain ⟨m, rfl⟩ : ∃ m, n = m + 1 := ⟨n - 1, by simp at hn; omega⟩
  rw [List.cons_append] at hlit ⊢
  rw [scanOnce_literal P hc, hlit]

theorem ends_comma (s : List Char) : Ends (',' :: s) := by
  intro c hc
  exact .inl (Option.mem_some_iff.1 hc).symm

theorem ends_bracket (s : List Char) : Ends (']' :: s) := by
  intro c hc
  exact .inr (.inl (Option.mem_some_iff.1 hc).symm)

theorem ends_brace (s : List Char) : Ends ('}' :: s) := by
  intro c hc
  exact .inr (.inr (.inl (Option.mem_some_iff.1 hc).symm))

theorem ends_nil : Ends [] := by
  intro c hc
  simp at hc

theorem skipSpace_blank (s : List Char) : skipSpace (' ' :: s) = skipSpace s := rfl

theorem scanElements_last {x y : Json F} (hx : ReadsAs P x y) {n : ℕ} (rest : List Char)
    (hn : (dumps P x).length ≤ n) :
    scanElements P (n + 1) (dumps P x ++ ']' :: rest) = some ([y], rest) := by
  rw [scanElements, hx n _ hn (ends_bracket rest)]
  rfl

theorem scanElements_more {x y : Json F} (hx : ReadsAs P x y) {n : ℕ} {s : List Char} (hs : skipSpace s = s)
    (hn : (dumps P x).length ≤ n) :
    scanElements P (n + 1) (dumps P x ++ ',' :: ' ' :: s) =
      (scanElements P n s).map fun r => (y :: r.1, r.2) := by
  rw [scanElements, hx n _ hn (ends_comma _)]
  change (scanElements P n (skipSpace (' ' :: s))).map _ = _
  rw [skipSpace_blank, hs]

theorem scanMembers_last {v w : Json F} (hv : ReadsAs P v w) {n : ℕ} (k : String) (rest : List Char)
    (hn : (dumps P v).length ≤ n) :
    scanMembers P (n + 1) (quote k ++ ':' :: ' ' :: (dumps P v ++ '}' :: rest)) = some ([(k, w)], rest) := by
  have hkey := scanString_flatMap k.toList (':' :: ' ' :: (dumps P v ++ '}' :: rest))
  have hvalue := hv n _ hn (ends_brace rest)
  simp only [quote, List.cons_append, List.append_assoc, List.nil_append, scanMembers, hkey]
  rw [skipSpace_cons (by decide)]
  simp only [skipSpace_blank, skipSpace_dumps, hvalue]
  rw [skipSpace_cons (by decide), String.ofList_toList]
  rfl

theorem scanMembers_more {v w : Json F} (hv : ReadsAs P v w) {n : ℕ} (k : String) {s : List Char}
    (hs : skipSpace s = s) (hn : (dumps P v).length ≤ n) :
    scanMembers P (n + 1) (quote k ++ ':' :: ' ' :: (dumps P v ++ ',' :: ' ' :: s)) =
      (scanMembers P n s).map fun r => ((k, w) :: r.1, r.2) := by
  have hkey := scanString_flatMap k.toList (':' :: ' ' :: (dumps P v ++ ',' :: ' ' :: s))
  have hvalue := hv n _ hn (ends_comma (' ' :: s))
  simp only [quote, List.cons_append, List.append_assoc, List.nil_append, scanMembers, hkey]
  rw [skipSpace_cons (by decide)]
  simp only [skipSpace_blank, skipSpace_dumps, hvalue]
  rw [skipSpace_cons (by decide)]
  simp only [skipSpace_blank, hs, String.ofList_toList]

theorem skipSpace_quote (k : String) (s : List Char) : skipSpace (quote k ++ s) = quote k ++ s :=
  skipSpace_cons (by decide) _

theorem scanOnce_bracket {s : List Char} (hs : skipSpace s = s) (hne : ∀ t, s ≠ ']' :: t) (n : ℕ) :
    scanOnce P (n + 1) ('[' :: s) = (scanElements P n s).map fun r => (.list r.1, r.2) := by
  have hquote : ¬ '[' = '"' := by decide
  have hbrace : ¬ '[' = '{' := by decide
  rw [scanOnce, if_neg hquote, if_neg hbrace, if_pos rfl, hs]
  split
  · next t => exact absurd rfl (hne t)
  · rfl

theorem scanOnce_brace {s : List Char} (hs : skipSpace s = s) (hne : ∀ t, s ≠ '}' :: t) (n : ℕ) :
    scanOnce P (n + 1) ('{' :: s) =
      (scanMembers P n s).map fun r => (.dict (Dict.ofList r.1).entries, r.2) := by
  have hquote : ¬ '{' = '"' := by decide
  rw [scanOnce, if_neg hquote, if_pos rfl, hs]
  split
  · next t => exact absurd rfl (hne t)
  · rfl

theorem dumps_ne_bracket (v : Json F) (s t : List Char) : dumps P v ++ s ≠ ']' :: t := by
  obtain ⟨c, u, hu, hc⟩ := dumps_head P v
  have hne : c ≠ ']' := by
    rcases hc with hc | rfl | rfl | rfl
    · exact opensLiteral_ne hc rfl
    · decide
    · decide
    · decide
  rw [hu, List.cons_append]
  intro h
  exact hne (List.cons.inj h).1

end

section

variable {F : Type} (P : FloatFormat F)

mutual

theorem readsAs_dumps : ∀ v : Json F, ReadsAs P v v.reread
  | .null => reads_literal P ⟨_, _, rfl, rfl⟩ fun _ _ => rfl
  | .bool true => reads_literal P ⟨_, _, rfl, rfl⟩ fun _ _ => rfl
  | .bool false => reads_literal P ⟨_, _, rfl, rfl⟩ fun _ _ => rfl
  | .int z => by
    refine reads_literal P (intText_head z) fun rest hrest => ?_
    rw [dumps, intText_eq, scanLiteral_numberText P _ _ _ _ hrest, number_int]
  | .float x => reads_literal P (floatText_head (P.repr x)) fun _ hrest => scanLiteral_float P x hrest
  | .str s => by
    intro n rest hn _
    obtain ⟨m, rfl⟩ : ∃ m, n = m + 1 := ⟨n - 1, by simp [dumps, quote] at hn; omega⟩
    exact scanOnce_quote P m s rest
  | .list [] => by
    intro n rest hn _
    obtain ⟨m, rfl⟩ : ∃ m, n = m + 1 := ⟨n - 1, by simp [dumps] at hn; omega⟩
    rfl
  | .list (x :: xs) => by
    intro n rest hn _
    obtain ⟨m, rfl⟩ : ∃ m, n = m + 1 := ⟨n - 1, by simp [dumps] at hn; omega⟩
    have hlen : (dumps P x ++ dumpsElements P xs).length ≤ m := by simpa [dumps] using hn
    have hxs := readsAs_dumpsElements xs x x.reread (readsAs_dumps x) m rest hlen
    rw [dumps, List.cons_append, List.append_assoc, scanOnce_bracket P (skipSpace_dumps P x _)
      (dumps_ne_bracket P x _), ← List.append_assoc, hxs]
    rfl
  | .dict [] => by
    intro n rest hn _
    obtain ⟨m, rfl⟩ : ∃ m, n = m + 1 := ⟨n - 1, by simp [dumps] at hn; omega⟩
    rfl
  | .dict ((k, v) :: kvs) => by
    intro n rest hn _
    obtain ⟨m, rfl⟩ : ∃ m, n = m + 1 := ⟨n - 1, by simp [dumps] at hn; omega⟩
    have hlen : (dumps P v ++ dumpsMembers P kvs).length ≤ m := by
      simp only [dumps, List.length_cons, List.length_append] at hn ⊢
      omega
    have hkvs := readsAs_dumpsMembers kvs k v v.reread (readsAs_dumps v) m rest hlen
    rw [dumps, List.cons_append, List.append_assoc, List.cons_append, List.cons_append, List.append_assoc,
      scanOnce_brace P (skipSpace_quote k _) (by simp [quote]), hkvs]
    rfl

theorem readsAs_dumpsElements : ∀ xs : List (Json F), ∀ x y, ReadsAs P x y → ∀ n rest,
    (dumps P x ++ dumpsElements P xs).length ≤ n →
      scanElements P n (dumps P x ++ dumpsElements P xs ++ rest) = some (y :: rereadElements xs, rest)
  | [], x, y, hx, n, rest, hn => by
    simp only [dumpsElements, List.length_append, List.length_singleton] at hn
    obtain ⟨m, rfl⟩ : ∃ m, n = m + 1 := ⟨n - 1, by omega⟩
    rw [dumpsElements, List.append_assoc]
    exact scanElements_last P hx rest (by omega)
  | z :: zs, x, y, hx, n, rest, hn => by
    simp only [dumpsElements, List.length_append, List.length_cons] at hn
    obtain ⟨m, rfl⟩ : ∃ m, n = m + 1 := ⟨n - 1, by omega⟩
    have hzs := readsAs_dumpsElements zs z z.reread (readsAs_dumps z) m rest (by rw [List.length_append]; omega)
    have hskip : skipSpace (dumps P z ++ dumpsElements P zs ++ rest) = dumps P z ++ dumpsElements P zs ++ rest := by
      rw [List.append_assoc, skipSpace_dumps]
    rw [dumpsElements, List.append_assoc, List.cons_append, List.cons_append,
      scanElements_more P hx hskip (by omega), hzs]
    rfl

theorem readsAs_dumpsMembers : ∀ kvs : List (String × Json F), ∀ k v w, ReadsAs P v w → ∀ n rest,
    (dumps P v ++ dumpsMembers P kvs).length ≤ n →
      scanMembers P n (quote k ++ ':' :: ' ' :: (dumps P v ++ (dumpsMembers P kvs ++ rest))) =
        some ((k, w) :: rereadMembers kvs, rest)
  | [], k, v, w, hv, n, rest, hn => by
    simp only [dumpsMembers, List.length_append, List.length_singleton] at hn
    obtain ⟨m, rfl⟩ : ∃ m, n = m + 1 := ⟨n - 1, by omega⟩
    exact scanMembers_last P hv k rest (by omega)
  | (j, u) :: kvs, k, v, w, hv, n, rest, hn => by
    simp only [dumpsMembers, List.length_append, List.length_cons] at hn
    obtain ⟨m, rfl⟩ : ∃ m, n = m + 1 := ⟨n - 1, by omega⟩
    have hkvs := readsAs_dumpsMembers kvs j u u.reread (readsAs_dumps u) m rest
      (by rw [List.length_append]; omega)
    have hskip := skipSpace_quote j (':' :: ' ' :: (dumps P u ++ (dumpsMembers P kvs ++ rest)))
    rw [dumpsMembers]
    simp only [List.cons_append, List.append_assoc]
    rw [scanMembers_more P hv k hskip (by omega), hkvs]
    rfl

end

theorem loads_dumps_reread (v : Json F) : loads P (dumps P v) = some v.reread := by
  have hskip : skipSpace (dumps P v) = dumps P v := by
    simpa using skipSpace_dumps P v []
  have hread := readsAs_dumps P v (2 * (dumps P v).length + 1) [] (by omega) ends_nil
  rw [List.append_nil] at hread
  rw [loads, hskip, hread]
  rfl

mutual

theorem reread_eq : ∀ v : Json F, v.Distinct → v.reread = v
  | .null, _ | .bool _, _ | .int _, _ | .float _, _ | .str _, _ => rfl
  | .list xs, h => by
    rw [Json.Distinct] at h
    rw [Json.reread, rereadElements_eq xs h]
  | .dict kvs, h => by
    rw [Json.Distinct] at h
    rw [Json.reread, rereadMembers_eq kvs h.2, Dict.entries_ofList h.1]

theorem rereadElements_eq : ∀ xs : List (Json F), distinctElements xs → rereadElements xs = xs
  | [], _ => rfl
  | x :: xs, h => by
    rw [distinctElements] at h
    rw [rereadElements, reread_eq x h.1, rereadElements_eq xs h.2]

theorem rereadMembers_eq : ∀ kvs : List (String × Json F), distinctMembers kvs → rereadMembers kvs = kvs
  | [], _ => rfl
  | (k, v) :: kvs, h => by
    rw [distinctMembers] at h
    rw [rereadMembers, reread_eq v h.1, rereadMembers_eq kvs h.2]

end

theorem loads_dumps {v : Json F} (h : v.Distinct) : loads P (dumps P v) = some v := by
  rw [loads_dumps_reread, reread_eq v h]

theorem distinctElements_iff {xs : List (Json F)} : distinctElements xs ↔ ∀ x ∈ xs, x.Distinct := by
  induction xs with
  | nil => simp [distinctElements]
  | cons x xs ih => rw [distinctElements, ih, List.forall_mem_cons]

theorem distinctMembers_iff {kvs : List (String × Json F)} : distinctMembers kvs ↔ ∀ e ∈ kvs, e.2.Distinct := by
  induction kvs with
  | nil => simp [distinctMembers]
  | cons e kvs ih => rw [distinctMembers, ih, List.forall_mem_cons]

end

end GraphSkillRuntime.JsonText
