import GraphSkillRuntime.JsonRoundTrip

/-!
Lines of JSON text. `str.splitlines` ends a line at more characters than the writer escapes: what stays
raw in a text decides whether the line is read back whole.
-/

namespace GraphSkillRuntime.JsonText

open OrderedDict

section

variable {F : Type}

mutual

/-- The characters of the texts in a value, those of keys included. -/
def Json.chars : Json F → List Char
  | .str s => s.toList
  | .list xs => charsElements xs
  | .dict kvs => charsMembers kvs
  | _ => []

def charsElements : List (Json F) → List Char
  | [] => []
  | x :: xs => x.chars ++ charsElements xs

def charsMembers : List (String × Json F) → List Char
  | [] => []
  | (k, v) :: kvs => k.toList ++ (v.chars ++ charsMembers kvs)

end

theorem mem_charsMembers {c : Char} {kvs : List (String × Json F)} :
    c ∈ charsMembers kvs ↔ ∃ e ∈ kvs, c ∈ e.1.toList ∨ c ∈ e.2.chars := by
  induction kvs with
  | nil => simp [charsMembers]
  | cons e kvs ih => simp [charsMembers, ih, or_assoc]

theorem charsMembers_ofList {c : Char} {kvs : List (String × Json F)}
    (h : c ∈ charsMembers (Dict.ofList kvs).entries) : c ∈ charsMembers kvs := by
  obtain ⟨e, he, hc⟩ := mem_charsMembers.1 h
  have hget : (Dict.ofList kvs).get? e.1 = some e.2 := Dict.get?_mem.2 he
  rw [Dict.get?_ofList] at hget
  exact mem_charsMembers.2 ⟨e, List.mem_reverse.1 (Dict.mem_of_find hget), hc⟩

end

/-! Text whose backslashes all begin an escape of the writer. -/

def printable (c : Char) : Prop := 0x20 ≤ c.toNat ∧ c.toNat < 0x7F

instance : DecidablePred printable := fun _ => inferInstanceAs (Decidable (_ ∧ _))

def plainChars (l : List Char) : Prop := ∀ c ∈ l, printable c ∧ c ≠ '\\'

instance (l : List Char) : Decidable (plainChars l) :=
  List.decidableBAll (fun c => printable c ∧ c ≠ '\\') l

theorem shortEscape_printable {e : Char} (h : e ∈ ['"', '\\', 'n', 'r', 't', 'f', 'b']) :
    printable e ∧ e ≠ ' ' ∧ e ≠ 'u' := by
  simp only [List.mem_cons, List.not_mem_nil, or_false] at h
  rcases h with rfl | rfl | rfl | rfl | rfl | rfl | rfl
  all_goals decide

inductive Escaped (p : Char → Prop) : List Char → Prop where
  | nil : Escaped p []
  | raw {c : Char} {s : List Char} (hc : c ≠ '\\') (hp : p c) : Escaped p s → Escaped p (c :: s)
  | short {e : Char} {s : List Char} (he : e ≠ 'u') (hprint : printable e) :
      Escaped p s → Escaped p ('\\' :: e :: s)
  | control {a b : Char} {s : List Char} (ha : printable a) (hb : printable b)
      (h : ∀ c, unicodeEscape? '0' '0' a b = some c → c.toNat < 0x7F) :
      Escaped p s → Escaped p ('\\' :: 'u' :: '0' :: '0' :: a :: b :: s)

namespace Escaped

variable {p q : Char → Prop} {s : List Char}

theorem tail {c : Char} (h : Escaped p (c :: s)) (hc : c ≠ '\\') : p c ∧ Escaped p s := by
  cases h with
  | raw _ hp hs => exact ⟨hp, hs⟩
  | short _ _ _ => exact absurd rfl hc
  | control _ _ _ _ => exact absurd rfl hc

theorem append {l : List Char} (hl : ∀ c ∈ l, c ≠ '\\' ∧ p c) (h : Escaped p s) : Escaped p (l ++ s) := by
  induction l with
  | nil => exact h
  | cons c l ih =>
    have hc := hl c List.mem_cons_self
    exact .raw hc.1 hc.2 (ih fun d hd => hl d (List.mem_cons_of_mem _ hd))

theorem drop {l : List Char} (hl : ∀ c ∈ l, c ≠ '\\') (h : Escaped p (l ++ s)) : Escaped p s := by
  induction l with
  | nil => exact h
  | cons c l ih => exact ih (fun d hd => hl d (List.mem_cons_of_mem _ hd)) (h.tail (hl c List.mem_cons_self)).2

theorem mono (hpq : ∀ c, p c → q c) (h : Escaped p s) : Escaped q s := by
  induction h with
  | nil => exact .nil
  | raw hc hp _ ih => exact .raw hc (hpq _ hp) ih
  | short he hprint _ ih => exact .short he hprint ih
  | control ha hb hab _ ih => exact .control ha hb hab ih

theorem mem (hp : ∀ c, printable c → p c) (h : Escaped p s) : ∀ c ∈ s, p c := by
  have hslash : p '\\' := hp _ (by decide)
  induction h with
  | nil => simp
  | raw hc hc' _ ih =>
    rw [List.forall_mem_cons]
    exact ⟨hc', ih⟩
  | short he hprint _ ih =>
    simp only [List.forall_mem_cons]
    exact ⟨hslash, hp _ hprint, ih⟩
  | control ha hb _ _ ih =>
    simp only [List.forall_mem_cons]
    exact ⟨hslash, hp _ (by decide), hp _ (by decide), hp _ (by decide), hp _ ha, hp _ hb, ih⟩

theorem dropWhile {f : Char → Bool} (hf : f '\\' = false) (h : Escaped p s) : Escaped p (s.dropWhile f) := by
  refine drop (l := s.takeWhile f) ?_ (by rwa [List.takeWhile_append_dropWhile])
  rintro c hc rfl
  rw [List.mem_takeWhile_imp hc] at hf
  exact Bool.noConfusion hf

theorem escapeChar {c : Char} (hc : 0x20 ≤ c.toNat → p c) (h : Escaped p s) :
    Escaped p (JsonText.escapeChar c ++ s) := by
  have hdigits : ∀ n < 32, (∀ d, unicodeEscape? '0' '0' (Nat.digitChar (n / 16)) (Nat.digitChar (n % 16)) = some d →
      d.toNat < 0x7F) ∧ printable (Nat.digitChar (n / 16)) ∧ printable (Nat.digitChar (n % 16)) := by
    intro n hn
    have hread := unicodeEscape?_control (c := Char.ofNat n)
    have hnat : ∀ n < 32, (Char.ofNat n).toNat = n := by decide
    have hprint : ∀ n < 16, printable (Nat.digitChar n) := by decide
    rw [hnat n hn] at hread
    refine ⟨?_, hprint _ (by omega), hprint _ (by omega)⟩
    intro d hd
    rw [hread hn] at hd
    rw [← Option.some.inj hd, hnat n hn]
    omega
  rcases escapeChar_cases c with ⟨e, hmem, -, hesc, -⟩ | ⟨hcontrol, hesc⟩ | ⟨hcontrol, -, hslash, hesc⟩
  · rw [hesc]
    obtain ⟨hprint, -, hu⟩ := shortEscape_printable hmem
    exact .short hu hprint h
  · rw [hesc]
    have hc := hdigits c.toNat hcontrol
    exact .control hc.2.1 hc.2.2 hc.1 h
  · rw [hesc]
    exact .raw hslash (hc hcontrol) h

theorem flatMap {cs : List Char} (hcs : ∀ c ∈ cs, 0x20 ≤ c.toNat → p c) (h : Escaped p s) :
    Escaped p (cs.flatMap JsonText.escapeChar ++ s) := by
  induction cs with
  | nil => exact h
  | cons c cs ih =>
    rw [List.flatMap_cons, List.append_assoc]
    exact escapeChar (hcs c List.mem_cons_self) (ih fun d hd => hcs d (List.mem_cons_of_mem _ hd))

theorem quote (hp : ∀ c, printable c → p c) {k : String} (hk : ∀ c ∈ k.toList, 0x20 ≤ c.toNat → p c)
    (h : Escaped p s) : Escaped p (JsonText.quote k ++ s) := by
  have hq : p '"' := hp _ (by decide)
  rw [JsonText.quote, List.cons_append, List.append_assoc]
  exact .raw (by decide) hq (flatMap hk (.raw (by decide) hq h))

theorem printed (hp : ∀ c, printable c → p c) {l : List Char} (hl : plainChars l) (h : Escaped p s) :
    Escaped p (l ++ s) :=
  h.append fun c hc => ⟨(hl c hc).2, hp c (hl c hc).1⟩

end Escaped

theorem plainChars_append {l m : List Char} (hl : plainChars l) (hm : plainChars m) : plainChars (l ++ m) := by
  intro c hc
  rcases List.mem_append.1 hc with h | h
  · exact hl c h
  · exact hm c h

theorem plainChars_cons {c : Char} {l : List Char} (hc : printable c ∧ c ≠ '\\') (hl : plainChars l) :
    plainChars (c :: l) := by
  intro d hd
  rcases List.mem_cons.1 hd with rfl | h
  · exact hc
  · exact hl d h

theorem Digits.plainChars (ds : Digits) : plainChars ds.chars := by
  intro c hc
  have hdigit := ds.digits c hc
  rw [Char.isDigit_iff_toNat, show '0'.toNat = 48 from rfl, show '9'.toNat = 57 from rfl] at hdigit
  refine ⟨⟨by omega, by omega⟩, ?_⟩
  rintro rfl
  exact absurd hdigit (by decide)

theorem numberText_plainChars (negative : Bool) (whole : ℕ) (fraction : Option Digits)
    (exponent : Option (Option Bool × Digits)) : plainChars (numberText negative whole fraction exponent) := by
  have hsign : plainChars (signText negative) := by cases negative <;> decide
  have hfraction : plainChars (fractionText fraction) := by
    cases fraction with
    | none => decide
    | some ds => exact plainChars_cons (by decide) ds.plainChars
  have hexponent : plainChars (exponentText exponent) := by
    match exponent with
    | none => decide
    | some (some true, ds) | some (some false, ds) =>
      exact plainChars_cons (by decide) (plainChars_cons (by decide) ds.plainChars)
    | some (none, ds) => exact plainChars_cons (by decide) ds.plainChars
  exact plainChars_append (plainChars_append (plainChars_append hsign (natDigits whole).plainChars) hfraction)
    hexponent

theorem floatText_plainChars (l : FloatLiteral) : plainChars l.text := by
  match l with
  | .nan => decide
  | .infinity true => decide
  | .infinity false => decide
  | .decimal negative whole fraction exponent _ => exact numberText_plainChars negative whole fraction exponent

section

variable {F : Type} (P : FloatFormat F) {p : Char → Prop}

mutual

theorem escaped_dumps (hp : ∀ c, printable c → p c) : ∀ v : Json F, (∀ c ∈ v.chars, 0x20 ≤ c.toNat → p c) →
    ∀ {s}, Escaped p s → Escaped p (dumps P v ++ s)
  | .null, _, _, h => h.printed hp (by rw [dumps]; decide)
  | .bool true, _, _, h => h.printed hp (by rw [dumps]; decide)
  | .bool false, _, _, h => h.printed hp (by rw [dumps]; decide)
  | .int z, _, _, h => h.printed hp (by rw [dumps, intText_eq]; exact numberText_plainChars _ _ _ _)
  | .float x, _, _, h => h.printed hp (floatText_plainChars (P.repr x))
  | .str k, hv, _, h => h.quote hp hv
  | .list [], _, _, h => h.printed hp (by rw [dumps]; decide)
  | .list (x :: xs), hv, _, h => by
    rw [Json.chars, charsElements, List.forall_mem_append] at hv
    rw [dumps, List.cons_append, List.append_assoc]
    exact .raw (by decide) (hp _ (by decide)) (escaped_dumps hp x hv.1 (escaped_dumpsElements hp xs hv.2 h))
  | .dict [], _, _, h => h.printed hp (by rw [dumps]; decide)
  | .dict ((k, v) :: kvs), hv, _, h => by
    rw [Json.chars, charsMembers, List.forall_mem_append, List.forall_mem_append] at hv
    simp only [dumps, List.cons_append, List.append_assoc]
    exact .raw (by decide) (hp _ (by decide)) (.quote hp hv.1 (.raw (by decide) (hp _ (by decide))
      (.raw (by decide) (hp _ (by decide)) (escaped_dumps hp v hv.2.1 (escaped_dumpsMembers hp kvs hv.2.2 h)))))

theorem escaped_dumpsElements (hp : ∀ c, printable c → p c) : ∀ xs : List (Json F),
    (∀ c ∈ charsElements xs, 0x20 ≤ c.toNat → p c) → ∀ {s}, Escaped p s → Escaped p (dumpsElements P xs ++ s)
  | [], _, _, h => h.printed hp (by rw [dumpsElements]; decide)
  | x :: xs, hv, _, h => by
    rw [charsElements, List.forall_mem_append] at hv
    simp only [dumpsElements, List.cons_append, List.append_assoc]
    exact .raw (by decide) (hp _ (by decide)) (.raw (by decide) (hp _ (by decide))
      (escaped_dumps hp x hv.1 (escaped_dumpsElements hp xs hv.2 h)))

theorem escaped_dumpsMembers (hp : ∀ c, printable c → p c) : ∀ kvs : List (String × Json F),
    (∀ c ∈ charsMembers kvs, 0x20 ≤ c.toNat → p c) → ∀ {s}, Escaped p s → Escaped p (dumpsMembers P kvs ++ s)
  | [], _, _, h => h.printed hp (by rw [dumpsMembers]; decide)
  | (k, v) :: kvs, hv, _, h => by
    rw [charsMembers, List.forall_mem_append, List.forall_mem_append] at hv
    simp only [dumpsMembers, List.cons_append, List.append_assoc]
    exact .raw (by decide) (hp _ (by decide)) (.raw (by decide) (hp _ (by decide)) (.quote hp hv.1
      (.raw (by decide) (hp _ (by decide)) (.raw (by decide) (hp _ (by decide))
        (escaped_dumps hp v hv.2.1 (escaped_dumpsMembers hp kvs hv.2.2 h))))))

end

end

/-! The reader: it stands between two escapes whenever it stops, so that the texts it reads hold only
what stood raw in the text and what an escape of the writer names. -/

theorem shortEscape?_ascii {e c : Char} (h : shortEscape? e = some c) : c.toNat < 0x7F := by
  unfold shortEscape? at h
  split_ifs at h with hself hn hr ht hf hb
  · obtain rfl : e = c := Option.some.inj h
    rcases hself with rfl | rfl | rfl <;> decide
  · exact Option.some.inj h ▸ by decide
  · exact Option.some.inj h ▸ by decide
  · exact Option.some.inj h ▸ by decide
  · exact Option.some.inj h ▸ by decide
  · exact Option.some.inj h ▸ by decide

theorem scanString_control {c : Char} (hquote : c ≠ '"') (hslash : c ≠ '\\') (h : c.toNat < 32)
    (rest : List Char) : scanString (c :: rest) = none := by
  rw [scanString.eq_def]
  simp only [hquote, hslash, h, if_false, if_true]

theorem hexValue?_lt {c : Char} {n : ℕ} (h : hexValue? c = some n) : n < 16 := by
  unfold hexValue? at h
  split_ifs at h with hdigit hlower hupper
  · obtain rfl := Option.some.inj h
    have hle := (Char.isDigit_iff_toNat.mp hdigit).2
    have hzero : '0'.toNat = 48 := rfl
    have hnine : '9'.toNat = 57 := rfl
    omega
  · obtain rfl := Option.some.inj h
    have hle : c.toNat ≤ 'f'.toNat := hlower.2
    have ha : 'a'.toNat = 97 := rfl
    have hf : 'f'.toNat = 102 := rfl
    omega
  · obtain rfl := Option.some.inj h
    have hle : c.toNat ≤ 'F'.toNat := hupper.2
    have ha : 'A'.toNat = 65 := rfl
    have hf : 'F'.toNat = 70 := rfl
    omega

theorem unicodeEscape?_none {a b : Char} (h : unicodeEscape? '0' '0' a b = none) : hexUnit? '0' '0' a b = none := by
  cases hunit : hexUnit? '0' '0' a b with
  | none => rfl
  | some n =>
    have hlow : n < 0xD800 := by
      simp only [hexUnit?, Option.bind_eq_bind, Option.bind_eq_some_iff, Option.pure_def, Option.some.injEq] at hunit
      obtain ⟨w, hw, x, hx, y, hy, z, hz, rfl⟩ := hunit
      obtain rfl : 0 = w := Option.some.inj hw
      obtain rfl : 0 = x := Option.some.inj hx
      have hylt := hexValue?_lt hy
      have hzlt := hexValue?_lt hz
      omega
    simp only [unicodeEscape?, hunit, Option.bind_eq_bind, Option.bind_some] at h
    rw [if_pos (Or.inl hlow)] at h
    cases h

theorem scanString_low (a b : Char) (rest : List Char) :
    scanString ('\\' :: 'u' :: '0' :: '0' :: a :: b :: rest) =
      (unicodeEscape? '0' '0' a b).bind fun c => (scanString rest).map (pushChar c) := by
  cases hesc : unicodeEscape? '0' '0' a b with
  | some c => exact scanString_unicode hesc rest
  | none =>
    have hpair : ∀ low, surrogatePair? none low = none := fun _ => rfl
    rw [scanString.eq_def]
    simp only [show ('\\' = '"') = False by decide, if_false, if_true, hesc, unicodeEscape?_none hesc, hpair]
    split
    · rfl
    · rfl

section

variable {p : Char → Prop}

theorem pushChar_escaped {c : Char} {s : List Char} (hc : p c)
    (ih : ∀ t rest, scanString s = some (t, rest) → (∀ c ∈ t, p c) ∧ Escaped p rest) {t rest : List Char}
    (h : (scanString s).map (pushChar c) = some (t, rest)) : (∀ c ∈ t, p c) ∧ Escaped p rest := by
  obtain ⟨⟨u, rest'⟩, hu, hpush⟩ := Option.map_eq_some_iff.1 h
  obtain ⟨rfl, rfl⟩ := Prod.mk.inj hpush
  have hrest := ih u rest' hu
  exact ⟨List.forall_mem_cons.2 ⟨hc, hrest.1⟩, hrest.2⟩

theorem scanString_escaped (hp : ∀ c : Char, c.toNat < 0x7F → p c) {s : List Char} (h : Escaped p s) :
    ∀ t rest, scanString s = some (t, rest) → (∀ c ∈ t, p c) ∧ Escaped p rest := by
  induction h with
  | nil =>
    intro t rest ht
    cases ht
  | @raw c s hc hpc hs ih =>
    intro t rest ht
    by_cases hquote : c = '"'
    · subst hquote
      rw [scanString_quote] at ht
      obtain ⟨rfl, rfl⟩ := Prod.mk.inj (Option.some.inj ht)
      exact ⟨by simp, hs⟩
    · by_cases hcontrol : c.toNat < 32
      · rw [scanString_control hquote hc hcontrol] at ht
        cases ht
      · rw [scanString_plain hquote hc hcontrol] at ht
        exact pushChar_escaped hpc ih ht
  | short he _ _ ih =>
    intro t rest ht
    rw [scanString_short he] at ht
    obtain ⟨c, hc, ht⟩ := Option.bind_eq_some_iff.1 ht
    exact pushChar_escaped (hp c (shortEscape?_ascii hc)) ih ht
  | control _ _ hab _ ih =>
    intro t rest ht
    rw [scanString_low] at ht
    obtain ⟨c, hc, ht⟩ := Option.bind_eq_some_iff.1 ht
    exact pushChar_escaped (hp c (hab c hc)) ih ht

/-! What the scanners of blanks, numbers and words pass over. -/

def Passes (s rest : List Char) : Prop := ∃ l, s = l ++ rest ∧ ∀ c ∈ l, c.toNat < 0x7F ∧ c ≠ '"' ∧ c ≠ '\\'

theorem Passes.refl (s : List Char) : Passes s s := ⟨[], rfl, by simp⟩

theorem Passes.trans {s t u : List Char} (h : Passes s t) (h' : Passes t u) : Passes s u := by
  obtain ⟨l, rfl, hl⟩ := h
  obtain ⟨l', rfl, hl'⟩ := h'
  exact ⟨l ++ l', by rw [List.append_assoc], List.forall_mem_append.2 ⟨hl, hl'⟩⟩

theorem Passes.cons {c : Char} (hc : c.toNat < 0x7F ∧ c ≠ '"' ∧ c ≠ '\\') (s : List Char) : Passes (c :: s) s :=
  ⟨[c], rfl, by simpa using hc⟩

theorem Passes.escaped {s rest : List Char} (h : Passes s rest) (hs : Escaped p s) : Escaped p rest := by
  obtain ⟨l, rfl, hl⟩ := h
  exact hs.drop fun c hc => (hl c hc).2.2

theorem passes_skipSpace (s : List Char) : Passes s (skipSpace s) := by
  refine ⟨s.takeWhile _, (List.takeWhile_append_dropWhile).symm, ?_⟩
  intro c hc
  have hblank := List.mem_takeWhile_imp hc
  simp only [Bool.or_eq_true, decide_eq_true_eq] at hblank
  rcases hblank with ((rfl | rfl) | rfl) | rfl
  all_goals decide

theorem passes_of_skipSpace {c : Char} {s rest : List Char} (hs : skipSpace s = c :: rest)
    (hc : c.toNat < 0x7F ∧ c ≠ '"' ∧ c ≠ '\\') : Passes s rest := by
  have hskip := passes_skipSpace s
  rw [hs] at hskip
  exact hskip.trans (.cons hc rest)

theorem Escaped.skipSpace {s : List Char} (h : Escaped p s) : Escaped p (skipSpace s) := (passes_skipSpace s).escaped h

theorem Escaped.of_skipSpace {c : Char} {s rest : List Char} (h : Escaped p s) (hs : JsonText.skipSpace s = c :: rest)
    (hc : c ≠ '\\') : Escaped p rest := by
  have hskip := h.skipSpace
  rw [hs] at hskip
  exact (hskip.tail hc).2

theorem passes_scanDigits {s rest : List Char} {ds : Digits} (hs : scanDigits s = some (ds, rest)) :
    Passes s rest := by
  rw [scanDigits] at hs
  split_ifs at hs
  obtain ⟨_, rfl⟩ := Prod.mk.inj (Option.some.inj hs)
  refine ⟨s.takeWhile Char.isDigit, (List.takeWhile_append_dropWhile).symm, ?_⟩
  intro c hc
  have hdigit := List.mem_takeWhile_imp hc
  have hle := (Char.isDigit_iff_toNat.mp hdigit).2
  have hnine : '9'.toNat = 57 := rfl
  refine ⟨by omega, ?_, ?_⟩
  · rintro rfl
    exact absurd hdigit (by decide)
  · rintro rfl
    exact absurd hdigit (by decide)

theorem passes_scanMinus (s : List Char) : Passes s (scanMinus s).2 := by
  unfold scanMinus
  split
  · exact .cons (by decide) _
  · exact .refl s

theorem passes_scanSign (s : List Char) : Passes s (scanSign s).2 := by
  unfold scanSign
  split
  · exact .cons (by decide) _
  · exact .cons (by decide) _
  · exact .refl s

theorem passes_scanWhole {s rest : List Char} {n : ℕ} (hs : scanWhole s = some (n, rest)) : Passes s rest := by
  unfold scanWhole at hs
  split at hs
  · obtain ⟨_, rfl⟩ := Prod.mk.inj (Option.some.inj hs)
    exact .cons (by decide) _
  · obtain ⟨⟨ds, rest'⟩, hds, hpair⟩ := Option.map_eq_some_iff.1 hs
    obtain ⟨_, rfl⟩ := Prod.mk.inj hpair
    exact passes_scanDigits hds

theorem passes_scanFraction (s : List Char) : Passes s (scanFraction s).2 := by
  unfold scanFraction
  split
  · split
    · next hds => exact (Passes.cons (by decide) _).trans (passes_scanDigits hds)
    · exact .refl _
  · exact .refl s

theorem passes_scanExponent (s : List Char) : Passes s (scanExponent s).2 := by
  unfold scanExponent
  split
  · exact .refl _
  · next c rest =>
    split_ifs with hc
    · have hmark : c.toNat < 0x7F ∧ c ≠ '"' ∧ c ≠ '\\' := by rcases hc with rfl | rfl <;> decide
      split
      · next hds => exact ((Passes.cons hmark _).trans (passes_scanSign rest)).trans (passes_scanDigits hds)
      · exact .refl _
    · exact .refl _

theorem after?_eq_some {word s rest : List Char} (h : after? word s = some rest) : s = word ++ rest := by
  induction word generalizing s with
  | nil => exact Option.some.inj h
  | cons c word ih =>
    cases s with
    | nil => cases h
    | cons d s =>
      rw [after?] at h
      split_ifs at h with hcd
      rw [hcd, ih h, List.cons_append]

section

variable {F : Type} (P : FloatFormat F)

theorem chars_number (negative : Bool) (whole : ℕ) (fraction : Option Digits)
    (exponent : Option (Option Bool × Digits)) : (number P negative whole fraction exponent).chars = [] := by
  unfold number
  split_ifs <;> rfl

theorem passes_scanLiteral {s rest : List Char} {v : Json F} (hs : scanLiteral P s = some (v, rest)) :
    v.chars = [] ∧ Passes s rest := by
  rw [scanLiteral, Option.or_eq_some_iff] at hs
  rcases hs with hword | ⟨_, hnumber⟩
  · obtain ⟨w, hw, hafter⟩ := List.exists_of_findSome?_eq_some hword
    obtain ⟨rest', hrest, hpair⟩ := Option.map_eq_some_iff.1 hafter
    obtain ⟨rfl, rfl⟩ := Prod.mk.inj hpair
    have hwords : ∀ w ∈ words P, w.2.chars = [] ∧ ∀ c ∈ w.1, c.toNat < 0x7F ∧ c ≠ '"' ∧ c ≠ '\\' := by
      simp [words, Json.chars]
    exact ⟨(hwords w hw).1, w.1, after?_eq_some hrest, (hwords w hw).2⟩
  · obtain ⟨⟨n, rest'⟩, hwhole, hpair⟩ := Option.map_eq_some_iff.1 hnumber
    obtain ⟨rfl, rfl⟩ := Prod.mk.inj hpair
    refine ⟨chars_number P _ _ _ _, ?_⟩
    exact (((passes_scanMinus s).trans (passes_scanWhole hwhole)).trans (passes_scanFraction _)).trans
      (passes_scanExponent _)

def KeepsEscaped {α : Type} (p : Char → Prop) (chars : α → List Char) (scan : List Char → Option (α × List Char)) :
    Prop :=
  ∀ s v rest, Escaped p s → scan s = some (v, rest) → (∀ c ∈ chars v, p c) ∧ Escaped p rest

theorem keepsEscaped_elements {n : ℕ} (hv : KeepsEscaped p Json.chars (scanOnce P n))
    (hes : KeepsEscaped p charsElements (scanElements P n)) :
    KeepsEscaped p charsElements (scanElements P (n + 1)) := by
  intro s xs rest h hs
  rw [scanElements] at hs
  split at hs
  · cases hs
  · next x rest' hx =>
    have hx' := hv s x rest' h hx
    split at hs
    · next rest'' hclose =>
      obtain ⟨rfl, rfl⟩ := Prod.mk.inj (Option.some.inj hs)
      exact ⟨by simpa [charsElements] using hx'.1, hx'.2.of_skipSpace hclose (by decide)⟩
    · next rest'' hcomma =>
      obtain ⟨⟨ys, rest₃⟩, hys, hpair⟩ := Option.map_eq_some_iff.1 hs
      obtain ⟨rfl, rfl⟩ := Prod.mk.inj hpair
      have hys' := hes _ ys rest₃ (hx'.2.of_skipSpace hcomma (by decide)).skipSpace hys
      rw [charsElements, List.forall_mem_append]
      exact ⟨⟨hx'.1, hys'.1⟩, hys'.2⟩
    · cases hs

theorem keepsEscaped_members (hp : ∀ c : Char, c.toNat < 0x7F → p c) {n : ℕ}
    (hv : KeepsEscaped p Json.chars (scanOnce P n)) (hms : KeepsEscaped p charsMembers (scanMembers P n)) :
    KeepsEscaped p charsMembers (scanMembers P (n + 1)) := by
  intro s kvs rest h hs
  unfold scanMembers at hs
  split at hs
  · cases hs
  · next m rest' hm =>
    obtain rfl : n = m := Nat.succ.inj hm
    have htail := (h.tail (by decide)).2
    split at hs
    · cases hs
    · next key rest₁ hkey =>
      have hkey' := scanString_escaped hp htail key rest₁ hkey
      split at hs
      · next rest₂ hcolon =>
        have hcolon' := (hkey'.2.of_skipSpace hcolon (by decide)).skipSpace
        split at hs
        · cases hs
        · next v rest₃ hvalue =>
          have hvalue' := hv _ v rest₃ hcolon' hvalue
          split at hs
          · next rest₄ hclose =>
            obtain ⟨rfl, rfl⟩ := Prod.mk.inj (Option.some.inj hs)
            refine ⟨?_, hvalue'.2.of_skipSpace hclose (by decide)⟩
            simp only [charsMembers, String.toList_ofList, List.append_nil, List.forall_mem_append]
            exact ⟨hkey'.1, hvalue'.1⟩
          · next rest₄ hcomma =>
            obtain ⟨⟨ms, rest₅⟩, hms', hpair⟩ := Option.map_eq_some_iff.1 hs
            obtain ⟨rfl, rfl⟩ := Prod.mk.inj hpair
            have hrest := hms _ ms rest₅ (hvalue'.2.of_skipSpace hcomma (by decide)).skipSpace hms'
            simp only [charsMembers, String.toList_ofList, List.forall_mem_append]
            exact ⟨⟨hkey'.1, hvalue'.1, hrest.1⟩, hrest.2⟩
          · cases hs
      · cases hs
  · cases hs

theorem keepsEscaped_value (hp : ∀ c : Char, c.toNat < 0x7F → p c) {n : ℕ}
    (hes : KeepsEscaped p charsElements (scanElements P n)) (hms : KeepsEscaped p charsMembers (scanMembers P n)) :
    KeepsEscaped p Json.chars (scanOnce P (n + 1)) := by
  intro s v rest h hs
  cases s with
  | nil => cases hs
  | cons c s =>
    rw [scanOnce] at hs
    split_ifs at hs with hquote hbrace hbracket
    · obtain ⟨⟨t, rest'⟩, ht, hpair⟩ := Option.map_eq_some_iff.1 hs
      obtain ⟨rfl, rfl⟩ := Prod.mk.inj hpair
      have ht' := scanString_escaped hp (h.tail (by rw [hquote]; decide)).2 t rest' ht
      simpa [Json.chars] using ht'
    · have htail := (h.tail (by rw [hbrace]; decide)).2
      split at hs
      · next hclose =>
        obtain ⟨rfl, rfl⟩ := Prod.mk.inj (Option.some.inj hs)
        exact ⟨by simp [Json.chars, charsMembers], htail.of_skipSpace hclose (by decide)⟩
      · obtain ⟨⟨kvs, rest'⟩, hkvs, hpair⟩ := Option.map_eq_some_iff.1 hs
        obtain ⟨rfl, rfl⟩ := Prod.mk.inj hpair
        have hkvs' := hms _ kvs rest' htail.skipSpace hkvs
        exact ⟨fun c hc => hkvs'.1 c (charsMembers_ofList hc), hkvs'.2⟩
    · have htail := (h.tail (by rw [hbracket]; decide)).2
      split at hs
      · next hclose =>
        obtain ⟨rfl, rfl⟩ := Prod.mk.inj (Option.some.inj hs)
        exact ⟨by simp [Json.chars, charsElements], htail.of_skipSpace hclose (by decide)⟩
      · obtain ⟨⟨xs, rest'⟩, hxs, hpair⟩ := Option.map_eq_some_iff.1 hs
        obtain ⟨rfl, rfl⟩ := Prod.mk.inj hpair
        exact hes _ xs rest' htail.skipSpace hxs
    · have hlit := passes_scanLiteral P hs
      exact ⟨by simp [hlit.1], hlit.2.escaped h⟩

theorem keepsEscaped (hp : ∀ c : Char, c.toNat < 0x7F → p c) (n : ℕ) :
    KeepsEscaped p Json.chars (scanOnce P n) ∧ KeepsEscaped p charsElements (scanElements P n) ∧
      KeepsEscaped p charsMembers (scanMembers P n) := by
  induction n with
  | zero =>
    refine ⟨?_, ?_, ?_⟩ <;> intro s v rest _ hs <;> cases hs
  | succ n ih =>
    exact ⟨keepsEscaped_value P hp ih.2.1 ih.2.2, keepsEscaped_elements P ih.1 ih.2.1,
      keepsEscaped_members P hp ih.1 ih.2.2⟩

theorem loads_escaped (hp : ∀ c : Char, c.toNat < 0x7F → p c) {s : List Char} (h : Escaped p s) {v : Json F}
    (hv : loads P s = some v) : ∀ c ∈ v.chars, p c := by
  unfold loads at hv
  split at hv
  · next w rest hscan =>
    split_ifs at hv
    obtain rfl : w = v := Option.some.inj hv
    exact ((keepsEscaped P hp _).1 _ w rest h.skipSpace hscan).1
  · cases hv

end

end

/-! The characters of a text that are not of the value's own texts. -/

def isNumberChar (c : Char) : Bool := c.isDigit || c = '-' || c = '+' || c = '.' || c = 'e'

def isMarkup (c : Char) : Bool :=
  c.isAlphanum || isNumberChar c || [' ', ',', ':', '[', ']', '{', '}', '"', '\\'].contains c

theorem isMarkup_of_number {c : Char} (h : isNumberChar c = true) : isMarkup c = true := by
  simp [isMarkup, h]

theorem Digits.numberChars (ds : Digits) : ∀ c ∈ ds.chars, isNumberChar c = true := by
  intro c hc
  simp [isNumberChar, ds.digits c hc]

theorem numberText_numberChars (negative : Bool) (whole : ℕ) (fraction : Option Digits)
    (exponent : Option (Option Bool × Digits)) :
    ∀ c ∈ numberText negative whole fraction exponent, isNumberChar c = true := by
  have hsign : ∀ c ∈ signText negative, isNumberChar c = true := by
    cases negative <;> simp [signText, isNumberChar]
  have hfraction : ∀ c ∈ fractionText fraction, isNumberChar c = true := by
    cases fraction with
    | none => simp [fractionText]
    | some ds => exact List.forall_mem_cons.2 ⟨by decide, ds.numberChars⟩
  have hexponent : ∀ c ∈ exponentText exponent, isNumberChar c = true := by
    obtain _ | ⟨_ | _ | _, ds⟩ := exponent
    · simp [exponentText]
    · exact List.forall_mem_cons.2 ⟨by decide, ds.numberChars⟩
    · exact List.forall_mem_cons.2 ⟨by decide, List.forall_mem_cons.2 ⟨by decide, ds.numberChars⟩⟩
    · exact List.forall_mem_cons.2 ⟨by decide, List.forall_mem_cons.2 ⟨by decide, ds.numberChars⟩⟩
  intro c hc
  simp only [numberText, List.mem_append] at hc
  rcases hc with ((hc | hc) | hc) | hc
  · exact hsign c hc
  · exact (natDigits whole).numberChars c hc
  · exact hfraction c hc
  · exact hexponent c hc

theorem floatText_markup (l : FloatLiteral) : ∀ c ∈ l.text, isMarkup c = true := by
  cases l with
  | nan => simp [FloatLiteral.text, isMarkup]
  | infinity negative => cases negative <;> simp [FloatLiteral.text, signText, isMarkup, isNumberChar]
  | decimal negative whole fraction exponent h =>
    exact fun c hc => isMarkup_of_number (numberText_numberChars negative whole fraction exponent c hc)

theorem mem_escapeChar {c d : Char} (h : d ∈ escapeChar c) : isMarkup d = true ∨ d = c := by
  have hhex : ∀ n < 16, isMarkup (Nat.digitChar n) = true := by decide
  rcases escapeChar_cases c with ⟨e, hmem, -, hesc, -⟩ | ⟨hcontrol, hesc⟩ | ⟨-, -, -, hesc⟩
  · rw [hesc, List.mem_pair] at h
    left
    rcases h with rfl | rfl
    · decide
    · simp only [List.mem_cons, List.not_mem_nil, or_false] at hmem
      rcases hmem with rfl | rfl | rfl | rfl | rfl | rfl | rfl
      all_goals decide
  · have hhigh := hhex (c.toNat / 16) (by omega)
    have hlow := hhex (c.toNat % 16) (by omega)
    left
    rw [hesc] at h
    simp only [List.mem_cons, List.not_mem_nil, or_false] at h
    rcases h with rfl | rfl | rfl | rfl | rfl | rfl
    · decide
    · decide
    · decide
    · decide
    · exact hhigh
    · exact hlow
  · rw [hesc] at h
    exact .inr (List.mem_singleton.1 h)

section

variable {F : Type} (P : FloatFormat F)

theorem mem_quote {s : String} {d : Char} (h : d ∈ quote s) : isMarkup d = true ∨ d ∈ s.toList := by
  simp only [quote, List.mem_cons, List.mem_append, List.mem_flatMap, List.not_mem_nil, or_false] at h
  rcases h with rfl | ⟨c, hc, hd⟩ | rfl
  · exact .inl (by decide)
  · rcases mem_escapeChar hd with hd | rfl
    · exact .inl hd
    · exact .inr hc
  · exact .inl (by decide)

mutual

theorem mem_dumps : ∀ (v : Json F) {d : Char}, d ∈ dumps P v → isMarkup d = true ∨ d ∈ v.chars
  | .null, d, h => by
    left
    simp only [dumps, List.mem_cons, List.not_mem_nil, or_false] at h
    rcases h with rfl | rfl | rfl | rfl <;> decide
  | .bool true, d, h => by
    left
    simp only [dumps, List.mem_cons, List.not_mem_nil, or_false] at h
    rcases h with rfl | rfl | rfl | rfl <;> decide
  | .bool false, d, h => by
    left
    simp only [dumps, List.mem_cons, List.not_mem_nil, or_false] at h
    rcases h with rfl | rfl | rfl | rfl | rfl <;> decide
  | .int z, d, h => by
    rw [dumps, intText_eq] at h
    exact .inl (isMarkup_of_number (numberText_numberChars _ _ _ _ d h))
  | .float x, d, h => .inl (floatText_markup (P.repr x) d (by rwa [dumps] at h))
  | .str s, d, h => by
    rw [dumps] at h
    exact mem_quote h
  | .list [], d, h => by
    left
    simp only [dumps, List.mem_cons, List.not_mem_nil, or_false] at h
    rcases h with rfl | rfl <;> decide
  | .list (x :: xs), d, h => by
    simp only [dumps, List.mem_cons, List.mem_append] at h
    rw [Json.chars, charsElements, List.mem_append]
    rcases h with rfl | h | h
    · exact .inl (by decide)
    · exact (mem_dumps x h).imp_right .inl
    · exact (mem_dumpsElements xs h).imp_right .inr
  | .dict [], d, h => by
    left
    simp only [dumps, List.mem_cons, List.not_mem_nil, or_false] at h
    rcases h with rfl | rfl <;> decide
  | .dict ((k, v) :: kvs), d, h => by
    simp only [dumps, List.mem_cons, List.mem_append] at h
    rw [Json.chars, charsMembers, List.mem_append, List.mem_append]
    rcases h with rfl | h | rfl | rfl | h | h
    · exact .inl (by decide)
    · exact (mem_quote h).imp_right .inl
    · exact .inl (by decide)
    · exact .inl (by decide)
    · exact (mem_dumps v h).imp_right fun h => .inr (.inl h)
    · exact (mem_dumpsMembers kvs h).imp_right fun h => .inr (.inr h)

theorem mem_dumpsElements : ∀ (xs : List (Json F)) {d : Char}, d ∈ dumpsElements P xs →
    isMarkup d = true ∨ d ∈ charsElements xs
  | [], d, h => by
    rw [dumpsElements, List.mem_singleton] at h
    exact .inl (h ▸ by decide)
  | x :: xs, d, h => by
    simp only [dumpsElements, List.mem_cons, List.mem_append] at h
    rw [charsElements, List.mem_append]
    rcases h with rfl | rfl | h | h
    · exact .inl (by decide)
    · exact .inl (by decide)
    · exact (mem_dumps x h).imp_right .inl
    · exact (mem_dumpsElements xs h).imp_right .inr

theorem mem_dumpsMembers : ∀ (kvs : List (String × Json F)) {d : Char}, d ∈ dumpsMembers P kvs →
    isMarkup d = true ∨ d ∈ charsMembers kvs
  | [], d, h => by
    rw [dumpsMembers, List.mem_singleton] at h
    exact .inl (h ▸ by decide)
  | (k, v) :: kvs, d, h => by
    simp only [dumpsMembers, List.mem_cons, List.mem_append] at h
    rw [charsMembers, List.mem_append, List.mem_append]
    rcases h with rfl | rfl | h | rfl | rfl | h | h
    · exact .inl (by decide)
    · exact .inl (by decide)
    · exact (mem_quote h).imp_right .inl
    · exact .inl (by decide)
    · exact .inl (by decide)
    · exact (mem_dumps v h).imp_right fun h => .inr (.inl h)
    · exact (mem_dumpsMembers kvs h).imp_right fun h => .inr (.inr h)

end

end

/-- The characters at which `str.splitlines` ends a line. -/
def isLineBreak (c : Char) : Bool :=
  (0x0A ≤ c.toNat && c.toNat ≤ 0x0D) || (0x1C ≤ c.toNat && c.toNat ≤ 0x1E) ||
    c.toNat = 0x85 || c.toNat = 0x2028 || c.toNat = 0x2029

def isRawBreak (c : Char) : Bool := c.toNat = 0x85 || c.toNat = 0x2028 || c.toNat = 0x2029

theorem isLineBreak_iff {c : Char} (h : 0x20 ≤ c.toNat) : isLineBreak c = isRawBreak c := by
  have hlow : ¬ c.toNat ≤ 0x0D := by omega
  have hmid : ¬ c.toNat ≤ 0x1E := by omega
  simp [isLineBreak, isRawBreak, hlow, hmid]

theorem printable_isLineBreak {c : Char} (h : printable c) : isLineBreak c = false := by
  rw [isLineBreak_iff h.1]
  have hlt := h.2
  simp only [isRawBreak, Bool.or_eq_false_iff, decide_eq_false_iff_not]
  omega

theorem notRaw_of_noBreak {c : Char} (h : isLineBreak c = false) : isRawBreak c = false := by
  simp only [isLineBreak, isRawBreak, Bool.or_eq_false_iff] at h ⊢
  exact ⟨⟨h.1.1.2, h.1.2⟩, h.2⟩

theorem isLineBreak_raw {c : Char} (h : isRawBreak c = true) : isLineBreak c = true := by
  cases hbreak : isLineBreak c with
  | true => rfl
  | false =>
    rw [notRaw_of_noBreak hbreak] at h
    cases h

def universalNewlines : List Char → List Char
  | [] => []
  | c :: rest =>
    if c = '\r' then
      match rest with
      | '\n' :: rest => '\n' :: universalNewlines rest
      | rest => '\n' :: universalNewlines rest
    else c :: universalNewlines rest

theorem universalNewlines_eq {s : List Char} (h : ∀ c ∈ s, c ≠ '\r') : universalNewlines s = s := by
  induction s with
  | nil => rfl
  | cons c s ih =>
    rw [List.forall_mem_cons] at h
    rw [universalNewlines.eq_def]
    simp only [h.1, if_false, ih h.2]

def consHead (c : Char) : List (List Char) → List (List Char)
  | [] => [[c]]
  | line :: lines => (c :: line) :: lines

def splitlines : List Char → List (List Char)
  | [] => []
  | c :: rest =>
    if c = '\r' then
      match rest with
      | '\n' :: rest => [] :: splitlines rest
      | rest => [] :: splitlines rest
    else if isLineBreak c then [] :: splitlines rest
    else consHead c (splitlines rest)

theorem splitlines_break {c : Char} (hr : c ≠ '\r') (h : isLineBreak c = true) (s : List Char) :
    splitlines (c :: s) = [] :: splitlines s := by
  rw [splitlines.eq_def]
  simp only [hr, h, if_false, if_true]

theorem splitlines_plain {c : Char} (h : isLineBreak c = false) (s : List Char) :
    splitlines (c :: s) = consHead c (splitlines s) := by
  have hr : c ≠ '\r' := by
    rintro rfl
    exact absurd h (by decide)
  rw [splitlines.eq_def]
  simp only [hr, h, if_false, Bool.false_eq_true]

theorem splitlines_cut {line : List Char} (h : ∀ c ∈ line, isLineBreak c = false) {b : Char} (hr : b ≠ '\r')
    (hb : isLineBreak b = true) (s : List Char) : splitlines (line ++ b :: s) = line :: splitlines s := by
  induction line with
  | nil => exact splitlines_break hr hb s
  | cons c line ih =>
    rw [List.forall_mem_cons] at h
    rw [List.cons_append, splitlines_plain h.1, ih h.2]
    rfl

theorem splitlines_line {line : List Char} (h : ∀ c ∈ line, isLineBreak c = false) (s : List Char) :
    splitlines (line ++ '\n' :: s) = line :: splitlines s :=
  splitlines_cut h (by decide) (by decide) s

theorem splitlines_lines {lines : List (List Char)} (h : ∀ line ∈ lines, ∀ c ∈ line, isLineBreak c = false) :
    splitlines (lines.flatMap fun line => line ++ ['\n']) = lines := by
  induction lines with
  | nil => rfl
  | cons line lines ih =>
    rw [List.forall_mem_cons] at h
    rw [List.flatMap_cons, List.append_assoc, List.singleton_append, splitlines_line h.1, ih h.2]

theorem splitlines_after {s : List Char} (hs : ∀ c ∈ s, c ≠ '\r') (t : List Char) :
    ∃ line lines, splitlines (s ++ '\n' :: t) = line :: lines ∧ ∀ l ∈ splitlines t, l ∈ lines := by
  induction s with
  | nil => exact ⟨[], splitlines t, splitlines_break (by decide) (by decide) t, fun _ hl => hl⟩
  | cons c s ih =>
    rw [List.forall_mem_cons] at hs
    obtain ⟨line, lines, hsplit, hmem⟩ := ih hs.2
    cases hbreak : isLineBreak c with
    | true =>
      refine ⟨[], line :: lines, ?_, fun l hl => List.mem_cons_of_mem line (hmem l hl)⟩
      rw [List.cons_append, splitlines_break hs.1 hbreak, hsplit]
    | false =>
      refine ⟨c :: line, lines, ?_, hmem⟩
      rw [List.cons_append, splitlines_plain hbreak, hsplit]
      rfl

theorem universalNewlines_ne_return (s : List Char) : ∀ c ∈ universalNewlines s, c ≠ '\r' := by
  fun_induction universalNewlines s with
  | case1 => simp
  | case2 rest ih => simpa using ih
  | case3 rest _ ih => simpa using ih
  | case4 c rest hc ih => exact List.forall_mem_cons.mpr ⟨hc, ih⟩

theorem mem_universalNewlines {c : Char} (hn : c ≠ '\n') (hr : c ≠ '\r') {s : List Char} :
    c ∈ universalNewlines s ↔ c ∈ s := by
  fun_induction universalNewlines s with
  | case1 => rfl
  | case2 rest ih => simp [hn, hr, ih]
  | case3 rest _ ih => simp [hn, hr, ih]
  | case4 d rest _ ih => simp [ih]

theorem splitlines_return {s : List Char} (h : ∀ rest, s ≠ '\n' :: rest) :
    splitlines ('\r' :: s) = [] :: splitlines s := by
  rw [splitlines.eq_def]
  dsimp only
  rw [if_pos rfl]
  split
  · next rest => exact absurd rfl (h rest)
  · rfl

theorem splitlines_universalNewlines (s : List Char) : splitlines (universalNewlines s) = splitlines s := by
  fun_induction universalNewlines s with
  | case1 => rfl
  | case2 rest ih =>
    rw [splitlines_break (by decide) (by decide), ih]
    simp [splitlines]
  | case3 rest hrest ih => rw [splitlines_break (by decide) (by decide), splitlines_return hrest, ih]
  | case4 c rest hc ih =>
    cases hbreak : isLineBreak c with
    | true => rw [splitlines_break hc hbreak, splitlines_break hc hbreak, ih]
    | false => rw [splitlines_plain hbreak, splitlines_plain hbreak, ih]

theorem forall_splitlines_append {Q : List Char → Prop} {u s : List Char} (hu : ∀ c ∈ u, isLineBreak c = false)
    (hne : u ≠ []) (hnil : Q u) (happend : ∀ line ∈ splitlines s, Q (u ++ line))
    (h : ∀ line ∈ splitlines s, Q line) : ∀ line ∈ splitlines (u ++ s), Q line := by
  have hhead : splitlines (u ++ s) = match splitlines s with
      | [] => [u]
      | line :: lines => (u ++ line) :: lines := by
    clear hnil happend h
    induction u with
    | nil => exact absurd rfl hne
    | cons c u ih =>
      rw [List.forall_mem_cons] at hu
      rw [List.cons_append, splitlines_plain hu.1]
      by_cases hu' : u = []
      · subst hu'
        rw [List.nil_append]
        cases splitlines s <;> rfl
      · rw [ih hu.2 hu']
        cases splitlines s <;> rfl
  rw [hhead]
  cases hs : splitlines s with
  | nil => exact List.forall_mem_singleton.2 hnil
  | cons line lines =>
    rw [hs, List.forall_mem_cons] at happend h
    exact List.forall_mem_cons.2 ⟨happend.1, h.2⟩

theorem escaped_splitlines {s : List Char} (h : Escaped (· ≠ '\r') s) :
    ∀ line ∈ splitlines s, Escaped (fun c => isLineBreak c = false) line := by
  have hslash : isLineBreak '\\' = false := by decide
  induction h with
  | nil => simp [splitlines]
  | @raw c s hc hr hs ih =>
    by_cases hb : isLineBreak c = true
    · rw [splitlines_break hr hb, List.forall_mem_cons]
      exact ⟨.nil, ih⟩
    · rw [Bool.not_eq_true] at hb
      exact forall_splitlines_append (u := [c]) (by simpa using hb) (by simp) (.raw hc hb .nil)
        (fun line hline => .raw hc hb (ih line hline)) ih
  | @short e s he hprint hs ih =>
    have hu : ∀ c ∈ ['\\', e], isLineBreak c = false := by
      simp [hslash, printable_isLineBreak hprint]
    exact forall_splitlines_append (u := ['\\', e]) hu (by simp) (.short he hprint .nil)
      (fun line hline => .short he hprint (ih line hline)) ih
  | @control a b s ha hb hab hs ih =>
    have hu : ∀ c ∈ ['\\', 'u', '0', '0', a, b], isLineBreak c = false := by
      simp [hslash, printable_isLineBreak ha, printable_isLineBreak hb, printable_isLineBreak (c := 'u') (by decide),
        printable_isLineBreak (c := '0') (by decide)]
    exact forall_splitlines_append (u := ['\\', 'u', '0', '0', a, b]) hu (by simp) (.control ha hb hab .nil)
      (fun line hline => .control ha hb hab (ih line hline)) ih

section

variable {F : Type} (P : FloatFormat F)

def writeLines (values : List (Json F)) : List Char := values.flatMap fun v => dumps P v ++ ['\n']

def readLines (text : List Char) : List (Json F) := (splitlines (universalNewlines text)).filterMap (loads P)

theorem writeLines_append (values more : List (Json F)) :
    writeLines P (values ++ more) = writeLines P values ++ writeLines P more := by
  simp [writeLines]

theorem escaped_writeLines (values : List (Json F)) : Escaped (· ≠ '\r') (writeLines P values) := by
  induction values with
  | nil => exact .nil
  | cons v values ih =>
    have hp : ∀ c : Char, 0x20 ≤ c.toNat → c ≠ '\r' := by
      rintro c hc rfl
      exact absurd hc (by decide)
    rw [writeLines, List.flatMap_cons, List.append_assoc]
    exact escaped_dumps P (fun c hc => hp c hc.1) v (fun c _ => hp c) (.raw (by decide) (by decide) ih)

theorem ne_return_of_escaped {s : List Char} (h : Escaped (· ≠ '\r') s) : ∀ c ∈ s, c ≠ '\r' := by
  refine h.mem ?_
  rintro c hc rfl
  exact absurd hc (by decide)

theorem universalNewlines_writeLines (values : List (Json F)) :
    universalNewlines (writeLines P values) = writeLines P values :=
  universalNewlines_eq (ne_return_of_escaped (escaped_writeLines P values))

theorem dumps_noBreak {v : Json F} (h : ∀ c ∈ v.chars, isRawBreak c = false) :
    ∀ c ∈ dumps P v, isLineBreak c = false := by
  have hesc : Escaped (fun c => isLineBreak c = false) (dumps P v ++ []) := by
    refine escaped_dumps P (fun c => printable_isLineBreak) v (fun c hc hlow => ?_) .nil
    rw [isLineBreak_iff hlow]
    exact h c hc
  rw [List.append_nil] at hesc
  exact hesc.mem fun c => printable_isLineBreak

theorem splitlines_writeLines {values : List (Json F)} (h : ∀ v ∈ values, ∀ c ∈ v.chars, isRawBreak c = false) :
    splitlines (writeLines P values) = values.map (dumps P) := by
  have hlines : ∀ line ∈ values.map (dumps P), ∀ c ∈ line, isLineBreak c = false := by
    intro line hline
    obtain ⟨v, hv, rfl⟩ := List.mem_map.1 hline
    exact dumps_noBreak P (h v hv)
  rw [← splitlines_lines hlines, writeLines, List.flatMap_map]

theorem reread_mem_readLines {values : List (Json F)} {v : Json F} (hv : v ∈ values)
    (h : ∀ c ∈ v.chars, isRawBreak c = false) : v.reread ∈ readLines P (writeLines P values) := by
  have hline : dumps P v ∈ splitlines (writeLines P values) := by
    induction values with
    | nil => cases hv
    | cons u values ih =>
      have hcons : writeLines P (u :: values) = dumps P u ++ '\n' :: writeLines P values := by
        simp [writeLines]
      have hreturn : ∀ c ∈ dumps P u, c ≠ '\r' := by
        intro c hc
        apply ne_return_of_escaped (escaped_writeLines P (u :: values)) c
        rw [hcons]
        exact List.mem_append_left _ hc
      rw [hcons]
      rcases List.mem_cons.1 hv with rfl | hv
      · rw [splitlines_line (dumps_noBreak P h)]
        exact List.mem_cons_self ..
      · obtain ⟨line, lines, hsplit, hmem⟩ := splitlines_after hreturn (writeLines P values)
        rw [hsplit]
        exact List.mem_cons_of_mem line (hmem _ (ih hv))
  rw [readLines, universalNewlines_writeLines]
  exact List.mem_filterMap.2 ⟨dumps P v, hline, loads_dumps_reread P v⟩

theorem readLines_writeLines {values : List (Json F)} (h : ∀ v ∈ values, ∀ c ∈ v.chars, isRawBreak c = false) :
    readLines P (writeLines P values) = values.map Json.reread := by
  rw [readLines, universalNewlines_writeLines, splitlines_writeLines P h, List.filterMap_map,
    ← List.filterMap_eq_map]
  exact List.filterMap_congr fun v _ => loads_dumps_reread P v

theorem readLines_writeLines_iff {values : List (Json F)} (hd : ∀ v ∈ values, v.Distinct) :
    readLines P (writeLines P values) = values ↔ ∀ v ∈ values, ∀ c ∈ v.chars, isRawBreak c = false := by
  constructor
  · intro h v hv
    rw [← h, readLines, universalNewlines_writeLines] at hv
    obtain ⟨line, hline, hload⟩ := List.mem_filterMap.1 hv
    have hesc : Escaped (fun c => isRawBreak c = false) line :=
      (escaped_splitlines (escaped_writeLines P values) line hline).mono fun _ => notRaw_of_noBreak
    refine loads_escaped P (fun c hc => ?_) hesc hload
    simp only [isRawBreak, Bool.or_eq_false_iff, decide_eq_false_iff_not]
    omega
  · intro h
    rw [readLines_writeLines P h]
    exact (List.map_congr_left fun v hv => reread_eq v (hd v hv)).trans (List.map_id _)

end

end GraphSkillRuntime.JsonText
