import GraphSkillRuntime.JsonRenderings

/-!
JSON text as `json.dumps` writes it with `separators=(",", ":")` and `ensure_ascii`: a character outside ASCII is
written in hexadecimal, in two surrogates where four digits do not hold it.
-/

namespace GraphSkillRuntime.JsonText

/-- The last `width` hexadecimal digits. -/
def hexDigits : ℕ → ℕ → List Char
  | 0, _ => []
  | width + 1, n => hexDigits width (n / 16) ++ [Nat.digitChar (n % 16)]

def unicodeText (n : ℕ) : List Char := '\\' :: 'u' :: hexDigits 4 n

def highSurrogate (c : Char) : ℕ := 0xD800 + (c.toNat - 0x10000) / 0x400

def lowSurrogate (c : Char) : ℕ := 0xDC00 + (c.toNat - 0x10000) % 0x400

def asciiEscape (c : Char) : List Char :=
  if c.toNat < 0x7F then escapeChar c
  else if c.toNat < 0x10000 then unicodeText c.toNat
  else unicodeText (highSurrogate c) ++ unicodeText (lowSurrogate c)

def asciiQuote (k : String) : List Char := '"' :: (k.toList.flatMap asciiEscape ++ ['"'])

section

variable {F : Type} (P : FloatFormat F)

mutual

def asciiCompact : Json F → List Char
  | .null => dumps P .null
  | .bool b => dumps P (.bool b)
  | .int z => dumps P (.int z)
  | .float x => dumps P (.float x)
  | .str s => asciiQuote s
  | .list [] => ['[', ']']
  | .list (x :: xs) => '[' :: (asciiCompact x ++ asciiElements xs)
  | .dict [] => ['{', '}']
  | .dict ((k, v) :: kvs) => '{' :: (asciiQuote k ++ ':' :: (asciiCompact v ++ asciiMembers kvs))

def asciiElements : List (Json F) → List Char
  | [] => [']']
  | x :: xs => ',' :: (asciiCompact x ++ asciiElements xs)

def asciiMembers : List (String × Json F) → List Char
  | [] => ['}']
  | (k, v) :: kvs => ',' :: (asciiQuote k ++ ':' :: (asciiCompact v ++ asciiMembers kvs))

end

end

theorem hexValue?_digitChar {n : ℕ} (h : n < 16) : hexValue? (Nat.digitChar n) = some n := by
  have hall : ∀ n < 16, hexValue? (Nat.digitChar n) = some n := by decide
  exact hall n h

theorem hexUnit?_digits {n : ℕ} (h : n < 65536) :
    hexUnit? (Nat.digitChar (n / 16 / 16 / 16 % 16)) (Nat.digitChar (n / 16 / 16 % 16)) (Nat.digitChar (n / 16 % 16))
      (Nat.digitChar (n % 16)) = some n := by
  simp only [hexUnit?, hexValue?_digitChar (Nat.mod_lt _ (by omega : 0 < 16)), Option.bind_eq_bind, Option.bind_some,
    Option.pure_def, Option.some.injEq]
  omega

theorem isValidChar_toNat (c : Char) : c.toNat.isValidChar := c.valid

theorem toNat_lt (c : Char) : c.toNat < 0x110000 := by
  have hvalid := isValidChar_toNat c
  rw [Nat.isValidChar] at hvalid
  omega

theorem unicodeEscape?_digits {c : Char} (h : c.toNat < 0x10000) :
    unicodeEscape? (Nat.digitChar (c.toNat / 16 / 16 / 16 % 16)) (Nat.digitChar (c.toNat / 16 / 16 % 16))
      (Nat.digitChar (c.toNat / 16 % 16)) (Nat.digitChar (c.toNat % 16)) = some c := by
  simp only [unicodeEscape?, hexUnit?_digits h, Option.bind_eq_bind, Option.bind_some, if_pos (isValidChar_toNat c),
    Char.ofNat_toNat]

theorem surrogates_range (c : Char) : 0xD800 ≤ highSurrogate c ∧ highSurrogate c ≤ 0xDBFF ∧
    0xDC00 ≤ lowSurrogate c ∧ lowSurrogate c ≤ 0xDFFF := by
  have hlt := toNat_lt c
  rw [highSurrogate, lowSurrogate]
  omega

theorem surrogates_sum {c : Char} (h : 0x10000 ≤ c.toNat) :
    0x10000 + (highSurrogate c - 0xD800) * 0x400 + (lowSurrogate c - 0xDC00) = c.toNat := by
  rw [highSurrogate, lowSurrogate]
  omega

theorem surrogatePair?_some {n m : ℕ} (h : 0xD800 ≤ n ∧ n ≤ 0xDBFF ∧ 0xDC00 ≤ m ∧ m ≤ 0xDFFF) :
    surrogatePair? (some n) (some m) = some (Char.ofNat (0x10000 + (n - 0xD800) * 0x400 + (m - 0xDC00))) := by
  simp only [surrogatePair?, Option.bind_eq_bind, Option.bind_some, if_pos h]

theorem surrogatePair?_eq {c : Char} (h : 0x10000 ≤ c.toNat) :
    surrogatePair? (some (highSurrogate c)) (some (lowSurrogate c)) = some c := by
  rw [surrogatePair?_some (surrogates_range c), surrogates_sum h, Char.ofNat_toNat]

theorem literal_asciiEscape (k : List Char) : Literal (fun _ => True) k (k.flatMap asciiEscape ++ ['"']) := by
  induction k with
  | nil => exact .close
  | cons c k ih =>
    rw [List.flatMap_cons, List.append_assoc, asciiEscape]
    split_ifs with hascii hshort
    · rcases escapeChar_cases c with ⟨e, -, he, hesc, -⟩ | ⟨hcontrol, hesc⟩ | ⟨hlow, hquote, hslash, hesc⟩
      · rw [hesc]
        exact .short trivial he ih
      · rw [hesc]
        exact .unicode trivial (unicodeEscape?_control hcontrol) ih
      · rw [hesc]
        exact .raw hlow hquote hslash ih
    · exact .unicode trivial (unicodeEscape?_digits hshort) ih
    · have hlong : 0x10000 ≤ c.toNat := by omega
      have hrange := surrogates_range c
      have hhigh : hexUnit? _ _ _ _ = some (highSurrogate c) := hexUnit?_digits (by omega)
      have hlow : hexUnit? _ _ _ _ = some (lowSurrogate c) := hexUnit?_digits (by omega)
      refine .pair trivial ?_ ih
      rw [hhigh, hlow, surrogatePair?_eq hlong]

section

variable {F : Type} (P : FloatFormat F)

mutual

theorem renders_asciiCompact : ∀ v : Json F, Renders P (fun _ => True) (.value v) (asciiCompact P v)
  | .null => by
    rw [asciiCompact]
    exact .null
  | .bool b => by
    rw [asciiCompact]
    exact .bool b
  | .int z => by
    rw [asciiCompact, dumps]
    exact .int z
  | .float x => by
    have hfloat : Renders P (fun _ => True) _ _ := .float (P.repr x)
    rw [P.ofLiteral_repr] at hfloat
    rw [asciiCompact, dumps]
    exact hfloat
  | .str s => by
    rw [asciiCompact]
    exact .str (literal_asciiEscape s.toList)
  | .list [] => by
    rw [asciiCompact]
    exact .emptyList blanks_nil
  | .dict [] => by
    rw [asciiCompact]
    exact .emptyDict blanks_nil
  | .list (x :: xs) => by
    rw [asciiCompact]
    exact .list (b := []) blanks_nil (renders_asciiElements xs x _ (renders_asciiCompact x))
  | .dict ((k, v) :: kvs) => by
    rw [asciiCompact]
    exact .dict (b := []) blanks_nil (renders_asciiMembers kvs k v _ (renders_asciiCompact v))

theorem renders_asciiElements : ∀ (xs : List (Json F)) (x : Json F) (t : List Char),
    Renders P (fun _ => True) (.value x) t →
      Renders P (fun _ => True) (.elements (x :: xs)) (t ++ asciiElements P xs)
  | [], x, t, hx => by
    rw [asciiElements]
    exact .lastElement blanks_nil hx
  | y :: ys, x, t, hx => by
    have helement := Renders.element blanks_nil blanks_nil hx (renders_asciiElements ys y _ (renders_asciiCompact y))
    rw [asciiElements]
    simpa using helement

theorem renders_asciiMembers : ∀ (kvs : List (String × Json F)) (k : String) (v : Json F) (t : List Char),
    Renders P (fun _ => True) (.value v) t →
      Renders P (fun _ => True) (.members ((k, v) :: kvs)) (asciiQuote k ++ ':' :: (t ++ asciiMembers P kvs))
  | [], k, v, t, hv => by
    have hlast := Renders.lastMember (k := k) (literal_asciiEscape _) blanks_nil blanks_nil blanks_nil hv
    rw [asciiMembers]
    simpa [asciiQuote] using hlast
  | (j, w) :: kvs, k, v, t, hv => by
    have hkvs := renders_asciiMembers kvs j w _ (renders_asciiCompact w)
    have hmember := Renders.member (k := k) (literal_asciiEscape _) blanks_nil blanks_nil blanks_nil blanks_nil hv hkvs
    rw [asciiMembers]
    simpa [asciiQuote] using hmember

end

end

end GraphSkillRuntime.JsonText
