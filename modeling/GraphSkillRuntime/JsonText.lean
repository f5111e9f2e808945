import GraphSkillRuntime.OrderedDict
import Mathlib.Data.Int.Notation
import Mathlib.Data.List.TakeWhile

/-!
JSON text as Python's `json` writes it with `ensure_ascii=False`, and as it reads it back. The writer
escapes quotes, backslashes and the characters below U+0020, and nothing else.
-/

namespace GraphSkillRuntime.JsonText

open OrderedDict

inductive Json (F : Type) where
  | null
  | bool (b : Bool)
  | int (z : ℤ)
  | float (x : F)
  | str (s : String)
  | list (xs : List (Json F))
  | dict (kvs : List (String × Json F))

structure Digits where
  chars : List Char
  nonempty : chars ≠ []
  digits : ∀ c ∈ chars, c.isDigit = true

inductive FloatLiteral where
  | nan
  | infinity (negative : Bool)
  | decimal (negative : Bool) (whole : ℕ) (fraction : Option Digits) (exponent : Option (Option Bool × Digits))
      (h : (fraction.isSome || exponent.isSome) = true)

/-- Floating-point numbers, with the literal that `repr` writes for each. -/
structure FloatFormat (F : Type) where
  repr : F → FloatLiteral
  ofLiteral : FloatLiteral → F
  ofLiteral_repr : ∀ x, ofLiteral (repr x) = x

def escapeChar (c : Char) : List Char :=
  if c = '"' then ['\\', '"']
  else if c = '\\' then ['\\', '\\']
  else if c = '\n' then ['\\', 'n']
  else if c = '\r' then ['\\', 'r']
  else if c = '\t' then ['\\', 't']
  else if c = '\x0c' then ['\\', 'f']
  else if c = '\x08' then ['\\', 'b']
  else if c.toNat < 0x20 then
    ['\\', 'u', '0', '0', Nat.digitChar (c.toNat / 16), Nat.digitChar (c.toNat % 16)]
  else [c]

def quote (s : String) : List Char := '"' :: (s.toList.flatMap escapeChar ++ ['"'])

def signText (negative : Bool) : List Char := if negative then ['-'] else []

def fractionText : Option Digits → List Char
  | some ds => '.' :: ds.chars
  | none => []

def exponentText : Option (Option Bool × Digits) → List Char
  | some (some true, ds) => 'e' :: '-' :: ds.chars
  | some (some false, ds) => 'e' :: '+' :: ds.chars
  | some (none, ds) => 'e' :: ds.chars
  | none => []

def intText (z : ℤ) : List Char := signText (z < 0) ++ Nat.toDigits 10 z.natAbs

def FloatLiteral.text : FloatLiteral → List Char
  | .nan => ['N', 'a', 'N']
  | .infinity negative => signText negative ++ ['I', 'n', 'f', 'i', 'n', 'i', 't', 'y']
  | .decimal negative whole fraction exponent _ =>
    signText negative ++ Nat.toDigits 10 whole ++ fractionText fraction ++ exponentText exponent

section

variable {F : Type} (P : FloatFormat F)

mutual

def dumps : Json F → List Char
  | .null => ['n', 'u', 'l', 'l']
  | .bool true => ['t', 'r', 'u', 'e']
  | .bool false => ['f', 'a', 'l', 's', 'e']
  | .int z => intText z
  | .float x => (P.repr x).text
  | .str s => quote s
  | .list [] => ['[', ']']
  | .list (x :: xs) => '[' :: (dumps x ++ dumpsElements xs)
  | .dict [] => ['{', '}']
  | .dict ((k, v) :: kvs) => '{' :: (quote k ++ ':' :: ' ' :: (dumps v ++ dumpsMembers kvs))

def dumpsElements : List (Json F) → List Char
  | [] => [']']
  | x :: xs => ',' :: ' ' :: (dumps x ++ dumpsElements xs)

def dumpsMembers : List (String × Json F) → List Char
  | [] => ['}']
  | (k, v) :: kvs => ',' :: ' ' :: (quote k ++ ':' :: ' ' :: (dumps v ++ dumpsMembers kvs))

end

end

def skipSpace (s : List Char) : List Char := s.dropWhile (fun c => c = ' ' || c = '\t' || c = '\n' || c = '\r')

def hexValue? (c : Char) : Option ℕ :=
  if c.isDigit then some (c.toNat - '0'.toNat)
  else if 'a' ≤ c ∧ c ≤ 'f' then some (c.toNat - 'a'.toNat + 10)
  else if 'A' ≤ c ∧ c ≤ 'F' then some (c.toNat - 'A'.toNat + 10)
  else none

def hexUnit? (a b c d : Char) : Option ℕ := do
  return (((← hexValue? a) * 16 + (← hexValue? b)) * 16 + (← hexValue? c)) * 16 + (← hexValue? d)

/-- A surrogate alone has no `Char`. -/
def unicodeEscape? (a b c d : Char) : Option Char := do
  let n ← hexUnit? a b c d
  if n.isValidChar then some (Char.ofNat n) else none

def surrogatePair? (high low : Option ℕ) : Option Char := do
  let n ← high
  let m ← low
  if 0xD800 ≤ n ∧ n ≤ 0xDBFF ∧ 0xDC00 ≤ m ∧ m ≤ 0xDFFF then
    some (Char.ofNat (0x10000 + (n - 0xD800) * 0x400 + (m - 0xDC00)))
  else none

def shortEscape? (c : Char) : Option Char :=
  if c = '"' ∨ c = '\\' ∨ c = '/' then some c
  else if c = 'n' then some '\n'
  else if c = 'r' then some '\r'
  else if c = 't' then some '\t'
  else if c = 'f' then some '\x0c'
  else if c = 'b' then some '\x08'
  else none

def pushChar (c : Char) (r : List Char × List Char) : List Char × List Char := (c :: r.1, r.2)

def scanString : List Char → Option (List Char × List Char)
  | [] => none
  | c :: rest =>
    if c = '"' then some ([], rest)
    else if c = '\\' then
      match rest with
      | 'u' :: a :: b :: c :: d :: rest =>
        match unicodeEscape? a b c d with
        | some c => (scanString rest).map (pushChar c)
        | none =>
          match rest with
          | '\\' :: 'u' :: e :: f :: g :: h :: rest =>
            match surrogatePair? (hexUnit? a b c d) (hexUnit? e f g h) with
            | some c => (scanString rest).map (pushChar c)
            | none => none
          | _ => none
      | e :: rest =>
        match shortEscape? e with
        | some c => (scanString rest).map (pushChar c)
        | none => none
      | [] => none
    else if c.toNat < 0x20 then none
    else (scanString rest).map (pushChar c)

def scanDigits (s : List Char) : Option (Digits × List Char) :=
  if h : s.takeWhile Char.isDigit = [] then none
  else some (⟨s.takeWhile Char.isDigit, h, fun _ => List.mem_takeWhile_imp⟩, s.dropWhile Char.isDigit)

def scanWhole (s : List Char) : Option (ℕ × List Char) :=
  match s with
  | '0' :: rest => some (0, rest)
  | s => (scanDigits s).map fun r => (Nat.ofDigitChars 10 r.1.chars 0, r.2)

def scanFraction (s : List Char) : Option Digits × List Char :=
  match s with
  | '.' :: rest =>
    match scanDigits rest with
    | some (ds, rest) => (some ds, rest)
    | none => (none, s)
  | _ => (none, s)

def scanSign (s : List Char) : Option Bool × List Char :=
  match s with
  | '-' :: rest => (some true, rest)
  | '+' :: rest => (some false, rest)
  | s => (none, s)

def scanExponent (s : List Char) : Option (Option Bool × Digits) × List Char :=
  match s with
  | [] => (none, [])
  | c :: rest =>
    if c = 'e' ∨ c = 'E' then
      match scanDigits (scanSign rest).2 with
      | some (ds, rest') => (some ((scanSign rest).1, ds), rest')
      | none => (none, s)
    else (none, s)

def scanMinus (s : List Char) : Bool × List Char :=
  match s with
  | '-' :: rest => (true, rest)
  | s => (false, s)

def after? : List Char → List Char → Option (List Char)
  | [], s => some s
  | _ :: _, [] => none
  | c :: word, d :: s => if c = d then after? word s else none

section

variable {F : Type} (P : FloatFormat F)

def number (negative : Bool) (whole : ℕ) (fraction : Option Digits) (exponent : Option (Option Bool × Digits)) :
    Json F :=
  if h : (fraction.isSome || exponent.isSome) = true then
    .float (P.ofLiteral (.decimal negative whole fraction exponent h))
  else .int (if negative then -whole else whole)

def scanNumber (s : List Char) : Option (Json F × List Char) :=
  (scanWhole (scanMinus s).2).map fun r =>
    (number P (scanMinus s).1 r.1 (scanFraction r.2).1 (scanExponent (scanFraction r.2).2).1,
      (scanExponent (scanFraction r.2).2).2)

def words : List (List Char × Json F) :=
  [(['n', 'u', 'l', 'l'], .null), (['t', 'r', 'u', 'e'], .bool true), (['f', 'a', 'l', 's', 'e'], .bool false),
   (['N', 'a', 'N'], .float (P.ofLiteral .nan)),
   (['I', 'n', 'f', 'i', 'n', 'i', 't', 'y'], .float (P.ofLiteral (.infinity false))),
   (['-', 'I', 'n', 'f', 'i', 'n', 'i', 't', 'y'], .float (P.ofLiteral (.infinity true)))]

def scanWord (s : List Char) : Option (Json F × List Char) :=
  (words P).findSome? fun w => (after? w.1 s).map (w.2, ·)

def scanLiteral (s : List Char) : Option (Json F × List Char) := (scanWord P s).or (scanNumber P s)

mutual

def scanOnce : ℕ → List Char → Option (Json F × List Char)
  | 0, _ => none
  | _ + 1, [] => none
  | n + 1, c :: rest =>
    if c = '"' then (scanString rest).map fun r => (.str (.ofList r.1), r.2)
    else if c = '{' then
      match skipSpace rest with
      | '}' :: rest => some (.dict [], rest)
      | rest => (scanMembers n rest).map fun r => (.dict (Dict.ofList r.1).entries, r.2)
    else if c = '[' then
      match skipSpace rest with
      | ']' :: rest => some (.list [], rest)
      | rest => (scanElements n rest).map fun r => (.list r.1, r.2)
    else scanLiteral P (c :: rest)

def scanElements : ℕ → List Char → Option (List (Json F) × List Char)
  | 0, _ => none
  | n + 1, s =>
    match scanOnce n s with
    | none => none
    | some (x, rest) =>
      match skipSpace rest with
      | ']' :: rest => some ([x], rest)
      | ',' :: rest => (scanElements n (skipSpace rest)).map fun r => (x :: r.1, r.2)
      | _ => none

def scanMembers : ℕ → List Char → Option (List (String × Json F) × List Char)
  | 0, _ => none
  | n + 1, '"' :: rest =>
    match scanString rest with
    | none => none
    | some (key, rest) =>
      match skipSpace rest with
      | ':' :: rest =>
        match scanOnce n (skipSpace rest) with
        | none => none
        | some (v, rest) =>
          match skipSpace rest with
          | '}' :: rest => some ([(.ofList key, v)], rest)
          | ',' :: rest => (scanMembers n (skipSpace rest)).map fun r => ((.ofList key, v) :: r.1, r.2)
          | _ => none
      | _ => none
  | _ + 1, _ => none

end

/-- No character is met by more than two calls, so that the fuel does not run out. -/
def loads (text : List Char) : Option (Json F) :=
  match scanOnce P (2 * text.length + 1) (skipSpace text) with
  | some (v, rest) => if skipSpace rest = [] then some v else none
  | none => none

end

end GraphSkillRuntime.JsonText
