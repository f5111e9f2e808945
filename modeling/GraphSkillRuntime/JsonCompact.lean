import GraphSkillRuntime.JsonLines

/-!
JSON text as `json.dumps` writes it with `separators=(",", ":")`. It is the text with blanks without the blanks after
its separators, so that the values of one text are equal here too.
-/

namespace GraphSkillRuntime.JsonText

variable {F : Type} (P : FloatFormat F)

mutual

def compact : Json F → List Char
  | .list [] => ['[', ']']
  | .list (x :: xs) => '[' :: (compact x ++ compactElements xs)
  | .dict [] => ['{', '}']
  | .dict ((k, v) :: kvs) => '{' :: (quote k ++ ':' :: (compact v ++ compactMembers kvs))
  | v => dumps P v

def compactElements : List (Json F) → List Char
  | [] => [']']
  | x :: xs => ',' :: (compact x ++ compactElements xs)

def compactMembers : List (String × Json F) → List Char
  | [] => ['}']
  | (k, v) :: kvs => ',' :: (quote k ++ ':' :: (compact v ++ compactMembers kvs))

end

inductive Place where
  | outside | inside | escaped

def spaced : Place → List Char → List Char
  | _, [] => []
  | .outside, c :: s =>
    if c = '"' then c :: spaced .inside s
    else if c = ',' ∨ c = ':' then c :: ' ' :: spaced .outside s
    else c :: spaced .outside s
  | .inside, c :: s =>
    if c = '"' then c :: spaced .outside s
    else if c = '\\' then c :: spaced .escaped s
    else c :: spaced .inside s
  | .escaped, c :: s => c :: spaced .inside s

theorem spaced_separator {c : Char} (h : c = ',' ∨ c = ':') (s : List Char) :
    spaced .outside (c :: s) = c :: ' ' :: spaced .outside s := by
  cases h with
  | inl h => rw [h]; rfl
  | inr h => rw [h]; rfl

theorem spaced_plain {cs : List Char} (h : ∀ c ∈ cs, c ≠ '"' ∧ c ≠ ',' ∧ c ≠ ':') (s : List Char) :
    spaced .outside (cs ++ s) = cs ++ spaced .outside s := by
  induction cs with
  | nil => rfl
  | cons c cs ih =>
    rw [List.forall_mem_cons] at h
    obtain ⟨⟨hquote, hcomma, hcolon⟩, hcs⟩ := h
    rw [List.cons_append, spaced, if_neg hquote, if_neg (by simp [hcomma, hcolon]), ih hcs, List.cons_append]

theorem spaced_inside {cs : List Char} (h : ∀ c ∈ cs, c ≠ '"' ∧ c ≠ '\\') (s : List Char) :
    spaced .inside (cs ++ s) = cs ++ spaced .inside s := by
  induction cs with
  | nil => rfl
  | cons c cs ih =>
    rw [List.forall_mem_cons] at h
    obtain ⟨⟨hquote, hslash⟩, hcs⟩ := h
    rw [List.cons_append, spaced, if_neg hquote, if_neg hslash, ih hcs, List.cons_append]

theorem spaced_escapeChar (c : Char) (s : List Char) :
    spaced .inside (escapeChar c ++ s) = escapeChar c ++ spaced .inside s := by
  have hhex : ∀ n < 16, Nat.digitChar n ≠ '"' ∧ Nat.digitChar n ≠ '\\' := by decide
  rcases escapeChar_cases c with ⟨e, -, -, hesc, -⟩ | ⟨hcontrol, hesc⟩ | ⟨-, hquote, hslash, hesc⟩
  · rw [hesc]
    rfl
  · rw [hesc]
    have hhigh := hhex (c.toNat / 16) (by omega)
    have hlow := hhex (c.toNat % 16) (by omega)
    have hdigits := @spaced_inside ['0', '0', Nat.digitChar (c.toNat / 16), Nat.digitChar (c.toNat % 16)]
      (by simp [hhigh, hlow]) s
    exact congrArg (fun text => '\\' :: 'u' :: text) hdigits
  · rw [hesc]
    exact @spaced_inside [c] (by simp [hquote, hslash]) s

theorem spaced_quote (k : String) (s : List Char) : spaced .outside (quote k ++ s) = quote k ++ spaced .outside s := by
  have hchars (cs : List Char) (t : List Char) :
      spaced .inside (cs.flatMap escapeChar ++ t) = cs.flatMap escapeChar ++ spaced .inside t := by
    induction cs with
    | nil => rfl
    | cons c cs ih => rw [List.flatMap_cons, List.append_assoc, spaced_escapeChar, ih, List.append_assoc]
  have hclose := hchars k.toList ('"' :: s)
  simp only [quote, List.cons_append, List.append_assoc, List.nil_append] at hclose ⊢
  rw [spaced, if_pos rfl, hclose]
  rfl

theorem number_plain {c : Char} (h : isNumberChar c = true) : c ≠ '"' ∧ c ≠ ',' ∧ c ≠ ':' := by
  refine ⟨?_, ?_, ?_⟩
  all_goals
    intro hc
    rw [hc] at h
    exact absurd h (by decide)

theorem float_plain (l : FloatLiteral) : ∀ c ∈ l.text, c ≠ '"' ∧ c ≠ ',' ∧ c ≠ ':' := by
  cases l with
  | nan => simp [FloatLiteral.text]
  | infinity negative => cases negative <;> simp [FloatLiteral.text, signText]
  | decimal negative whole fraction exponent h =>
    exact fun c hc => number_plain (numberText_numberChars negative whole fraction exponent c hc)

theorem int_plain (z : ℤ) : ∀ c ∈ intText z, c ≠ '"' ∧ c ≠ ',' ∧ c ≠ ':' := by
  intro c hc
  rw [intText_eq] at hc
  exact number_plain (numberText_numberChars _ _ _ _ c hc)

mutual

theorem spaced_compact (v : Json F) (s : List Char) :
    spaced .outside (compact P v ++ s) = dumps P v ++ spaced .outside s := by
  cases v with
  | null => exact @spaced_plain ['n', 'u', 'l', 'l'] (by simp) s
  | bool b =>
    cases b with
    | true => exact @spaced_plain ['t', 'r', 'u', 'e'] (by simp) s
    | false => exact @spaced_plain ['f', 'a', 'l', 's', 'e'] (by simp) s
  | int z => exact spaced_plain (int_plain z) s
  | float x => exact spaced_plain (float_plain (P.repr x)) s
  | str t => exact spaced_quote t s
  | list xs =>
    cases xs with
    | nil => exact @spaced_plain ['[', ']'] (by simp) s
    | cons x xs =>
      have hopen := @spaced_plain ['['] (by simp) (compact P x ++ (compactElements P xs ++ s))
      rw [List.singleton_append, spaced_compact x, spaced_compactElements xs] at hopen
      simpa [compact, dumps] using hopen
  | dict kvs =>
    cases kvs with
    | nil => exact @spaced_plain ['{', '}'] (by simp) s
    | cons kv kvs =>
      obtain ⟨k, v⟩ := kv
      have hopen := @spaced_plain ['{'] (by simp) (quote k ++ (':' :: (compact P v ++ (compactMembers P kvs ++ s))))
      rw [List.singleton_append, spaced_quote, spaced_separator (.inr rfl), spaced_compact v,
        spaced_compactMembers kvs] at hopen
      simpa [compact, dumps] using hopen
termination_by structural v

theorem spaced_compactElements (xs : List (Json F)) (s : List Char) :
    spaced .outside (compactElements P xs ++ s) = dumpsElements P xs ++ spaced .outside s := by
  cases xs with
  | nil => exact @spaced_plain [']'] (by simp) s
  | cons x xs =>
    have hcomma := spaced_separator (.inl rfl) (compact P x ++ (compactElements P xs ++ s))
    rw [spaced_compact x, spaced_compactElements xs] at hcomma
    simpa [compactElements, dumpsElements] using hcomma
termination_by structural xs

theorem spaced_compactMembers (kvs : List (String × Json F)) (s : List Char) :
    spaced .outside (compactMembers P kvs ++ s) = dumpsMembers P kvs ++ spaced .outside s := by
  cases kvs with
  | nil => exact @spaced_plain ['}'] (by simp) s
  | cons kv kvs =>
    obtain ⟨k, v⟩ := kv
    have hcomma := spaced_separator (.inl rfl)
      (quote k ++ (':' :: (compact P v ++ (compactMembers P kvs ++ s))))
    rw [spaced_quote, spaced_separator (.inr rfl), spaced_compact v, spaced_compactMembers kvs] at hcomma
    simpa [compactMembers, dumpsMembers] using hcomma
termination_by structural kvs

end

theorem spaced_compact_eq (v : Json F) : spaced .outside (compact P v) = dumps P v := by
  simpa [spaced] using spaced_compact P v []

theorem compact_injective {v w : Json F} (hv : v.Distinct) (hw : w.Distinct) (h : compact P v = compact P w) :
    v = w := by
  have hdumps : dumps P v = dumps P w := by rw [← spaced_compact_eq, ← spaced_compact_eq, h]
  have hread : loads P (dumps P v) = some v := loads_dumps P hv
  rw [hdumps, loads_dumps P hw] at hread
  exact (Option.some_inj.mp hread).symm

end GraphSkillRuntime.JsonText
