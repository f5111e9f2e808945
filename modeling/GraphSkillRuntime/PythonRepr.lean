import GraphSkillRuntime.JsonAscii

/-!
Python's `repr` of a string: a character stands for itself or is written behind a backslash, by a letter or in as many
hexadecimal digits as the letter says.
-/

namespace GraphSkillRuntime.PythonRepr

open JsonText

section

variable (isPrintable : Char → Bool) (quote : Char)

def tag? (c : Char) : Option (Char × ℕ) :=
  if c = quote ∨ c = '\\' then some (c, 0)
  else if c = '\t' then some ('t', 0)
  else if c = '\n' then some ('n', 0)
  else if c = '\r' then some ('r', 0)
  else if c.toNat < 0x20 ∨ c.toNat = 0x7F then some ('x', 2)
  else if c.toNat < 0x7F ∨ isPrintable c = true then none
  else if c.toNat ≤ 0xFF then some ('x', 2)
  else if c.toNat ≤ 0xFFFF then some ('u', 4)
  else some ('U', 8)

def reprChar (c : Char) : List Char :=
  match tag? isPrintable quote c with
  | none => [c]
  | some (tag, width) => '\\' :: tag :: hexDigits width c.toNat

end

def quoteOf (s : List Char) : Char := if s.contains '\'' && !s.contains '"' then '"' else '\''

def reprString (isPrintable : Char → Bool) (s : List Char) : List Char :=
  quoteOf s :: (s.flatMap (reprChar isPrintable (quoteOf s)) ++ [quoteOf s])

/-- `width` digits are enough. -/
def Fits : ℕ → ℕ → Prop
  | 0, n => n = 0
  | width + 1, n => Fits width (n / 16)

theorem length_hexDigits (width n : ℕ) : (hexDigits width n).length = width := by
  induction width generalizing n with
  | zero => rfl
  | succ width ih => rw [hexDigits, List.length_append, ih, List.length_singleton]

theorem digitChar_inj {a b : ℕ} (ha : a < 16) (hb : b < 16) (h : Nat.digitChar a = Nat.digitChar b) : a = b := by
  have hvalue := hexValue?_digitChar ha
  rw [h, hexValue?_digitChar hb] at hvalue
  exact (Option.some.inj hvalue).symm

theorem hexDigits_inj {width n m : ℕ} (hn : Fits width n) (hm : Fits width m)
    (h : hexDigits width n = hexDigits width m) : n = m := by
  induction width generalizing n m with
  | zero => exact hn.trans hm.symm
  | succ width ih =>
    obtain ⟨hhigh, hlow⟩ := List.append_inj h (by rw [length_hexDigits, length_hexDigits])
    have hdiv := ih hn hm hhigh
    have hmod := digitChar_inj (Nat.mod_lt n (by omega)) (Nat.mod_lt m (by omega)) (List.cons.inj hlow).1
    omega

def tagWidth (tag : Char) : ℕ := if tag = 'x' then 2 else if tag = 'u' then 4 else if tag = 'U' then 8 else 0

def tagged (tag : Char) (n : ℕ) : Char :=
  if tag = 't' then '\t' else if tag = 'n' then '\n' else if tag = 'r' then '\r'
  else if tagWidth tag = 0 then tag else Char.ofNat n

section

variable {isPrintable : Char → Bool} {quote c d tag : Char} {width : ℕ}

theorem tag?_some (hquote : quote = '\'' ∨ quote = '"') (h : tag? isPrintable quote c = some (tag, width)) :
    width = tagWidth tag ∧ c = tagged tag c.toNat ∧ (tagWidth tag ≠ 0 → Fits width c.toNat) := by
  have hlt := toNat_lt c
  have hself : ∀ b : Char, b = '\'' ∨ b = '"' ∨ b = '\\' → 0 = tagWidth b ∧ ∀ n, tagged b n = b := by
    rintro b (rfl | rfl | rfl) <;> exact ⟨rfl, fun _ => rfl⟩
  have hdigits : ∀ {b : Char} {w : ℕ}, tagWidth b = w ∧ w ≠ 0 ∧ (∀ n, tagged b n = Char.ofNat n) → Fits w c.toNat →
      w = tagWidth b ∧ c = tagged b c.toNat ∧ (tagWidth b ≠ 0 → Fits w c.toNat) := by
    rintro b w ⟨hw, -, hb⟩ hfits
    exact ⟨hw.symm, by rw [hb, Char.ofNat_toNat], fun _ => hfits⟩
  unfold tag? at h
  split_ifs at h with hbare ht hn hr hcontrol hplain hbyte hshort
  · obtain ⟨rfl, rfl⟩ := Prod.mk.inj (Option.some.inj h)
    have hb : c = '\'' ∨ c = '"' ∨ c = '\\' := by
      rcases hbare with rfl | rfl
      · exact hquote.imp_right .inl
      · exact .inr (.inr rfl)
    obtain ⟨hw, htagged⟩ := hself c hb
    exact ⟨hw, (htagged _).symm, fun hne => absurd hw.symm hne⟩
  · obtain ⟨rfl, rfl⟩ := Prod.mk.inj (Option.some.inj h)
    exact ⟨rfl, ht, fun hne => absurd rfl hne⟩
  · obtain ⟨rfl, rfl⟩ := Prod.mk.inj (Option.some.inj h)
    exact ⟨rfl, hn, fun hne => absurd rfl hne⟩
  · obtain ⟨rfl, rfl⟩ := Prod.mk.inj (Option.some.inj h)
    exact ⟨rfl, hr, fun hne => absurd rfl hne⟩
  · obtain ⟨rfl, rfl⟩ := Prod.mk.inj (Option.some.inj h)
    exact hdigits ⟨rfl, by decide, fun _ => rfl⟩ (show c.toNat / 16 / 16 = 0 by omega)
  · obtain ⟨rfl, rfl⟩ := Prod.mk.inj (Option.some.inj h)
    exact hdigits ⟨rfl, by decide, fun _ => rfl⟩ (show c.toNat / 16 / 16 = 0 by omega)
  · obtain ⟨rfl, rfl⟩ := Prod.mk.inj (Option.some.inj h)
    exact hdigits ⟨rfl, by decide, fun _ => rfl⟩ (show c.toNat / 16 / 16 / 16 / 16 = 0 by omega)
  · obtain ⟨rfl, rfl⟩ := Prod.mk.inj (Option.some.inj h)
    exact hdigits ⟨rfl, by decide, fun _ => rfl⟩
      (show c.toNat / 16 / 16 / 16 / 16 / 16 / 16 / 16 / 16 = 0 by omega)

theorem tag?_none (h : tag? isPrintable quote c = none) : c ≠ quote ∧ c ≠ '\\' := by
  have hbare : ¬ (c = quote ∨ c = '\\') := by
    intro hbare
    rw [tag?, if_pos hbare] at h
    cases h
  exact not_or.mp hbare

theorem reprChar_append (hquote : quote = '\'' ∨ quote = '"') {s t : List Char}
    (h : reprChar isPrintable quote c ++ s = reprChar isPrintable quote d ++ t) : c = d ∧ s = t := by
  unfold reprChar at h
  cases hc : tag? isPrintable quote c with
  | none =>
    cases hd : tag? isPrintable quote d with
    | none =>
      rw [hc, hd] at h
      exact List.cons.inj h
    | some e =>
      rw [hc, hd] at h
      exact absurd (List.cons.inj h).1 (tag?_none hc).2
  | some e =>
    obtain ⟨tag, width⟩ := e
    cases hd : tag? isPrintable quote d with
    | none =>
      rw [hc, hd] at h
      exact absurd (List.cons.inj h).1.symm (tag?_none hd).2
    | some e' =>
      obtain ⟨tag', width'⟩ := e'
      rw [hc, hd] at h
      simp only [List.cons_append, List.cons.injEq, true_and] at h
      obtain ⟨rfl, htail⟩ := h
      obtain ⟨hwc, hcharc, hfitc⟩ := tag?_some hquote hc
      obtain ⟨hwd, hchard, hfitd⟩ := tag?_some hquote hd
      obtain rfl : width = width' := hwc.trans hwd.symm
      obtain ⟨hdigits, hrest⟩ := List.append_inj htail (by rw [length_hexDigits, length_hexDigits])
      refine ⟨?_, hrest⟩
      by_cases hzero : tagWidth tag = 0
      · have hsame : tagged tag c.toNat = tagged tag d.toNat := by simp only [tagged, hzero, if_true]
        rw [hcharc, hsame, ← hchard]
      · have hnat := hexDigits_inj (hfitc hzero) (hfitd hzero) hdigits
        rw [hcharc, hnat, ← hchard]

theorem reprChar_ne_quote (hquote : quote = '\'' ∨ quote = '"') (s t : List Char) :
    reprChar isPrintable quote c ++ s ≠ quote :: t := by
  intro h
  unfold reprChar at h
  cases hc : tag? isPrintable quote c with
  | none =>
    rw [hc] at h
    exact (tag?_none hc).1 (List.cons.inj h).1
  | some e =>
    rw [hc] at h
    have hslash : '\\' = quote := (List.cons.inj h).1
    rcases hquote with rfl | rfl <;> exact absurd hslash (by decide)

end

theorem flatMap_reprChar_append {isPrintable : Char → Bool} {quote : Char} (hquote : quote = '\'' ∨ quote = '"')
    {cs ds s t : List Char} (h : cs.flatMap (reprChar isPrintable quote) ++ quote :: s =
      ds.flatMap (reprChar isPrintable quote) ++ quote :: t) : cs = ds ∧ s = t := by
  induction cs generalizing ds with
  | nil =>
    cases ds with
    | nil => exact ⟨rfl, (List.cons.inj h).2⟩
    | cons d ds =>
      rw [List.flatMap_cons, List.append_assoc] at h
      exact absurd h.symm (reprChar_ne_quote hquote _ _)
  | cons c cs ih =>
    cases ds with
    | nil =>
      rw [List.flatMap_cons, List.append_assoc] at h
      exact absurd h (reprChar_ne_quote hquote _ _)
    | cons d ds =>
      rw [List.flatMap_cons, List.append_assoc, List.flatMap_cons, List.append_assoc] at h
      obtain ⟨rfl, hrest⟩ := reprChar_append hquote h
      obtain ⟨rfl, hst⟩ := ih hrest
      exact ⟨rfl, hst⟩

theorem quoteOf_cases (s : List Char) : quoteOf s = '\'' ∨ quoteOf s = '"' := by
  rw [quoteOf]
  split_ifs
  · exact .inr rfl
  · exact .inl rfl

theorem reprString_append {isPrintable : Char → Bool} {a b s t : List Char}
    (h : reprString isPrintable a ++ s = reprString isPrintable b ++ t) : a = b ∧ s = t := by
  simp only [reprString, List.cons_append, List.append_assoc, List.cons.injEq, List.nil_append] at h
  obtain ⟨hquote, hrest⟩ := h
  rw [hquote] at hrest
  exact flatMap_reprChar_append (quoteOf_cases b) hrest

end GraphSkillRuntime.PythonRepr
