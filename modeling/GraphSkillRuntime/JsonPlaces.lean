import GraphSkillRuntime.JsonCompact
import GraphSkillRuntime.JsonRenderings

/-!
Where the characters of a text that the reader accepts stand. A line break that the writer leaves raw stands in a
string, and no control character does, so that such a text can be cut at none of these breaks.
-/

namespace GraphSkillRuntime.JsonText

def Place.next : Place → Char → Place
  | .outside, c => if c = '"' then .inside else .outside
  | .inside, c => if c = '"' then .outside else if c = '\\' then .escaped else .inside
  | .escaped, _ => .inside

def Place.Allows : Place → Char → Prop
  | .inside, c => 0x20 ≤ c.toNat
  | _, c => isRawBreak c = false

def Closed : Place → List Char → Prop
  | place, [] => place = .outside
  | place, c :: s => place.Allows c ∧ Closed (place.next c) s

theorem rawBreak_of_lt {c : Char} (h : c.toNat < 0x7F) : isRawBreak c = false := by
  simp only [isRawBreak, Bool.or_eq_false_iff, decide_eq_false_iff_not]
  omega

theorem Closed.bare {c : Char} {s : List Char} (hc : 0x20 ≤ c.toNat) (hquote : c ≠ '"') (hslash : c ≠ '\\')
    (h : Closed .inside s) : Closed .inside (c :: s) := by
  refine ⟨hc, ?_⟩
  rw [Place.next, if_neg hquote, if_neg hslash]
  exact h

theorem Closed.slash {s : List Char} (h : Closed .escaped s) : Closed .inside ('\\' :: s) :=
  ⟨by simp [Place.Allows], h⟩

theorem Closed.escape {e : Char} {s : List Char} (he : isRawBreak e = false) (h : Closed .inside s) :
    Closed .inside ('\\' :: e :: s) := .slash ⟨he, h⟩

theorem Closed.quoted {s : List Char} (h : Closed .inside s) : Closed .outside ('"' :: s) :=
  ⟨rawBreak_of_lt (by decide), h⟩

theorem Closed.of_passes {s rest : List Char} (hs : Passes s rest) (h : Closed .outside rest) : Closed .outside s := by
  obtain ⟨l, rfl, hl⟩ := hs
  induction l with
  | nil => exact h
  | cons c l ih =>
    rw [List.forall_mem_cons] at hl
    refine ⟨rawBreak_of_lt hl.1.1, ?_⟩
    rw [Place.next, if_neg hl.1.2.1]
    exact ih hl.2

theorem hexValue?_bare {c : Char} {n : ℕ} (h : hexValue? c = some n) : printable c ∧ c ≠ '"' ∧ c ≠ '\\' := by
  have hrange : 48 ≤ c.toNat ∧ c.toNat ≤ 102 := by
    unfold hexValue? at h
    split_ifs at h with hdigit hlower hupper
    · have hle := (Char.isDigit_iff_toNat.mp hdigit).2
      exact ⟨(Char.isDigit_iff_toNat.mp hdigit).1, le_trans hle (by decide)⟩
    · have ha : 'a'.toNat ≤ c.toNat := hlower.1
      exact ⟨le_trans (by decide) ha, hlower.2⟩
    · have ha : 'A'.toNat ≤ c.toNat := hupper.1
      have hf : c.toNat ≤ 'F'.toNat := hupper.2
      exact ⟨le_trans (by decide) ha, le_trans hf (by decide)⟩
  refine ⟨⟨by omega, by omega⟩, ?_, ?_⟩
  · rintro rfl
    exact absurd hrange.1 (by decide)
  · rintro rfl
    have hnone : hexValue? '\\' = none := rfl
    rw [hnone] at h
    cases h

theorem Closed.unit {a b c d : Char} {n : ℕ} {s : List Char} (h : hexUnit? a b c d = some n)
    (hs : Closed .inside s) : Closed .inside ('\\' :: 'u' :: a :: b :: c :: d :: s) := by
  simp only [hexUnit?, Option.bind_eq_bind, Option.bind_eq_some_iff] at h
  obtain ⟨w, hw, x, hx, y, hy, z, hz, -⟩ := h
  have ha := hexValue?_bare hw
  have hb := hexValue?_bare hx
  have hc := hexValue?_bare hy
  have hd := hexValue?_bare hz
  exact .escape (by decide) (.bare ha.1.1 ha.2.1 ha.2.2 (.bare hb.1.1 hb.2.1 hb.2.2 (.bare hc.1.1 hc.2.1 hc.2.2
    (.bare hd.1.1 hd.2.1 hd.2.2 hs))))

theorem shortEscape?_printable {e c : Char} (h : shortEscape? e = some c) : printable e := by
  unfold shortEscape? at h
  split_ifs at h with hself hn hr ht hf hb
  · rcases hself with rfl | rfl | rfl <;> decide
  · exact hn ▸ by decide
  · exact hr ▸ by decide
  · exact ht ▸ by decide
  · exact hf ▸ by decide
  · exact hb ▸ by decide

theorem unicodeEscape?_unit {a b c d x : Char} (h : unicodeEscape? a b c d = some x) :
    ∃ n, hexUnit? a b c d = some n := by
  simp only [unicodeEscape?, Option.bind_eq_bind, Option.bind_eq_some_iff] at h
  obtain ⟨n, hn, -⟩ := h
  exact ⟨n, hn⟩

theorem surrogatePair?_units {n m : Option ℕ} {x : Char} (h : surrogatePair? n m = some x) :
    (∃ high, n = some high) ∧ ∃ low, m = some low := by
  simp only [surrogatePair?, Option.bind_eq_bind, Option.bind_eq_some_iff] at h
  obtain ⟨high, hhigh, low, hlow, -⟩ := h
  exact ⟨⟨high, hhigh⟩, low, hlow⟩

theorem scanString_closed (s : List Char) : ∀ k rest, scanString s = some (k, rest) → Closed .outside rest →
    Closed .inside s := by
  have hpush : ∀ {r : Option (List Char × List Char)} {c : Char} {k rest : List Char},
      r.map (pushChar c) = some (k, rest) → ∃ k', r = some (k', rest) := by
    intro r c k rest h
    obtain ⟨⟨k', rest'⟩, hscan, hpair⟩ := Option.map_eq_some_iff.1 h
    obtain ⟨-, rfl⟩ := Prod.mk.inj hpair
    exact ⟨k', hscan⟩
  fun_induction scanString s with
  | case1 => intro k rest h; cases h
  | case2 rest =>
    intro k rest' h hrest
    obtain ⟨-, rfl⟩ := Prod.mk.inj (Option.some.inj h)
    exact ⟨by simp [Place.Allows], hrest⟩
  | case3 a b c d rest x hx _ ih =>
    intro k rest' h hrest
    obtain ⟨k', hk'⟩ := hpush h
    obtain ⟨n, hn⟩ := unicodeEscape?_unit hx
    exact .unit hn (ih k' rest' hk' hrest)
  | case4 a b c d _ e f g i rest x hx _ ih =>
    intro k rest' h hrest
    obtain ⟨k', hk'⟩ := hpush h
    obtain ⟨⟨n, hn⟩, m, hm⟩ := surrogatePair?_units hx
    exact .unit hn (.unit hm (ih k' rest' hk' hrest))
  | case5 => intro k rest' h; cases h
  | case6 => intro k rest' h; cases h
  | case7 e rest _ c hc _ ih =>
    intro k rest' h hrest
    obtain ⟨k', hk'⟩ := hpush h
    exact .escape (rawBreak_of_lt (shortEscape?_printable hc).2) (ih k' rest' hk' hrest)
  | case8 => intro k rest' h; cases h
  | case9 => intro k rest' h; cases h
  | case10 => intro k rest' h; cases h
  | case11 c rest hquote hslash hlow ih =>
    intro k rest' h hrest
    obtain ⟨k', hk'⟩ := hpush h
    exact .bare (by omega) hquote hslash (ih k' rest' hk' hrest)

section

variable {F : Type} (P : FloatFormat F)

def KeepsClosed {α : Type} (scan : List Char → Option (α × List Char)) : Prop :=
  ∀ s v rest, scan s = some (v, rest) → Closed .outside rest → Closed .outside s

theorem Closed.of_skipSpace {s : List Char} (h : Closed .outside (skipSpace s)) : Closed .outside s :=
  h.of_passes (passes_skipSpace s)

theorem Closed.of_mark {c : Char} {s rest : List Char} (hs : skipSpace s = c :: rest)
    (hc : c.toNat < 0x7F ∧ c ≠ '"' ∧ c ≠ '\\') (h : Closed .outside rest) : Closed .outside s :=
  h.of_passes (passes_of_skipSpace hs hc)

theorem keepsClosed_elements {n : ℕ} (hv : KeepsClosed (scanOnce P n)) (hes : KeepsClosed (scanElements P n)) :
    KeepsClosed (scanElements P (n + 1)) := by
  intro s xs rest hs hrest
  rw [scanElements] at hs
  split at hs
  · cases hs
  · next x rest' hx =>
    apply hv s x rest' hx
    split at hs
    · next rest'' hclose =>
      obtain ⟨-, rfl⟩ := Prod.mk.inj (Option.some.inj hs)
      exact .of_mark hclose (by decide) hrest
    · next rest'' hcomma =>
      obtain ⟨⟨ys, rest₃⟩, hys, hpair⟩ := Option.map_eq_some_iff.1 hs
      obtain ⟨-, rfl⟩ := Prod.mk.inj hpair
      exact .of_mark hcomma (by decide) (hes _ ys rest₃ hys hrest).of_skipSpace
    · cases hs

theorem keepsClosed_members {n : ℕ} (hv : KeepsClosed (scanOnce P n)) (hms : KeepsClosed (scanMembers P n)) :
    KeepsClosed (scanMembers P (n + 1)) := by
  intro s kvs rest hs hrest
  unfold scanMembers at hs
  split at hs
  · cases hs
  · next m rest' hm =>
    obtain rfl : n = m := Nat.succ.inj hm
    split at hs
    · cases hs
    · next key rest₁ hkey =>
      apply Closed.quoted
      apply scanString_closed _ key rest₁ hkey
      split at hs
      · next rest₂ hcolon =>
        apply Closed.of_mark hcolon (by decide)
        apply Closed.of_skipSpace
        split at hs
        · cases hs
        · next v rest₃ hvalue =>
          apply hv _ v rest₃ hvalue
          split at hs
          · next rest₄ hclose =>
            obtain ⟨-, rfl⟩ := Prod.mk.inj (Option.some.inj hs)
            exact .of_mark hclose (by decide) hrest
          · next rest₄ hcomma =>
            obtain ⟨⟨ms, rest₅⟩, hms', hpair⟩ := Option.map_eq_some_iff.1 hs
            obtain ⟨-, rfl⟩ := Prod.mk.inj hpair
            exact .of_mark hcomma (by decide) (hms _ ms rest₅ hms' hrest).of_skipSpace
          · cases hs
      · cases hs
  · cases hs

theorem keepsClosed_value {n : ℕ} (hes : KeepsClosed (scanElements P n)) (hms : KeepsClosed (scanMembers P n)) :
    KeepsClosed (scanOnce P (n + 1)) := by
  intro s v rest hs hrest
  cases s with
  | nil => cases hs
  | cons c s =>
    rw [scanOnce] at hs
    split_ifs at hs with hquote hbrace hbracket
    · obtain ⟨⟨t, rest'⟩, ht, hpair⟩ := Option.map_eq_some_iff.1 hs
      obtain ⟨-, rfl⟩ := Prod.mk.inj hpair
      rw [hquote]
      exact .quoted (scanString_closed s t rest' ht hrest)
    · have hopen : Closed .outside s → Closed .outside (c :: s) :=
        fun h => h.of_passes (.cons (by subst hbrace; decide) s)
      apply hopen
      split at hs
      · next hclose =>
        obtain ⟨-, rfl⟩ := Prod.mk.inj (Option.some.inj hs)
        exact .of_mark hclose (by decide) hrest
      · obtain ⟨⟨kvs, rest'⟩, hkvs, hpair⟩ := Option.map_eq_some_iff.1 hs
        obtain ⟨-, rfl⟩ := Prod.mk.inj hpair
        exact (hms _ kvs rest' hkvs hrest).of_skipSpace
    · have hopen : Closed .outside s → Closed .outside (c :: s) :=
        fun h => h.of_passes (.cons (by subst hbracket; decide) s)
      apply hopen
      split at hs
      · next hclose =>
        obtain ⟨-, rfl⟩ := Prod.mk.inj (Option.some.inj hs)
        exact .of_mark hclose (by decide) hrest
      · obtain ⟨⟨xs, rest'⟩, hxs, hpair⟩ := Option.map_eq_some_iff.1 hs
        obtain ⟨-, rfl⟩ := Prod.mk.inj hpair
        exact (hes _ xs rest' hxs hrest).of_skipSpace
    · exact hrest.of_passes (passes_scanLiteral P hs).2

theorem keepsClosed (n : ℕ) :
    KeepsClosed (scanOnce P n) ∧ KeepsClosed (scanElements P n) ∧ KeepsClosed (scanMembers P n) := by
  induction n with
  | zero => refine ⟨?_, ?_, ?_⟩ <;> intro s v rest hs <;> cases hs
  | succ n ih =>
    exact ⟨keepsClosed_value P ih.2.1 ih.2.2, keepsClosed_elements P ih.1 ih.2.1, keepsClosed_members P ih.1 ih.2.2⟩

theorem loads_closed {s : List Char} {v : Json F} (h : loads P s = some v) : Closed .outside s := by
  unfold loads at h
  split at h
  · next w rest hscan =>
    split_ifs at h with hrest
    have hnil : Closed .outside rest := .of_skipSpace (by rw [hrest]; exact rfl)
    exact ((keepsClosed P _).1 _ w rest hscan hnil).of_skipSpace
  · cases h

end

theorem Closed.after {place : Place} {u s : List Char} (h : Closed place (u ++ s)) :
    Closed (u.foldl Place.next place) s := by
  induction u generalizing place with
  | nil => exact h
  | cons c u ih => exact ih h.2

theorem Closed.inside {u s : List Char} {c : Char} (hc : isRawBreak c = true) (h : Closed .outside (u ++ c :: s)) :
    u.foldl Place.next .outside = .inside := by
  have hallows := h.after.1
  cases hplace : u.foldl Place.next .outside with
  | inside => rfl
  | outside =>
    rw [hplace, Place.Allows, hc] at hallows
    · cases hallows
    · simp
  | escaped =>
    rw [hplace, Place.Allows, hc] at hallows
    · cases hallows
    · simp

section

variable {F : Type} (P : FloatFormat F) {u s : List Char} {c : Char} {v : Json F}

theorem loads_cut (h : loads P (u ++ c :: s) = some v) (hc : isRawBreak c = true) : loads P u = none := by
  cases hu : loads P u with
  | none => rfl
  | some w =>
    have hend := Closed.after (s := []) (by simpa using loads_closed P hu)
    rw [(loads_closed P h).inside hc] at hend
    cases hend

theorem loads_broken (h : loads P (u ++ c :: s) = some v) (hc : isRawBreak c = true) (t : List Char) :
    loads P (u ++ '\n' :: t) = none := by
  cases hu : loads P (u ++ '\n' :: t) with
  | none => rfl
  | some w =>
    have hallows := (loads_closed P hu).after.1
    rw [(loads_closed P h).inside hc] at hallows
    exact absurd hallows (by simp [Place.Allows])

end

theorem hexUnit?_printable {a b c d : Char} {n : ℕ} (h : hexUnit? a b c d = some n) :
    ∀ x ∈ ['\\', 'u', a, b, c, d], isLineBreak x = false := by
  simp only [hexUnit?, Option.bind_eq_bind, Option.bind_eq_some_iff] at h
  obtain ⟨w, hw, x, hx, y, hy, z, hz, -⟩ := h
  simp only [List.forall_mem_cons]
  exact ⟨by decide, by decide, printable_isLineBreak (hexValue?_bare hw).1, printable_isLineBreak (hexValue?_bare hx).1,
    printable_isLineBreak (hexValue?_bare hy).1, printable_isLineBreak (hexValue?_bare hz).1, by simp⟩

theorem Literal.breaks {esc : Char → Prop} {k s : List Char} (h : Literal esc k s) :
    ∀ c ∈ s, isLineBreak c = true → isRawBreak c = true ∧ c ∈ k := by
  have hmarks : ∀ {l k s : List Char} {x : Char}, (∀ c ∈ l, isLineBreak c = false) →
      (∀ c ∈ s, isLineBreak c = true → isRawBreak c = true ∧ c ∈ k) →
      ∀ c ∈ l ++ s, isLineBreak c = true → isRawBreak c = true ∧ c ∈ x :: k := by
    intro l k s x hl hs c hc hbreak
    rcases List.mem_append.mp hc with hc | hc
    · rw [hl c hc] at hbreak
      cases hbreak
    · exact ⟨(hs c hc hbreak).1, List.mem_cons_of_mem _ (hs c hc hbreak).2⟩
  induction h with
  | close =>
    intro c hc hbreak
    obtain rfl := List.mem_singleton.mp hc
    exact absurd hbreak (by decide)
  | @raw x k s hlow _ _ _ ih =>
    intro c hc hbreak
    rcases List.mem_cons.mp hc with rfl | hc
    · rw [isLineBreak_iff hlow] at hbreak
      exact ⟨hbreak, List.mem_cons_self⟩
    · exact ⟨(ih c hc hbreak).1, List.mem_cons_of_mem _ (ih c hc hbreak).2⟩
  | @short e x k s _ he _ ih =>
    have hl : ∀ c ∈ ['\\', e], isLineBreak c = false := by
      simp [printable_isLineBreak (shortEscape?_printable he), show isLineBreak '\\' = false by decide]
    exact hmarks hl ih
  | @unicode a b c d x k s _ hx _ ih =>
    obtain ⟨n, hn⟩ := unicodeEscape?_unit hx
    exact hmarks (hexUnit?_printable hn) ih
  | @pair a b c d e f g i x k s _ hx _ ih =>
    obtain ⟨⟨n, hn⟩, m, hm⟩ := surrogatePair?_units hx
    exact hmarks (List.forall_mem_append.mpr ⟨hexUnit?_printable hn, hexUnit?_printable hm⟩) ih

theorem Literal.raw_mem {esc : Char → Prop} (hesc : ∀ c, esc c → isRawBreak c = false) {k s : List Char}
    (h : Literal esc k s) : ∀ c ∈ k, isRawBreak c = true → c ∈ s := by
  have hnot : ∀ {x c : Char}, esc x → isRawBreak c = true → c ≠ x := by
    rintro x c hx hc rfl
    rw [hesc c hx] at hc
    cases hc
  induction h with
  | close => simp
  | raw _ _ _ _ ih =>
    intro c hc hbreak
    rcases List.mem_cons.mp hc with rfl | hc
    · exact List.mem_cons_self
    · exact List.mem_cons_of_mem _ (ih c hc hbreak)
  | short hx _ _ ih =>
    intro c hc hbreak
    simp [ih c ((List.mem_cons.mp hc).resolve_left (hnot hx hbreak)) hbreak]
  | unicode hx _ _ ih =>
    intro c hc hbreak
    simp [ih c ((List.mem_cons.mp hc).resolve_left (hnot hx hbreak)) hbreak]
  | pair hx _ _ ih =>
    intro c hc hbreak
    simp [ih c ((List.mem_cons.mp hc).resolve_left (hnot hx hbreak)) hbreak]

section

variable {F : Type} (P : FloatFormat F) {esc : Char → Prop}

def Part.chars : Part F → List Char
  | .value v => v.chars
  | .elements xs => charsElements xs
  | .members kvs => charsMembers kvs

/-- A line break of the text is a blank, or stands in one of the strings `k`. -/
def BreaksIn (k s : List Char) : Prop :=
  ∀ c ∈ s, isLineBreak c = true → c = '\n' ∨ c = '\r' ∨ (isRawBreak c = true ∧ c ∈ k)

theorem BreaksIn.append {k u s : List Char} (hu : BreaksIn k u) (hs : BreaksIn k s) : BreaksIn k (u ++ s) :=
  List.forall_mem_append.mpr ⟨hu, hs⟩

theorem BreaksIn.cons {k s : List Char} {c : Char} (hc : isLineBreak c = false) (hs : BreaksIn k s) :
    BreaksIn k (c :: s) := by
  refine List.forall_mem_cons.mpr ⟨fun h => ?_, hs⟩
  rw [hc] at h
  cases h

theorem BreaksIn.mono {k k' s : List Char} (hk : k ⊆ k') (hs : BreaksIn k s) : BreaksIn k' s :=
  fun c hc hbreak => (hs c hc hbreak).imp_right (Or.imp_right (And.imp_right (hk ·)))

theorem breaksIn_blanks {k b : List Char} (hb : Blanks b) : BreaksIn k b := by
  intro c hc hbreak
  have hblank := hb c hc
  simp only [Bool.or_eq_true, decide_eq_true_eq] at hblank
  rcases hblank with ((rfl | rfl) | rfl) | rfl
  · exact absurd hbreak (by decide)
  · exact absurd hbreak (by decide)
  · exact .inl rfl
  · exact .inr (.inl rfl)

theorem breaksIn_of_none {k s : List Char} (hs : ∀ c ∈ s, isLineBreak c = false) : BreaksIn k s := by
  intro c hc hbreak
  rw [hs c hc] at hbreak
  cases hbreak

theorem Literal.breaksIn {k s : List Char} (h : Literal esc k s) : BreaksIn k s :=
  fun c hc hbreak => .inr (.inr (h.breaks c hc hbreak))

theorem plainChars.breaksIn {k s : List Char} (h : plainChars s) : BreaksIn k s :=
  breaksIn_of_none fun c hc => printable_isLineBreak (h c hc).1

theorem intText_plainChars (z : ℤ) : plainChars (intText z) := by
  rw [intText_eq]
  exact numberText_plainChars _ _ _ _

theorem Renders.breaksIn {p : Part F} {s : List Char} (h : Renders P esc p s) : BreaksIn p.chars s := by
  have hquote : isLineBreak '"' = false := by decide
  have hcolon : isLineBreak ':' = false := by decide
  have hcomma : isLineBreak ',' = false := by decide
  have hlist : isLineBreak '[' = false ∧ isLineBreak ']' = false := by decide
  have hdict : isLineBreak '{' = false ∧ isLineBreak '}' = false := by decide
  have hnil : ∀ k, BreaksIn k [] := fun k => breaksIn_of_none (by simp)
  induction h with
  | null => exact plainChars.breaksIn (by rw [dumps]; decide)
  | bool b => exact plainChars.breaksIn (by cases b <;> rw [dumps] <;> decide)
  | int z => exact (intText_plainChars z).breaksIn
  | float l => exact (floatText_plainChars l).breaksIn
  | str hk => exact .cons hquote hk.breaksIn
  | emptyList hb => exact .cons hlist.1 ((breaksIn_blanks hb).append (.cons hlist.2 (hnil _)))
  | list hb _ ih => exact .cons hlist.1 ((breaksIn_blanks hb).append ih)
  | emptyDict hb => exact .cons hdict.1 ((breaksIn_blanks hb).append (.cons hdict.2 (hnil _)))
  | dict hb _ ih => exact .cons hdict.1 ((breaksIn_blanks hb).append ih)
  | @lastElement x _ _ hb _ ih =>
    have ih' : BreaksIn (charsElements [x]) _ := ih.mono (List.subset_append_left _ _)
    exact ih'.append ((breaksIn_blanks hb).append (.cons hlist.2 (hnil _)))
  | @element x xs _ _ _ _ hb hb' _ _ ih ihs =>
    have ih' : BreaksIn (charsElements (x :: xs)) _ := ih.mono (List.subset_append_left _ _)
    have ihs' : BreaksIn (charsElements (x :: xs)) _ := ihs.mono (List.subset_append_right _ _)
    exact ih'.append ((breaksIn_blanks hb).append (.cons hcomma ((breaksIn_blanks hb').append ihs')))
  | @lastMember k v _ _ _ _ _ hk hb hb' hb'' _ ih =>
    have hk' : BreaksIn (charsMembers [(k, v)]) _ := hk.breaksIn.mono (List.subset_append_left _ _)
    have ih' : BreaksIn (charsMembers [(k, v)]) _ :=
      ih.mono (List.Subset.trans (List.subset_append_left _ _) (List.subset_append_right _ _))
    exact .cons hquote (hk'.append ((breaksIn_blanks hb).append (.cons hcolon ((breaksIn_blanks hb').append
      (ih'.append ((breaksIn_blanks hb'').append (.cons hdict.2 (hnil _))))))))
  | @member k v kvs _ _ _ _ _ _ _ hk hb hb' hb'' hc _ _ ih ihs =>
    have hk' : BreaksIn (charsMembers ((k, v) :: kvs)) _ := hk.breaksIn.mono (List.subset_append_left _ _)
    have ih' : BreaksIn (charsMembers ((k, v) :: kvs)) _ :=
      ih.mono (List.Subset.trans (List.subset_append_left _ _) (List.subset_append_right _ _))
    have ihs' : BreaksIn (charsMembers ((k, v) :: kvs)) _ :=
      ihs.mono (List.Subset.trans (List.subset_append_right _ _) (List.subset_append_right _ _))
    exact .cons hquote (hk'.append ((breaksIn_blanks hb).append (.cons hcolon ((breaksIn_blanks hb').append
      (ih'.append ((breaksIn_blanks hb'').append (.cons hcomma ((breaksIn_blanks hc).append ihs'))))))))

theorem Renders.raw_mem (hesc : ∀ c, esc c → isRawBreak c = false) {p : Part F} {s : List Char}
    (h : Renders P esc p s) : ∀ c ∈ p.chars, isRawBreak c = true → c ∈ s := by
  induction h with
  | null => simp [Part.chars, Json.chars]
  | bool => simp [Part.chars, Json.chars]
  | int => simp [Part.chars, Json.chars]
  | float => simp [Part.chars, Json.chars]
  | str hk =>
    intro c hc hbreak
    exact List.mem_cons_of_mem _ (hk.raw_mem hesc c hc hbreak)
  | emptyList => simp [Part.chars, Json.chars, charsElements]
  | list _ _ ih =>
    intro c hc hbreak
    simp [ih c hc hbreak]
  | emptyDict => simp [Part.chars, Json.chars, charsMembers]
  | dict _ _ ih =>
    intro c hc hbreak
    simp [ih c hc hbreak]
  | lastElement _ _ ih =>
    intro c hc hbreak
    simp [ih c (by simpa [Part.chars, charsElements] using hc) hbreak]
  | element _ _ _ _ ih ihs =>
    intro c hc hbreak
    rcases List.mem_append.mp hc with hc | hc
    · simp [ih c hc hbreak]
    · simp [ihs c hc hbreak]
  | lastMember hk _ _ _ _ ih =>
    intro c hc hbreak
    rcases List.mem_append.mp hc with hc | hc
    · simp [hk.raw_mem hesc c hc hbreak]
    · simp [ih c (by simpa [Part.chars, charsMembers] using hc) hbreak]
  | member hk _ _ _ _ _ _ ih ihs =>
    intro c hc hbreak
    rcases List.mem_append.mp hc with hc | hc
    · simp [hk.raw_mem hesc c hc hbreak]
    · rcases List.mem_append.mp hc with hc | hc
      · simp [ih c hc hbreak]
      · simp [ihs c hc hbreak]

/-! The newline translation of a rendering is a rendering. -/

theorem universalNewlines_append {u : List Char} (h : ∀ c ∈ u, c ≠ '\r') (s : List Char) :
    universalNewlines (u ++ s) = u ++ universalNewlines s := by
  induction u with
  | nil => rfl
  | cons c u ih =>
    rw [List.forall_mem_cons] at h
    rw [List.cons_append, universalNewlines.eq_def]
    simp only [h.1, if_false, ih h.2, List.cons_append]

theorem universalNewlines_return {s : List Char} (h : ∀ c ∈ s.head?, c ≠ '\n') :
    universalNewlines ('\r' :: s) = '\n' :: universalNewlines s := by
  rw [universalNewlines.eq_def]
  dsimp only
  rw [if_pos rfl]
  split
  · exact absurd rfl (h '\n' rfl)
  · rfl

/-- `s'` is the translation of `s`, whatever follows. -/
def Translates (s s' : List Char) : Prop := ∀ rest, universalNewlines (s ++ rest) = s' ++ universalNewlines rest

theorem Translates.append {s s' t t' : List Char} (hs : Translates s s') (ht : Translates t t') :
    Translates (s ++ t) (s' ++ t') := by
  intro rest
  rw [List.append_assoc, hs, ht, List.append_assoc]

theorem translates_of_ne {s : List Char} (h : ∀ c ∈ s, c ≠ '\r') : Translates s s := universalNewlines_append h

theorem Translates.cons {c : Char} (hc : c ≠ '\r') {s s' : List Char} (hs : Translates s s') :
    Translates (c :: s) (c :: s') :=
  (translates_of_ne (List.forall_mem_singleton.mpr hc)).append hs

theorem translates_blanks {b s s' : List Char} (hb : Blanks b) (hhead : ∃ c t, s = c :: t ∧ c ≠ '\n')
    (hs : Translates s s') : ∃ b', Blanks b' ∧ Translates (b ++ s) (b' ++ s') := by
  obtain ⟨d, t, rfl, hd⟩ := hhead
  have hpush : ∀ {b : List Char}, (∃ b', Blanks b' ∧ Translates (b ++ d :: t) (b' ++ s')) → ∀ u c,
      (c = ' ' || c = '\t' || c = '\n' || c = '\r') = true →
      (∀ rest, universalNewlines (u ++ (b ++ d :: t) ++ rest) = c :: universalNewlines (b ++ d :: t ++ rest)) →
      ∃ b', Blanks b' ∧ Translates (u ++ b ++ d :: t) (b' ++ s') := by
    rintro b ⟨b', hb', htranslates⟩ u c hc hu
    refine ⟨c :: b', List.forall_mem_cons.mpr ⟨hc, hb'⟩, fun rest => ?_⟩
    rw [List.append_assoc u b, hu, htranslates]
    rfl
  fun_induction universalNewlines b with
  | case1 => exact ⟨[], blanks_nil, hs⟩
  | case2 rest ih =>
    refine hpush (ih fun c hc => hb c (by simp [hc])) ['\r', '\n'] '\n' rfl fun rest => ?_
    simp [universalNewlines]
  | case3 rest hrest ih =>
    refine hpush (ih fun c hc => hb c (by simp [hc])) ['\r'] '\n' rfl fun rest' => ?_
    refine universalNewlines_return fun c hc => ?_
    cases rest with
    | nil => exact (Option.some.inj hc) ▸ hd
    | cons e rest =>
      rintro rfl
      obtain rfl : e = '\n' := by simpa using hc
      exact hrest rest rfl
  | case4 c rest hc ih =>
    exact hpush (ih fun c hc => hb c (by simp [hc])) [c] c (hb c List.mem_cons_self)
      fun rest' => universalNewlines_append (List.forall_mem_singleton.mpr hc) _

theorem Literal.translates {k s : List Char} (h : Literal esc k s) : Translates s s := by
  refine translates_of_ne ?_
  rintro c hc rfl
  exact absurd (h.breaks _ hc (by decide)).1 (by decide)

theorem plainChars.translates {s : List Char} (h : plainChars s) : Translates s s := by
  refine translates_of_ne ?_
  rintro c hc rfl
  exact absurd (h _ hc).1 (by decide)

theorem Renders.head_ne {p : Part F} {s : List Char} (h : Renders P esc p s) (rest : List Char) :
    ∃ c t, s ++ rest = c :: t ∧ c ≠ '\n' := by
  obtain ⟨c, t, rfl, hc⟩ := h.head
  refine ⟨c, t ++ rest, rfl, ?_⟩
  rintro rfl
  exact absurd hc (by decide)

theorem Renders.translates {p : Part F} {s : List Char} (h : Renders P esc p s) :
    ∃ s', Renders P esc p s' ∧ Translates s s' := by
  have hclose : ∀ {b : List Char} {c : Char}, Blanks b → c ≠ '\n' ∧ c ≠ '\r' →
      ∃ b', Blanks b' ∧ Translates (b ++ [c]) (b' ++ [c]) := fun hb hc =>
    translates_blanks hb ⟨_, _, rfl, hc.1⟩ (translates_of_ne (List.forall_mem_singleton.mpr hc.2))
  induction h with
  | null => exact ⟨_, .null, plainChars.translates (by rw [dumps]; decide)⟩
  | bool b => exact ⟨_, .bool b, plainChars.translates (by cases b <;> rw [dumps] <;> decide)⟩
  | int z => exact ⟨_, .int z, (intText_plainChars z).translates⟩
  | float l => exact ⟨_, .float l, (floatText_plainChars l).translates⟩
  | str hk => exact ⟨_, .str hk, .cons (by decide) hk.translates⟩
  | emptyList hb =>
    obtain ⟨b', hb', ht⟩ := hclose hb (c := ']') (by decide)
    exact ⟨_, .emptyList hb', .cons (by decide) ht⟩
  | emptyDict hb =>
    obtain ⟨b', hb', ht⟩ := hclose hb (c := '}') (by decide)
    exact ⟨_, .emptyDict hb', .cons (by decide) ht⟩
  | list hb hxs ih =>
    obtain ⟨s', hs', hs⟩ := ih
    obtain ⟨b', hb', ht⟩ := translates_blanks hb (by simpa using hxs.head_ne P []) hs
    exact ⟨_, .list hb' hs', .cons (by decide) ht⟩
  | dict hb hkvs ih =>
    obtain ⟨s', hs', hs⟩ := ih
    obtain ⟨b', hb', ht⟩ := translates_blanks hb (by simpa using hkvs.head_ne P []) hs
    exact ⟨_, .dict hb' hs', .cons (by decide) ht⟩
  | lastElement hb _ ih =>
    obtain ⟨t', ht', ht⟩ := ih
    obtain ⟨b', hb', hend⟩ := hclose hb (c := ']') (by decide)
    exact ⟨_, .lastElement hb' ht', ht.append hend⟩
  | element hb hb' _ hxs ih ihs =>
    obtain ⟨t', ht', ht⟩ := ih
    obtain ⟨s', hs', hs⟩ := ihs
    obtain ⟨c', hc', hrest⟩ := translates_blanks hb' (by simpa using hxs.head_ne P []) hs
    obtain ⟨b', hb'', hcomma⟩ := translates_blanks hb ⟨',', _, rfl, by decide⟩ (.cons (by decide) hrest)
    exact ⟨_, .element hb'' hc' ht' hs', ht.append hcomma⟩
  | lastMember hk hb hb' hb'' hv ih =>
    obtain ⟨t', ht', ht⟩ := ih
    obtain ⟨c₃, hc₃, hend⟩ := hclose hb'' (c := '}') (by decide)
    obtain ⟨c₂, hc₂, hvalue⟩ := translates_blanks hb' (hv.head_ne P _) (ht.append hend)
    obtain ⟨c₁, hc₁, hcolon⟩ := translates_blanks hb ⟨':', _, rfl, by decide⟩ (.cons (by decide) hvalue)
    exact ⟨_, .lastMember hk hc₁ hc₂ hc₃ ht', .cons (by decide) (hk.translates.append hcolon)⟩
  | member hk hb hb' hb'' hc hv hkvs ih ihs =>
    obtain ⟨t', ht', ht⟩ := ih
    obtain ⟨s', hs', hs⟩ := ihs
    obtain ⟨c₄, hc₄, hrest⟩ := translates_blanks hc (by simpa using hkvs.head_ne P []) hs
    obtain ⟨c₃, hc₃, hcomma⟩ := translates_blanks hb'' ⟨',', _, rfl, by decide⟩ (.cons (by decide) hrest)
    obtain ⟨c₂, hc₂, hvalue⟩ := translates_blanks hb' (hv.head_ne P _) (ht.append hcomma)
    obtain ⟨c₁, hc₁, hcolon⟩ := translates_blanks hb ⟨':', _, rfl, by decide⟩ (.cons (by decide) hvalue)
    exact ⟨_, .member hk hc₁ hc₂ hc₃ hc₄ ht' hs', .cons (by decide) (hk.translates.append hcolon)⟩

theorem Renders.universalNewlines {p : Part F} {s : List Char} (h : Renders P esc p s) :
    Renders P esc p (universalNewlines s) ∧ Translates s (universalNewlines s) := by
  obtain ⟨s', hs', hs⟩ := h.translates
  have heq : JsonText.universalNewlines s = s' := by
    have hnil := hs []
    rwa [List.append_nil, show JsonText.universalNewlines [] = [] from rfl, List.append_nil] at hnil
  rw [heq]
  exact ⟨hs', hs⟩

end

end GraphSkillRuntime.JsonText
