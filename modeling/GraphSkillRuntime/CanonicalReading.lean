import GraphSkillRuntime.CanonicalKeys
import GraphSkillRuntime.Runs

/-!
Canonical keys read back. A key is read off the front of a text: it ends where the next mark stands, so that equal keys
have equal parts. The one part that does not say where it ends is the key of a mapping.
-/

namespace GraphSkillRuntime.CanonicalKeys

open OrderedDict JsonText PyData PythonRepr

section

variable {F : Type} {E : F → F → Prop} (P : Printer F)

theorem commaJoined_cons (part : Text) (parts : List Text) (c : Char) (s : Text) :
    ∃ d u, commaJoined (part :: parts) ++ c :: s = part ++ d :: u ∧
      (parts = [] ∧ d = c ∧ u = s ∨ parts ≠ [] ∧ d = ',' ∧ u = commaJoined parts ++ c :: s) := by
  by_cases h : parts = []
  · subst h
    exact ⟨c, s, by rw [commaJoined, List.intercalate_singleton], .inl ⟨rfl, rfl, rfl⟩⟩
  · refine ⟨',', commaJoined parts ++ c :: s, ?_, .inr ⟨h, rfl, rfl⟩⟩
    simp [commaJoined, List.intercalate_cons_of_ne_nil h]

theorem commaJoined_concat {parts : List Text} (h : parts ≠ []) (part : Text) :
    commaJoined (parts ++ [part]) = commaJoined parts ++ ',' :: part := by
  induction parts with
  | nil => exact absurd rfl h
  | cons first parts ih =>
    by_cases hparts : parts = []
    · subst hparts
      simp [commaJoined, List.intercalate_cons_cons]
    · have ih' := ih hparts
      rw [commaJoined, commaJoined] at ih'
      rw [List.cons_append, commaJoined, commaJoined, List.intercalate_cons_of_ne_nil (by simp), ih',
        List.intercalate_cons_of_ne_nil hparts]
      simp

theorem ends_close {c : Char} (hc : c = ']' ∨ c = '}') (s : Text) : Ends (c :: s) := by
  rcases hc with rfl | rfl
  · exact ends_bracket s
  · exact ends_brace s

theorem commaJoined_append {α : Type} {text : α → Text} {R : α → α → Prop} {xs ys : List α} {c : Char}
    (hc : c = ']' ∨ c = '}')
    (hpart : ∀ x ∈ xs, ∀ y ∈ ys, ∀ s t, Ends s → Ends t → text x ++ s = text y ++ t → R x y ∧ s = t)
    (hleft : ∀ x ∈ xs, ∀ s t, text x ++ s ≠ c :: t) (hright : ∀ y ∈ ys, ∀ s t, text y ++ s ≠ c :: t) {s t : Text}
    (h : commaJoined (xs.map text) ++ c :: s = commaJoined (ys.map text) ++ c :: t) :
    List.Forall₂ R xs ys ∧ s = t := by
  have hcomma : ',' ≠ c := by
    rcases hc with rfl | rfl <;> decide
  have hends : ∀ {parts : List Text} {d : Char} {u s : Text},
      (parts = [] ∧ d = c ∧ u = s ∨ parts ≠ [] ∧ d = ',' ∧ u = commaJoined parts ++ c :: s) → Ends (d :: u) := by
    rintro parts d u s (⟨-, rfl, -⟩ | ⟨-, rfl, -⟩)
    · exact ends_close hc u
    · exact ends_comma u
  induction xs generalizing ys with
  | nil =>
    cases ys with
    | nil => exact ⟨.nil, (List.cons.inj h).2⟩
    | cons y ys =>
      obtain ⟨d, u, hsplit, -⟩ := commaJoined_cons (text y) (ys.map text) c t
      rw [List.map_cons, hsplit] at h
      exact absurd h.symm (hright y (by simp) _ _)
  | cons x xs ih =>
    obtain ⟨d, u, hsplit, hcases⟩ := commaJoined_cons (text x) (xs.map text) c s
    rw [List.map_cons, hsplit] at h
    cases ys with
    | nil => exact absurd h (hleft x (by simp) _ _)
    | cons y ys =>
      obtain ⟨d', u', hsplit', hcases'⟩ := commaJoined_cons (text y) (ys.map text) c t
      rw [List.map_cons, hsplit'] at h
      obtain ⟨hR, hrest⟩ := hpart x (by simp) y (by simp) _ _ (hends hcases) (hends hcases') h
      obtain ⟨hmark, hu⟩ := List.cons.inj hrest
      rcases hcases with ⟨hxs, hd, hs⟩ | ⟨-, hd, hs⟩
      · rcases hcases' with ⟨hys, -, ht⟩ | ⟨-, hd', -⟩
        · obtain rfl := List.map_eq_nil_iff.mp hxs
          obtain rfl := List.map_eq_nil_iff.mp hys
          exact ⟨.cons hR .nil, hs.symm.trans (hu.trans ht)⟩
        · exact absurd (hd'.symm.trans (hmark.symm.trans hd)) hcomma
      · rcases hcases' with ⟨-, hd', -⟩ | ⟨-, -, ht⟩
        · exact absurd (hd.symm.trans (hmark.trans hd')) hcomma
        · obtain ⟨hall, hst⟩ := ih (fun x hx y hy => hpart x (by simp [hx]) y (by simp [hy]))
            (fun x hx => hleft x (by simp [hx])) (fun y hy => hright y (by simp [hy])) (hs.symm.trans (hu.trans ht))
          exact ⟨.cons hR hall, hst⟩

def kindOf (c : Char) : ℕ :=
  if c = 'N' then 0 else if c = 'T' then 1 else if c = 'F' then 2 else if c = '\'' ∨ c = '"' then 3
  else if c = '[' then 4 else if c = '{' then 5 else 6

def kind : Json F → ℕ
  | .null => 0
  | .bool true => 1
  | .bool false => 2
  | .str _ => 3
  | .list _ => 4
  | .dict _ => 5
  | .int _ | .float _ => 6

theorem kindOf_number {c : Char} (h : c = '-' ∨ c.isDigit = true) : kindOf c = 6 ∧ c ≠ ']' := by
  have hne : ∀ d : Char, d ≠ '-' → d.isDigit = false → c ≠ d := by
    rintro d hd hdigit rfl
    rcases h with rfl | h
    · exact hd rfl
    · rw [h] at hdigit
      cases hdigit
  have hquote : ¬ (c = '\'' ∨ c = '"') := not_or.mpr ⟨hne _ (by decide) (by decide), hne _ (by decide) (by decide)⟩
  refine ⟨?_, hne _ (by decide) (by decide)⟩
  rw [kindOf, if_neg (hne _ (by decide) (by decide)), if_neg (hne _ (by decide) (by decide)),
    if_neg (hne _ (by decide) (by decide)), if_neg hquote, if_neg (hne _ (by decide) (by decide)),
    if_neg (hne _ (by decide) (by decide))]

theorem float_numberText {x : F} (h : isNumber P x) :
    ∃ negative whole fraction exponent, (P.floats.repr x).text = numberText negative whole fraction exponent := by
  unfold isNumber at h
  split at h
  · next negative whole fraction exponent _ hrepr =>
    rw [hrepr]
    exact ⟨negative, whole, fraction, exponent, rfl⟩
  · exact h.elim

theorem defaultKey_head {v : Json F} (hv : Everywhere (fun _ => True) (isNumber P) v) :
    ∃ c t, defaultKey P v = c :: t ∧ kindOf c = kind v ∧ c ≠ ']' := by
  match v with
  | .null => exact ⟨'N', _, rfl, rfl, by decide⟩
  | .bool true => exact ⟨'T', _, rfl, rfl, by decide⟩
  | .bool false => exact ⟨'F', _, rfl, rfl, by decide⟩
  | .int z =>
    obtain ⟨c, t, ht, hc⟩ := numberText_head (z < 0) z.natAbs none none
    exact ⟨c, t, by rw [defaultKey_int, intText_eq, ht], kindOf_number hc⟩
  | .float x =>
    obtain ⟨negative, whole, fraction, exponent, hx⟩ := float_numberText P hv
    obtain ⟨c, t, ht, hc⟩ := numberText_head negative whole fraction exponent
    exact ⟨c, t, by rw [defaultKey_float, hx, ht], kindOf_number hc⟩
  | .str s =>
    refine ⟨quoteOf s.toList, _, rfl, ?_⟩
    rcases quoteOf_cases s.toList with hquote | hquote
    · rw [hquote]
      exact ⟨rfl, by decide⟩
    · rw [hquote]
      exact ⟨rfl, by decide⟩
  | .list xs => exact ⟨'[', _, rfl, rfl, by decide⟩
  | .dict kvs => exact ⟨'{', _, rfl, rfl, by decide⟩

theorem number_append {v w : Json F} {s t : Text} (hs : Ends s) (ht : Ends t)
    (hv : ∀ rest, Ends rest → scanLiteral P.floats (defaultKey P v ++ rest) = some (v, rest))
    (hw : ∀ rest, Ends rest → scanLiteral P.floats (defaultKey P w ++ rest) = some (w, rest))
    (h : defaultKey P v ++ s = defaultKey P w ++ t) : v = w ∧ s = t := by
  have hleft := hv s hs
  rw [h, hw t ht] at hleft
  have hpair := Option.some.inj hleft
  exact ⟨(congrArg Prod.fst hpair).symm, (congrArg Prod.snd hpair).symm⟩

theorem scanLiteral_int (z : ℤ) (rest : Text) (hrest : Ends rest) :
    scanLiteral P.floats (defaultKey P (.int z) ++ rest) = some (.int z, rest) := by
  rw [defaultKey_int, intText_eq, scanLiteral_numberText P.floats _ _ _ _ hrest, number_int]

theorem scanLiteral_floatKey (x : F) (rest : Text) (hrest : Ends rest) :
    scanLiteral P.floats (defaultKey P (.float x) ++ rest) = some (.float x, rest) := scanLiteral_float P.floats x hrest

theorem itemText_append {k k' : String} (hk : ':' ∉ k.toList) (hk' : ':' ∉ k'.toList) {s t : Text}
    (h : k.toList ++ ':' :: s = k'.toList ++ ':' :: t) : k = k' ∧ s = t := by
  have hcut : ∀ {l : List Char} (u : Text), ':' ∉ l → (l ++ ':' :: u).takeWhile (· ≠ ':') = l := by
    intro l u hl
    rw [List.takeWhile_append_of_pos fun c hc => decide_eq_true (ne_of_mem_of_not_mem hc hl)]
    simp
  have hkeys : k.toList = k'.toList := by rw [← hcut s hk, h, hcut t hk']
  rw [hkeys] at h
  exact ⟨String.toList_injective hkeys, (List.cons.inj (List.append_cancel_left h)).2⟩

theorem map_eq_iff_forall₂ {α β γ : Type} {f : α → γ} {g : β → γ} {xs : List α} {ys : List β} :
    xs.map f = ys.map g ↔ List.Forall₂ (fun x y => f x = g y) xs ys := by
  rw [← List.forall₂_eq_eq_eq, List.forall₂_map_left_iff, List.forall₂_map_right_iff]

theorem same_of_sorted {kvs kvs' : List (String × Json F)} (hkeys' : (kvs'.map Prod.fst).Nodup)
    (h : List.Forall₂ (fun e e' => e.1 = e'.1 ∧ Same E e.2 e'.2) (orderBy Prod.fst kvs) (orderBy Prod.fst kvs')) :
    Same E (.dict kvs) (.dict kvs') := by
  refine ⟨?_, sameMembers_iff.mpr fun e he => ?_⟩
  · have hlength : (orderBy Prod.fst kvs).length = kvs.length := orderBy_perm.length_eq
    rw [← hlength, h.length_eq, orderBy_perm.length_eq]
  · obtain ⟨e', he', hkey, hsame⟩ := exists_mem_of_forall₂ h.flip (orderBy_perm.mem_iff.mpr he)
    exact ⟨e'.2, (Dict.find_mem hkeys').mpr (hkey ▸ orderBy_perm.mem_iff.mp he'), hsame⟩

structure Readable (v : Json F) : Prop where
  distinct : v.Distinct
  numbers : Everywhere (fun _ => True) (isNumber P) v
  plain : PlainKeys v

variable {P}

theorem Readable.element {xs : List (Json F)} (h : Readable P (.list xs)) : ∀ x ∈ xs, Readable P x := fun x hx =>
  ⟨distinctElements_iff.mp h.distinct x hx, everywhereElements_iff.mp h.numbers x hx,
    everywhereElements_iff.mp h.plain x hx⟩

theorem Readable.member {kvs : List (String × Json F)} (h : Readable P (.dict kvs)) :
    ∀ e ∈ kvs, plainKey e.1 ∧ Readable P e.2 := fun e he =>
  ⟨(everywhereMembers_iff.mp h.plain e he).1, distinctMembers_iff.mp h.distinct.2 e he,
    (everywhereMembers_iff.mp h.numbers e he).2, (everywhereMembers_iff.mp h.plain e he).2⟩

theorem Readable.ne_bracket {v : Json F} (h : Readable P v) (s t : Text) : defaultKey P v ++ s ≠ ']' :: t := by
  obtain ⟨c, u, hu, -, hc⟩ := defaultKey_head P h.numbers
  rw [hu]
  exact fun heq => hc (List.cons.inj heq).1

theorem plainKey.ne_brace {k : String} (h : plainKey k) (u s t : Text) : itemText (k, u) ++ s ≠ '}' :: t := by
  have hhead := h.2
  rw [itemText]
  cases hk : k.toList with
  | nil => simp
  | cons c l =>
    rw [hk] at hhead
    exact fun heq => hhead (congrArg some (List.cons.inj heq).1)

theorem kind_eq {v w : Json F} (hv : Readable P v) (hw : Readable P w) {s t : Text}
    (h : defaultKey P v ++ s = defaultKey P w ++ t) : kind v = kind w := by
  obtain ⟨c, u, hu, hc, -⟩ := defaultKey_head P hv.numbers
  obtain ⟨d, u', hu', hd, -⟩ := defaultKey_head P hw.numbers
  rw [hu, hu'] at h
  rw [← hc, ← hd, (List.cons.inj h).1]

theorem defaultKey_append {v : Json F} (hv : Readable P v) :
    ∀ {w : Json F}, Readable P w → ∀ {s t : Text}, Ends s → Ends t →
      defaultKey P v ++ s = defaultKey P w ++ t → Same (· = ·) v w ∧ s = t := by
  induction v using json_parts with
  | hnull =>
    intro w hw s t _ _ h
    have hkind := kind_eq hv hw h
    cases w with
    | null => exact ⟨trivial, List.append_cancel_left h⟩
    | bool b => cases b <;> simp [kind] at hkind
    | _ => simp [kind] at hkind
  | hbool b =>
    intro w hw s t _ _ h
    have hkind := kind_eq hv hw h
    cases w with
    | bool b' =>
      obtain rfl : b = b' := by cases b <;> cases b' <;> simp [kind] at hkind ⊢
      exact ⟨rfl, List.append_cancel_left h⟩
    | _ => cases b <;> simp [kind] at hkind
  | hint z =>
    intro w hw s t hs ht h
    have hkind := kind_eq hv hw h
    cases w with
    | int z' =>
      obtain ⟨heq, hst⟩ := number_append P hs ht (scanLiteral_int P z) (scanLiteral_int P z') h
      exact ⟨Json.int.inj heq, hst⟩
    | float y => cases (number_append P hs ht (scanLiteral_int P z) (scanLiteral_floatKey P y) h).1
    | bool b => cases b <;> simp [kind] at hkind
    | _ => simp [kind] at hkind
  | hfloat x =>
    intro w hw s t hs ht h
    have hkind := kind_eq hv hw h
    cases w with
    | int z => cases (number_append P hs ht (scanLiteral_floatKey P x) (scanLiteral_int P z) h).1
    | float y =>
      obtain ⟨heq, hst⟩ := number_append P hs ht (scanLiteral_floatKey P x) (scanLiteral_floatKey P y) h
      exact ⟨Json.float.inj heq, hst⟩
    | bool b => cases b <;> simp [kind] at hkind
    | _ => simp [kind] at hkind
  | hstr a =>
    intro w hw s t _ _ h
    have hkind := kind_eq hv hw h
    cases w with
    | str b =>
      obtain ⟨hab, hst⟩ := reprString_append h
      exact ⟨String.toList_injective hab, hst⟩
    | bool b => cases b <;> simp [kind] at hkind
    | _ => simp [kind] at hkind
  | hlist xs ih =>
    intro w hw s t _ _ h
    have hkind := kind_eq hv hw h
    cases w with
    | list ys =>
      simp only [defaultKey_list, List.cons_append, List.append_assoc, List.cons.injEq, true_and,
        List.nil_append] at h
      obtain ⟨hall, hst⟩ := commaJoined_append (.inl rfl)
        (fun x hx y hy _ _ hs ht => ih x hx (hv.element x hx) (hw.element y hy) hs ht)
        (fun x hx => (hv.element x hx).ne_bracket) (fun y hy => (hw.element y hy).ne_bracket) h
      exact ⟨sameElements_iff.mpr hall, hst⟩
    | bool b => cases b <;> simp [kind] at hkind
    | _ => simp [kind] at hkind
  | hdict kvs ih =>
    intro w hw s t _ _ h
    have hkind := kind_eq hv hw h
    cases w with
    | dict kvs' =>
      have hmem : ∀ {e}, e ∈ orderBy Prod.fst kvs → e ∈ kvs := fun he => orderBy_perm.mem_iff.mp he
      have hmem' : ∀ {e}, e ∈ orderBy Prod.fst kvs' → e ∈ kvs' := fun he => orderBy_perm.mem_iff.mp he
      simp only [defaultKey_dict, sortedItems_eq, List.cons_append, List.append_assoc, List.cons.injEq, true_and,
        List.nil_append] at h
      obtain ⟨hall, hst⟩ := commaJoined_append (R := fun e e' => e.1 = e'.1 ∧ Same (· = ·) e.2 e'.2) (.inr rfl)
        (fun e he e' he' u u' hu hu' heq => by
          rw [itemText, itemText, List.append_assoc, List.append_assoc] at heq
          obtain ⟨hkey, hrest⟩ := itemText_append (hv.member e (hmem he)).1.1 (hw.member e' (hmem' he')).1.1 heq
          obtain ⟨hsame, huu⟩ := ih e (hmem he) (hv.member e (hmem he)).2 (hw.member e' (hmem' he')).2 hu hu' hrest
          exact ⟨⟨hkey, hsame⟩, huu⟩)
        (fun e he => (hv.member e (hmem he)).1.ne_brace _) (fun e he => (hw.member e (hmem' he)).1.ne_brace _) h
      exact ⟨same_of_sorted hw.distinct.1 hall, hst⟩
    | bool b => cases b <;> simp [kind] at hkind
    | _ => simp [kind] at hkind

theorem defaultItems_perm {kvs kvs' : List (String × Json F)} (hkeys : (kvs.map Prod.fst).Nodup)
    (hlength : kvs.length = kvs'.length)
    (h : ∀ e ∈ kvs, ∃ w, Dict.find kvs' e.1 = some w ∧ defaultKey P e.2 = defaultKey P w) :
    (defaultItems P kvs).Perm (defaultItems P kvs') := by
  rw [defaultItems_eq, defaultItems_eq]
  have hnodup : (kvs.map fun e => (e.1, defaultKey P e.2)).Nodup := by
    apply List.Nodup.of_map Prod.fst
    rw [List.map_map]
    exact hkeys
  have hsubset : (kvs.map fun e => (e.1, defaultKey P e.2)) ⊆ kvs'.map fun e => (e.1, defaultKey P e.2) := by
    intro item hitem
    obtain ⟨e, he, rfl⟩ := List.mem_map.mp hitem
    obtain ⟨w, hfind, hkey⟩ := h e he
    rw [hkey]
    exact List.mem_map.mpr ⟨(e.1, w), Dict.mem_of_find hfind, rfl⟩
  exact (List.subperm_of_subset hnodup hsubset).perm_of_length_le (by simp [hlength])

theorem defaultKey_same {v : Json F} (hv : v.Distinct) :
    ∀ {w : Json F}, Same (· = ·) v w → defaultKey P v = defaultKey P w := by
  induction v using json_parts with
  | hnull =>
    intro w h
    cases w with
    | null => rfl
    | _ => exact h.elim
  | hbool b =>
    intro w h
    cases w with
    | bool b' => rw [show b = b' from h]
    | _ => exact h.elim
  | hint z =>
    intro w h
    cases w with
    | int z' => rw [show z = z' from h]
    | _ => exact h.elim
  | hfloat x =>
    intro w h
    cases w with
    | float y => rw [show x = y from h]
    | _ => exact h.elim
  | hstr a =>
    intro w h
    cases w with
    | str b => rw [show a = b from h]
    | _ => exact h.elim
  | hlist xs ih =>
    intro w h
    cases w with
    | list ys =>
      have hkeys : xs.map (defaultKey P) = ys.map (defaultKey P) :=
        map_eq_iff_forall₂.mpr (forall₂_imp_mem (sameElements_iff.mp h)
          fun x hx y _ => ih x hx (distinctElements_iff.mp hv x hx))
      rw [defaultKey_list, defaultKey_list, hkeys]
    | _ => exact h.elim
  | hdict kvs ih =>
    intro w h
    cases w with
    | dict kvs' =>
      have hperm := defaultItems_perm (P := P) hv.1 h.1 fun e he => by
        obtain ⟨w, hfind, hsame⟩ := sameMembers_iff.mp h.2 e he
        exact ⟨w, hfind, ih e he (distinctMembers_iff.mp hv.2 e he) hsame⟩
      have hsorted : orderBy Prod.fst (defaultItems P kvs) = orderBy Prod.fst (defaultItems P kvs') := by
        refine orderBy_eq_of_perm hperm fun a ha b hb hab => ?_
        rw [defaultItems_eq] at ha hb
        obtain ⟨e, he, rfl⟩ := List.mem_map.mp ha
        obtain ⟨e', he', rfl⟩ := List.mem_map.mp hb
        rw [List.inj_on_of_nodup_map hv.1 he he' hab]
      rw [defaultKey_dict, defaultKey_dict, hsorted]
    | _ => exact h.elim

theorem defaultKey_eq_iff {v w : Json F} (hv : Readable P v) (hw : Readable P w) :
    defaultKey P v = defaultKey P w ↔ Same (· = ·) v w :=
  ⟨fun h => (defaultKey_append hv hw ends_nil ends_nil (congrArg (· ++ []) h)).1, defaultKey_same hv.distinct⟩

def SameKey (P : Printer F) (v w : Json F) : Prop := defaultKey P v = defaultKey P w

theorem pairs_distinct (entries : List (String × Text)) : (pairs entries : Json F).Distinct := by
  rw [pairs, Json.Distinct, distinctElements_iff]
  intro x hx
  obtain ⟨e, -, rfl⟩ := List.mem_map.mp hx
  simp [Json.Distinct, distinctElements]

theorem schemaParts_distinct (fields : List (String × Text)) (facts : SchemaFacts F) :
    (schemaParts P fields facts).Distinct := by
  have hoptional : ∀ o : Option String, (optional o : Json F).Distinct := by
    rintro (_ | s) <;> trivial
  have hstrings : ∀ names : List String, (Json.list (names.map Json.str) : Json F).Distinct := by
    intro names
    rw [Json.Distinct, distinctElements_iff]
    intro x hx
    obtain ⟨name, -, rfl⟩ := List.mem_map.mp hx
    trivial
  exact ⟨trivial, pairs_distinct _, hstrings _, pairs_distinct _, pairs_distinct _, hoptional _, hoptional _, trivial⟩

theorem pairs_inj {a b : List (String × Text)} (h : (pairs a : Json F) = pairs b) : a = b := by
  refine List.map_injective_iff.mpr ?_ (Json.list.inj h)
  intro e e' he
  simp only [Json.list.injEq, List.cons.injEq, Json.str.injEq, and_true] at he
  exact Prod.ext he.1 (String.ofList_injective he.2)

theorem optional_inj {a b : Option String} (h : (optional a : Json F) = optional b) : a = b := by
  cases a <;> cases b <;> simp [optional] at h ⊢
  exact h

theorem schemaParts_inj {fields fields' : List (String × Text)} {facts facts' : SchemaFacts F}
    (h : schemaParts P fields facts = schemaParts P fields' facts') :
    fields = fields' ∧ facts.Agree (SameKey P) facts' := by
  simp only [schemaParts, Json.list.injEq, List.cons.injEq, Json.str.injEq, and_true] at h
  obtain ⟨hname, hfields, hrequired, hdescriptions, hdefaults, hheader, hexample⟩ := h
  refine ⟨pairs_inj hfields, ?_, optional_inj hexample, ?_, ?_, hname, optional_inj hheader⟩
  · have hsorted := List.map_injective_iff.mpr (fun _ _ => Json.str.inj) hrequired
    rw [← Finset.sort_toFinset facts.requiredFields (· ≤ ·), hsorted, Finset.sort_toFinset]
  · refine List.map_injective_iff.mpr ?_ (pairs_inj hdescriptions)
    intro e e' he
    obtain ⟨hfield, htext⟩ := Prod.mk.inj he
    exact Prod.ext hfield (String.toList_injective htext)
  · exact (map_eq_iff_forall₂.mp (pairs_inj hdefaults)).imp fun e e' he => Prod.mk.inj he

theorem schemaParts_agree {fields : List (String × Text)} {facts facts' : SchemaFacts F}
    (h : facts.Agree (SameKey P) facts') : schemaParts P fields facts = schemaParts P fields facts' := by
  obtain ⟨hrequired, hexample, hdescriptions, hdefaults, hname, hheader⟩ := h
  have hkeys : (facts.fieldDefaults.map fun e => (e.1, defaultKey P e.2)) =
      facts'.fieldDefaults.map fun e => (e.1, defaultKey P e.2) :=
    map_eq_iff_forall₂.mpr (hdefaults.imp fun _ _ he => Prod.ext he.1 he.2)
  rw [schemaParts, schemaParts, hrequired, hexample, hdescriptions, hkeys, hname, hheader]

def ScalarType.mark : ScalarType → Char
  | .any => 'y'
  | .str => 's'
  | .int => 'i'
  | .float => 'f'
  | .bool => 'b'
  | .none => 'N'
  | .dict => ' '

theorem scalarText_append {a b : ScalarType} {s t : Text} (h : a.text ++ s = b.text ++ t) : a = b ∧ s = t := by
  have hmark : ∀ (c : ScalarType) (u : Text), (c.text ++ u)[9]? = some c.mark := by
    intro c u
    cases c <;> rfl
  have hsame : a.mark = b.mark := by
    have hnine := congrArg (fun u : Text => u[9]?) h
    simp only [hmark] at hnine
    exact Option.some.inj hnine
  obtain rfl : a = b := by
    cases a <;> cases b <;> first | rfl | exact absurd hsame (by decide)
  exact ⟨rfl, List.append_cancel_left h⟩

def shapeOf (c : Char) : ℕ := if c = 'l' then 1 else if c = 'u' then 2 else if c = '[' then 3 else 0

def shape : Descriptor F → ℕ
  | .scalar _ => 0
  | .list _ => 1
  | .union _ => 2
  | .object _ _ => 3

theorem canonicalKey_head (d : Descriptor F) :
    ∃ c t, canonicalKey P d = c :: t ∧ shapeOf c = shape d ∧ c ≠ ']' := by
  cases d with
  | scalar t => cases t <;> exact ⟨_, _, rfl, rfl, by decide⟩
  | list _ => exact ⟨'l', _, rfl, rfl, by decide⟩
  | union _ => exact ⟨'u', _, rfl, rfl, by decide⟩
  | object _ _ => exact ⟨'[', _, rfl, rfl, by decide⟩

theorem shape_eq {d e : Descriptor F} {s t : Text} (h : canonicalKey P d ++ s = canonicalKey P e ++ t) :
    shape d = shape e := by
  obtain ⟨c, u, hu, hc, -⟩ := canonicalKey_head (P := P) d
  obtain ⟨c', u', hu', hc', -⟩ := canonicalKey_head (P := P) e
  rw [hu, hu'] at h
  rw [← hc, ← hc', (List.cons.inj h).1]

theorem canonicalKey_ne_bracket (d : Descriptor F) (s t : Text) : canonicalKey P d ++ s ≠ ']' :: t := by
  obtain ⟨c, u, hu, -, hc⟩ := canonicalKey_head (P := P) d
  rw [hu]
  exact fun heq => hc (List.cons.inj heq).1

theorem canonicalKey_append (d : Descriptor F) : ∀ {e : Descriptor F} {s t : Text}, Ends s → Ends t →
    canonicalKey P d ++ s = canonicalKey P e ++ t → Agree (SameKey P) d e ∧ s = t := by
  induction d using descriptor_parts with
  | hscalar a =>
    intro e s t _ _ h
    have hshape := shape_eq h
    cases e with
    | scalar b => exact scalarText_append h
    | _ => simp [shape] at hshape
  | hlist d ih =>
    intro e s t _ _ h
    have hshape := shape_eq h
    cases e with
    | list e =>
      rw [canonicalKey_list, canonicalKey_list, List.append_assoc, List.append_assoc, List.append_assoc,
        List.append_assoc] at h
      obtain ⟨hagree, hrest⟩ := ih (ends_bracket s) (ends_bracket t) (List.append_cancel_left h)
      exact ⟨hagree, (List.cons.inj hrest).2⟩
    | _ => simp [shape] at hshape
  | hunion ds ih =>
    intro e s t _ _ h
    have hshape := shape_eq h
    cases e with
    | union es =>
      rw [canonicalKey_union, canonicalKey_union, List.append_assoc, List.append_assoc, List.append_assoc,
        List.append_assoc] at h
      obtain ⟨hall, hst⟩ := commaJoined_append (.inl rfl) (fun d hd e _ _ _ hs ht => ih d hd hs ht)
        (fun d _ => canonicalKey_ne_bracket d) (fun e _ => canonicalKey_ne_bracket e) (List.append_cancel_left h)
      exact ⟨agreeAll_iff.mpr hall, hst⟩
    | _ => simp [shape] at hshape
  | hobject fields facts ih =>
    intro e s t hs ht h
    have hshape := shape_eq h
    cases e with
    | object fields' facts' =>
      rw [canonicalKey_object, canonicalKey_object] at h
      obtain ⟨hparts, hst⟩ := (renders_asciiCompact P.floats _).unique P.floats (renders_asciiCompact P.floats _)
        (schemaParts_distinct _ facts) (schemaParts_distinct _ facts') hs ht h
      obtain ⟨hfields, hfacts⟩ := schemaParts_inj hparts
      rw [fieldKeys_eq, fieldKeys_eq] at hfields
      refine ⟨⟨agreeFields_iff.mpr (forall₂_imp_mem (map_eq_iff_forall₂.mp hfields) ?_), hfacts⟩, hst⟩
      intro f hf g _ hfg
      obtain ⟨hname, hkey⟩ := Prod.mk.inj hfg
      exact ⟨hname, (ih f hf ends_nil ends_nil (congrArg (· ++ []) hkey)).1⟩
    | _ => simp [shape] at hshape

theorem canonicalKey_agree (d : Descriptor F) : ∀ {e : Descriptor F}, Agree (SameKey P) d e →
    canonicalKey P d = canonicalKey P e := by
  induction d using descriptor_parts with
  | hscalar a =>
    intro e h
    cases e with
    | scalar b => rw [show a = b from h]
    | _ => exact h.elim
  | hlist d ih =>
    intro e h
    cases e with
    | list e => rw [canonicalKey_list, canonicalKey_list, ih h]
    | _ => exact h.elim
  | hunion ds ih =>
    intro e h
    cases e with
    | union es =>
      have hkeys := map_eq_iff_forall₂.mpr (forall₂_imp_mem (agreeAll_iff.mp h) fun d hd e _ => ih d hd)
      rw [canonicalKey_union, canonicalKey_union, hkeys]
    | _ => exact h.elim
  | hobject fields facts ih =>
    intro e h
    cases e with
    | object fields' facts' =>
      have hkeys : fieldKeys P fields = fieldKeys P fields' := by
        rw [fieldKeys_eq, fieldKeys_eq]
        exact map_eq_iff_forall₂.mpr
          (forall₂_imp_mem (agreeFields_iff.mp h.1) fun f hf g _ hfg => Prod.ext hfg.1 (ih f hf hfg.2))
      rw [canonicalKey_object, canonicalKey_object, hkeys, schemaParts_agree h.2]
    | _ => exact h.elim

theorem canonicalSchemaKey_eq_iff (s t : SchemaObject F) :
    canonicalSchemaKey P s = canonicalSchemaKey P t ↔ s.Agree (SameKey P) t :=
  ⟨fun h => (canonicalKey_append (.object s.fields s.facts) (e := .object t.fields t.facts) ends_nil ends_nil
      (congrArg (· ++ []) h)).1,
    canonicalKey_agree (.object s.fields s.facts) (e := .object t.fields t.facts)⟩

theorem facts_agree_imp {p : Json F → Prop} {E₁ E₂ : Json F → Json F → Prop}
    (hE : ∀ v w, p v → p w → E₁ v w → E₂ v w) {a b : SchemaFacts F} (ha : ∀ e ∈ a.fieldDefaults, p e.2)
    (hb : ∀ e ∈ b.fieldDefaults, p e.2) (h : a.Agree E₁ b) : a.Agree E₂ b := by
  obtain ⟨hrequired, hexample, hdescriptions, hdefaults, hname, hheader⟩ := h
  exact ⟨hrequired, hexample, hdescriptions,
    forall₂_imp_mem hdefaults fun x hx y hy hxy => ⟨hxy.1, hE _ _ (ha x hx) (hb y hy) hxy.2⟩, hname, hheader⟩

theorem agree_imp {p : Json F → Prop} {E₁ E₂ : Json F → Json F → Prop}
    (hE : ∀ v w, p v → p w → E₁ v w → E₂ v w) (d : Descriptor F) : ∀ {e : Descriptor F}, DefaultsSatisfy p d →
      DefaultsSatisfy p e → Agree E₁ d e → Agree E₂ d e := by
  induction d using descriptor_parts with
  | hscalar a =>
    intro e _ _ h
    cases e with
    | scalar b => exact h
    | _ => exact h.elim
  | hlist d ih =>
    intro e hd he h
    cases e with
    | list e => exact ih hd he h
    | _ => exact h.elim
  | hunion ds ih =>
    intro e hd he h
    cases e with
    | union es =>
      exact agreeAll_iff.mpr (forall₂_imp_mem (agreeAll_iff.mp h) fun d hmem e hmem' =>
        ih d hmem (membersSatisfy_iff.mp hd d hmem) (membersSatisfy_iff.mp he e hmem'))
    | _ => exact h.elim
  | hobject fields facts ih =>
    intro e hd he h
    cases e with
    | object fields' facts' =>
      refine ⟨agreeFields_iff.mpr (forall₂_imp_mem (agreeFields_iff.mp h.1) fun f hf g hg hfg => ?_),
        facts_agree_imp hE hd.2 he.2 h.2⟩
      exact ⟨hfg.1, ih f hf (fieldsSatisfy_iff.mp hd.1 f hf) (fieldsSatisfy_iff.mp he.1 g hg) hfg.2⟩
    | _ => exact h.elim

theorem schema_agree_imp {p : Json F → Prop} {E₁ E₂ : Json F → Json F → Prop}
    (hE : ∀ v w, p v → p w → E₁ v w → E₂ v w) {s t : SchemaObject F} (hs : s.DefaultsSatisfy p)
    (ht : t.DefaultsSatisfy p) (h : s.Agree E₁ t) : s.Agree E₂ t :=
  agree_imp hE (.object s.fields s.facts) (e := .object t.fields t.facts) hs ht h

theorem same_imp {E₁ E₂ : F → F → Prop} (hE : ∀ x y, E₁ x y → E₂ x y) {v : Json F} :
    ∀ {w : Json F}, Same E₁ v w → Same E₂ v w := by
  induction v using json_parts with
  | hfloat x =>
    intro w h
    cases w with
    | float y => exact hE x y h
    | _ => exact h.elim
  | hlist xs ih =>
    intro w h
    cases w with
    | list ys => exact sameElements_iff.mpr (forall₂_imp_mem (sameElements_iff.mp h) fun x hx y _ => ih x hx)
    | _ => exact h.elim
  | hdict kvs ih =>
    intro w h
    cases w with
    | dict kvs' =>
      refine ⟨h.1, sameMembers_iff.mpr fun e he => ?_⟩
      obtain ⟨w, hfind, hsame⟩ := sameMembers_iff.mp h.2 e he
      exact ⟨w, hfind, ih e he hsame⟩
    | _ => exact h.elim
  | hnull | hbool | hint | hstr =>
    intro w h
    cases w <;> exact h

theorem descriptor_satisfy_and {p q : Json F → Prop} {d : Descriptor F} (hp : DefaultsSatisfy p d)
    (hq : DefaultsSatisfy q d) : DefaultsSatisfy (fun v => p v ∧ q v) d := by
  induction d using descriptor_parts with
  | hscalar a => trivial
  | hlist d ih => exact ih hp hq
  | hunion ds ih =>
    exact membersSatisfy_iff.mpr fun d hd => ih d hd (membersSatisfy_iff.mp hp d hd) (membersSatisfy_iff.mp hq d hd)
  | hobject fields facts ih =>
    exact ⟨fieldsSatisfy_iff.mpr fun f hf => ih f hf (fieldsSatisfy_iff.mp hp.1 f hf) (fieldsSatisfy_iff.mp hq.1 f hf),
      fun e he => ⟨hp.2 e he, hq.2 e he⟩⟩

theorem defaultKey_single (P : Printer F) (k : String) (v : Json F) :
    defaultKey P (.dict [(k, v)]) = '{' :: (itemText (k, defaultKey P v) ++ ['}']) := by
  rw [defaultKey_dict, defaultItems_eq, orderBy_short (by simp), List.map_singleton, List.map_singleton, commaJoined,
    List.intercalate_singleton]

theorem merged_items (P : Printer F) {kvs : List (String × Json F)} (h : 2 ≤ kvs.length) :
    ∃ k v, defaultKey P (.dict kvs) = defaultKey P (.dict [(k, v)]) := by
  have hlength : (orderBy Prod.fst kvs).length = kvs.length := orderBy_perm.length_eq
  have hne : orderBy Prod.fst kvs ≠ [] := List.ne_nil_of_length_pos (by omega)
  obtain ⟨items, last, hsorted⟩ : ∃ items last, orderBy Prod.fst kvs = items ++ [last] :=
    ⟨_, _, (List.dropLast_concat_getLast hne).symm⟩
  rw [hsorted, List.length_append, List.length_singleton] at hlength
  have hitems : items.map (fun e => itemText (e.1, defaultKey P e.2)) ≠ [] :=
    List.ne_nil_of_length_pos (by rw [List.length_map]; omega)
  let merged := commaJoined (items.map fun e => itemText (e.1, defaultKey P e.2)) ++ ',' :: last.1.toList
  refine ⟨.ofList merged, last.2, ?_⟩
  rw [defaultKey_single, defaultKey_dict, sortedItems_eq, hsorted, List.map_append, List.map_singleton,
    commaJoined_concat hitems]
  simp [itemText, merged]

/-- Under plain keys the canonical keys tell exactly the schemas apart that print differently. -/
theorem canonical_keys_faithful_iff (P : Printer F) :
    (∀ s t : SchemaObject F, s.DefaultsSatisfy (IsJson P) → t.DefaultsSatisfy (IsJson P) →
      s.DefaultsSatisfy PlainKeys → t.DefaultsSatisfy PlainKeys →
      ((canonicalSchemaKey P s = canonicalSchemaKey P t ↔ SameSchema P s t) ↔ (SameSchema P s t → SamePrinted s t))) ∧
    ∀ kvs : List (String × Json F), 2 ≤ kvs.length →
      ∃ k v, defaultKey P (.dict kvs) = defaultKey P (.dict [(k, v)]) ∧
        ¬ Same (SameNumber P) (.dict kvs) (.dict [(k, v)]) := by
  refine ⟨fun s t hs ht hs' ht' => ?_, fun kvs hkvs => ?_⟩
  · have hkey : canonicalSchemaKey P s = canonicalSchemaKey P t ↔ SamePrinted s t := by
      have hreadable : ∀ {v : Json F}, IsJson P v ∧ PlainKeys v → Readable P v := fun h => ⟨h.1.1, h.1.2, h.2⟩
      have hleft : s.DefaultsSatisfy fun v => IsJson P v ∧ PlainKeys v :=
        descriptor_satisfy_and (d := .object s.fields s.facts) hs hs'
      have hright : t.DefaultsSatisfy fun v => IsJson P v ∧ PlainKeys v :=
        descriptor_satisfy_and (d := .object t.fields t.facts) ht ht'
      rw [canonicalSchemaKey_eq_iff]
      exact ⟨schema_agree_imp (fun v w hv hw => (defaultKey_eq_iff (hreadable hv) (hreadable hw)).mp) hleft hright,
        schema_agree_imp (fun v w hv hw => (defaultKey_eq_iff (hreadable hv) (hreadable hw)).mpr) hleft hright⟩
    have hprinted : SamePrinted s t → SameSchema P s t :=
      schema_agree_imp (fun v w _ _ => same_imp fun _ _ => .inl) hs ht
    rw [hkey]
    exact ⟨Iff.mpr, fun h => ⟨hprinted, h⟩⟩
  · obtain ⟨k, v, hmerged⟩ := merged_items P hkvs
    refine ⟨k, v, hmerged, fun hsame => ?_⟩
    have hlength := hsame.1
    rw [List.length_singleton] at hlength
    omega

end

section

def asciiPrinter : Printer FloatLiteral := ⟨literalFormat, fun _ => false⟩

def sampleSchema (v : Json FloatLiteral) : SchemaObject FloatLiteral where
  fields := [("limits", .union [.scalar .dict, .scalar .none]), ("tags", .list (.scalar .str))]
  facts :=
    { requiredFields := {"tags"}
      outputExampleMd := none
      fieldDescriptions := [("tags", "what it is about")]
      fieldDefaults := [("limits", v)]
      schemaName := "BusinessSchema"
      itemHeader := none }

theorem sampleSchema_satisfies {p : Json FloatLiteral → Prop} {v : Json FloatLiteral} (h : p v) :
    (sampleSchema v).DefaultsSatisfy p := by
  simp [SchemaObject.DefaultsSatisfy, sampleSchema, FieldsSatisfy, CanonicalKeys.DefaultsSatisfy, MembersSatisfy, h]

theorem sampleSchema_agree {E : Json FloatLiteral → Json FloatLiteral → Prop} {v w : Json FloatLiteral} :
    (sampleSchema v).Agree E (sampleSchema w) ↔ E v w := by
  simp [SchemaObject.Agree, sampleSchema, AgreeFields, CanonicalKeys.Agree, AgreeAll, SchemaFacts.Agree]

def ordered : Json FloatLiteral := .dict [("a", .int 1), ("b", .list [.str "x, y"])]

def reordered : Json FloatLiteral := .dict [("b", .list [.str "x, y"]), ("a", .int 1)]

def single : Json FloatLiteral := .dict [("a", .int 1)]

theorem sample_isJson {v : Json FloatLiteral} (h : v = ordered ∨ v = reordered ∨ v = single) :
    IsJson asciiPrinter v ∧ PlainKeys v := by
  have ha : plainKey "a" := ⟨by decide, by decide⟩
  have hb : plainKey "b" := ⟨by decide, by decide⟩
  rcases h with rfl | rfl | rfl <;>
    simp [IsJson, PlainKeys, ordered, reordered, single, Json.Distinct, distinctMembers, distinctElements, Everywhere,
      EverywhereMembers, EverywhereElements, ha, hb]

theorem canonical_keys_faithful_reordered :
    canonicalSchemaKey asciiPrinter (sampleSchema ordered) = canonicalSchemaKey asciiPrinter (sampleSchema reordered) ∧
      canonicalSchemaKey asciiPrinter (sampleSchema ordered) ≠
        canonicalSchemaKey asciiPrinter (sampleSchema single) := by
  have hordered := sample_isJson (v := ordered) (.inl rfl)
  have hreordered := sample_isJson (v := reordered) (.inr (.inl rfl))
  have hsingle := sample_isJson (v := single) (.inr (.inr rfl))
  have hsame : ∀ E, Same E ordered reordered := fun E =>
    ⟨rfl, ⟨.int 1, rfl, rfl⟩, ⟨.list [.str "x, y"], rfl, rfl, trivial⟩, trivial⟩
  have hne : ∀ E, ¬ Same E ordered single := fun E h => absurd h.1 (by decide)
  have hfaithful := (canonical_keys_faithful_iff asciiPrinter).1 (sampleSchema ordered)
  constructor
  · refine (((hfaithful (sampleSchema reordered) ?_ ?_ ?_ ?_).mpr fun _ => ?_).mpr ?_)
    · exact sampleSchema_satisfies hordered.1
    · exact sampleSchema_satisfies hreordered.1
    · exact sampleSchema_satisfies hordered.2
    · exact sampleSchema_satisfies hreordered.2
    · exact sampleSchema_agree.mpr (hsame _)
    · exact sampleSchema_agree.mpr (hsame _)
  · intro hkey
    refine hne _ (sampleSchema_agree.mp (((hfaithful (sampleSchema single) ?_ ?_ ?_ ?_).mpr fun h => ?_).mp hkey))
    · exact sampleSchema_satisfies hordered.1
    · exact sampleSchema_satisfies hsingle.1
    · exact sampleSchema_satisfies hordered.2
    · exact sampleSchema_satisfies hsingle.2
    · exact absurd (sampleSchema_agree.mp h) (hne _)

def twoItems : Json FloatLiteral := .dict [("a", .int 1), ("b", .int 2)]

def oneItem : Json FloatLiteral := .dict [("a:1,b", .int 2)]

theorem twoItems_key : defaultKey asciiPrinter twoItems = defaultKey asciiPrinter oneItem := by decide

theorem canonical_keys_not_faithful :
    ¬ ∀ s t : SchemaObject FloatLiteral, s.DefaultsSatisfy (IsJson asciiPrinter) →
      t.DefaultsSatisfy (IsJson asciiPrinter) →
      (canonicalSchemaKey asciiPrinter s = canonicalSchemaKey asciiPrinter t ↔ SameSchema asciiPrinter s t) := by
  intro h
  have htwo : IsJson asciiPrinter twoItems := by
    simp [IsJson, twoItems, Json.Distinct, distinctMembers, Everywhere, EverywhereMembers]
  have hone : IsJson asciiPrinter oneItem := by
    simp [IsJson, oneItem, Json.Distinct, distinctMembers, Everywhere, EverywhereMembers]
  have hkey := (canonicalSchemaKey_eq_iff (sampleSchema twoItems) (sampleSchema oneItem)).mpr
    (sampleSchema_agree.mpr twoItems_key)
  have hequal := (h _ _ (sampleSchema_satisfies htwo) (sampleSchema_satisfies hone)).mp hkey
  exact absurd (sampleSchema_agree.mp hequal).1 (by decide)

end

end GraphSkillRuntime.CanonicalKeys
