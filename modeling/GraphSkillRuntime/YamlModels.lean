import GraphSkillRuntime.SnapshotCodec

/-!
Records written as YAML by one library and read by another. The writer quotes a text that its own rules
would resolve to another type, the reader resolves a text that is not quoted by other rules. A model says
what is written of a value, how a value is validated, and which values come back.
-/

namespace GraphSkillRuntime.YamlModels

open OrderedDict JsonText PyData SnapshotCodec.Codec

/-- `resolve` and `resolveKey` are what the reader makes of a plain text that is not a string for it, and
`alike` says which keys it takes for the same. -/
structure Dialects (F : Type) where
  quotes : String → Bool
  resolve : String → Option (Data F)
  resolveKey : String → Option Key
  alike : Key → Key → Bool
  resolve_other : ∀ s t, resolve s ≠ some (.str t)
  resolveKey_other : ∀ s t, resolveKey s ≠ some (.str t)
  resolves_alike : ∀ s, resolve s = none ↔ resolveKey s = none
  alike_str : ∀ s t, alike (.str s) (.str t) = true ↔ s = t

mutual

def texts {F : Type} : Data F → List String
  | .str s => [s]
  | .list xs => textsElements xs
  | .dict kvs => textsMembers kvs
  | _ => []

def textsElements {F : Type} : List (Data F) → List String
  | [] => []
  | x :: xs => texts x ++ textsElements xs

def textsMembers {F : Type} : List (Key × Data F) → List String
  | [] => []
  | (k, v) :: kvs => k.str?.toList ++ (texts v ++ textsMembers kvs)

end

namespace Dialects

variable {F : Type} (Y : Dialects F)

def Stable (s : String) : Prop := Y.quotes s = true ∨ Y.resolve s = none

def readText (s : String) : Data F := if Y.quotes s then .str s else (Y.resolve s).getD (.str s)

def readKey : Key → Key
  | .str s => if Y.quotes s then .str s else (Y.resolveKey s).getD (.str s)
  | k => k

def Unambiguous (kvs : List (Key × Data F)) : Prop := kvs.Pairwise fun e e' => Y.alike e.1 e'.1 = false

instance (kvs : List (Key × Data F)) : Decidable (Y.Unambiguous kvs) :=
  inferInstanceAs (Decidable (kvs.Pairwise fun e e' => Y.alike e.1 e'.1 = false))

mutual

def read : Data F → Option (Data F)
  | .str s => some (Y.readText s)
  | .list xs => (readElements xs).map .list
  | .dict kvs => (readMembers kvs).bind fun kvs => if Y.Unambiguous kvs then some (.dict kvs) else none
  | v => some v

def readElements : List (Data F) → Option (List (Data F))
  | [] => some []
  | x :: xs => (read x).bind fun x => (readElements xs).map (x :: ·)

def readMembers : List (Key × Data F) → Option (List (Key × Data F))
  | [] => some []
  | (k, v) :: kvs => (read v).bind fun v => (readMembers kvs).map ((Y.readKey k, v) :: ·)

end

theorem readText_eq_iff {s : String} : Y.readText s = .str s ↔ Y.Stable s := by
  unfold readText Stable
  cases hq : Y.quotes s with
  | true => simp
  | false =>
    cases hr : Y.resolve s with
    | none => simp
    | some d =>
      have hne : d ≠ .str s := fun h => Y.resolve_other s s (h ▸ hr)
      simp [hne]

theorem stable_of_readText {s t : String} (h : Y.readText s = .str t) : Y.Stable s ∧ t = s := by
  have hs : Y.Stable s := by
    unfold readText at h
    cases hq : Y.quotes s with
    | true => exact .inl hq
    | false =>
      cases hr : Y.resolve s with
      | none => exact .inr hr
      | some d =>
        rw [hq, hr] at h
        exact absurd (hr.trans (congrArg some h)) (Y.resolve_other s t)
  rw [Y.readText_eq_iff.2 hs] at h
  exact ⟨hs, (Data.str.inj h).symm⟩

theorem stable_of_readKey {s t : String} (h : Y.readKey (.str s) = .str t) : Y.Stable s ∧ t = s := by
  rw [readKey] at h
  cases hq : Y.quotes s with
  | true =>
    rw [hq] at h
    exact ⟨.inl hq, (Key.str.inj h).symm⟩
  | false =>
    cases hr : Y.resolveKey s with
    | none =>
      rw [hq, hr] at h
      exact ⟨.inr ((Y.resolves_alike s).2 hr), (Key.str.inj h).symm⟩
    | some d =>
      rw [hq, hr] at h
      exact absurd (hr.trans (congrArg some h)) (Y.resolveKey_other s t)

theorem readKey_str {s : String} (h : Y.Stable s) : Y.readKey (.str s) = .str s := by
  rw [readKey]
  rcases h with h | h
  · rw [if_pos h]
  · rw [(Y.resolves_alike s).1 h]
    exact ite_self _

section

variable {Y}

mutual

theorem stable_of_read : ∀ y : Data F, Y.read y = some y → ∀ s ∈ texts y, Y.Stable s
  | .null, _, _, hs => by cases hs
  | .bool _, _, _, hs => by cases hs
  | .int _, _, _, hs => by cases hs
  | .float _, _, _, hs => by cases hs
  | .other _, _, _, hs => by cases hs
  | .str t, h, s, hs => by
    rw [read, Option.some.injEq] at h
    rw [List.mem_singleton.1 hs]
    exact Y.readText_eq_iff.1 h
  | .list xs, h, s, hs => by
    rw [read] at h
    obtain ⟨xs', hxs, heq⟩ := Option.map_eq_some_iff.1 h
    rw [Data.list.inj heq] at hxs
    exact stable_of_readElements xs hxs s hs
  | .dict kvs, h, s, hs => by
    rw [read] at h
    obtain ⟨kvs', hkvs, h⟩ := Option.bind_eq_some_iff.1 h
    split_ifs at h
    rw [Data.dict.inj (Option.some.inj h)] at hkvs
    exact stable_of_readMembers kvs hkvs s hs

theorem stable_of_readElements : ∀ xs : List (Data F), Y.readElements xs = some xs →
    ∀ s ∈ textsElements xs, Y.Stable s
  | [], _, _, hs => by cases hs
  | x :: xs, h, s, hs => by
    rw [readElements] at h
    obtain ⟨x', hx, h⟩ := Option.bind_eq_some_iff.1 h
    obtain ⟨xs', hxs, heq⟩ := Option.map_eq_some_iff.1 h
    obtain ⟨rfl, rfl⟩ := List.cons.inj heq
    rcases List.mem_append.1 hs with hs | hs
    · exact stable_of_read x' hx s hs
    · exact stable_of_readElements xs' hxs s hs

theorem stable_of_readMembers : ∀ kvs : List (Key × Data F), Y.readMembers kvs = some kvs →
    ∀ s ∈ textsMembers kvs, Y.Stable s
  | [], _, _, hs => by cases hs
  | (k, v) :: kvs, h, s, hs => by
    rw [readMembers] at h
    obtain ⟨v', hv, h⟩ := Option.bind_eq_some_iff.1 h
    obtain ⟨kvs', hkvs, heq⟩ := Option.map_eq_some_iff.1 h
    obtain ⟨hhead, rfl⟩ := List.cons.inj heq
    obtain ⟨hk, rfl⟩ := Prod.mk.inj hhead
    rw [textsMembers, List.mem_append, List.mem_append] at hs
    rcases hs with hs | hs | hs
    · cases k with
      | str t =>
        obtain rfl := List.mem_singleton.1 hs
        exact (Y.stable_of_readKey hk).1
      | int z => cases hs
      | bool b => cases hs
      | null => cases hs
      | other t => cases hs
    · exact stable_of_read v' hv s hs
    · exact stable_of_readMembers kvs' hkvs s hs

end

end

end Dialects

mutual

def Tidy {F : Type} : Data F → Prop
  | .list xs => tidyElements xs
  | .dict kvs => (kvs.map Prod.fst).Nodup ∧ tidyMembers kvs
  | _ => True

def tidyElements {F : Type} : List (Data F) → Prop
  | [] => True
  | x :: xs => Tidy x ∧ tidyElements xs

def tidyMembers {F : Type} : List (Key × Data F) → Prop
  | [] => True
  | (k, v) :: kvs => (∃ s, k = .str s) ∧ Tidy v ∧ tidyMembers kvs

end

section

variable {F : Type}

theorem tidyMembers_iff {kvs : List (Key × Data F)} :
    tidyMembers kvs ↔ ∀ e ∈ kvs, (∃ s, e.1 = .str s) ∧ Tidy e.2 := by
  induction kvs with
  | nil => simp [tidyMembers]
  | cons e kvs ih => rw [tidyMembers, ih, List.forall_mem_cons, and_assoc]

theorem ofMembers_keys (kvs : List (String × Json F)) :
    (ofMembers kvs).map Prod.fst = (kvs.map Prod.fst).map Key.str := by
  induction kvs with
  | nil => rfl
  | cons e kvs ih => rw [ofMembers, List.map_cons, List.map_cons, List.map_cons, ih]

mutual

theorem tidy_ofJson : ∀ v : Json F, v.Distinct → Tidy (ofJson v)
  | .null, _ => trivial
  | .bool _, _ => trivial
  | .int _, _ => trivial
  | .float _, _ => trivial
  | .str _, _ => trivial
  | .list xs, h => tidy_ofElements xs h
  | .dict kvs, h => by
    refine ⟨?_, tidy_ofMembers kvs h.2⟩
    rw [ofMembers_keys]
    exact h.1.map fun _ _ => Key.str.inj

theorem tidy_ofElements : ∀ xs : List (Json F), distinctElements xs → tidyElements (ofElements xs)
  | [], _ => trivial
  | x :: xs, h => ⟨tidy_ofJson x h.1, tidy_ofElements xs h.2⟩

theorem tidy_ofMembers : ∀ kvs : List (String × Json F), distinctMembers kvs → tidyMembers (ofMembers kvs)
  | [], _ => trivial
  | (k, v) :: kvs, h => ⟨⟨k, rfl⟩, tidy_ofJson v h.1, tidy_ofMembers kvs h.2⟩

end

variable {Y : Dialects F}

theorem unambiguous_of_tidy {kvs : List (Key × Data F)} (hn : (kvs.map Prod.fst).Nodup) (h : tidyMembers kvs) :
    Y.Unambiguous kvs := by
  rw [tidyMembers_iff] at h
  rw [List.Nodup, List.pairwise_map] at hn
  apply hn.imp_of_mem
  intro e e' he he' hne
  obtain ⟨⟨s, hs⟩, -⟩ := h e he
  obtain ⟨⟨t, ht⟩, -⟩ := h e' he'
  rw [hs, ht] at hne ⊢
  apply Bool.eq_false_iff.2
  intro halike
  exact hne (congrArg Key.str ((Y.alike_str s t).1 halike))

mutual

theorem read_of_stable : ∀ y : Data F, Tidy y → (∀ s ∈ texts y, Y.Stable s) → Y.read y = some y
  | .null, _, _ => rfl
  | .bool _, _, _ => rfl
  | .int _, _, _ => rfl
  | .float _, _, _ => rfl
  | .other _, _, _ => rfl
  | .str s, _, h => congrArg some (Y.readText_eq_iff.2 (h s (List.mem_singleton.2 rfl)))
  | .list xs, ht, h => by
    rw [Dialects.read, readElements_of_stable xs ht h]
    rfl
  | .dict kvs, ht, h => by
    rw [Dialects.read, readMembers_of_stable kvs ht.2 h, Option.bind_some, if_pos (unambiguous_of_tidy ht.1 ht.2)]

theorem readElements_of_stable : ∀ xs : List (Data F), tidyElements xs → (∀ s ∈ textsElements xs, Y.Stable s) →
    Y.readElements xs = some xs
  | [], _, _ => rfl
  | x :: xs, ht, h => by
    rw [textsElements, List.forall_mem_append] at h
    rw [Dialects.readElements, read_of_stable x ht.1 h.1, readElements_of_stable xs ht.2 h.2]
    rfl

theorem readMembers_of_stable : ∀ kvs : List (Key × Data F), tidyMembers kvs → (∀ s ∈ textsMembers kvs, Y.Stable s) →
    Y.readMembers kvs = some kvs
  | [], _, _ => rfl
  | (k, v) :: kvs, ht, h => by
    obtain ⟨⟨s, rfl⟩, hv, hkvs⟩ := ht
    rw [textsMembers, List.forall_mem_append, List.forall_mem_append] at h
    rw [Dialects.readMembers, read_of_stable v hv h.2.1, readMembers_of_stable kvs hkvs h.2.2,
      Y.readKey_str (h.1 s (List.mem_singleton.2 rfl))]
    rfl

end

end

/-- `Ok` says which values there are, `Kept` which of them are written in full. -/
structure Model {F : Type} (Y : Dialects F) (α : Type) where
  dump : α → Option (Data F)
  validate : Data F → Option α
  Ok : α → Prop
  Kept : α → Prop
  reads : ∀ {a}, Ok a → Kept a → ∃ v, dump a = some v ∧ Tidy v ∧ validate v = some a
  back : ∀ {a v d}, Ok a → dump a = some v → Y.read v = some d → validate d = some a → Kept a ∧ d = v

namespace Model

variable {F α β : Type} {Y : Dialects F}

def reload (c : Model Y α) (a : α) : Option α := ((c.dump a).bind Y.read).bind c.validate

theorem reload_iff (c : Model Y α) {a : α} (h : c.Ok a) :
    c.reload a = some a ↔ c.Kept a ∧ ∀ v ∈ c.dump a, ∀ s ∈ texts v, Y.Stable s := by
  constructor
  · intro hback
    obtain ⟨d, hd, hvalid⟩ := Option.bind_eq_some_iff.1 hback
    obtain ⟨v, hv, hread⟩ := Option.bind_eq_some_iff.1 hd
    obtain ⟨hkept, rfl⟩ := c.back h hv hread hvalid
    refine ⟨hkept, fun w hw => ?_⟩
    obtain rfl := Option.some.inj (hv.symm.trans hw)
    exact Dialects.stable_of_read d hread
  · rintro ⟨hkept, hstable⟩
    obtain ⟨v, hv, htidy, hvalid⟩ := c.reads h hkept
    rw [reload, hv, Option.bind_some, read_of_stable v htidy (hstable v hv), Option.bind_some, hvalid]

def text : Model Y String where
  dump s := some (.str s)
  validate
    | .str s => some s
    | _ => none
  Ok _ := True
  Kept _ := True
  reads {s} _ _ := ⟨.str s, rfl, trivial, rfl⟩
  back {s v d} _ hv hd h := by
    obtain rfl := Option.some.inj hv
    rw [Dialects.read, Option.some.injEq] at hd
    subst hd
    split at h
    · next t ht => exact ⟨trivial, by rw [ht, (Y.stable_of_readText ht).2]⟩
    · cases h

/-- `parse` may read other data too, but an integer as itself. -/
def int (parse : Data F → Option ℤ) (h : ∀ z, parse (.int z) = some z) : Model Y ℤ where
  dump z := some (.int z)
  validate := parse
  Ok _ := True
  Kept _ := True
  reads {z} _ _ := ⟨.int z, rfl, trivial, h z⟩
  back {z v d} _ hv hd _ := by
    obtain rfl := Option.some.inj hv
    exact ⟨trivial, (Option.some.inj hd).symm⟩

def bool (parse : Data F → Option Bool) (h : ∀ b, parse (.bool b) = some b) : Model Y Bool where
  dump b := some (.bool b)
  validate := parse
  Ok _ := True
  Kept _ := True
  reads {b} _ _ := ⟨.bool b, rfl, trivial, h b⟩
  back {b v d} _ hv hd _ := by
    obtain rfl := Option.some.inj hv
    exact ⟨trivial, (Option.some.inj hd).symm⟩

def enumeration (text : α → String) (ofText : String → Option α) (h : ∀ a, ofText (text a) = some a)
    (hinj : ∀ s a, ofText s = some a → s = text a) : Model Y α where
  dump a := some (.str (text a))
  validate
    | .str s => ofText s
    | _ => none
  Ok _ := True
  Kept _ := True
  reads {a} _ _ := ⟨.str (text a), rfl, trivial, h a⟩
  back {a v d} _ hv hd hvalid := by
    obtain rfl := Option.some.inj hv
    rw [Dialects.read, Option.some.injEq] at hd
    subst hd
    split at hvalid
    · next t ht => exact ⟨trivial, by rw [ht, hinj t a hvalid]⟩
    · cases hvalid

/-- Data of any type; `serialize` brings them to JSON types first. -/
def any (serialize : Data F → Option (Data F)) (hjson : ∀ v : Json F, serialize (ofJson v) = some (ofJson v)) :
    Model Y (Data F) where
  dump := serialize
  validate := some
  Ok y := ∃ v : Json F, v.Distinct ∧ ofJson v = y
  Kept _ := True
  reads := by
    rintro y ⟨v, hv, rfl⟩ -
    exact ⟨ofJson v, hjson v, tidy_ofJson v hv, rfl⟩
  back := by
    rintro y w d ⟨v, hv, rfl⟩ hw - hvalid
    rw [hjson v] at hw
    exact ⟨trivial, (Option.some.inj hvalid).trans (Option.some.inj hw)⟩

theorem text_null : (text (Y := Y)).validate .null = none := rfl

section

variable (c : Model Y α)

def option (hnull : c.validate .null = none) : Model Y (Option α) where
  dump
    | none => some .null
    | some a => c.dump a
  validate
    | .null => some none
    | v => (c.validate v).map some
  Ok a := ∀ x ∈ a, c.Ok x
  Kept a := ∀ x ∈ a, c.Kept x
  reads {a} hok hkept := by
    cases a with
    | none => exact ⟨.null, rfl, trivial, rfl⟩
    | some a =>
      obtain ⟨v, hv, htidy, hvalid⟩ := c.reads (hok a rfl) (hkept a rfl)
      refine ⟨v, hv, htidy, ?_⟩
      split
      · rw [hnull] at hvalid
        cases hvalid
      · rw [hvalid]
        rfl
  back {a v d} hok hv hd hvalid := by
    cases a with
    | none =>
      obtain rfl := Option.some.inj hv
      exact ⟨fun x hx => absurd hx (Option.not_mem_none x), (Option.some.inj hd).symm⟩
    | some a =>
      split at hvalid
      · cases hvalid
      · obtain ⟨x, hx, heq⟩ := Option.map_eq_some_iff.1 hvalid
        rw [Option.some.inj heq] at hx
        obtain ⟨hkept, heq⟩ := c.back (hok a rfl) hv hd hx
        exact ⟨fun y hy => Option.some.inj hy ▸ hkept, heq⟩

theorem reads_all {xs : List α} (hok : ∀ x ∈ xs, c.Ok x) (hkept : ∀ x ∈ xs, c.Kept x) :
    ∃ vs, List.Forall₂ (fun x v => c.dump x = some v) xs vs ∧ tidyElements vs ∧
      List.Forall₂ (fun v x => c.validate v = some x) vs xs := by
  induction xs with
  | nil => exact ⟨[], .nil, trivial, .nil⟩
  | cons x xs ih =>
    rw [List.forall_mem_cons] at hok hkept
    obtain ⟨v, hv, htidy, hvalid⟩ := c.reads hok.1 hkept.1
    obtain ⟨vs, hvs, htidies, hvalids⟩ := ih hok.2 hkept.2
    exact ⟨v :: vs, .cons hv hvs, ⟨htidy, htidies⟩, .cons hvalid hvalids⟩

theorem back_all {xs : List α} {vs ds : List (Data F)} (hok : ∀ x ∈ xs, c.Ok x)
    (hvs : List.Forall₂ (fun x v => c.dump x = some v) xs vs) (hds : Y.readElements vs = some ds)
    (hvalid : List.Forall₂ (fun d x => c.validate d = some x) ds xs) : (∀ x ∈ xs, c.Kept x) ∧ ds = vs := by
  induction hvs generalizing ds with
  | nil => exact ⟨List.forall_mem_nil _, (Option.some.inj hds).symm⟩
  | cons hv _ ih =>
    rw [List.forall_mem_cons] at hok
    rw [Dialects.readElements] at hds
    obtain ⟨d, hd, hds⟩ := Option.bind_eq_some_iff.1 hds
    obtain ⟨ds, hrest, rfl⟩ := Option.map_eq_some_iff.1 hds
    rw [List.forall₂_cons] at hvalid
    obtain ⟨hkept, rfl⟩ := c.back hok.1 hv hd hvalid.1
    obtain ⟨hkepts, rfl⟩ := ih hok.2 hrest hvalid.2
    exact ⟨List.forall_mem_cons.2 ⟨hkept, hkepts⟩, rfl⟩

def list : Model Y (List α) where
  dump xs := (xs.mapM c.dump).map .list
  validate
    | .list vs => vs.mapM c.validate
    | _ => none
  Ok xs := ∀ x ∈ xs, c.Ok x
  Kept xs := ∀ x ∈ xs, c.Kept x
  reads {xs} hok hkept := by
    obtain ⟨vs, hvs, htidy, hvalid⟩ := c.reads_all hok hkept
    exact ⟨.list vs, by rw [mapM_eq_some_iff.2 hvs]; rfl, htidy, mapM_eq_some_iff.2 hvalid⟩
  back {xs v d} hok hv hd hvalid := by
    obtain ⟨vs, hvs, rfl⟩ := Option.map_eq_some_iff.1 hv
    rw [Dialects.read] at hd
    obtain ⟨ds, hds, rfl⟩ := Option.map_eq_some_iff.1 hd
    obtain ⟨hkept, rfl⟩ := c.back_all hok (mapM_eq_some_iff.1 hvs) hds (mapM_eq_some_iff.1 hvalid)
    exact ⟨hkept, rfl⟩

def guard (ok : α → Bool) : Model Y α where
  dump := c.dump
  validate v := (c.validate v).filter ok
  Ok a := ok a = true ∧ c.Ok a
  Kept := c.Kept
  reads {a} hok hkept := by
    obtain ⟨v, hv, htidy, hvalid⟩ := c.reads hok.2 hkept
    exact ⟨v, hv, htidy, by rw [hvalid, Option.filter, if_pos hok.1]⟩
  back hok hv hd hvalid := c.back hok.2 hv hd (Option.filter_eq_some_iff.1 hvalid).1

def via (e : β ≃ α) : Model Y β where
  dump b := c.dump (e b)
  validate v := (c.validate v).map e.symm
  Ok b := c.Ok (e b)
  Kept b := c.Kept (e b)
  reads hok hkept := by
    obtain ⟨v, hv, htidy, hvalid⟩ := c.reads hok hkept
    exact ⟨v, hv, htidy, by rw [hvalid, Option.map_some, e.symm_apply_apply]⟩
  back hok hv hd hvalid := by
    obtain ⟨x, hx, rfl⟩ := Option.map_eq_some_iff.1 hvalid
    rw [e.apply_symm_apply] at hok hv ⊢
    exact c.back hok hv hd hx

end

def pair (c : Model Y α) (c' : Model Y β) : Model Y (α × β) where
  dump a := (c.dump a.1).bind fun v => (c'.dump a.2).map fun w => .list [v, w]
  validate
    | .list [v, w] => (c.validate v).bind fun a => (c'.validate w).map fun b => (a, b)
    | _ => none
  Ok a := c.Ok a.1 ∧ c'.Ok a.2
  Kept a := c.Kept a.1 ∧ c'.Kept a.2
  reads hok hkept := by
    obtain ⟨v, hv, htidy, hvalid⟩ := c.reads hok.1 hkept.1
    obtain ⟨w, hw, htidy', hvalid'⟩ := c'.reads hok.2 hkept.2
    exact ⟨.list [v, w], by rw [hv, hw]; rfl, ⟨htidy, htidy', trivial⟩, by simp only [hvalid, hvalid']; rfl⟩
  back {a vw d} hok hvw hd hvalid := by
    obtain ⟨v, hv, hvw⟩ := Option.bind_eq_some_iff.1 hvw
    obtain ⟨w, hw, rfl⟩ := Option.map_eq_some_iff.1 hvw
    rw [Dialects.read] at hd
    obtain ⟨ds, hds, rfl⟩ := Option.map_eq_some_iff.1 hd
    rw [Dialects.readElements] at hds
    obtain ⟨d, hread, hds⟩ := Option.bind_eq_some_iff.1 hds
    obtain ⟨tail, htail, rfl⟩ := Option.map_eq_some_iff.1 hds
    rw [Dialects.readElements] at htail
    obtain ⟨d', hd', htail⟩ := Option.bind_eq_some_iff.1 htail
    obtain ⟨last, hlast, rfl⟩ := Option.map_eq_some_iff.1 htail
    obtain rfl := Option.some.inj hlast
    obtain ⟨x, hx, hvalid⟩ := Option.bind_eq_some_iff.1 hvalid
    obtain ⟨y, hy, rfl⟩ := Option.map_eq_some_iff.1 hvalid
    obtain ⟨hkept, rfl⟩ := c.back hok.1 hv hread hx
    obtain ⟨hkept', rfl⟩ := c'.back hok.2 hw hd' hy
    exact ⟨⟨hkept, hkept'⟩, rfl⟩

end Model

section

variable {F : Type}

def lookup : List (Key × Data F) → String → Option (Data F)
  | [], _ => none
  | (k, v) :: kvs, n => if k.str? = some n then some v else lookup kvs n

def named (kvs : List (String × Data F)) : List (Key × Data F) := kvs.map fun e => (.str e.1, e.2)

theorem lookup_named (kvs : List (String × Data F)) (n : String) : lookup (named kvs) n = Dict.find kvs n := by
  induction kvs with
  | nil => rfl
  | cons e kvs ih =>
    rw [named, List.map_cons, lookup, Dict.find, ← named, ih]
    simp only [Key.str?, Option.some.injEq]

def isNull : Data F → Bool
  | .null => true
  | _ => false

theorem isNull_iff {v : Data F} : isNull v = true ↔ v = .null := by cases v <;> simp [isNull]

end

def ReadAs {F : Type} (Y : Dialects F) (kvs kvs' : List (String × Data F)) : Prop :=
  List.Forall₂ (fun e e' => e'.1 = e.1 ∧ Y.read e.2 = some e'.2) kvs kvs'

/-- The fields of a record. `used` are the keys that count as fields of a mapping. -/
structure Fields {F : Type} (Y : Dialects F) (α : Type) where
  names : List String
  aliases : List String
  dump : α → Option (List (String × Data F))
  used : (String → Option (Data F)) → List String
  validate : (String → Option (Data F)) → Option α
  Ok : α → Prop
  Kept : α → Prop
  keys : ∀ {a kvs}, dump a = some kvs → (kvs.map Prod.fst).Sublist names
  used_names : ∀ {L}, (∀ n ∈ aliases, L n = none) → used L = names
  reads : names.Nodup → ∀ {a}, Ok a → Kept a → ∃ kvs, dump a = some kvs ∧ (∀ e ∈ kvs, Tidy e.2) ∧
    ∀ L, (∀ n ∈ aliases, L n = none) → (∀ n ∈ names, L n = Dict.find kvs n) → validate L = some a
  back : names.Nodup → ∀ {a kvs kvs' L}, Ok a → dump a = some kvs → ReadAs Y kvs kvs' →
    (∀ n ∈ aliases, L n = none) → (∀ n ∈ names, L n = Dict.find kvs' n) → validate L = some a →
      Kept a ∧ kvs' = kvs

namespace Fields

variable {F α β : Type} {Y : Dialects F}

def nil : Fields Y Unit where
  names := []
  aliases := []
  dump _ := some []
  used _ := []
  validate _ := some ()
  Ok _ := True
  Kept _ := True
  keys h := by
    obtain rfl := Option.some.inj h
    exact .slnil
  used_names _ := rfl
  reads _ {a} _ _ := ⟨[], rfl, List.forall_mem_nil _, fun _ _ _ => rfl⟩
  back _ {a kvs kvs' L} _ hkvs hread _ _ _ := by
    obtain rfl := Option.some.inj hkvs
    exact ⟨trivial, List.forall₂_nil_left_iff.1 hread⟩

def usedKey (label : Option String) (name : String) (L : String → Option (Data F)) : String :=
  (label.filter fun key => (L key).isSome).getD name

def readField (c : Model Y α) (label : Option String) (name : String) (default : Option α)
    (L : String → Option (Data F)) : Option α :=
  (L (usedKey label name L)).elim default c.validate

/-- A field whose value is `None` is left out. -/
def writeField (name : String) (v : Data F) (kvs : List (String × Data F)) : List (String × Data F) :=
  if isNull v then kvs else (name, v) :: kvs

theorem usedKey_name {label : Option String} {name : String} {L : String → Option (Data F)}
    (h : ∀ n ∈ label, L n = none) : usedKey label name L = name := by
  cases label with
  | none => rfl
  | some key =>
    unfold usedKey
    rw [Option.filter, h key rfl]
    rfl

theorem find_left_out {fs : Fields Y β} {name : String} (hn : name ∉ fs.names) {b : β} {kvs : List (String × Data F)}
    (h : fs.dump b = some kvs) : Dict.find kvs name = none :=
  Dict.find_eq_none.2 fun hmem => hn ((fs.keys h).subset hmem)

theorem readAs_keys {kvs kvs' : List (String × Data F)} (h : ReadAs Y kvs kvs') :
    kvs'.map Prod.fst = kvs.map Prod.fst := by
  induction h with
  | nil => rfl
  | cons he _ ih => rw [List.map_cons, List.map_cons, he.1, ih]

theorem find_tail {name n : String} (h : n ≠ name) (v : Data F) (kvs : List (String × Data F)) :
    Dict.find ((name, v) :: kvs) n = Dict.find kvs n := by
  rw [Dict.find, if_neg h.symm]

def cons (name : String) (label : Option String) (default : Option α) (c : Model Y α) (fs : Fields Y β) :
    Fields Y (α × β) where
  names := name :: fs.names
  aliases := label.toList ++ fs.aliases
  dump a := (c.dump a.1).bind fun v => (fs.dump a.2).map (writeField name v)
  used L := usedKey label name L :: fs.used L
  validate L := (readField c label name default L).bind fun a => (fs.validate L).map fun b => (a, b)
  Ok a := c.Ok a.1 ∧ fs.Ok a.2
  Kept a := (c.dump a.1 = some .null → default = some a.1) ∧ (c.dump a.1 ≠ some .null → c.Kept a.1) ∧ fs.Kept a.2
  keys {a kvs} h := by
    obtain ⟨v, hv, h⟩ := Option.bind_eq_some_iff.1 h
    obtain ⟨rest, hrest, rfl⟩ := Option.map_eq_some_iff.1 h
    unfold writeField
    split_ifs
    · exact (fs.keys hrest).cons _
    · exact (fs.keys hrest).cons_cons _
  used_names {L} h := by
    rw [List.forall_mem_append] at h
    rw [fs.used_names h.2, usedKey_name fun n hn => h.1 n (Option.mem_toList.2 hn)]
  reads hn {a} hok hkept := by
    rw [List.nodup_cons] at hn
    obtain ⟨rest, hrest, htidy, hvalid⟩ := fs.reads hn.2 hok.2 hkept.2.2
    by_cases hnull : c.dump a.1 = some .null
    · refine ⟨rest, by rw [hnull, hrest]; rfl, htidy, fun L haliases hL => ?_⟩
      rw [List.forall_mem_append] at haliases
      rw [List.forall_mem_cons] at hL
      have hnone : L name = none := hL.1.trans (find_left_out hn.1 hrest)
      rw [readField, usedKey_name fun n hmem => haliases.1 n (Option.mem_toList.2 hmem), hnone, Option.elim_none,
        hkept.1 hnull, hvalid L haliases.2 hL.2]
      rfl
    · obtain ⟨v, hv, hvtidy, hvvalid⟩ := c.reads hok.1 (hkept.2.1 hnull)
      have hwrite : writeField name v rest = (name, v) :: rest := by
        rw [writeField, if_neg]
        intro h
        rw [hv, isNull_iff.1 h] at hnull
        exact hnull rfl
      refine ⟨(name, v) :: rest, by rw [hv, hrest, Option.bind_some, Option.map_some, hwrite],
        List.forall_mem_cons.2 ⟨hvtidy, htidy⟩, fun L haliases hL => ?_⟩
      rw [List.forall_mem_append] at haliases
      rw [List.forall_mem_cons, Dict.find, if_pos rfl] at hL
      rw [readField, usedKey_name fun n hmem => haliases.1 n (Option.mem_toList.2 hmem), hL.1, Option.elim_some,
        hvvalid, hvalid L haliases.2 fun n hmem => ?_]
      · rfl
      · exact (hL.2 n hmem).trans (find_tail (ne_of_mem_of_not_mem hmem hn.1) v rest)
  back hn {a kvs kvs' L} hok hkvs hread haliases hL hvalid := by
    rw [List.nodup_cons] at hn
    rw [List.forall_mem_append] at haliases
    obtain ⟨v, hv, hkvs⟩ := Option.bind_eq_some_iff.1 hkvs
    obtain ⟨rest, hrest, rfl⟩ := Option.map_eq_some_iff.1 hkvs
    obtain ⟨x, hx, hvalid⟩ := Option.bind_eq_some_iff.1 hvalid
    obtain ⟨y, hy, rfl⟩ := Option.map_eq_some_iff.1 hvalid
    rw [readField, usedKey_name fun n hmem => haliases.1 n (Option.mem_toList.2 hmem), hL name (.head _)] at hx
    unfold writeField at hread ⊢
    split_ifs at hread ⊢ with hnull
    · -- the field is left out, so the default was taken
      rw [isNull_iff] at hnull
      have hnone : Dict.find kvs' name = none := by
        rw [Dict.find_eq_none, readAs_keys hread]
        exact fun hmem => hn.1 ((fs.keys hrest).subset hmem)
      rw [hnone, Option.elim_none] at hx
      obtain ⟨hkept, heq⟩ := fs.back hn.2 hok.2 hrest hread haliases.2 (fun n hmem => hL n (.tail _ hmem)) hy
      exact ⟨⟨fun _ => hx, fun hne => absurd (hnull ▸ hv) hne, hkept⟩, heq⟩
    · rw [isNull_iff] at hnull
      cases hread with
      | cons he hread =>
        rename_i e' rest'
        obtain ⟨key, d⟩ := e'
        obtain ⟨rfl, hd⟩ := he
        rw [Dict.find, if_pos rfl, Option.elim_some] at hx
        obtain ⟨hkept, rfl⟩ := c.back hok.1 hv hd hx
        have hLrest : ∀ n ∈ fs.names, L n = Dict.find rest' n := fun n hmem =>
          (hL n (.tail _ hmem)).trans (find_tail (ne_of_mem_of_not_mem hmem hn.1) _ rest')
        obtain ⟨hkepts, rfl⟩ := fs.back hn.2 hok.2 hrest hread haliases.2 hLrest hy
        exact ⟨⟨fun h => absurd (Option.some.inj (hv.symm.trans h)) hnull, fun _ => hkept, hkepts⟩, rfl⟩

theorem names_nil : (nil (Y := Y)).names = [] := rfl

theorem aliases_nil : (nil (Y := Y)).aliases = [] := rfl

theorem names_cons {name : String} {label : Option String} {default : Option α} {c : Model Y α} {fs : Fields Y β} :
    (cons name label default c fs).names = name :: fs.names := rfl

theorem aliases_cons {name : String} {label : Option String} {default : Option α} {c : Model Y α} {fs : Fields Y β} :
    (cons name label default c fs).aliases = label.toList ++ fs.aliases := rfl

theorem cons_validate {name : String} {label : Option String} {default : Option α} {c : Model Y α} {fs : Fields Y β}
    {L : String → Option (Data F)} {a : α × β} :
    (cons name label default c fs).validate L = some a ↔
      readField c label name default L = some a.1 ∧ fs.validate L = some a.2 := by
  constructor
  · intro h
    obtain ⟨x, hx, h⟩ := Option.bind_eq_some_iff.1 h
    obtain ⟨y, hy, rfl⟩ := Option.map_eq_some_iff.1 h
    exact ⟨hx, hy⟩
  · rintro ⟨hx, hy⟩
    exact Option.bind_eq_some_iff.2 ⟨a.1, hx, Option.map_eq_some_iff.2 ⟨a.2, hy, rfl⟩⟩

theorem named_of_read {kvs : List (String × Data F)} {ds : List (Key × Data F)}
    (h : Y.readMembers (named kvs) = some ds) (hstr : ∀ e ∈ ds, ∃ s, e.1 = .str s) :
    ∃ kvs', ds = named kvs' ∧ ReadAs Y kvs kvs' := by
  induction kvs generalizing ds with
  | nil =>
    obtain rfl := Option.some.inj h
    exact ⟨[], rfl, .nil⟩
  | cons e kvs ih =>
    rw [named, List.map_cons, Dialects.readMembers] at h
    obtain ⟨v, hv, h⟩ := Option.bind_eq_some_iff.1 h
    obtain ⟨rest, hrest, rfl⟩ := Option.map_eq_some_iff.1 h
    rw [List.forall_mem_cons] at hstr
    obtain ⟨s, hs⟩ := hstr.1
    obtain ⟨kvs', rfl, hread⟩ := ih hrest hstr.2
    obtain ⟨-, rfl⟩ := Y.stable_of_readKey hs
    refine ⟨(e.1, v) :: kvs', ?_, .cons ⟨rfl, hv⟩ hread⟩
    exact congrArg (fun k => (k, v) :: named kvs') hs

def closed (fs : Fields Y α) (kvs : List (Key × Data F)) : Bool :=
  kvs.all fun e => e.1.str?.any (fs.used (lookup kvs)).contains

end Fields

namespace Model

variable {F α : Type} {Y : Dialects F}

def record (fs : Fields Y α) (hn : (fs.names ++ fs.aliases).Nodup) : Model Y α where
  dump a := (fs.dump a).map fun kvs => .dict (named kvs)
  validate
    | .dict kvs => if fs.closed kvs then fs.validate (lookup kvs) else none
    | _ => none
  Ok := fs.Ok
  Kept := fs.Kept
  reads {a} hok hkept := by
    rw [List.nodup_append'] at hn
    obtain ⟨kvs, hkvs, htidy, hvalid⟩ := fs.reads hn.1 hok hkept
    have hkeys : (kvs.map Prod.fst).Nodup := (fs.keys hkvs).nodup hn.1
    have haliases : ∀ n ∈ fs.aliases, lookup (named kvs) n = none := by
      intro n hmem
      rw [lookup_named, Dict.find_eq_none]
      exact fun h => hn.2.2 ((fs.keys hkvs).subset h) hmem
    have hclosed : fs.closed (named kvs) = true := by
      rw [Fields.closed, fs.used_names haliases, List.all_eq_true]
      intro e he
      obtain ⟨e, hmem, rfl⟩ := List.mem_map.1 he
      exact List.contains_iff_mem.2 ((fs.keys hkvs).subset (List.mem_map_of_mem hmem))
    refine ⟨.dict (named kvs), by rw [hkvs]; rfl, ⟨?_, ?_⟩, ?_⟩
    · rw [named, List.map_map]
      have hstr : (kvs.map (Prod.fst ∘ fun e : String × Data F => (Key.str e.1, e.2))) =
          (kvs.map Prod.fst).map Key.str := by rw [List.map_map]; rfl
      rw [hstr]
      exact hkeys.map fun _ _ => Key.str.inj
    · rw [tidyMembers_iff]
      intro e he
      obtain ⟨e, hmem, rfl⟩ := List.mem_map.1 he
      exact ⟨⟨e.1, rfl⟩, htidy e hmem⟩
    · simp only [hclosed, if_true]
      exact hvalid _ haliases fun n _ => lookup_named kvs n
  back {a v d} hok hv hd hvalid := by
    rw [List.nodup_append'] at hn
    obtain ⟨kvs, hkvs, rfl⟩ := Option.map_eq_some_iff.1 hv
    rw [Dialects.read] at hd
    obtain ⟨ds, hds, hd⟩ := Option.bind_eq_some_iff.1 hd
    split_ifs at hd
    obtain rfl := Option.some.inj hd
    have hclosed : fs.closed ds = true := by
      by_contra hne
      simp only [hne] at hvalid
      cases hvalid
    simp only [hclosed, if_true] at hvalid
    have hstr : ∀ e ∈ ds, ∃ s, e.1 = .str s := by
      intro e he
      have hany := List.all_eq_true.1 hclosed e he
      revert hany
      cases e.1 <;> simp [Key.str?]
    obtain ⟨kvs', rfl, hread⟩ := Fields.named_of_read hds hstr
    have haliases : ∀ n ∈ fs.aliases, lookup (named kvs') n = none := by
      intro n hmem
      rw [lookup_named, Dict.find_eq_none, Fields.readAs_keys hread]
      exact fun h => hn.2.2 ((fs.keys hkvs).subset h) hmem
    obtain ⟨hkept, rfl⟩ := fs.back hn.1 hok hkvs hread haliases (fun n _ => lookup_named kvs' n) hvalid
    exact ⟨hkept, rfl⟩

theorem checkedRecord_validate {β : Type} {fs : Fields Y α} {hn : (fs.names ++ fs.aliases).Nodup} {e : β ≃ α}
    {ok : β → Bool} {b : β} {kvs : List (Key × Data F)} :
    (((record fs hn).via e).guard ok).validate (.dict kvs) = some b ↔
      fs.closed kvs = true ∧ fs.validate (lookup kvs) = some (e b) ∧ ok b = true := by
  change (Option.map _ (if fs.closed kvs then fs.validate (lookup kvs) else none)).filter ok = some b ↔ _
  rw [Option.filter_eq_some_iff, Option.map_eq_some_iff]
  constructor
  · rintro ⟨⟨x, hx, rfl⟩, hok⟩
    split_ifs at hx with hclosed
    rw [e.apply_symm_apply]
    exact ⟨hclosed, hx, hok⟩
  · rintro ⟨hclosed, hvalid, hok⟩
    rw [if_pos hclosed]
    exact ⟨⟨e b, hvalid, e.symm_apply_apply b⟩, hok⟩

theorem checkedRecord_dict {β : Type} {fs : Fields Y α} {hn : (fs.names ++ fs.aliases).Nodup} {e : β ≃ α}
    {ok : β → Bool} {y : Data F} (hdict : ∀ kvs, y ≠ .dict kvs) :
    (((record fs hn).via e).guard ok).validate y = none := by
  cases y with
  | dict kvs => exact absurd rfl (hdict kvs)
  | _ => rfl

def NeverNull (c : Model Y α) : Prop := ∀ a, c.dump a ≠ some .null

section

variable {β : Type} {c : Model Y α}

theorem neverNull_text : (text (Y := Y)).NeverNull := fun _ h => by cases Option.some.inj h

theorem neverNull_int {parse : Data F → Option ℤ} {h : ∀ z, parse (.int z) = some z} :
    (int (Y := Y) parse h).NeverNull := fun _ h => by cases Option.some.inj h

theorem neverNull_bool {parse : Data F → Option Bool} {h : ∀ b, parse (.bool b) = some b} :
    (bool (Y := Y) parse h).NeverNull := fun _ h => by cases Option.some.inj h

theorem neverNull_enumeration {text : α → String} {ofText : String → Option α} {h : ∀ a, ofText (text a) = some a}
    {hinj : ∀ s a, ofText s = some a → s = text a} : (enumeration (Y := Y) text ofText h hinj).NeverNull :=
  fun _ h => by cases Option.some.inj h

theorem neverNull_list : c.list.NeverNull := by
  intro xs h
  obtain ⟨vs, -, h⟩ := Option.map_eq_some_iff.1 h
  cases h

theorem neverNull_pair {c' : Model Y β} : (c.pair c').NeverNull := by
  intro a h
  obtain ⟨v, -, h⟩ := Option.bind_eq_some_iff.1 h
  obtain ⟨w, -, h⟩ := Option.map_eq_some_iff.1 h
  cases h

theorem neverNull_record {fs : Fields Y α} {hn : (fs.names ++ fs.aliases).Nodup} : (record fs hn).NeverNull := by
  intro a h
  obtain ⟨kvs, -, h⟩ := Option.map_eq_some_iff.1 h
  cases h

theorem neverNull_via {e : β ≃ α} (h : c.NeverNull) : (c.via e).NeverNull := fun b => h (e b)

end

end Model

namespace Fields

variable {F α β : Type} {Y : Dialects F} {name : String} {label : Option String} {c : Model Y α} {fs : Fields Y β}
  {b : β}

theorem kept_cons {default : Option α} {a : α} (h : c.NeverNull) :
    (cons name label default c fs).Kept (a, b) ↔ c.Kept a ∧ fs.Kept b :=
  ⟨fun hkept => hkept.2.imp_left fun hfull => hfull (h a),
    fun hkept => ⟨fun hnull => absurd hnull (h a), fun _ => hkept.1, hkept.2⟩⟩

theorem kept_optional {a : Option α} {hnull : c.validate .null = none} (h : c.NeverNull) :
    (cons name label (some none) (c.option hnull) fs).Kept (a, b) ↔ (∀ x ∈ a, c.Kept x) ∧ fs.Kept b := by
  cases a with
  | none =>
    constructor
    · exact fun hkept => ⟨fun x hx => absurd hx (Option.not_mem_none x), hkept.2.2⟩
    · exact fun hkept => ⟨fun _ => rfl, fun hne => absurd rfl hne, hkept.2⟩
  | some a =>
    constructor
    · exact fun hkept => ⟨hkept.2.1 (h a), hkept.2.2⟩
    · exact fun hkept => ⟨fun hnull => absurd hnull (h a), fun _ => hkept.1, hkept.2⟩

end Fields

end GraphSkillRuntime.YamlModels
