import GraphSkillRuntime.PyData
import Mathlib.Logic.Equiv.Defs

/-!
Typed values stored as JSON with sorted keys. A codec says what is written of a value, how a value is read
from JSON, which values are read alike, and which values are canonical: those that come back alike.
-/

namespace GraphSkillRuntime.SnapshotCodec

open OrderedDict JsonText PyData

structure Codec (F α : Type) where
  encode : α → Option (Json F)
  decode : Json F → Option α
  Good : α → Prop
  Same : α → α → Prop
  Canon : α → Prop
  distinct : ∀ {a v}, Good a → encode a = some v → v.Distinct
  reads : ∀ {a}, Canon a → ∃ v b, encode a = some v ∧ decode v = some b ∧ Same b a
  canon : ∀ {a v b}, encode a = some v → decode v = some b → Same b a → Canon a

namespace Codec

variable {F α β : Type}

class Exact (c : Codec F α) : Prop where
  same : ∀ a b, c.Same a b ↔ a = b

section

variable (c : Codec F α) (P : FloatFormat F)

def save (a : α) : Option (List Char) := (c.encode a).map (dumps P)

def load (text : List Char) : Option α := (loads P text).bind c.decode

theorem load_save_iff {a : α} (hgood : c.Good a) :
    (∃ b, (c.save P a).bind (c.load P) = some b ∧ c.Same b a) ↔ c.Canon a := by
  constructor
  · rintro ⟨b, hb, hsame⟩
    obtain ⟨text, htext, hb⟩ := Option.bind_eq_some_iff.1 hb
    obtain ⟨v, hv, rfl⟩ := Option.map_eq_some_iff.1 htext
    rw [load, loads_dumps P (c.distinct hgood hv)] at hb
    exact c.canon hv hb hsame
  · intro h
    obtain ⟨v, b, hv, hb, hsame⟩ := c.reads h
    refine ⟨b, ?_, hsame⟩
    rw [save, hv, Option.map_some, Option.bind_some, load, loads_dumps P (c.distinct hgood hv)]
    exact hb

end

def scalar (enc : α → Json F) (dec : Json F → Option α) (hdistinct : ∀ a, (enc a).Distinct)
    (hdec : ∀ a, dec (enc a) = some a) : Codec F α where
  encode a := some (enc a)
  decode := dec
  Good _ := True
  Same := Eq
  Canon _ := True
  distinct {a v} _ h := by
    obtain rfl := Option.some.inj h
    exact hdistinct a
  reads {a} _ := ⟨enc a, a, rfl, hdec a, rfl⟩
  canon _ _ _ := trivial

def str : Codec F String :=
  scalar .str (fun v => match v with | .str s => some s | _ => none) (fun _ => trivial) (fun _ => rfl)

def int : Codec F ℤ :=
  scalar .int (fun v => match v with | .int z => some z | _ => none) (fun _ => trivial) (fun _ => rfl)

def bool : Codec F Bool :=
  scalar .bool (fun v => match v with | .bool b => some b | _ => none) (fun _ => trivial) (fun _ => rfl)

def enumeration (text : α → String) (ofText : String → Option α) (h : ∀ a, ofText (text a) = some a) : Codec F α :=
  scalar (fun a => .str (text a)) (fun v => match v with | .str s => ofText s | _ => none) (fun _ => trivial) h

def literal (text : String) : Codec F Unit :=
  enumeration (fun _ => text) (fun s => if s = text then some () else none) (fun _ => if_pos rfl)

/-- Data of any type, first brought to JSON types by `serialize`, which leaves JSON data as it is. -/
def any (serialize : Data F → Option (Data F)) (hjson : ∀ v : Json F, serialize (ofJson v) = some (ofJson v))
    (hdistinct : ∀ {y z}, serialize y = some z → y.Distinct → z.Distinct) : Codec F (Data F) where
  encode y := (serialize y).bind toJson?
  decode v := some (ofJson v)
  Good y := y.Distinct
  Same := Eq
  Canon y := ∃ v : Json F, sortJson v = v ∧ y = ofJson v
  distinct {y v} hy h := by
    obtain ⟨z, hz, hv⟩ := Option.bind_eq_some_iff.1 h
    exact distinct_toJson? z v (hdistinct hz hy) hv
  reads := by
    rintro y ⟨v, hs, rfl⟩
    exact ⟨v, _, by rw [hjson, Option.bind_some, toJson?_ofJson, hs], rfl, rfl⟩
  canon := by
    intro y v b hv hb hsame
    obtain rfl := Option.some.inj hb
    obtain rfl := hsame
    rw [hjson, Option.bind_some, toJson?_ofJson] at hv
    exact ⟨v, Option.some.inj hv, rfl⟩

def data : Codec F (Data F) :=
  any some (fun _ => rfl) fun h hy => Option.some.inj h ▸ hy

def unread : Codec F (Data F) where
  encode := toJson?
  decode v := some (ofJson v)
  Good y := y.Distinct
  Same _ _ := True
  Canon y := (toJson? y).isSome
  distinct hy h := distinct_toJson? _ _ hy h
  reads := by
    intro y hy
    obtain ⟨v, hv⟩ := Option.isSome_iff_exists.1 hy
    exact ⟨v, _, hv, rfl, trivial⟩
  canon := by
    intro y v b hv _ _
    exact Option.isSome_iff_exists.2 ⟨v, hv⟩

instance (enc : α → Json F) (dec : Json F → Option α) (hdistinct hdec) : Exact (scalar enc dec hdistinct hdec) :=
  ⟨fun _ _ => Iff.rfl⟩

instance : Exact (str (F := F)) := ⟨fun _ _ => Iff.rfl⟩

instance : Exact (int (F := F)) := ⟨fun _ _ => Iff.rfl⟩

instance : Exact (bool (F := F)) := ⟨fun _ _ => Iff.rfl⟩

instance (text : α → String) (ofText : String → Option α) (h) : Exact (enumeration (F := F) text ofText h) :=
  ⟨fun _ _ => Iff.rfl⟩

instance (text : String) : Exact (literal (F := F) text) := ⟨fun _ _ => Iff.rfl⟩

instance (serialize : Data F → Option (Data F)) (hjson)
    (hdistinct : ∀ {y z}, serialize y = some z → y.Distinct → z.Distinct) :
    Exact (any serialize hjson hdistinct) := ⟨fun _ _ => Iff.rfl⟩

instance : Exact (data (F := F)) := ⟨fun _ _ => Iff.rfl⟩

theorem str_null : (str (F := F)).decode .null = none := rfl

section

variable (c : Codec F α)

def option (hnull : c.decode .null = none) : Codec F (Option α) where
  encode
    | none => some .null
    | some a => c.encode a
  decode v := match v with
    | .null => some none
    | v => (c.decode v).map some
  Good a := ∀ x ∈ a, c.Good x
  Same := Option.Rel c.Same
  Canon a := ∀ x ∈ a, c.Canon x
  distinct {a v} hgood h := by
    cases a with
    | none =>
      obtain rfl := Option.some.inj h
      trivial
    | some a => exact c.distinct (hgood a rfl) h
  reads {a} h := by
    cases a with
    | none => exact ⟨.null, none, rfl, rfl, .none⟩
    | some a =>
      obtain ⟨v, b, hv, hb, hsame⟩ := c.reads (h a rfl)
      refine ⟨v, some b, hv, ?_, .some hsame⟩
      split
      · rw [hnull] at hb
        cases hb
      · rw [hb]
        rfl
  canon {a v b} hv hb hsame := by
    rintro x ⟨rfl⟩
    split at hb
    · obtain rfl := Option.some.inj hb
      cases hsame
    · obtain ⟨y, hy, rfl⟩ := Option.map_eq_some_iff.1 hb
      obtain ⟨hsame⟩ := hsame
      exact c.canon hv hy hsame

theorem rel_iff [Exact c] (a b : Option α) : Option.Rel c.Same a b ↔ a = b := by
  constructor
  · rintro (⟨h⟩ | _)
    · rw [(Exact.same _ _).1 h]
    · rfl
  · rintro rfl
    cases a with
    | none => exact .none
    | some a => exact .some ((Exact.same _ _).2 rfl)

instance (hnull : c.decode .null = none) [Exact c] : Exact (c.option hnull) := ⟨c.rel_iff⟩

theorem mapM_eq_some_iff {γ : Type} {f : α → Option γ} {xs : List α} {ys : List γ} :
    xs.mapM f = some ys ↔ List.Forall₂ (fun x y => f x = some y) xs ys := by
  induction xs generalizing ys with
  | nil =>
    rw [List.mapM_nil, List.forall₂_nil_left_iff]
    exact ⟨fun h => (Option.some.inj h).symm, fun h => h ▸ rfl⟩
  | cons x xs ih =>
    rw [List.mapM_cons]
    constructor
    · intro h
      obtain ⟨y, hy, h⟩ := Option.bind_eq_some_iff.1 h
      obtain ⟨zs, hzs, h⟩ := Option.bind_eq_some_iff.1 h
      rw [← Option.some.inj h]
      exact .cons hy (ih.1 hzs)
    · rintro (_ | ⟨hy, hys⟩)
      rw [hy, ih.2 hys]
      rfl

theorem distinct_all {xs : List α} {vs : List (Json F)} (h : List.Forall₂ (fun x v => c.encode x = some v) xs vs)
    (hgood : ∀ x ∈ xs, c.Good x) : ∀ v ∈ vs, v.Distinct := by
  induction h with
  | nil => exact List.forall_mem_nil _
  | cons hv _ ih =>
    rw [List.forall_mem_cons] at hgood
    exact List.forall_mem_cons.2 ⟨c.distinct hgood.1 hv, ih hgood.2⟩

theorem reads_all {xs : List α} (h : ∀ x ∈ xs, c.Canon x) :
    ∃ vs ys, List.Forall₂ (fun x v => c.encode x = some v) xs vs ∧
      List.Forall₂ (fun v y => c.decode v = some y) vs ys ∧ List.Forall₂ c.Same ys xs := by
  induction xs with
  | nil => exact ⟨[], [], .nil, .nil, .nil⟩
  | cons x xs ih =>
    rw [List.forall_mem_cons] at h
    obtain ⟨v, y, hv, hy, hsame⟩ := c.reads h.1
    obtain ⟨vs, ys, hvs, hys, hsames⟩ := ih h.2
    exact ⟨v :: vs, y :: ys, .cons hv hvs, .cons hy hys, .cons hsame hsames⟩

theorem canon_all {xs ys : List α} {vs : List (Json F)} (hvs : List.Forall₂ (fun x v => c.encode x = some v) xs vs)
    (hys : List.Forall₂ (fun v y => c.decode v = some y) vs ys) (hsame : List.Forall₂ c.Same ys xs) :
    ∀ x ∈ xs, c.Canon x := by
  induction hvs generalizing ys with
  | nil => exact List.forall_mem_nil _
  | cons hv _ ih =>
    cases hys with
    | cons hy hys =>
      cases hsame with
      | cons h hsame => exact List.forall_mem_cons.2 ⟨c.canon hv hy h, ih hys hsame⟩

def list : Codec F (List α) where
  encode xs := (xs.mapM c.encode).map .list
  decode
    | .list vs => vs.mapM c.decode
    | _ => none
  Good xs := ∀ x ∈ xs, c.Good x
  Same := List.Forall₂ c.Same
  Canon xs := ∀ x ∈ xs, c.Canon x
  distinct {xs v} hgood h := by
    obtain ⟨vs, hvs, rfl⟩ := Option.map_eq_some_iff.1 h
    exact distinctElements_iff.2 (c.distinct_all (mapM_eq_some_iff.1 hvs) hgood)
  reads {xs} h := by
    obtain ⟨vs, ys, hvs, hys, hsame⟩ := c.reads_all h
    exact ⟨.list vs, ys, by rw [mapM_eq_some_iff.2 hvs]; rfl, mapM_eq_some_iff.2 hys, hsame⟩
  canon {xs v ys} hv hys hsame := by
    obtain ⟨vs, hvs, rfl⟩ := Option.map_eq_some_iff.1 hv
    exact c.canon_all (mapM_eq_some_iff.1 hvs) (mapM_eq_some_iff.1 hys) hsame

theorem same_eq [Exact c] : c.Same = Eq := by
  funext a b
  exact propext (Exact.same a b)

instance [Exact c] : Exact c.list where
  same a b := by
    change List.Forall₂ c.Same a b ↔ a = b
    rw [c.same_eq, List.forall₂_eq_eq_eq]

def pair (d : Codec F β) : Codec F (α × β) where
  encode a := (c.encode a.1).bind fun v => (d.encode a.2).map fun w => .list [v, w]
  decode
    | .list [v, w] => (c.decode v).bind fun a => (d.decode w).map fun b => (a, b)
    | _ => none
  Good a := c.Good a.1 ∧ d.Good a.2
  Same a b := c.Same a.1 b.1 ∧ d.Same a.2 b.2
  Canon a := c.Canon a.1 ∧ d.Canon a.2
  distinct {a v} hgood h := by
    obtain ⟨v, hv, h⟩ := Option.bind_eq_some_iff.1 h
    obtain ⟨w, hw, rfl⟩ := Option.map_eq_some_iff.1 h
    exact ⟨c.distinct hgood.1 hv, d.distinct hgood.2 hw, trivial⟩
  reads {a} h := by
    obtain ⟨v, x, hv, hx, hsame⟩ := c.reads h.1
    obtain ⟨w, y, hw, hy, hsame'⟩ := d.reads h.2
    exact ⟨.list [v, w], (x, y), by rw [hv, hw]; rfl, by simp only [hx, hy]; rfl, hsame, hsame'⟩
  canon {a v b} hvw hb hsame := by
    obtain ⟨v, hv, h⟩ := Option.bind_eq_some_iff.1 hvw
    obtain ⟨w, hw, rfl⟩ := Option.map_eq_some_iff.1 h
    obtain ⟨x, hx, h⟩ := Option.bind_eq_some_iff.1 hb
    obtain ⟨y, hy, rfl⟩ := Option.map_eq_some_iff.1 h
    exact ⟨c.canon hv hx hsame.1, d.canon hw hy hsame.2⟩

instance (d : Codec F β) [Exact c] [Exact d] : Exact (c.pair d) where
  same a b := by
    change c.Same a.1 b.1 ∧ d.Same a.2 b.2 ↔ a = b
    rw [Exact.same, Exact.same, Prod.ext_iff]

def values (d : Dict String α) : List α := d.entries.map Prod.snd

theorem entries_ofList_zip {ks : List String} {xs : List α} (hn : ks.Nodup) (hlen : ks.length = xs.length) :
    (Dict.ofList (ks.zip xs)).entries = ks.zip xs := by
  apply Dict.entries_ofList
  rw [List.map_fst_zip hlen.le]
  exact hn

theorem pairwise_zip {ks : List String} {xs : List α} (hlen : ks.length = xs.length) :
    ((ks.zip xs).Pairwise fun a b => a.1 ≤ b.1) ↔ ks.Pairwise (· ≤ ·) := by
  conv_rhs => rw [← List.map_fst_zip hlen.le]
  exact List.pairwise_map.symm

def dictOf : Codec F (Dict String α) where
  encode d := ((values d).mapM c.encode).map fun vs => .dict (orderBy Prod.fst (d.keys.zip vs))
  decode
    | .dict kvs => ((kvs.map Prod.snd).mapM c.decode).map fun xs => .ofList ((kvs.map Prod.fst).zip xs)
    | _ => none
  Good d := ∀ x ∈ values d, c.Good x
  Same d e := d.keys = e.keys ∧ List.Forall₂ c.Same (values d) (values e)
  Canon d := d.keys.Pairwise (· ≤ ·) ∧ ∀ x ∈ values d, c.Canon x
  distinct {d v} hgood h := by
    obtain ⟨vs, hvs, rfl⟩ := Option.map_eq_some_iff.1 h
    have hall := mapM_eq_some_iff.1 hvs
    have hlen : d.keys.length = vs.length := by rw [← hall.length_eq, values, Dict.keys, List.length_map,
      List.length_map]
    have hperm : (orderBy Prod.fst (d.keys.zip vs)).Perm (d.keys.zip vs) := orderBy_perm
    constructor
    · rw [(hperm.map Prod.fst).nodup_iff, List.map_fst_zip hlen.le]
      exact d.nodup
    · rw [distinctMembers_iff]
      intro e he
      exact c.distinct_all hall hgood e.2 (List.of_mem_zip (hperm.mem_iff.1 he)).2
  reads {d} h := by
    obtain ⟨vs, ys, hvs, hys, hsame⟩ := c.reads_all h.2
    have hlen : d.keys.length = vs.length := by rw [← hvs.length_eq, values, Dict.keys, List.length_map,
      List.length_map]
    have hlen' : d.keys.length = ys.length := hlen.trans hys.length_eq
    have hentries : (Dict.ofList (d.keys.zip ys)).entries = d.keys.zip ys := entries_ofList_zip d.nodup hlen'
    refine ⟨.dict (d.keys.zip vs), .ofList (d.keys.zip ys), ?_, ?_, ?_, ?_⟩
    · rw [mapM_eq_some_iff.2 hvs, Option.map_some, orderBy_eq_self ((pairwise_zip hlen).2 h.1)]
    · simp only [List.map_snd_zip hlen.ge, List.map_fst_zip hlen.le, mapM_eq_some_iff.2 hys, Option.map_some]
    · rw [Dict.keys, hentries, List.map_fst_zip hlen'.le]
    · rw [values, hentries, List.map_snd_zip hlen'.ge]
      exact hsame
  canon {d v b} hv hb hsame := by
    obtain ⟨vs, hvs, rfl⟩ := Option.map_eq_some_iff.1 hv
    obtain ⟨xs, hxs, rfl⟩ := Option.map_eq_some_iff.1 hb
    have hall := mapM_eq_some_iff.1 hvs
    have hlen : d.keys.length = vs.length := by rw [← hall.length_eq, values, Dict.keys, List.length_map,
      List.length_map]
    have hperm : (orderBy Prod.fst (d.keys.zip vs)).Perm (d.keys.zip vs) := orderBy_perm
    have hread := mapM_eq_some_iff.1 hxs
    have hlen' : ((orderBy Prod.fst (d.keys.zip vs)).map Prod.fst).length = xs.length := by
      rw [← hread.length_eq, List.length_map, List.length_map]
    have hn : ((orderBy Prod.fst (d.keys.zip vs)).map Prod.fst).Nodup := by
      rw [(hperm.map Prod.fst).nodup_iff, List.map_fst_zip hlen.le]
      exact d.nodup
    rw [Dict.keys, values, entries_ofList_zip hn hlen', List.map_fst_zip hlen'.le, List.map_snd_zip hlen'.ge] at hsame
    -- the keys are read back in order, so they were in order
    have hsorted : d.keys.Pairwise (· ≤ ·) := by
      rw [← hsame.1]
      exact List.pairwise_map.2 orderBy_pairwise
    rw [orderBy_eq_self ((pairwise_zip hlen).2 hsorted), List.map_snd_zip hlen.ge] at hread
    exact ⟨hsorted, c.canon_all hall hread hsame.2⟩

instance [Exact c] : Exact c.dictOf where
  same d e := by
    change d.keys = e.keys ∧ List.Forall₂ c.Same (values d) (values e) ↔ d = e
    rw [c.same_eq, List.forall₂_eq_eq_eq]
    constructor
    · rintro ⟨hkeys, hvalues⟩
      apply Dict.ext_entries
      rw [← List.zip_unzip d.entries, ← List.zip_unzip e.entries, List.unzip_eq_map, List.unzip_eq_map]
      exact congrArg₂ List.zip hkeys hvalues
    · rintro rfl
      exact ⟨rfl, rfl⟩

end

end Codec

structure Fields (F α : Type) where
  names : List String
  encode : α → Option (List (String × Json F))
  decode : List (String × Json F) → Option α
  Good : α → Prop
  Same : α → α → Prop
  Canon : α → Prop
  keys : ∀ {a kvs}, encode a = some kvs → kvs.map Prod.fst = names
  frame : ∀ {kvs kvs'}, (∀ n ∈ names, Dict.find kvs n = Dict.find kvs' n) → decode kvs = decode kvs'
  distinct : ∀ {a kvs}, Good a → encode a = some kvs → ∀ e ∈ kvs, e.2.Distinct
  reads : names.Nodup → ∀ {a}, Canon a → ∃ kvs b, encode a = some kvs ∧ decode kvs = some b ∧ Same b a
  canon : names.Nodup → ∀ {a kvs b}, encode a = some kvs → decode kvs = some b → Same b a → Canon a

namespace Fields

variable {F α β : Type}

def nil : Fields F Unit where
  names := []
  encode _ := some []
  decode _ := some ()
  Good _ := True
  Same _ _ := True
  Canon _ := True
  keys h := by
    obtain rfl := Option.some.inj h
    rfl
  frame _ := rfl
  distinct _ h := by
    obtain rfl := Option.some.inj h
    exact List.forall_mem_nil _
  reads _ {a} _ := ⟨[], (), rfl, rfl, trivial⟩
  canon _ {_ _ _} _ _ _ := trivial

def readField (c : Codec F α) (name : String) (default : Option α) (kvs : List (String × Json F)) : Option α :=
  match Dict.find kvs name with
  | some v => c.decode v
  | none => default

def writeField (name : String) (v : Option (Json F)) (kvs : Option (List (String × Json F))) :
    Option (List (String × Json F)) :=
  v.bind fun v => kvs.map ((name, v) :: ·)

theorem writeField_eq_some {name : String} {v : Option (Json F)} {kvs : Option (List (String × Json F))}
    {all : List (String × Json F)} :
    writeField name v kvs = some all ↔ ∃ w ws, v = some w ∧ kvs = some ws ∧ all = (name, w) :: ws := by
  constructor
  · intro h
    obtain ⟨w, hw, h⟩ := Option.bind_eq_some_iff.1 h
    obtain ⟨ws, hws, rfl⟩ := Option.map_eq_some_iff.1 h
    exact ⟨w, ws, hw, hws, rfl⟩
  · rintro ⟨w, ws, rfl, rfl, rfl⟩
    rfl

theorem readField_head (c : Codec F α) (name : String) (default : Option α) (v : Json F)
    (kvs : List (String × Json F)) : readField c name default ((name, v) :: kvs) = c.decode v := by
  rw [readField, Dict.find, if_pos rfl]

theorem decode_tail (fs : Fields F α) {name : String} (h : name ∉ fs.names) (v : Json F)
    (kvs : List (String × Json F)) : fs.decode ((name, v) :: kvs) = fs.decode kvs := by
  apply fs.frame
  intro n hn
  rw [Dict.find, if_neg]
  rintro rfl
  exact h hn

theorem field_back {name : String} {default : Option α} {c : Codec F α} {fs : Fields F β} (hn : name ∉ fs.names)
    {a b : α × β} {kvs : List (String × Json F)} (h : writeField name (c.encode a.1) (fs.encode a.2) = some kvs)
    (hb : ((readField c name default kvs).bind fun x => (fs.decode kvs).map fun y => (x, y)) = some b) :
    (∃ v, c.encode a.1 = some v ∧ c.decode v = some b.1) ∧ ∃ vs, fs.encode a.2 = some vs ∧ fs.decode vs = some b.2 := by
  obtain ⟨v, vs, hv, hvs, rfl⟩ := writeField_eq_some.1 h
  rw [readField_head, fs.decode_tail hn] at hb
  obtain ⟨x, hx, hb⟩ := Option.bind_eq_some_iff.1 hb
  obtain ⟨y, hy, rfl⟩ := Option.map_eq_some_iff.1 hb
  exact ⟨⟨v, hv, hx⟩, vs, hvs, hy⟩

def cons (name : String) (default : Option α) (c : Codec F α) (fs : Fields F β) : Fields F (α × β) where
  names := name :: fs.names
  encode a := writeField name (c.encode a.1) (fs.encode a.2)
  decode kvs := (readField c name default kvs).bind fun a => (fs.decode kvs).map fun b => (a, b)
  Good a := c.Good a.1 ∧ fs.Good a.2
  Same a b := c.Same a.1 b.1 ∧ fs.Same a.2 b.2
  Canon a := c.Canon a.1 ∧ fs.Canon a.2
  keys {a kvs} h := by
    obtain ⟨v, vs, _, hvs, rfl⟩ := writeField_eq_some.1 h
    rw [List.map_cons, fs.keys hvs]
  frame {kvs kvs'} h := by
    rw [List.forall_mem_cons] at h
    rw [readField, readField, h.1, fs.frame h.2]
  distinct {a kvs} hgood h := by
    obtain ⟨v, vs, hv, hvs, rfl⟩ := writeField_eq_some.1 h
    exact List.forall_mem_cons.2 ⟨c.distinct hgood.1 hv, fs.distinct hgood.2 hvs⟩
  reads hn {a} h := by
    rw [List.nodup_cons] at hn
    obtain ⟨v, x, hv, hx, hsame⟩ := c.reads h.1
    obtain ⟨vs, y, hvs, hy, hsame'⟩ := fs.reads hn.2 h.2
    refine ⟨(name, v) :: vs, (x, y), writeField_eq_some.2 ⟨v, vs, hv, hvs, rfl⟩, ?_, hsame, hsame'⟩
    rw [readField_head, hx, fs.decode_tail hn.1, hy]
    rfl
  canon hn {a kvs b} h hb hsame := by
    rw [List.nodup_cons] at hn
    obtain ⟨⟨v, hv, hx⟩, vs, hvs, hy⟩ := field_back hn.1 h hb
    exact ⟨c.canon hv hx hsame.1, fs.canon hn.2 hvs hy hsame.2⟩

theorem names_nil : (nil (F := F)).names = [] := rfl

theorem names_cons {name : String} {default : Option α} {c : Codec F α} {fs : Fields F β} :
    (cons name default c fs).names = name :: fs.names := rfl

theorem cons_back {name : String} {default : Option α} {c : Codec F α} {fs : Fields F β}
    (hn : (cons name default c fs).names.Nodup) {a b : α × β} {kvs : List (String × Json F)}
    (h : (cons name default c fs).encode a = some kvs) (hb : (cons name default c fs).decode kvs = some b) :
    (∃ v, c.encode a.1 = some v ∧ c.decode v = some b.1) ∧ ∃ vs, fs.encode a.2 = some vs ∧ fs.decode vs = some b.2 :=
  field_back (List.nodup_cons.1 hn).1 h hb

class Exact (fs : Fields F α) : Prop where
  same : ∀ a b, fs.Same a b ↔ a = b

instance : Exact (nil (F := F)) := ⟨fun _ _ => ⟨fun _ => rfl, fun _ => trivial⟩⟩

instance (name : String) (default : Option α) (c : Codec F α) (fs : Fields F β) [c.Exact] [Exact fs] :
    Exact (cons name default c fs) where
  same a b := by
    change c.Same a.1 b.1 ∧ fs.Same a.2 b.2 ↔ a = b
    rw [Codec.Exact.same, Exact.same, Prod.ext_iff]

end Fields

namespace Codec

variable {F α β : Type}

def writeObject (kvs : List (String × Json F)) : Json F := .dict (orderBy Prod.fst kvs)

/-- The fields of `fs`, and when `strict` no others. -/
def readObject (strict : Bool) (fs : Fields F α) : Json F → Option α
  | .dict kvs => if strict = true ∧ ∃ e ∈ kvs, e.1 ∉ fs.names then none else fs.decode kvs
  | _ => none

theorem readObject_writeObject (strict : Bool) {fs : Fields F α} (hn : fs.names.Nodup) {a : α}
    {kvs : List (String × Json F)} (h : fs.encode a = some kvs) :
    readObject strict fs (writeObject kvs) = fs.decode kvs := by
  have hkeys : ∀ e ∈ orderBy Prod.fst kvs, e.1 ∈ fs.names := by
    intro e he
    rw [← fs.keys h]
    exact List.mem_map_of_mem (orderBy_perm.mem_iff.1 he)
  rw [writeObject, readObject, if_neg]
  · exact fs.frame fun n _ => find_orderBy (fs.keys h ▸ hn) n
  · rintro ⟨_, e, he, hne⟩
    exact hne (hkeys e he)

def object (strict : Bool) (fs : Fields F α) (hn : fs.names.Nodup) : Codec F α where
  encode a := (fs.encode a).map writeObject
  decode := readObject strict fs
  Good := fs.Good
  Same := fs.Same
  Canon := fs.Canon
  distinct {a v} hgood h := by
    obtain ⟨kvs, hkvs, rfl⟩ := Option.map_eq_some_iff.1 h
    have hperm : (orderBy Prod.fst kvs).Perm kvs := orderBy_perm
    constructor
    · rw [(hperm.map Prod.fst).nodup_iff, fs.keys hkvs]
      exact hn
    · rw [distinctMembers_iff]
      intro e he
      exact fs.distinct hgood hkvs e (hperm.mem_iff.1 he)
  reads {a} h := by
    obtain ⟨kvs, b, hkvs, hb, hsame⟩ := fs.reads hn h
    exact ⟨writeObject kvs, b, by rw [hkvs]; rfl, by rw [readObject_writeObject strict hn hkvs, hb], hsame⟩
  canon {a v b} h hb hsame := by
    obtain ⟨kvs, hkvs, rfl⟩ := Option.map_eq_some_iff.1 h
    rw [readObject_writeObject strict hn hkvs] at hb
    exact fs.canon hn hkvs hb hsame

instance (strict : Bool) (fs : Fields F α) (hn : fs.names.Nodup) [fs.Exact] : Exact (object strict fs hn) :=
  ⟨fun a b => (inferInstance : fs.Exact).same a b⟩

/-! Classes: a record of the fields, its checks, its variants. -/

def via (c : Codec F β) (e : α ≃ β) : Codec F α where
  encode a := c.encode (e a)
  decode v := (c.decode v).map e.symm
  Good a := c.Good (e a)
  Same a b := c.Same (e a) (e b)
  Canon a := c.Canon (e a)
  distinct := c.distinct
  reads {a} h := by
    obtain ⟨v, b, hv, hb, hsame⟩ := c.reads h
    refine ⟨v, e.symm b, hv, by rw [hb]; rfl, ?_⟩
    rw [e.apply_symm_apply]
    exact hsame
  canon {a v b} hv hb hsame := by
    obtain ⟨x, hx, rfl⟩ := Option.map_eq_some_iff.1 hb
    rw [e.apply_symm_apply] at hsame
    exact c.canon hv hx hsame

instance (c : Codec F β) (e : α ≃ β) [Exact c] : Exact (c.via e) where
  same a b := by
    change c.Same (e a) (e b) ↔ a = b
    rw [Exact.same, e.injective.eq_iff]

/-- What is read has to pass a check, which looks at what is read alike only. -/
def checked (c : Codec F α) (ok : α → Bool) (hok : ∀ {a b}, c.Same b a → ok b = ok a) : Codec F α where
  encode := c.encode
  decode v := (c.decode v).filter ok
  Good := c.Good
  Same := c.Same
  Canon a := ok a = true ∧ c.Canon a
  distinct := c.distinct
  reads {a} h := by
    obtain ⟨v, b, hv, hb, hsame⟩ := c.reads h.2
    exact ⟨v, b, hv, by rw [hb, Option.filter, if_pos ((hok hsame).trans h.1)], hsame⟩
  canon {a v b} hv hb hsame := by
    obtain ⟨hb, hpass⟩ := Option.filter_eq_some_iff.1 hb
    exact ⟨(hok hsame).symm.trans hpass, c.canon hv hb hsame⟩

theorem ok_of_exact (c : Codec F α) [Exact c] (ok : α → Bool) {a b : α} (h : c.Same b a) : ok b = ok a := by
  rw [(Exact.same b a).1 h]

def guard (c : Codec F α) [Exact c] (ok : α → Bool) : Codec F α := c.checked ok (c.ok_of_exact ok)

instance (c : Codec F α) [Exact c] (ok : α → Bool) : Exact (c.guard ok) := ⟨Exact.same (c := c)⟩

def complete (c : Codec F α) [Exact c] (ok : α → Bool) (fill : α → α) (hfill : ∀ a, ok (fill a) = true)
    (hread : ∀ {a v b}, c.encode a = some v → c.decode v = some b → ok b = ok a) : Codec F α where
  encode := c.encode
  decode v := (c.decode v).map fun a => if ok a then a else fill a
  Good := c.Good
  Same := Eq
  Canon a := ok a = true ∧ c.Canon a
  distinct := c.distinct
  reads {a} h := by
    obtain ⟨v, b, hv, hb, hsame⟩ := c.reads h.2
    obtain rfl := (Exact.same b a).1 hsame
    exact ⟨v, b, hv, by rw [hb, Option.map_some, if_pos h.1], rfl⟩
  canon {a v b} hv hb hsame := by
    obtain rfl := hsame
    obtain ⟨x, hx, hb⟩ := Option.map_eq_some_iff.1 hb
    have hok : ok x = true := by
      rw [hread hv hx, ← hb]
      split_ifs with h
      · exact h
      · exact hfill x
    rw [if_pos hok] at hb
    subst hb
    exact ⟨hok, c.canon hv hx ((Exact.same x x).2 rfl)⟩

instance (c : Codec F α) [Exact c] (ok : α → Bool) (fill : α → α) (hfill : ∀ a, ok (fill a) = true)
    (hread : ∀ {a v b}, c.encode a = some v → c.decode v = some b → ok b = ok a) :
    Exact (c.complete ok fill hfill hread) := ⟨fun _ _ => Iff.rfl⟩

def present (c : Codec F α) : Codec F (Option α) where
  encode a := a.bind c.encode
  decode v := (c.decode v).map some
  Good a := ∀ x ∈ a, c.Good x
  Same := Option.Rel c.Same
  Canon a := ∃ x ∈ a, c.Canon x
  distinct {a v} hgood h := by
    obtain ⟨x, hx, hv⟩ := Option.bind_eq_some_iff.1 h
    exact c.distinct (hgood x hx) hv
  reads := by
    rintro a ⟨x, rfl, h⟩
    obtain ⟨v, b, hv, hb, hsame⟩ := c.reads h
    exact ⟨v, some b, hv, by rw [hb]; rfl, .some hsame⟩
  canon {a v b} h hb hsame := by
    obtain ⟨x, rfl, hv⟩ := Option.bind_eq_some_iff.1 h
    obtain ⟨y, hy, rfl⟩ := Option.map_eq_some_iff.1 hb
    obtain ⟨hsame⟩ := hsame
    exact ⟨x, rfl, c.canon hv hy hsame⟩

instance (c : Codec F α) [Exact c] : Exact c.present := ⟨c.rel_iff⟩

def tagOf (key : String) : Json F → Option String
  | .dict kvs =>
    match Dict.find kvs key with
    | some (.str s) => some s
    | _ => none
  | _ => none

def tagged (key tag : String) (c : Codec F α) (d : Codec F β)
    (hc : ∀ {a v}, c.encode a = some v → tagOf key v = some tag)
    (hd : ∀ {b v}, d.encode b = some v → tagOf key v ≠ some tag) : Codec F (α ⊕ β) where
  encode := Sum.elim c.encode d.encode
  decode v := if tagOf key v = some tag then (c.decode v).map .inl else (d.decode v).map .inr
  Good := Sum.elim c.Good d.Good
  Same := Sum.LiftRel c.Same d.Same
  Canon := Sum.elim c.Canon d.Canon
  distinct {a v} hgood h := by
    cases a with
    | inl a => exact c.distinct hgood h
    | inr b => exact d.distinct hgood h
  reads {a} h := by
    cases a with
    | inl a =>
      obtain ⟨v, b, hv, hb, hsame⟩ := c.reads h
      exact ⟨v, .inl b, hv, by rw [if_pos (hc hv), hb]; rfl, .inl hsame⟩
    | inr a =>
      obtain ⟨v, b, hv, hb, hsame⟩ := d.reads h
      exact ⟨v, .inr b, hv, by rw [if_neg (hd hv), hb]; rfl, .inr hsame⟩
  canon {a v b} hv hb hsame := by
    cases a with
    | inl a =>
      rw [if_pos (hc hv)] at hb
      obtain ⟨x, hx, rfl⟩ := Option.map_eq_some_iff.1 hb
      exact c.canon hv hx (Sum.liftRel_inl_inl.1 hsame)
    | inr a =>
      rw [if_neg (hd hv)] at hb
      obtain ⟨x, hx, rfl⟩ := Option.map_eq_some_iff.1 hb
      exact d.canon hv hx (Sum.liftRel_inr_inr.1 hsame)

instance (key tag : String) (c : Codec F α) (d : Codec F β) [Exact c] [Exact d]
    (hc : ∀ {a v}, c.encode a = some v → tagOf key v = some tag)
    (hd : ∀ {b v}, d.encode b = some v → tagOf key v ≠ some tag) : Exact (tagged key tag c d hc hd) where
  same a b := by
    change Sum.LiftRel c.Same d.Same a b ↔ a = b
    rw [c.same_eq, d.same_eq]
    cases a <;> cases b <;> simp

theorem tagOf_object {name tag : String} {default : Option Unit} {fs : Fields F β}
    (hn : (Fields.cons name default (literal tag) fs).names.Nodup) {a : Unit × β} {v : Json F}
    (h : ((Fields.cons name default (literal tag) fs).encode a).map writeObject = some v) :
    tagOf name v = some tag := by
  obtain ⟨kvs, hkvs, rfl⟩ := Option.map_eq_some_iff.1 h
  have hwrite : Fields.writeField name ((literal tag).encode a.1) (fs.encode a.2) = some kvs := hkvs
  obtain ⟨w, ws, hw, _, hall⟩ := Fields.writeField_eq_some.1 hwrite
  rw [writeObject, tagOf, find_orderBy ((Fields.keys _ hkvs) ▸ hn), hall, Dict.find, if_pos rfl,
    ← Option.some.inj hw]

theorem object_back {strict : Bool} {fs : Fields F α} {hn : fs.names.Nodup} {a b : α} {v : Json F}
    (h : (object strict fs hn).encode a = some v) (hb : (object strict fs hn).decode v = some b) :
    ∃ kvs, fs.encode a = some kvs ∧ fs.decode kvs = some b := by
  obtain ⟨kvs, hkvs, rfl⟩ := Option.map_eq_some_iff.1 h
  exact ⟨kvs, hkvs, (readObject_writeObject strict hn hkvs).symm.trans hb⟩

end Codec

end GraphSkillRuntime.SnapshotCodec
