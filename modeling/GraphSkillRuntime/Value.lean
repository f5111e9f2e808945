import GraphSkillRuntime.OrderedDict
import Mathlib.Data.Rat.Defs

namespace GraphSkillRuntime

open OrderedDict

/-- The JSON values that travel on the blackboard; integers and floats are one kind of number. -/
inductive Value where
  | null
  | bool (b : Bool)
  | num (q : ℚ)
  | str (s : String)
  | list (xs : List Value)
  | dict (kvs : List (String × Value))
  deriving Inhabited

namespace Value

mutual

def decEq : (a b : Value) → Decidable (a = b)
  | .null, .null => .isTrue rfl
  | .bool a, .bool b => decidable_of_iff (a = b) (by simp)
  | .num a, .num b => decidable_of_iff (a = b) (by simp)
  | .str a, .str b => decidable_of_iff (a = b) (by simp)
  | .list xs, .list ys => letI := decEqList xs ys; decidable_of_iff (xs = ys) (by simp)
  | .dict xs, .dict ys => letI := decEqEntries xs ys; decidable_of_iff (xs = ys) (by simp)
  | .null, .bool _ | .null, .num _ | .null, .str _ | .null, .list _ | .null, .dict _
  | .bool _, .null | .bool _, .num _ | .bool _, .str _ | .bool _, .list _ | .bool _, .dict _
  | .num _, .null | .num _, .bool _ | .num _, .str _ | .num _, .list _ | .num _, .dict _
  | .str _, .null | .str _, .bool _ | .str _, .num _ | .str _, .list _ | .str _, .dict _
  | .list _, .null | .list _, .bool _ | .list _, .num _ | .list _, .str _ | .list _, .dict _
  | .dict _, .null | .dict _, .bool _ | .dict _, .num _ | .dict _, .str _ | .dict _, .list _ =>
    .isFalse (by simp)

def decEqList : (xs ys : List Value) → Decidable (xs = ys)
  | [], [] => .isTrue rfl
  | [], _ :: _ => .isFalse (by simp)
  | _ :: _, [] => .isFalse (by simp)
  | x :: xs, y :: ys =>
    letI := decEq x y; letI := decEqList xs ys; decidable_of_iff (x = y ∧ xs = ys) (by simp)

def decEqEntries : (xs ys : List (String × Value)) → Decidable (xs = ys)
  | [], [] => .isTrue rfl
  | [], _ :: _ => .isFalse (by simp)
  | _ :: _, [] => .isFalse (by simp)
  | (j, x) :: xs, (k, y) :: ys =>
    letI := decEq x y
    letI := decEqEntries xs ys
    decidable_of_iff (j = k ∧ x = y ∧ xs = ys) (by simp [and_assoc])

end

instance : DecidableEq Value := decEq

mutual

/-- Python's `==`: dictionaries compare as maps, and `True` and `False` are the numbers 1 and 0. -/
def eqv : Value → Value → Bool
  | .null, .null => true
  | .bool a, .bool b => a == b
  | .bool a, .num q => (if a then 1 else 0) == q
  | .num q, .bool a => q == (if a then 1 else 0)
  | .num p, .num q => p == q
  | .str a, .str b => a == b
  | .list xs, .list ys => eqvList xs ys
  | .dict xs, .dict ys => xs.length == ys.length && eqvEntries xs ys
  | _, _ => false

def eqvList : List Value → List Value → Bool
  | [], [] => true
  | x :: xs, y :: ys => eqv x y && eqvList xs ys
  | _, _ => false

def eqvEntries : List (String × Value) → List (String × Value) → Bool
  | [], _ => true
  | (k, v) :: xs, ys =>
    (match Dict.find ys k with | some w => eqv v w | none => false) && eqvEntries xs ys

end

instance : BEq Value := ⟨eqv⟩

theorem eqvEntries_iff {xs ys : List (String × Value)} :
    eqvEntries xs ys = true ↔ ∀ k v, (k, v) ∈ xs → ∃ w, Dict.find ys k = some w ∧ eqv v w = true := by
  induction xs with
  | nil => simp [eqvEntries]
  | cons e xs ih =>
    rw [eqvEntries, Bool.and_eq_true, ih]
    constructor
    · rintro ⟨he, h⟩ k v hmem
      rcases List.mem_cons.mp hmem with rfl | hmem
      · cases hw : Dict.find ys k with
        | none => simp [hw] at he
        | some w => exact ⟨w, rfl, by simpa [hw] using he⟩
      · exact h k v hmem
    · intro h
      obtain ⟨w, hw, heqv⟩ := h e.1 e.2 (List.mem_cons_self ..)
      refine ⟨?_, fun k v hmem => h k v (List.mem_cons_of_mem _ hmem)⟩
      rw [hw]
      exact heqv

mutual

def Keyed : Value → Prop
  | .list xs => KeyedElements xs
  | .dict kvs => (kvs.map Prod.fst).Nodup ∧ KeyedMembers kvs
  | _ => True

def KeyedElements : List Value → Prop
  | [] => True
  | x :: xs => x.Keyed ∧ KeyedElements xs

def KeyedMembers : List (String × Value) → Prop
  | [] => True
  | (_, v) :: kvs => v.Keyed ∧ KeyedMembers kvs

end

theorem keyedElements_iff {xs : List Value} : KeyedElements xs ↔ ∀ x ∈ xs, x.Keyed := by
  induction xs with
  | nil => simp [KeyedElements]
  | cons x xs ih => rw [KeyedElements, ih, List.forall_mem_cons]

theorem keyedMembers_iff {kvs : List (String × Value)} : KeyedMembers kvs ↔ ∀ kv ∈ kvs, kv.2.Keyed := by
  induction kvs with
  | nil => simp [KeyedMembers]
  | cons kv kvs ih => rw [KeyedMembers, ih, List.forall_mem_cons]

def asDict? : Value → Option (Dict String Value)
  | .dict kvs => some (Dict.ofList kvs)
  | _ => none

def ofDict (d : Dict String Value) : Value := .dict d.entries

@[simp] theorem asDict?_ofDict (d : Dict String Value) : asDict? (ofDict d) = some d :=
  congrArg some (Dict.ofList_entries d)

theorem ofDict_inj {d e : Dict String Value} (h : ofDict d = ofDict e) : d = e :=
  Dict.ext_entries (by simpa [ofDict] using h)

def typeName : Value → String
  | .null => "NoneType"
  | .bool _ => "bool"
  | .num q => if q.den = 1 then "int" else "float"
  | .str _ => "str"
  | .list _ => "list"
  | .dict _ => "dict"

end Value

def dictAt (d : Dict String Value) (k : String) : Option (Dict String Value) :=
  (d.get? k).bind Value.asDict?

end GraphSkillRuntime
