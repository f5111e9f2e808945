import Mathlib.Data.List.Basic
import Mathlib.Tactic.Common

/-!
Programs that work on a shared file system. Between two operations of a program the others may change any path, and
every operation may fail and leave something behind at its target. A program that is confined to a region leaves
every other path to the others.
-/

namespace GraphSkillRuntime.FileActions

abbrev Path := List String

inductive Node where
  | dir
  | file (content : String)
  deriving DecidableEq

abbrev FileSystem := Path → Option Node

def lookup (fs : FileSystem) (p : Path) : Option Node :=
  if (List.range p.length).all fun n => fs (p.take n) == some .dir then fs p else none

abbrev Change := Path → Option (Option Node)

def Change.apply (c : Change) (fs : FileSystem) : FileSystem := fun p => (c p).getD (fs p)

structure Surroundings where
  others : ℕ → Change
  /-- Whether the operation of that moment fails, and what it leaves behind then. -/
  fault : ℕ → Option Change

structure World where
  fs : FileSystem
  tick : ℕ

abbrev Action (ε α : Type) := EStateM ε World α

def evolve (others : ℕ → Change) (start : ℕ) : ℕ → FileSystem → FileSystem
  | 0, fs => fs
  | n + 1, fs => (others (start + n)).apply (evolve others start n fs)

def below (target p : Path) : Bool := target.isPrefixOf p

theorem below_iff {target p : Path} : below target p = true ↔ ∃ rest, p = target ++ rest := by
  rw [below, List.isPrefixOf_iff_prefix]
  constructor
  · rintro ⟨rest, h⟩
    exact ⟨rest, h.symm⟩
  · rintro ⟨rest, h⟩
    exact ⟨rest, h.symm⟩

theorem lookup_of_below {fs : FileSystem} {p q : Path} {node : Node} (hpq : below p q = true) (hne : p ≠ q)
    (hq : lookup fs q = some node) : lookup fs p = some .dir := by
  obtain ⟨rest, rfl⟩ := below_iff.mp hpq
  have hrest : rest ≠ [] := by
    rintro rfl
    exact hne (List.append_nil p).symm
  rw [lookup] at hq
  split_ifs at hq with hway
  simp only [List.all_eq_true, List.mem_range, beq_iff_eq] at hway
  have hlength : (p ++ rest).length = p.length + rest.length := List.length_append
  have hpos := List.length_pos_of_ne_nil hrest
  have hself : fs p = some .dir := by
    have := hway p.length (by omega)
    rwa [List.take_left] at this
  rw [lookup, if_pos, hself]
  simp only [List.all_eq_true, List.mem_range, beq_iff_eq]
  intro n hn
  have := hway n (by omega)
  rwa [List.take_append_of_le_length (Nat.le_of_lt hn)] at this

section

variable {ε α β : Type} (S : Surroundings)

/-- One operation with the paths it may leave something at: the others first, then either its fault or itself. -/
def operation (target : Path → Bool) (failed : ε) (f : FileSystem → Except ε (α × FileSystem)) : Action ε α := fun w =>
  let seen := (S.others w.tick).apply w.fs
  match S.fault w.tick with
  | some debris => .error failed ⟨fun p => if target p then debris.apply seen p else seen p, w.tick + 1⟩
  | none =>
    match f seen with
    | .ok (a, fs) => .ok a ⟨fs, w.tick + 1⟩
    | .error e => .error e ⟨seen, w.tick + 1⟩

def reading (failed : ε) (f : FileSystem → Except ε α) : Action ε α := fun w =>
  let seen := (S.others w.tick).apply w.fs
  match S.fault w.tick with
  | some _ => .error failed ⟨seen, w.tick + 1⟩
  | none =>
    match f seen with
    | .ok a => .ok a ⟨seen, w.tick + 1⟩
    | .error e => .error e ⟨seen, w.tick + 1⟩

def mapError {ε' : Type} (f : ε → ε') (m : Action ε α) : Action ε' α := fun w =>
  match m w with
  | .ok a w' => .ok a w'
  | .error e w' => .error (f e) w'

def endOf (m : Action ε α) (w : World) : World :=
  match m w with
  | .ok _ w' => w'
  | .error _ w' => w'

/-- `try … finally`: the last action runs either way and its own failure is dropped. -/
def andFinally (m : Action ε α) (last : Action ε Unit) : Action ε α := fun w =>
  match m w with
  | .ok a w' => .ok a (endOf last w')
  | .error e w' => .error e (endOf last w')

def each (m : α → Action ε β) : List α → Action ε (List β)
  | [] => pure []
  | x :: xs => do
    let b ← m x
    let bs ← each m xs
    return b :: bs

def Outside (region : Path → Prop) (w w' : World) : Prop :=
  w.tick ≤ w'.tick ∧ ∀ p, ¬ region p → w'.fs p = evolve S.others w.tick (w'.tick - w.tick) w.fs p

def Confined (region : Path → Prop) (m : Action ε α) : Prop := ∀ w, Outside S region w (endOf m w)

end

section Rules

variable {ε α β : Type} {S : Surroundings} {region : Path → Prop}

theorem evolve_congr (others : ℕ → Change) (start n : ℕ) {fs fs' : FileSystem} {p : Path} (h : fs p = fs' p) :
    evolve others start n fs p = evolve others start n fs' p := by
  induction n with
  | zero => exact h
  | succ n ih => rw [evolve, evolve, Change.apply, Change.apply, ih]

theorem evolve_add (others : ℕ → Change) (start n k : ℕ) (fs : FileSystem) :
    evolve others start (n + k) fs = evolve others (start + n) k (evolve others start n fs) := by
  induction k with
  | zero => rfl
  | succ k ih => rw [← Nat.add_assoc, evolve, evolve, ih, Nat.add_assoc]

theorem evolve_eq (others : ℕ → Change) (start n : ℕ) (fs : FileSystem) {p : Path} (h : ∀ k, others k p = none) :
    evolve others start n fs p = fs p := by
  induction n with
  | zero => rfl
  | succ n ih => rw [evolve, Change.apply, h, Option.getD_none, ih]

theorem Outside.refl (w : World) : Outside S region w w := by
  refine ⟨Nat.le_refl _, ?_⟩
  intro p _
  rw [Nat.sub_self]
  rfl

theorem Outside.trans {u v w : World} (h : Outside S region u v) (h' : Outside S region v w) :
    Outside S region u w := by
  refine ⟨Nat.le_trans h.1 h'.1, ?_⟩
  intro p hp
  have hticks : w.tick - u.tick = (v.tick - u.tick) + (w.tick - v.tick) := by
    have := h.1
    have := h'.1
    omega
  have hstart : u.tick + (v.tick - u.tick) = v.tick := by
    have := h.1
    omega
  rw [h'.2 p hp, hticks, evolve_add, hstart]
  exact evolve_congr _ _ _ (h.2 p hp)

theorem Outside.mono {region' : Path → Prop} (hsub : ∀ p, region p → region' p) {w w' : World}
    (h : Outside S region w w') : Outside S region' w w' :=
  ⟨h.1, fun p hp => h.2 p (fun hr => hp (hsub p hr))⟩

theorem Outside.of_tick {w w' : World} (ht : w'.tick = w.tick + 1)
    (hfs : ∀ p, ¬ region p → w'.fs p = (S.others w.tick).apply w.fs p) : Outside S region w w' := by
  refine ⟨by omega, ?_⟩
  intro p hp
  have hone : w'.tick - w.tick = 1 := by omega
  rw [hfs p hp, hone]
  rfl

theorem Confined.mono {region' : Path → Prop} (hsub : ∀ p, region p → region' p) {m : Action ε α}
    (h : Confined S region m) : Confined S region' m := fun w => (h w).mono hsub

theorem confined_pure (a : α) : Confined S region (pure a : Action ε α) := fun w => Outside.refl w

theorem confined_throw (e : ε) : Confined S region (throw e : Action ε α) := fun w => Outside.refl w

theorem confined_bind {m : Action ε α} {f : α → Action ε β} (hm : Confined S region m)
    (hf : ∀ a, Confined S region (f a)) : Confined S region (m >>= f) := by
  intro w
  have h := hm w
  simp only [endOf, bind, EStateM.bind] at h ⊢
  cases hw : m w with
  | error e w' =>
    rw [hw] at h
    exact h
  | ok a w' =>
    rw [hw] at h
    exact h.trans (hf a w')

theorem confined_each {m : α → Action ε β} (xs : List α) (hm : ∀ x ∈ xs, Confined S region (m x)) :
    Confined S region (each m xs) := by
  induction xs with
  | nil => exact confined_pure _
  | cons x xs ih =>
    apply confined_bind (hm x (List.mem_cons_self ..))
    intro b
    apply confined_bind (ih (fun y hy => hm y (List.mem_cons_of_mem x hy)))
    intro bs
    exact confined_pure _

theorem confined_operation {target : Path → Bool} {failed : ε} {f : FileSystem → Except ε (α × FileSystem)}
    (htarget : ∀ p, target p = true → region p)
    (hf : ∀ fs a fs', f fs = .ok (a, fs') → ∀ p, ¬ region p → fs' p = fs p) :
    Confined S region (operation S target failed f) := by
  intro w
  simp only [endOf, operation]
  cases hfault : S.fault w.tick with
  | some debris =>
    apply Outside.of_tick rfl
    intro p hp
    have hnot : ¬ target p = true := fun h => hp (htarget p h)
    simp [hnot]
  | none =>
    cases hfs : f ((S.others w.tick).apply w.fs) with
    | error e => exact Outside.of_tick rfl (fun p _ => rfl)
    | ok r =>
      apply Outside.of_tick rfl
      intro p hp
      exact hf _ r.1 r.2 hfs p hp

theorem confined_reading (failed : ε) (f : FileSystem → Except ε α) : Confined S region (reading S failed f) := by
  intro w
  simp only [endOf, reading]
  cases S.fault w.tick with
  | some _ => exact Outside.of_tick rfl (fun p _ => rfl)
  | none =>
    cases f ((S.others w.tick).apply w.fs) with
    | error e => exact Outside.of_tick rfl (fun p _ => rfl)
    | ok a => exact Outside.of_tick rfl (fun p _ => rfl)

theorem endOf_mapError {ε' : Type} (f : ε → ε') (m : Action ε α) (w : World) : endOf (mapError f m) w = endOf m w := by
  simp only [endOf, mapError]
  cases m w <;> rfl

theorem confined_mapError {ε' : Type} (f : ε → ε') {m : Action ε α} (h : Confined S region m) :
    Confined S region (mapError f m) := by
  intro w
  rw [endOf_mapError]
  exact h w

theorem bind_ok_iff {m : Action ε α} {f : α → Action ε β} {w w' : World} {b : β} :
    (m >>= f) w = .ok b w' ↔ ∃ a u, m w = .ok a u ∧ f a u = .ok b w' := by
  simp only [bind, EStateM.bind]
  cases m w <;> simp

theorem operation_ok {target : Path → Bool} {failed : ε} {f : FileSystem → Except ε (α × FileSystem)} {w w' : World}
    {a : α}
    (h : operation S target failed f w = .ok a w') :
    f ((S.others w.tick).apply w.fs) = .ok (a, w'.fs) ∧ w'.tick = w.tick + 1 := by
  simp only [operation] at h
  cases hfault : S.fault w.tick with
  | some debris => simp [hfault] at h
  | none =>
    simp only [hfault] at h
    cases hf : f ((S.others w.tick).apply w.fs) with
    | error e => simp [hf] at h
    | ok r =>
      simp only [hf, EStateM.Result.ok.injEq] at h
      obtain ⟨rfl, rfl⟩ := h
      exact ⟨rfl, rfl⟩

theorem reading_ok {failed : ε} {f : FileSystem → Except ε α} {w w' : World} {a : α}
    (h : reading S failed f w = .ok a w') :
    f ((S.others w.tick).apply w.fs) = .ok a ∧ w' = ⟨(S.others w.tick).apply w.fs, w.tick + 1⟩ := by
  simp only [reading] at h
  cases hfault : S.fault w.tick with
  | some debris => simp [hfault] at h
  | none =>
    simp only [hfault] at h
    cases hf : f ((S.others w.tick).apply w.fs) with
    | error e => simp [hf] at h
    | ok b =>
      simp only [hf, EStateM.Result.ok.injEq] at h
      obtain ⟨rfl, rfl⟩ := h
      exact ⟨rfl, rfl⟩

end Rules

end GraphSkillRuntime.FileActions
