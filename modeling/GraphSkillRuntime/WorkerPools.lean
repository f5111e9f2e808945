import Mathlib.Data.List.Nodup
import Mathlib.Tactic.Common

/-!
Pools of a bounded number of workers. A task that is given to a pool waits, runs and ends, or is cancelled while it
waits; in which order the workers take the tasks is left open.
-/

namespace GraphSkillRuntime.WorkerPools

variable {α : Type}

inductive Future (α : Type) where
  | pending
  | running
  | cancelled
  | done (outcome : α)

abbrev Pool (α : Type) := List (Future α)

namespace Future

def isRunning : Future α → Bool
  | running => true
  | _ => false

def isTaken : Future α → Bool
  | running | done _ => true
  | _ => false

def isSettled : Future α → Bool
  | cancelled | done _ => true
  | _ => false

def cancel : Future α → Future α
  | pending => cancelled
  | f => f

def rank : Future α → ℕ
  | pending => 2
  | running => 1
  | _ => 0

theorem rank_cancel_le (f : Future α) : f.cancel.rank ≤ f.rank := by
  cases f <;> simp [cancel, rank]

theorem isRunning_cancel (f : Future α) : f.cancel.isRunning = f.isRunning := by
  cases f <;> rfl

theorem isTaken_cancel (f : Future α) : f.cancel.isTaken = f.isTaken := by
  cases f <;> rfl

end Future

inductive Works (workers : ℕ) : Pool α → Pool α → Prop
  | start {p : Pool α} {i : ℕ} (hpending : p[i]? = some .pending) (hfree : p.countP Future.isRunning < workers) :
      Works workers p (p.set i .running)
  | finish {p : Pool α} {i : ℕ} (outcome : α) (hrunning : p[i]? = some .running) :
      Works workers p (p.set i (.done outcome))

def Bounded (workers : ℕ) (p : Pool α) : Prop := p.countP Future.isRunning ≤ workers

def backlog : Pool α → ℕ
  | [] => 0
  | f :: p => f.rank + backlog p

theorem backlog_concat (p : Pool α) (f : Future α) : backlog (p ++ [f]) = backlog p + f.rank := by
  induction p with
  | nil => rw [List.nil_append, backlog, backlog, backlog, Nat.add_comm]
  | cons e p ih =>
    rw [List.cons_append, backlog, backlog, ih]
    omega

theorem countP_set_of_getElem? {f g : Future α} {p : Pool α} {i : ℕ} (h : p[i]? = some f) :
    (p.set i g).countP Future.isRunning + (if f.isRunning then 1 else 0) =
      p.countP Future.isRunning + (if g.isRunning then 1 else 0) := by
  obtain ⟨hi, hf⟩ := List.getElem?_eq_some_iff.mp h
  have hle : (if f.isRunning then 1 else 0) ≤ p.countP Future.isRunning := by
    cases hrun : f.isRunning with
    | false => simp
    | true => simpa using List.countP_pos_iff.mpr ⟨f, List.mem_of_getElem? h, hrun⟩
  rw [List.countP_set hi, hf]
  omega

theorem backlog_set {f g : Future α} {p : Pool α} {i : ℕ} (h : p[i]? = some f) :
    backlog (p.set i g) + f.rank = backlog p + g.rank := by
  induction p generalizing i with
  | nil => simp at h
  | cons e p ih =>
    cases i with
    | zero =>
      obtain rfl : e = f := by simpa using h
      simp only [backlog, List.set_cons_zero]
      omega
    | succ i =>
      have htail := ih (i := i) (by simpa using h)
      simp only [backlog, List.set_cons_succ] at htail ⊢
      omega

namespace Works

variable {workers : ℕ} {p q : Pool α}

theorem bounded (h : Works workers p q) (hp : Bounded workers p) : Bounded workers q := by
  cases h with
  | start hpending hfree =>
    have hcount := countP_set_of_getElem? (g := .running) hpending
    simp only [Future.isRunning, Bool.false_eq_true, if_false, if_true] at hcount
    rw [Bounded, ← Nat.add_zero (List.countP _ _), hcount]
    exact hfree
  | finish outcome hrunning =>
    have hcount := countP_set_of_getElem? (g := .done outcome) hrunning
    simp only [Future.isRunning, Bool.false_eq_true, if_false, if_true] at hcount
    unfold Bounded at hp ⊢
    omega

theorem backlog_lt (h : Works workers p q) : backlog q < backlog p := by
  cases h with
  | start hpending _ =>
    have hbacklog := backlog_set (g := .running) hpending
    simp only [Future.rank] at hbacklog
    omega
  | finish outcome hrunning =>
    have hbacklog := backlog_set (g := .done outcome) hrunning
    simp only [Future.rank] at hbacklog
    omega

theorem settled (h : Works workers p q) {i : ℕ} {f : Future α} (hi : p[i]? = some f) (hf : f.isSettled = true) :
    q[i]? = some f := by
  have hother : ∀ {j : ℕ} {e g : Future α}, p[j]? = some e → e.isSettled = false → (p.set j g)[i]? = some f := by
    intro j e g hj he
    rw [List.getElem?_set_ne, hi]
    rintro rfl
    rw [hi, Option.some.injEq] at hj
    rw [hj, he] at hf
    cases hf
  cases h with
  | start hpending _ => exact hother hpending rfl
  | finish outcome hrunning => exact hother hrunning rfl

theorem length_eq (h : Works workers p q) : q.length = p.length := by
  cases h <;> exact List.length_set

theorem uncancelled (h : Works workers p q) (hp : .cancelled ∉ p) : .cancelled ∉ q := by
  intro hmem
  cases h with
  | start _ _ => exact (List.mem_or_eq_of_mem_set hmem).elim hp nofun
  | finish outcome _ => exact (List.mem_or_eq_of_mem_set hmem).elim hp nofun

theorem pending (h : Works workers p q) {i : ℕ} (hi : q[i]? = some .pending) : p[i]? = some .pending := by
  have hset : ∀ {j : ℕ} {g : Future α}, (p.set j g)[i]? = some .pending → g ≠ .pending → p[i]? = some .pending := by
    intro j g hi hg
    rw [List.getElem?_set] at hi
    split_ifs at hi
    · exact absurd (Option.some.inj hi) hg
    · exact hi
  cases h with
  | start _ _ => exact hset hi nofun
  | finish outcome _ => exact hset hi nofun

theorem not_settled (h : Works workers p q) : ∃ f ∈ p, f.isSettled = false := by
  cases h with
  | start hpending _ => exact ⟨_, List.mem_of_getElem? hpending, rfl⟩
  | finish outcome hrunning => exact ⟨_, List.mem_of_getElem? hrunning, rfl⟩

end Works

theorem works_of_unsettled {workers : ℕ} (hworkers : 0 < workers) {p : Pool α} {f : Future α} (hf : f ∈ p)
    (hleft : f.isSettled = false) (outcome : α) : ∃ q, Works workers p q := by
  by_cases hrun : ∃ i : ℕ, p[i]? = some Future.running
  · obtain ⟨i, hi⟩ := hrun
    exact ⟨_, .finish outcome hi⟩
  · have hidle : ∀ g ∈ p, ¬ g.isRunning = true := by
      intro g hg hrunning
      obtain ⟨i, hi⟩ := List.mem_iff_getElem?.mp hg
      cases g with
      | running => exact hrun ⟨i, hi⟩
      | _ => cases hrunning
    obtain ⟨i, hi⟩ := List.mem_iff_getElem?.mp hf
    cases f with
    | pending => exact ⟨_, .start hi (by rwa [List.countP_eq_zero.mpr hidle])⟩
    | running => exact absurd ⟨i, hi⟩ hrun
    | cancelled | done => cases hleft

theorem map_some_filterMap {xs : List (Option α)} (h : ∀ x ∈ xs, x.isSome = true) :
    (xs.filterMap id).map some = xs := by
  induction xs with
  | nil => rfl
  | cons x xs ih =>
    rw [List.forall_mem_cons] at h
    obtain ⟨y, rfl⟩ := Option.isSome_iff_exists.mp h.1
    rw [List.filterMap_cons_some (f := id) (b := y) rfl, List.map_cons, ih h.2]

end GraphSkillRuntime.WorkerPools
