import GraphSkillRuntime.JsonRoundTrip
import GraphSkillRuntime.Runs

/-!
The compaction slot: every message that leaves the context goes to a sidecar file whose name is made of the
phase name and a counter of the middleware instance. A run has one directory for the sidecars of all its phases,
graphs and processes.
-/

namespace GraphSkillRuntime.Compaction

open Runs

structure Message (α : Type) where
  id : Option String
  payload : α

inductive Returned (α : Type) where
  | remove
  | message (m : Message α)

section

variable {α : Type}

def preservedIds (returned : List (Returned α)) : List String :=
  returned.filterMap fun
    | .remove => none
    | .message m => m.id

def removedMessages (original : List (Message α)) (returned : List (Returned α)) : List (Message α) :=
  original.filter fun m =>
    match m.id with
    | none => true
    | some id => !(preservedIds returned).contains id

end

def paddedNumber (n : ℕ) : List Char := List.replicate (3 - (Nat.toDigits 10 n).length) '0' ++ Nat.toDigits 10 n

def sidecarName (phaseName : String) (sequence : ℕ) : String :=
  .ofList (phaseName.toList ++ '-' :: (paddedNumber sequence ++ ".json".toList))

structure Sidecar (α : Type) where
  phaseName : String
  sequence : ℕ
  removedMessageCount : ℕ
  messages : List (Message α)

def sidecar {α : Type} (phaseName : String) (sequence : ℕ) (removed : List (Message α)) : Sidecar α :=
  { phaseName, sequence, removedMessageCount := removed.length, messages := removed }

/-- `removed` is what the compaction took out of the context; the event itself has its number only. -/
structure CompactionEvent (α : Type) where
  phaseName : String
  removedMessageCount : ℕ
  contentRef : Option String
  removed : List (Message α)

structure Pending (α : Type) where
  owner : ℕ
  phaseName : String
  sequence : ℕ
  removed : List (Message α)

structure Middleware where
  phaseName : String
  next : ℕ

/-- A run: the instances every process has assembled, the numbers taken, the compactions under way, the events and
the sidecar files. -/
structure State (α : Type) where
  instances : List Middleware := []
  taken : List (Pending α) := []
  pending : List (Pending α) := []
  events : List (CompactionEvent α) := []
  files : String → Option (Sidecar α) := fun _ => none

/-- A write may fail with an `OSError`, and a process may die while it writes; what is left of the file then is
arbitrary. -/
inductive Outcome (α : Type) where
  | written
  | failed (left : Option (Sidecar α))
  | died (left : Option (Sidecar α))

inductive Action (α : Type) where
  | assemble (phaseName : String)
  | compact (owner : ℕ) (runDir : Bool) (original : List (Message α)) (returned : List (Returned α))
  | write (owner sequence : ℕ) (outcome : Outcome α)

section

variable {α : Type}

def State.emit (s : State α) (phaseName : String) (contentRef : Option String) (removed : List (Message α)) : State α :=
  { s with events := s.events ++ [⟨phaseName, removed.length, contentRef, removed⟩] }

/-- `_record_compaction` up to the sidecar writer. -/
def compact (s : State α) (owner : ℕ) (runDir : Bool) (original : List (Message α)) (returned : List (Returned α)) :
    Option (State α) :=
  match s.instances[owner]? with
  | none => none
  | some m =>
    let removed := removedMessages original returned
    if removed.isEmpty then some s
    else if !runDir then some (s.emit m.phaseName none removed)
    else
      let p : Pending α := ⟨owner, m.phaseName, m.next, removed⟩
      some { s with
        instances := s.instances.set owner { m with next := m.next + 1 }
        taken := s.taken ++ [p]
        pending := s.pending ++ [p] }

def isPending (owner sequence : ℕ) (p : Pending α) : Bool := p.owner == owner && p.sequence == sequence

def write (s : State α) (owner sequence : ℕ) (outcome : Outcome α) : Option (State α) :=
  match s.pending.find? (isPending owner sequence) with
  | none => none
  | some p =>
    let name := sidecarName p.phaseName p.sequence
    let rest := s.pending.filter fun q => !isPending owner sequence q
    let left (content : Option (Sidecar α)) : State α :=
      { s with pending := rest, files := Function.update s.files name content }
    match outcome with
    | .written =>
      some ((left (some (sidecar p.phaseName p.sequence p.removed))).emit p.phaseName (some name) p.removed)
    | .failed content => some ((left content).emit p.phaseName none p.removed)
    | .died content => some (left content)

def step (s : State α) : Action α → Option (State α)
  | .assemble phaseName => some { s with instances := s.instances ++ [⟨phaseName, 1⟩] }
  | .compact owner runDir original returned => compact s owner runDir original returned
  | .write owner sequence outcome => write s owner sequence outcome

/-- The file of every emitted event holds what its compaction removed. -/
def Preserved (s : State α) : Prop :=
  ∀ e ∈ s.events, ∀ ref, e.contentRef = some ref → ∃ file, s.files ref = some file ∧ file.messages = e.removed

/-- The number an instance takes was not taken by another instance with the same phase name. -/
def Unshared (s : State α) : Action α → Prop
  | .compact owner _ _ _ => ∀ m, s.instances[owner]? = some m → ∀ p ∈ s.taken, p.phaseName = m.phaseName →
      p.owner ≠ owner → p.sequence ≠ m.next
  | _ => True

end

theorem ofDigitChars_zeros (k : ℕ) (ds : List Char) :
    Nat.ofDigitChars 10 (List.replicate k '0' ++ ds) 0 = Nat.ofDigitChars 10 ds 0 := by
  induction k with
  | zero => rfl
  | succ k ih =>
    rw [List.replicate_succ, List.cons_append, ← ih]
    rfl

theorem paddedNumber_injective {n k : ℕ} (h : paddedNumber n = paddedNumber k) : n = k := by
  have hvalue (n : ℕ) : Nat.ofDigitChars 10 (paddedNumber n) 0 = n := by
    rw [paddedNumber, ofDigitChars_zeros]
    exact Nat.ofDigitChars_ten_toDigits
  rw [← hvalue n, h, hvalue]

theorem dash_notMem_paddedNumber (n : ℕ) : '-' ∉ paddedNumber n := by
  intro h
  rcases List.mem_append.mp h with h | h
  · have := List.eq_of_mem_replicate h
    simp at this
  · have hdigit := Nat.isDigit_of_mem_toDigits (by decide) (by decide) h
    simp at hdigit

theorem sidecarName_injective {p q : String} {n k : ℕ} (h : sidecarName p n = sidecarName q k) : p = q ∧ n = k := by
  have hparts {x y a b : List Char} (hx : '-' ∉ x) (hy : '-' ∉ y) (heq : x ++ '-' :: a = y ++ '-' :: b) :
      x = y ∧ a = b := by
    have hne {z : List Char} (hz : '-' ∉ z) (rest : List Char) :
        (z ++ '-' :: rest).takeWhile (· ≠ '-') = z := by
      rw [List.takeWhile_append_of_pos]
      · simp
      · intro c hc
        simpa using fun hdash : c = '-' => hz (hdash ▸ hc)
    obtain rfl : x = y := by rw [← hne hx a, heq, hne hy b]
    simpa using heq
  have hlists := congrArg String.toList h
  simp only [sidecarName, String.toList_ofList] at hlists
  rw [← List.cons_append, ← List.cons_append, ← List.append_assoc, ← List.append_assoc,
    List.append_left_inj] at hlists
  have hreverse := congrArg List.reverse hlists
  simp only [List.reverse_append, List.reverse_cons, List.append_assoc, List.singleton_append] at hreverse
  obtain ⟨hnumber, hphase⟩ := hparts (by simpa using dash_notMem_paddedNumber n)
    (by simpa using dash_notMem_paddedNumber k) hreverse
  exact ⟨String.toList_injective (List.reverse_injective hphase),
    paddedNumber_injective (List.reverse_injective hnumber)⟩

section

variable {α : Type} {s t : State α}

def Pending.key (p : Pending α) : String × ℕ := (p.phaseName, p.sequence)

structure Consistent (s : State α) : Prop where
  owned : ∀ p ∈ s.taken, ∃ m, s.instances[p.owner]? = some m ∧ m.phaseName = p.phaseName ∧ p.sequence < m.next
  keys : (s.taken.map Pending.key).Nodup
  under : ∀ p ∈ s.pending, p ∈ s.taken
  events : ∀ e ∈ s.events, ∀ ref, e.contentRef = some ref → ∃ p ∈ s.taken, p ∉ s.pending ∧
    ref = sidecarName p.phaseName p.sequence ∧ e.removed = p.removed ∧
    s.files ref = some (sidecar p.phaseName p.sequence p.removed)

theorem Consistent.preserved (h : Consistent s) : Preserved s := by
  intro e he ref href
  obtain ⟨p, -, -, -, hremoved, hfile⟩ := h.events e he ref href
  exact ⟨_, hfile, hremoved.symm⟩

theorem consistent_empty : Consistent ({} : State α) := by
  constructor <;> simp

theorem consistent_assemble (h : Consistent s) (phaseName : String) :
    Consistent { s with instances := s.instances ++ [⟨phaseName, 1⟩] } := by
  refine ⟨fun p hp => ?_, h.keys, h.under, h.events⟩
  obtain ⟨m, hm, hname, hlt⟩ := h.owned p hp
  refine ⟨m, ?_, hname, hlt⟩
  have hbound : p.owner < s.instances.length := (List.getElem?_eq_some_iff.mp hm).1
  rwa [List.getElem?_append_left hbound]

theorem consistent_compact {owner : ℕ} {runDir : Bool} {original : List (Message α)} {returned : List (Returned α)}
    (h : Consistent s) (hunshared : Unshared s (.compact owner runDir original returned))
    (hstep : compact s owner runDir original returned = some t) : Consistent t := by
  rw [compact] at hstep
  split at hstep
  · cases hstep
  next m hm =>
    dsimp only at hstep
    split_ifs at hstep
    · cases hstep
      exact h
    · cases hstep
      refine ⟨h.owned, h.keys, h.under, fun e he ref href => ?_⟩
      rcases List.mem_append.mp he with he | he
      · exact h.events e he ref href
      · rw [List.mem_singleton.mp he] at href
        cases href
    · cases hstep
      have hfresh : ∀ p ∈ s.taken, p.key ≠ (m.phaseName, m.next) := by
        intro p hp hkey
        obtain ⟨hname, hnumber⟩ := Prod.mk.inj hkey
        by_cases howner : p.owner = owner
        · obtain ⟨m', hm', -, hlt⟩ := h.owned p hp
          rw [howner, hm] at hm'
          obtain rfl := Option.some.inj hm'
          omega
        · exact hunshared m hm p hp hname howner hnumber
      have hbound : owner < s.instances.length := (List.getElem?_eq_some_iff.mp hm).1
      refine ⟨fun p hp => ?_, ?_, fun p hp => ?_, fun e he ref href => ?_⟩
      · rcases List.mem_append.mp hp with hp | hp
        · obtain ⟨m', hm', hname, hlt⟩ := h.owned p hp
          by_cases howner : owner = p.owner
          · rw [← howner, hm] at hm'
            obtain rfl := Option.some.inj hm'
            refine ⟨{ m with next := m.next + 1 }, ?_, hname, Nat.lt_succ_of_lt hlt⟩
            rw [← howner]
            exact List.getElem?_set_self hbound
          · exact ⟨m', by rw [List.getElem?_set_ne howner, hm'], hname, hlt⟩
        · obtain rfl := List.mem_singleton.mp hp
          exact ⟨_, List.getElem?_set_self hbound, rfl, Nat.lt_succ_self _⟩
      · rw [List.map_append, List.map_singleton, List.nodup_append']
        refine ⟨h.keys, List.nodup_singleton _, ?_⟩
        rw [List.disjoint_singleton]
        intro hmem
        obtain ⟨p, hp, hkey⟩ := List.mem_map.mp hmem
        exact hfresh p hp hkey
      · rcases List.mem_append.mp hp with hp | hp
        · exact List.mem_append_left _ (h.under p hp)
        · exact List.mem_append_right _ hp
      · obtain ⟨p, hp, hdone, hrest⟩ := h.events e he ref href
        refine ⟨p, List.mem_append_left _ hp, fun hmem => ?_, hrest⟩
        rcases List.mem_append.mp hmem with hmem | hmem
        · exact hdone hmem
        · exact hfresh p hp (congrArg Pending.key (List.mem_singleton.mp hmem))

theorem Consistent.eq_of_name (h : Consistent s) {p q : Pending α} (hp : p ∈ s.taken) (hq : q ∈ s.taken)
    (hname : sidecarName p.phaseName p.sequence = sidecarName q.phaseName q.sequence) : p = q := by
  obtain ⟨hphase, hnumber⟩ := sidecarName_injective hname
  exact List.inj_on_of_nodup_map h.keys hp hq (Prod.ext hphase hnumber)

theorem consistent_left (h : Consistent s) {owner sequence : ℕ} {p : Pending α}
    (hp : s.pending.find? (isPending owner sequence) = some p) (content : Option (Sidecar α)) :
    Consistent { s with
      pending := s.pending.filter fun q => !isPending owner sequence q
      files := Function.update s.files (sidecarName p.phaseName p.sequence) content } := by
  have hmem := List.mem_of_find?_eq_some hp
  refine ⟨h.owned, h.keys, fun q hq => h.under q (List.mem_of_mem_filter hq), fun e he ref href => ?_⟩
  obtain ⟨q, hq, hdone, rfl, hremoved, hfile⟩ := h.events e he ref href
  refine ⟨q, hq, fun hmem' => hdone (List.mem_of_mem_filter hmem'), rfl, hremoved, ?_⟩
  refine (Function.update_of_ne ?_ _ _).trans hfile
  intro hname
  obtain rfl := h.eq_of_name hq (h.under p hmem) hname
  exact hdone hmem

theorem consistent_emit (h : Consistent s) {phaseName : String} {contentRef : Option String}
    {removed : List (Message α)}
    (hevent : ∀ ref, contentRef = some ref → ∃ p ∈ s.taken, p ∉ s.pending ∧
      ref = sidecarName p.phaseName p.sequence ∧ removed = p.removed ∧
      s.files ref = some (sidecar p.phaseName p.sequence p.removed)) :
    Consistent (s.emit phaseName contentRef removed) := by
  refine ⟨h.owned, h.keys, h.under, fun e he ref href => ?_⟩
  rcases List.mem_append.mp he with he | he
  · exact h.events e he ref href
  · obtain rfl := List.mem_singleton.mp he
    exact hevent ref href

theorem consistent_write {owner sequence : ℕ} {outcome : Outcome α} (h : Consistent s)
    (hstep : write s owner sequence outcome = some t) : Consistent t := by
  rw [write] at hstep
  split at hstep
  · cases hstep
  next p hp =>
    have hleft := consistent_left h hp
    cases outcome with
    | written =>
      obtain rfl := Option.some.inj hstep
      apply consistent_emit (hleft _)
      intro ref href
      obtain rfl := Option.some.inj href
      refine ⟨p, h.under p (List.mem_of_find?_eq_some hp), fun hmem => ?_, rfl, rfl, Function.update_self ..⟩
      have hnot := (List.mem_filter.mp hmem).2
      rw [List.find?_some hp] at hnot
      cases hnot
    | failed content =>
      obtain rfl := Option.some.inj hstep
      apply consistent_emit (hleft content)
      simp
    | died content =>
      obtain rfl := Option.some.inj hstep
      exact hleft content

theorem consistent_step {a : Action α} (h : Consistent s) (hunshared : Unshared s a) (hstep : step s a = some t) :
    Consistent t := by
  cases a with
  | assemble phaseName =>
    obtain rfl := Option.some.inj hstep
    exact consistent_assemble h phaseName
  | compact owner runDir original returned => exact consistent_compact h hunshared hstep
  | write owner sequence outcome => exact consistent_write h hstep

/-- As long as no two instances with one phase name take one number, every event keeps its messages. -/
theorem run_preserved {as : List (Action α)} (h : Run step Unshared ({} : State α) as s) : Preserved s :=
  (h.invariant (fun _ _ _ => consistent_step) consistent_empty).preserved

end

/-- Two graphs with a phase `draft`, or one graph before and after a resume: the first sidecar is lost. -/
theorem shared_phase_name_overwrites : ∃ s,
    exec step ({} : State String)
      [.assemble "draft", .assemble "draft",
        .compact 0 true [⟨some "m1", "first"⟩] [.remove], .write 0 1 .written,
        .compact 1 true [⟨some "m2", "second"⟩] [.remove], .write 1 1 .written] = some s ∧ ¬ Preserved s := by
  let first : Pending String := ⟨0, "draft", 1, [⟨some "m1", "first"⟩]⟩
  let second : Pending String := ⟨1, "draft", 1, [⟨some "m2", "second"⟩]⟩
  let event (p : Pending String) : CompactionEvent String := ⟨"draft", 1, some (sidecarName "draft" 1), p.removed⟩
  let file (p : Pending String) : Option (Sidecar String) := some (sidecar "draft" 1 p.removed)
  refine ⟨{
    instances := [⟨"draft", 2⟩, ⟨"draft", 2⟩]
    taken := [first, second]
    events := [event first, event second]
    files := Function.update (Function.update (fun _ => none) (sidecarName "draft" 1) (file first))
      (sidecarName "draft" 1) (file second) }, rfl, fun h => ?_⟩
  obtain ⟨content, hcontent, hmessages⟩ := h (event first) List.mem_cons_self _ rfl
  dsimp only at hcontent
  rw [Function.update_self] at hcontent
  obtain rfl := Option.some.inj hcontent
  simp [sidecar, event, first, second] at hmessages

def sampleRun : List (Action String) :=
  [.assemble "draft", .assemble "review", .compact 0 true [⟨some "m1", "first"⟩] [.remove],
    .compact 1 true [⟨some "m2", "second"⟩] [.remove], .write 1 1 .written, .write 0 1 .written]

theorem run_preserved_sample : ∃ s, Run step Unshared {} sampleRun s ∧ s.events.length = 2 ∧ Preserved s := by
  obtain ⟨s, hlength, hrun⟩ : ∃ s, s.events.length = 2 ∧ Run step Unshared {} sampleRun s := by
    refine ⟨_, ?_, .cons trivial rfl (.cons trivial rfl (.cons ?_ rfl (.cons ?_ rfl (.cons trivial rfl
      (.cons trivial rfl (.nil _))))))⟩
    · rfl
    · intro m hm p hp
      cases hp
    · intro m hm p hp hname
      obtain rfl : (⟨"review", 1⟩ : Middleware) = m := Option.some.inj hm
      obtain rfl := List.mem_singleton.mp hp
      revert hname
      simp
  exact ⟨s, hrun, hlength, run_preserved hrun⟩

end GraphSkillRuntime.Compaction
