import GraphSkillRuntime.RequestEquality
import GraphSkillRuntime.Runs

/-!
The store of run requests: a save writes a temporary file, links it to `request.json` unless that name is taken, and
compares its request with the stored one when it is. Any number of processes save at once, and each of them may stop
between two steps.
-/

namespace GraphSkillRuntime.RunSnapshots

open JsonText RunContracts Runs

/-- The JSON of a request and what the contract makes of it again, with the directory of a run. The timeout of a CLI
executor is at most a day, so every request has a finite one. -/
structure Snapshots (fold : Char → List Char) (F : Type) where
  classify : F → FloatClass
  Text : Type
  empty : Text
  write : RunRequest fold F → Text
  read : Text → Option (RunRequest fold F)
  read_write : ∀ r, profileFloats classify isFinite r.profile = true →
    read (write r) = some (dropNonFinite classify r)
  Directory : Type
  directoryEq : DecidableEq Directory
  locate : String → String → Directory

instance {fold : Char → List Char} {F : Type} (S : Snapshots fold F) : DecidableEq S.Directory := S.directoryEq

def isSegment (runId : String) : Bool :=
  decide (runId ≠ "") && decide (runId ≠ ".") && decide (runId ≠ "..") &&
    !runId.toList.contains '/' && !runId.toList.contains '\\'

theorem getElem?_append_cases {α : Type} {xs : List α} {x y : α} {i : ℕ} (h : (xs ++ [x])[i]? = some y) :
    xs[i]? = some y ∨ y = x := by
  by_cases hi : i < xs.length
  · rw [List.getElem?_append_left hi] at h
    exact .inl h
  · rw [List.getElem?_append_right (by omega)] at h
    have hmem := List.mem_of_getElem? h
    exact .inr (List.mem_singleton.mp hmem)

section Store

variable {fold : Char → List Char} {F : Type} (S : Snapshots fold F)

inductive Outcome where
  | returned
  | refused
  | failed
  deriving DecidableEq

inductive Phase where
  | opening
  | writing
  | linking
  | comparing
  | cleaning (outcome : Outcome)
  | done (outcome : Outcome)
  | crashed
  deriving DecidableEq

/-- A save with the file it writes; `request.json` is another name of that file once it is linked. -/
structure Save where
  request : RunRequest fold F
  phase : Phase
  content : S.Text
  temporary : Bool := false

def Save.directory (c : Save S) : S.Directory := S.locate c.request.profile.stateRoot c.request.runId

structure State where
  saves : List (Save S) := []
  destination : S.Directory → Option ℕ := fun _ => none

def State.content (s : State S) (i : ℕ) : Option S.Text := (s.saves[i]?).map Save.content

def load (s : State S) (d : S.Directory) : Option (RunRequest fold F) :=
  (s.destination d).bind fun i => (s.content S i).bind S.read

inductive Action where
  | begin (request : RunRequest fold F)
  | advance (i : ℕ)
  | writePart (i : ℕ) (text : S.Text)
  | fail (i : ℕ)
  | crash (i : ℕ)

def State.put (s : State S) (i : ℕ) (c : Save S) : State S := { s with saves := s.saves.set i c }

def advance (s : State S) (i : ℕ) (c : Save S) : Option (State S) :=
  match c.phase with
  | .opening => some (s.put S i { c with phase := .writing, content := S.empty, temporary := true })
  | .writing => some (s.put S i { c with phase := .linking, content := S.write c.request })
  | .linking =>
    match s.destination c.directory with
    | none =>
      some { (s.put S i { c with phase := .cleaning .returned }) with
        destination := Function.update s.destination c.directory (some i) }
    | some _ => some (s.put S i { c with phase := .comparing })
  | .comparing =>
    match load S s c.directory with
    | some existing =>
      some (s.put S i { c with
        phase := .cleaning (if requestEq S.classify existing c.request then .returned else .refused) })
    | none => some (s.put S i { c with phase := .cleaning .refused })
  | .cleaning outcome => some (s.put S i { c with phase := .done outcome, temporary := false })
  | _ => none

def Phase.live : Phase → Bool
  | .opening | .writing | .linking | .comparing | .cleaning _ => true
  | _ => false

/-- A step may raise an `OSError`; what was opened is removed then, unless removing it is what fails. -/
def failed : Phase → Option Phase
  | .opening | .writing | .linking | .comparing => some (.cleaning .failed)
  | .cleaning _ => some (.done .failed)
  | _ => none

def step (s : State S) : Action S → Option (State S)
  | .begin request =>
    some { s with saves := s.saves ++
      [{ request, phase := if isSegment request.runId then .opening else .done .failed, content := S.empty }] }
  | .advance i => (s.saves[i]?).bind (advance S s i)
  | .writePart i text => (s.saves[i]?).bind fun c =>
    if c.phase = .writing then some (s.put S i { c with content := text }) else none
  | .fail i => (s.saves[i]?).bind fun c => (failed c.phase).map fun phase => s.put S i { c with phase }
  | .crash i => (s.saves[i]?).bind fun c =>
    if c.phase.live then some (s.put S i { c with phase := .crashed }) else none

def FiniteRequest (_ : State S) : Action S → Prop
  | .begin request => requestFloats S.classify isFinite request = true
  | _ => True

def Phase.failing (p : Phase) : Prop := p = .cleaning .failed ∨ p = .done .failed ∨ p = .crashed

inductive Moved (s : State S) (c : Save S) : Save S → Prop
  | opened : c.phase = .opening → Moved s c { c with phase := .writing, content := S.empty, temporary := true }
  | part (text : S.Text) : c.phase = .writing → Moved s c { c with content := text }
  | flushed : c.phase = .writing → Moved s c { c with phase := .linking, content := S.write c.request }
  | taken {j : ℕ} : c.phase = .linking → s.destination c.directory = some j → Moved s c { c with phase := .comparing }
  | equal {x : RunRequest fold F} : c.phase = .comparing → load S s c.directory = some x →
    requestEq S.classify x c.request = true → Moved s c { c with phase := .cleaning .returned }
  | refused : c.phase = .comparing →
    (∀ x, load S s c.directory = some x → requestEq S.classify x c.request = false) →
    Moved s c { c with phase := .cleaning .refused }
  | cleaned {o : Outcome} : c.phase = .cleaning o → Moved s c { c with phase := .done o, temporary := false }
  | stopped : c.phase.live = true → Moved s c { c with phase := .cleaning .failed }
  | uncleaned {o : Outcome} : c.phase = .cleaning o → Moved s c { c with phase := .done .failed }
  | crashed : c.phase.live = true → Moved s c { c with phase := .crashed }

def linked (s : State S) (i : ℕ) (c : Save S) : State S :=
  { (s.put S i { c with phase := .cleaning .returned }) with
    destination := Function.update s.destination c.directory (some i) }

variable {S}

theorem linked_destination (s : State S) (i : ℕ) (c : Save S) :
    (linked S s i c).destination = Function.update s.destination c.directory (some i) := rfl

theorem advance_cases {s t : State S} {i : ℕ} {c : Save S} (h : advance S s i c = some t) :
    (∃ c', Moved S s c c' ∧ (c'.phase.failing → c.phase.failing) ∧ t = s.put S i c') ∨
      c.phase = .linking ∧ s.destination c.directory = none ∧ t = linked S s i c := by
  unfold advance at h
  cases hp : c.phase with
  | opening =>
    rw [hp] at h
    exact .inl ⟨_, .opened hp, by simp [Phase.failing], (Option.some.inj h).symm⟩
  | writing =>
    rw [hp] at h
    exact .inl ⟨_, .flushed hp, by simp [Phase.failing], (Option.some.inj h).symm⟩
  | linking =>
    rw [hp] at h
    cases hd : s.destination c.directory with
    | none =>
      simp only [hd] at h
      exact .inr ⟨rfl, rfl, (Option.some.inj h).symm⟩
    | some j =>
      simp only [hd] at h
      exact .inl ⟨_, .taken hp hd, by simp [Phase.failing], (Option.some.inj h).symm⟩
  | comparing =>
    rw [hp] at h
    cases hl : load S s c.directory with
    | none =>
      simp only [hl] at h
      refine .inl ⟨_, .refused hp ?_, by simp [Phase.failing], (Option.some.inj h).symm⟩
      simp [hl]
    | some x =>
      simp only [hl] at h
      by_cases he : requestEq S.classify x c.request = true
      · rw [if_pos he] at h
        exact .inl ⟨_, .equal hp hl he, by simp [Phase.failing], (Option.some.inj h).symm⟩
      · rw [if_neg he] at h
        refine .inl ⟨_, .refused hp ?_, by simp [Phase.failing], (Option.some.inj h).symm⟩
        intro y hy
        rw [hl, Option.some.injEq] at hy
        rw [← hy]
        exact Bool.eq_false_iff.mpr he
  | cleaning o =>
    rw [hp] at h
    exact .inl ⟨_, .cleaned hp, by simp [Phase.failing], (Option.some.inj h).symm⟩
  | done o =>
    rw [hp] at h
    exact absurd h (by simp)
  | crashed =>
    rw [hp] at h
    exact absurd h (by simp)

theorem step_cases {s t : State S} {a : Action S} (h : step S s a = some t) :
    (∃ request, a = .begin request ∧ t = { s with saves := s.saves ++
      [{ request, phase := if isSegment request.runId then .opening else .done .failed, content := S.empty }] }) ∨
    ∃ i c, s.saves[i]? = some c ∧ ((∃ c', Moved S s c c' ∧
      (c'.phase.failing → c.phase.failing ∨ a = .fail i ∨ a = .crash i) ∧ t = s.put S i c') ∨
      c.phase = .linking ∧ s.destination c.directory = none ∧ t = linked S s i c) := by
  cases a with
  | begin request => exact .inl ⟨request, rfl, (Option.some.inj h).symm⟩
  | advance i =>
    obtain ⟨c, hc, h⟩ := Option.bind_eq_some_iff.mp h
    refine .inr ⟨i, c, hc, ?_⟩
    rcases advance_cases h with ⟨c', hmoved, hfailing, ht⟩ | hlink
    · exact .inl ⟨c', hmoved, fun hf => .inl (hfailing hf), ht⟩
    · exact .inr hlink
  | writePart i text =>
    obtain ⟨c, hc, h⟩ := Option.bind_eq_some_iff.mp h
    split_ifs at h with hp
    exact .inr ⟨i, c, hc, .inl ⟨_, .part text hp, .inl, (Option.some.inj h).symm⟩⟩
  | fail i =>
    obtain ⟨c, hc, h⟩ := Option.bind_eq_some_iff.mp h
    obtain ⟨phase, hphase, rfl⟩ := Option.map_eq_some_iff.mp h
    refine .inr ⟨i, c, hc, .inl ⟨_, ?_, fun _ => .inr (.inl rfl), rfl⟩⟩
    cases hp : c.phase with
    | cleaning o =>
      rw [hp] at hphase
      obtain rfl := Option.some.inj hphase
      exact .uncleaned hp
    | done o =>
      rw [hp] at hphase
      exact absurd hphase (by simp [failed])
    | crashed =>
      rw [hp] at hphase
      exact absurd hphase (by simp [failed])
    | _ =>
      rw [hp] at hphase
      obtain rfl := Option.some.inj hphase
      exact .stopped (by rw [hp]; rfl)
  | crash i =>
    obtain ⟨c, hc, h⟩ := Option.bind_eq_some_iff.mp h
    split_ifs at h with hp
    exact .inr ⟨i, c, hc, .inl ⟨_, .crashed hp, fun _ => .inr (.inr rfl), (Option.some.inj h).symm⟩⟩

def Phase.settled : Phase → Bool
  | .cleaning _ | .done _ | .crashed => true
  | _ => false

theorem Moved.request_eq {s : State S} {c c' : Save S} (h : Moved S s c c') : c'.request = c.request := by
  cases h <;> rfl

theorem Moved.settled {s : State S} {c c' : Save S} (h : Moved S s c c') (hc : c.phase.settled = true) :
    c'.content = c.content ∧ c'.phase.settled = true := by
  cases h with
  | opened hp => rw [hp] at hc; cases hc
  | part _ hp => rw [hp] at hc; cases hc
  | flushed hp => rw [hp] at hc; cases hc
  | taken hp => rw [hp] at hc; cases hc
  | _ => exact ⟨rfl, rfl⟩

/-- The file under `request.json` is one that its save has written to the end. -/
structure Sound (s : State S) : Prop where
  finite : ∀ (i : ℕ) (c : Save S), s.saves[i]? = some c → requestFloats S.classify isFinite c.request = true
  written : ∀ (i : ℕ) (c : Save S), s.saves[i]? = some c → c.phase = .linking → c.content = S.write c.request
  stored : ∀ (d : S.Directory) (i : ℕ), s.destination d = some i → ∃ c : Save S,
    s.saves[i]? = some c ∧ c.directory = d ∧
    c.content = S.write c.request ∧ c.phase.settled = true ∧ isSegment c.request.runId = true
  segment : ∀ (i : ℕ) (c : Save S), s.saves[i]? = some c → c.phase = .done .failed ∨ isSegment c.request.runId = true
  returned : ∀ (i : ℕ) (c : Save S), s.saves[i]? = some c → c.phase = .cleaning .returned ∨ c.phase = .done .returned →
    ∃ x, load S s c.directory = some x ∧ requestEq S.classify x c.request = true
  comparing : ∀ (i : ℕ) (c : Save S), s.saves[i]? = some c → c.phase = .comparing →
    (s.destination c.directory).isSome
  refused : ∀ (i : ℕ) (c : Save S), s.saves[i]? = some c → c.phase = .cleaning .refused ∨ c.phase = .done .refused →
    ∃ x, load S s c.directory = some x ∧ requestEq S.classify x c.request = false

theorem read_write_finite {r : RunRequest fold F} (h : requestFloats S.classify isFinite r = true) :
    S.read (S.write r) = some r := by
  have hprofile : profileFloats S.classify isFinite r.profile = true := by
    simp only [requestFloats, Bool.and_eq_true] at h
    exact h.1.1.1
  rw [S.read_write r hprofile, dropNonFinite_eq S.classify h]

theorem Sound.load_eq {s : State S} (h : Sound s) {d : S.Directory} {i : ℕ} (hd : s.destination d = some i)
    {c : Save S} (hc : s.saves[i]? = some c) : load S s d = some c.request := by
  obtain ⟨c', hc', -, hcontent, -⟩ := h.stored d i hd
  rw [hc, Option.some.injEq] at hc'
  subst hc'
  rw [load, hd, Option.bind_some, State.content, hc, Option.map_some, Option.bind_some, hcontent,
    read_write_finite (h.finite i c hc)]

theorem Sound.frozen {s t : State S} (h : Sound s) {a : Action S} (hs : step S s a = some t) {d : S.Directory} {i : ℕ}
    (hd : s.destination d = some i) : t.destination d = some i ∧ t.content S i = s.content S i := by
  obtain ⟨c, hc, -, -, hsettled, -⟩ := h.stored d i hd
  have hlt : i < s.saves.length := (List.getElem?_eq_some_iff.mp hc).1
  rcases step_cases hs with ⟨r, -, rfl⟩ | ⟨j, b, hb, ⟨b', hmoved, -, rfl⟩ | ⟨hlinking, hnone, rfl⟩⟩
  · refine ⟨hd, ?_⟩
    rw [State.content, State.content, List.getElem?_append_left hlt]
  · refine ⟨hd, ?_⟩
    by_cases hji : j = i
    · subst hji
      rw [hc, Option.some.injEq] at hb
      subst hb
      rw [State.content, State.content, State.put, List.getElem?_set_self hlt, hc, Option.map_some, Option.map_some,
        (hmoved.settled hsettled).1]
    · rw [State.content, State.content, State.put, List.getElem?_set_ne hji]
  · have hne : d ≠ b.directory := by
      rintro rfl
      rw [hd] at hnone
      exact absurd hnone (by simp)
    have hji : j ≠ i := by
      rintro rfl
      rw [hc, Option.some.injEq] at hb
      subst hb
      rw [hlinking] at hsettled
      exact absurd hsettled (by simp [Phase.settled])
    refine ⟨(Function.update_of_ne hne _ _).trans hd, ?_⟩
    rw [State.content, State.content, linked, State.put, List.getElem?_set_ne hji]

theorem Sound.load_frozen {s t : State S} (h : Sound s) {a : Action S} (hs : step S s a = some t) {d : S.Directory}
    {x : RunRequest fold F} (hx : load S s d = some x) : load S t d = some x := by
  obtain ⟨i, hd, hread⟩ := Option.bind_eq_some_iff.mp hx
  obtain ⟨hd', hcontent⟩ := h.frozen hs hd
  rw [load, hd', Option.bind_some, hcontent]
  exact hread

theorem getElem?_put {s : State S} {i : ℕ} {c c' : Save S} (hc : s.saves[i]? = some c) (j : ℕ) :
    (s.put S i c').saves[j]? = if i = j then some c' else s.saves[j]? := by
  have hlt : i < s.saves.length := (List.getElem?_eq_some_iff.mp hc).1
  by_cases hij : i = j
  · subst hij
    rw [if_pos rfl]
    exact List.getElem?_set_self hlt
  · rw [if_neg hij]
    exact List.getElem?_set_ne hij

theorem sound_begin {s t : State S} (h : Sound s) {request : RunRequest fold F}
    (hfinite : requestFloats S.classify isFinite request = true) (hs : step S s (.begin request) = some t) :
    Sound t := by
  have hload : ∀ {d x}, load S s d = some x → load S t d = some x := h.load_frozen hs
  obtain rfl := Option.some.inj hs
  have hsaves : ∀ {i : ℕ} {c : Save S}, (s.saves ++
      [{ request, phase := if isSegment request.runId then .opening else .done .failed, content := S.empty }])[i]? =
        some c → s.saves[i]? = some c ∨ c.request = request ∧
          (c.phase = .opening ∧ isSegment request.runId = true ∨ c.phase = .done .failed) := by
    intro i c hc
    rcases getElem?_append_cases hc with hc | hc
    · exact .inl hc
    · subst hc
      refine .inr ⟨rfl, ?_⟩
      dsimp only
      split
      · next hsegment => exact .inl ⟨rfl, hsegment⟩
      · exact .inr rfl
  refine ⟨?_, ?_, ?_, ?_, ?_, ?_, ?_⟩
  · intro i c hc
    rcases hsaves hc with hc | ⟨hr, -⟩
    · exact h.finite i c hc
    · rw [hr]
      exact hfinite
  · intro i c hc hp
    rcases hsaves hc with hc | ⟨-, ⟨ho, -⟩ | hf⟩
    · exact h.written i c hc hp
    · rw [ho] at hp; cases hp
    · rw [hf] at hp; cases hp
  · intro d i hd
    obtain ⟨c, hc, hrest⟩ := h.stored d i hd
    exact ⟨c, by rw [List.getElem?_append_left (List.getElem?_eq_some_iff.mp hc).1, hc], hrest⟩
  · intro i c hc
    rcases hsaves hc with hc | ⟨hr, ⟨-, hsegment⟩ | hf⟩
    · exact h.segment i c hc
    · exact .inr (hr ▸ hsegment)
    · exact .inl hf
  · intro i c hc hp
    rcases hsaves hc with hc | ⟨-, ⟨ho, -⟩ | hf⟩
    · obtain ⟨x, hx, heq⟩ := h.returned i c hc hp
      exact ⟨x, hload hx, heq⟩
    · rw [ho] at hp; rcases hp with hp | hp <;> cases hp
    · rw [hf] at hp; rcases hp with hp | hp <;> cases hp
  · intro i c hc hp
    rcases hsaves hc with hc | ⟨-, ⟨ho, -⟩ | hf⟩
    · exact h.comparing i c hc hp
    · rw [ho] at hp; cases hp
    · rw [hf] at hp; cases hp
  · intro i c hc hp
    rcases hsaves hc with hc | ⟨-, ⟨ho, -⟩ | hf⟩
    · obtain ⟨x, hx, hne⟩ := h.refused i c hc hp
      exact ⟨x, hload hx, hne⟩
    · rw [ho] at hp; rcases hp with hp | hp <;> cases hp
    · rw [hf] at hp; rcases hp with hp | hp <;> cases hp

theorem Moved.written {s : State S} {c c' : Save S} (h : Moved S s c c') (hp : c'.phase = .linking) :
    c'.content = S.write c'.request := by
  cases h with
  | part _ hc => rw [hc] at hp; cases hp
  | flushed => rfl
  | _ => cases hp

theorem Moved.returned {s : State S} {c c' : Save S} (h : Moved S s c c')
    (hp : c'.phase = .cleaning .returned ∨ c'.phase = .done .returned) :
    c.phase = .cleaning .returned ∨
      ∃ x, load S s c.directory = some x ∧ requestEq S.classify x c.request = true := by
  cases h with
  | part _ hc => rw [hc] at hp; rcases hp with hp | hp <;> cases hp
  | equal hc hx heq => exact .inr ⟨_, hx, heq⟩
  | cleaned hc =>
    rcases hp with hp | hp
    · cases hp
    · obtain rfl := Phase.done.inj hp
      exact .inl hc
  | _ => rcases hp with hp | hp <;> cases hp

theorem Moved.comparing {s : State S} {c c' : Save S} (h : Moved S s c c') (hp : c'.phase = .comparing) :
    (s.destination c.directory).isSome := by
  cases h with
  | part _ hc => rw [hc] at hp; cases hp
  | taken _ hd => rw [hd]; rfl
  | _ => cases hp

theorem Moved.refused_cases {s : State S} {c c' : Save S} (h : Moved S s c c')
    (hp : c'.phase = .cleaning .refused ∨ c'.phase = .done .refused) :
    c.phase = .cleaning .refused ∨ c.phase = .comparing ∧
      ∀ x, load S s c.directory = some x → requestEq S.classify x c.request = false := by
  cases h with
  | part _ hc => rw [hc] at hp; rcases hp with hp | hp <;> cases hp
  | refused hc hx => exact .inr ⟨hc, hx⟩
  | cleaned hc =>
    rcases hp with hp | hp
    · cases hp
    · obtain rfl := Phase.done.inj hp
      exact .inl hc
  | _ => rcases hp with hp | hp <;> cases hp

theorem Sound.refused_moved {s : State S} (h : Sound s) {i : ℕ} {c c' : Save S} (hc : s.saves[i]? = some c)
    (hmoved : Moved S s c c') (hp : c'.phase = .cleaning .refused ∨ c'.phase = .done .refused) :
    ∃ x, load S s c.directory = some x ∧ requestEq S.classify x c.request = false := by
  rcases hmoved.refused_cases hp with hr | ⟨hcomparing, hx⟩
  · exact h.refused i c hc (.inl hr)
  · obtain ⟨j, hj⟩ := Option.isSome_iff_exists.mp (h.comparing i c hc hcomparing)
    obtain ⟨b, hb, -⟩ := h.stored _ j hj
    have hload := h.load_eq hj hb
    exact ⟨b.request, hload, hx _ hload⟩

theorem Moved.segment {s : State S} {c c' : Save S} (h : Moved S s c c')
    (hc : c.phase = .done .failed ∨ isSegment c.request.runId = true) :
    c'.phase = .done .failed ∨ isSegment c'.request.runId = true := by
  rw [h.request_eq]
  refine .inr ?_
  rcases hc with hc | hc
  · cases h with
    | opened hp => rw [hc] at hp; cases hp
    | part _ hp => rw [hc] at hp; cases hp
    | flushed hp => rw [hc] at hp; cases hp
    | taken hp => rw [hc] at hp; cases hp
    | equal hp => rw [hc] at hp; cases hp
    | refused hp => rw [hc] at hp; cases hp
    | cleaned hp => rw [hc] at hp; cases hp
    | stopped hp => rw [hc] at hp; cases hp
    | uncleaned hp => rw [hc] at hp; cases hp
    | crashed hp => rw [hc] at hp; cases hp
  · exact hc

theorem sound_moved {s : State S} (h : Sound s) {a : Action S} {i : ℕ} {c c' : Save S}
    (hc : s.saves[i]? = some c) (hmoved : Moved S s c c') (hs : step S s a = some (s.put S i c')) :
    Sound (s.put S i c') := by
  have hdir : c'.directory = c.directory := by rw [Save.directory, Save.directory, hmoved.request_eq]
  refine ⟨?_, ?_, ?_, ?_, ?_, ?_, ?_⟩
  · intro j b hb
    rw [getElem?_put hc] at hb
    split_ifs at hb
    · obtain rfl := Option.some.inj hb
      rw [hmoved.request_eq]
      exact h.finite i c hc
    · exact h.finite j b hb
  · intro j b hb hp
    rw [getElem?_put hc] at hb
    split_ifs at hb
    · obtain rfl := Option.some.inj hb
      exact hmoved.written hp
    · exact h.written j b hb hp
  · intro d j hd
    obtain ⟨b, hb, hbd, hcontent, hsettled, hsegment⟩ := h.stored d j hd
    by_cases hij : i = j
    · subst hij
      rw [hc, Option.some.injEq] at hb
      subst hb
      obtain ⟨hkept, hstill⟩ := hmoved.settled hsettled
      exact ⟨c', by rw [getElem?_put hc, if_pos rfl], hdir.trans hbd,
        by rw [hkept, hcontent, hmoved.request_eq], hstill, by rw [hmoved.request_eq, hsegment]⟩
    · exact ⟨b, by rw [getElem?_put hc, if_neg hij, hb], hbd, hcontent, hsettled, hsegment⟩
  · intro j b hb
    rw [getElem?_put hc] at hb
    split_ifs at hb
    · obtain rfl := Option.some.inj hb
      exact hmoved.segment (h.segment i c hc)
    · exact h.segment j b hb
  · intro j b hb hp
    rw [getElem?_put hc] at hb
    split_ifs at hb
    · obtain rfl := Option.some.inj hb
      rw [hdir, hmoved.request_eq]
      rcases hmoved.returned hp with hret | ⟨x, hx, heq⟩
      · obtain ⟨x, hx, heq⟩ := h.returned i c hc (.inl hret)
        exact ⟨x, h.load_frozen hs hx, heq⟩
      · exact ⟨x, h.load_frozen hs hx, heq⟩
    · obtain ⟨x, hx, heq⟩ := h.returned j b hb hp
      exact ⟨x, h.load_frozen hs hx, heq⟩
  · intro j b hb hp
    rw [getElem?_put hc] at hb
    split_ifs at hb
    · obtain rfl := Option.some.inj hb
      rw [hdir]
      exact hmoved.comparing hp
    · exact h.comparing j b hb hp
  · intro j b hb hp
    rw [getElem?_put hc] at hb
    split_ifs at hb
    · obtain rfl := Option.some.inj hb
      rw [hdir, hmoved.request_eq]
      obtain ⟨x, hx, hne⟩ := h.refused_moved hc hmoved hp
      exact ⟨x, h.load_frozen hs hx, hne⟩
    · obtain ⟨x, hx, hne⟩ := h.refused j b hb hp
      exact ⟨x, h.load_frozen hs hx, hne⟩

theorem sound_linked {s : State S} (h : Sound s) {a : Action S} {i : ℕ} {c : Save S}
    (hc : s.saves[i]? = some c) (hp : c.phase = .linking) (hs : step S s a = some (linked S s i c)) :
    Sound (linked S s i c) := by
  have hget : ∀ j, (linked S s i c).saves[j]? =
      if i = j then some { c with phase := .cleaning .returned } else s.saves[j]? := getElem?_put hc
  have hsegment : isSegment c.request.runId = true := (h.segment i c hc).resolve_left (by rw [hp]; simp)
  have hstored : ∀ (d : S.Directory) (j : ℕ), (linked S s i c).destination d = some j →
      ∃ b : Save S, (linked S s i c).saves[j]? = some b ∧ b.directory = d ∧ b.content = S.write b.request ∧
        b.phase.settled = true ∧ isSegment b.request.runId = true := by
    intro d j hd
    by_cases hdir : d = c.directory
    · subst hdir
      rw [linked_destination, Function.update_self, Option.some.injEq] at hd
      subst hd
      exact ⟨{ c with phase := .cleaning .returned }, by rw [hget, if_pos rfl], rfl, h.written i c hc hp, rfl,
        hsegment⟩
    · rw [linked_destination, Function.update_of_ne hdir] at hd
      obtain ⟨b, hb, hbd, hcontent, hsettled, hb'⟩ := h.stored d j hd
      have hij : i ≠ j := by
        rintro rfl
        rw [hc, Option.some.injEq] at hb
        subst hb
        rw [hp] at hsettled
        cases hsettled
      exact ⟨b, by rw [hget, if_neg hij, hb], hbd, hcontent, hsettled, hb'⟩
  have hfinite : ∀ (j : ℕ) (b : Save S), (linked S s i c).saves[j]? = some b →
      requestFloats S.classify isFinite b.request = true := by
    intro j b hb
    rw [hget] at hb
    split_ifs at hb
    · obtain rfl := Option.some.inj hb
      exact h.finite i c hc
    · exact h.finite j b hb
  have hdestination : ∀ d, (s.destination d).isSome → ((linked S s i c).destination d).isSome := by
    intro d hd
    obtain ⟨j, hj⟩ := Option.isSome_iff_exists.mp hd
    rw [(h.frozen hs hj).1]
    rfl
  refine ⟨hfinite, ?_, hstored, ?_, ?_, ?_, ?_⟩
  · intro j b hb hl
    rw [hget] at hb
    split_ifs at hb
    · obtain rfl := Option.some.inj hb
      cases hl
    · exact h.written j b hb hl
  · intro j b hb
    rw [hget] at hb
    split_ifs at hb
    · obtain rfl := Option.some.inj hb
      exact .inr hsegment
    · exact h.segment j b hb
  · intro j b hb hret
    rw [hget] at hb
    split_ifs at hb with hij
    · obtain rfl := Option.some.inj hb
      refine ⟨c.request, ?_, requestEq_refl S.classify (h.finite i c hc)⟩
      have hd : (linked S s i c).destination c.directory = some i := Function.update_self ..
      rw [Save.directory] at hd ⊢
      rw [load, hd, Option.bind_some, State.content, hget, if_pos rfl, Option.map_some, Option.bind_some,
        h.written i c hc hp, read_write_finite (h.finite i c hc)]
    · obtain ⟨x, hx, heq⟩ := h.returned j b hb hret
      exact ⟨x, h.load_frozen hs hx, heq⟩
  · intro j b hb hcomparing
    rw [hget] at hb
    split_ifs at hb
    · obtain rfl := Option.some.inj hb
      cases hcomparing
    · exact hdestination _ (h.comparing j b hb hcomparing)
  · intro j b hb hrefused
    rw [hget] at hb
    split_ifs at hb
    · obtain rfl := Option.some.inj hb
      rcases hrefused with hr | hr <;> cases hr
    · obtain ⟨x, hx, hne⟩ := h.refused j b hb hrefused
      exact ⟨x, h.load_frozen hs hx, hne⟩

theorem sound_step {s t : State S} {a : Action S} (h : Sound s) (hg : FiniteRequest S s a)
    (hs : step S s a = some t) : Sound t := by
  rcases step_cases hs with ⟨r, rfl, -⟩ | ⟨i, c, hc, ⟨c', hmoved, -, rfl⟩ | ⟨hp, -, rfl⟩⟩
  · exact sound_begin h hg hs
  · exact sound_moved h hc hmoved hs
  · exact sound_linked h hc hp hs

theorem sound_empty : Sound ({} : State S) := by
  refine ⟨?_, ?_, ?_, ?_, ?_, ?_, ?_⟩
  · intro i c hc
    cases hc
  · intro i c hc
    cases hc
  · intro d i hd
    cases hd
  · intro i c hc
    cases hc
  · intro i c hc
    cases hc
  · intro i c hc
    cases hc
  · intro i c hc
    cases hc

theorem sound_run {s t : State S} {as : List (Action S)} (hr : Run (step S) (FiniteRequest S) s as t)
    (h : Sound s) : Sound t :=
  hr.invariant (fun _ _ _ hs hg hstep => sound_step hs hg hstep) h

theorem Sound.frozen_run {s t : State S} {as : List (Action S)} (hr : Run (step S) (FiniteRequest S) s as t)
    (h : Sound s) {d : S.Directory} {i : ℕ} (hd : s.destination d = some i) :
    t.destination d = some i ∧ t.content S i = s.content S i := by
  have hI : ∀ u a v, Sound u ∧ u.destination d = some i ∧ u.content S i = s.content S i →
      FiniteRequest S u a → step S u a = some v →
        Sound v ∧ v.destination d = some i ∧ v.content S i = s.content S i := by
    rintro u a v ⟨hu, hdu, hcu⟩ hg hstep
    obtain ⟨hdv, hcv⟩ := hu.frozen hstep hdu
    exact ⟨sound_step hu hg hstep, hdv, hcv.trans hcu⟩
  exact (hr.invariant hI ⟨h, hd, rfl⟩).2

def requestDirectory (S : Snapshots fold F) (r : RunRequest fold F) : S.Directory :=
  S.locate r.profile.stateRoot r.runId

def started (s : State S) (r : RunRequest fold F) : State S :=
  { s with saves := s.saves ++
    [{ request := r, phase := if isSegment r.runId then .opening else .done .failed, content := S.empty }] }

theorem getElem?_started (s : State S) (r : RunRequest fold F) :
    (started s r).saves[s.saves.length]? =
      some { request := r, phase := if isSegment r.runId then .opening else .done .failed, content := S.empty } := by
  rw [started, List.getElem?_append_right (le_refl _), Nat.sub_self]
  rfl

structure Late (n : ℕ) (r x : RunRequest fold F) (s : State S) (c : Save S) : Prop where
  sound : Sound s
  save : s.saves[n]? = some c
  request : c.request = r
  stored : load S s (requestDirectory S r) = some x

theorem Late.directory {n : ℕ} {r x : RunRequest fold F} {s : State S} {c : Save S} (h : Late n r x s c) :
    c.directory = requestDirectory S r := by
  rw [Save.directory, h.request, requestDirectory]

theorem Late.next {n : ℕ} {r x : RunRequest fold F} {s t : State S} {c : Save S} (h : Late n r x s c) {a : Action S}
    (hg : FiniteRequest S s a) (hs : step S s a = some t) :
    ∃ c', Late n r x t c' ∧ (c' = c ∨ Moved S s c c') ∧
      (c'.phase.failing → c.phase.failing ∨ a = .fail n ∨ a = .crash n) := by
  have hsound := sound_step h.sound hg hs
  have hstored := h.sound.load_frozen hs h.stored
  have hlt : n < s.saves.length := (List.getElem?_eq_some_iff.mp h.save).1
  rcases step_cases hs with ⟨request, -, rfl⟩ | ⟨i, b, hb, ⟨b', hmoved, hfailing, rfl⟩ | ⟨-, hnone, rfl⟩⟩
  · exact ⟨c, ⟨hsound, by rw [List.getElem?_append_left hlt, h.save], h.request, hstored⟩, .inl rfl, .inl⟩
  · by_cases hin : i = n
    · subst hin
      rw [h.save, Option.some.injEq] at hb
      subst hb
      exact ⟨b', ⟨hsound, by rw [getElem?_put h.save, if_pos rfl], hmoved.request_eq.trans h.request, hstored⟩,
        .inr hmoved, hfailing⟩
    · exact ⟨c, ⟨hsound, by rw [getElem?_put hb, if_neg hin, h.save], h.request, hstored⟩, .inl rfl, .inl⟩
  · have hin : i ≠ n := by
      rintro rfl
      rw [h.save, Option.some.injEq] at hb
      subst hb
      obtain ⟨j, hj, -⟩ := Option.bind_eq_some_iff.mp h.stored
      rw [h.directory, hj] at hnone
      exact absurd hnone (by simp)
    refine ⟨c, ⟨hsound, ?_, h.request, hstored⟩, .inl rfl, .inl⟩
    have hget : (s.put S i { b with phase := .cleaning .returned }).saves[n]? = s.saves[n]? := by
      rw [getElem?_put hb, if_neg hin]
    exact hget.trans h.save

theorem Late.run {n : ℕ} {r x : RunRequest fold F} {s t : State S} {c : Save S} {as : List (Action S)}
    (hr : Run (step S) (FiniteRequest S) s as t) (h : Late n r x s c) {P : Phase → Prop} (hP : P c.phase)
    (hmoved : ∀ (u : State S) b b', Late n r x u b → Moved S u b b' → P b.phase → P b'.phase) :
    ∃ c', Late n r x t c' ∧ P c'.phase := by
  refine hr.invariant (I := fun u => ∃ b, Late n r x u b ∧ P b.phase) ?_ ⟨c, h, hP⟩
  rintro u a v ⟨b, hb, hPb⟩ hg hstep
  obtain ⟨b', hb', rfl | hm, -⟩ := hb.next hg hstep
  · exact ⟨b', hb', hPb⟩
  · exact ⟨b', hb', hmoved u b b' hb hm hPb⟩

def Phase.returning (p : Phase) : Prop := p = .cleaning .returned ∨ p = .done .returned

def Phase.refusing (p : Phase) : Prop := p = .cleaning .refused ∨ p = .done .refused

theorem Late.never_returns {n : ℕ} {r x : RunRequest fold F} (hne : requestEq S.classify x r = false)
    {s : State S} {c c' : Save S} (h : Late n r x s c) (hm : Moved S s c c') (hp : ¬ c.phase.returning) :
    ¬ c'.phase.returning := by
  intro hret
  rcases hm.returned hret with hc | ⟨y, hy, heq⟩
  · exact hp (.inl hc)
  · rw [h.directory, h.stored, Option.some.injEq] at hy
    rw [← hy, h.request, hne] at heq
    exact absurd heq (by simp)

theorem Late.never_refused {n : ℕ} {r x : RunRequest fold F} (heq : requestEq S.classify x r = true)
    {s : State S} {c c' : Save S} (h : Late n r x s c) (hm : Moved S s c c') (hp : ¬ c.phase.refusing) :
    ¬ c'.phase.refusing := by
  intro href
  rcases hm.refused_cases href with hc | ⟨-, hx⟩
  · exact hp (.inl hc)
  · have hfalse := hx x (h.directory ▸ h.stored)
    rw [h.request, heq] at hfalse
    exact absurd hfalse (by simp)

def Phase.left : Phase → ℕ
  | .opening => 5
  | .writing => 4
  | .linking => 3
  | .comparing => 2
  | .cleaning _ => 1
  | _ => 0

theorem Late.advances {n : ℕ} {r x : RunRequest fold F} (heq : requestEq S.classify x r = true) {s : State S}
    {c : Save S} (h : Late n r x s c) (hp : c.phase.left ≠ 0) (hok : c.phase ≠ .cleaning .failed)
    (href : ¬ c.phase.refusing) :
    ∃ t c', RunSnapshots.step S s (.advance n) = some t ∧ Late n r x t c' ∧ c'.phase.left + 1 = c.phase.left ∧
      c'.phase ≠ .cleaning .failed ∧ (c'.phase.left = 0 → c'.phase = .done .returned) := by
  obtain ⟨j, hj, -⟩ := Option.bind_eq_some_iff.mp h.stored
  have hstep : ∀ t, advance S s n c = some t → RunSnapshots.step S s (.advance n) = some t := by
    intro t ht
    rw [RunSnapshots.step, h.save, Option.bind_some, ht]
  have hput : ∀ c', c'.request = c.request → RunSnapshots.step S s (.advance n) = some (s.put S n c') →
      Late n r x (s.put S n c') c' := by
    intro c' hc' hs
    exact ⟨sound_step (a := .advance n) h.sound trivial hs, by rw [getElem?_put h.save, if_pos rfl],
      hc'.trans h.request,
      h.sound.load_frozen hs h.stored⟩
  cases hphase : c.phase with
  | opening =>
    have hs := hstep _ (by rw [advance, hphase])
    exact ⟨_, _, hs, hput _ rfl hs, rfl, by simp, by simp [Phase.left]⟩
  | writing =>
    have hs := hstep _ (by rw [advance, hphase])
    exact ⟨_, _, hs, hput _ rfl hs, rfl, by simp, by simp [Phase.left]⟩
  | linking =>
    have hs := hstep (s.put S n { c with phase := .comparing })
      (by simp only [advance, hphase, h.directory, hj])
    exact ⟨_, _, hs, hput _ rfl hs, rfl, by simp, by simp [Phase.left]⟩
  | comparing =>
    have hs := hstep (s.put S n { c with phase := .cleaning .returned })
      (by simp only [advance, hphase, h.directory, h.stored, h.request, heq, if_true])
    exact ⟨_, _, hs, hput _ rfl hs, rfl, by simp, by simp [Phase.left]⟩
  | cleaning o =>
    have hs := hstep _ (by rw [advance, hphase])
    refine ⟨_, _, hs, hput _ rfl hs, rfl, by simp, ?_⟩
    intro _
    cases o with
    | returned => rfl
    | refused => exact absurd (.inl hphase) href
    | failed => exact absurd hphase hok
  | done o => rw [hphase] at hp; exact absurd rfl hp
  | crashed => rw [hphase] at hp; exact absurd rfl hp

theorem Late.returns {n : ℕ} {r x : RunRequest fold F} (heq : requestEq S.classify x r = true) (k : ℕ) {s : State S}
    {c : Save S} (h : Late n r x s c) (hk : c.phase.left = k) (hok : c.phase ≠ .cleaning .failed)
    (href : ¬ c.phase.refusing) (hend : c.phase.left = 0 → c.phase = .done .returned) :
    ∃ t, exec (RunSnapshots.step S) s (List.replicate k (.advance n)) = some t ∧
      (t.saves[n]?).map Save.phase = some (.done .returned) := by
  induction k generalizing s c with
  | zero => exact ⟨s, rfl, by rw [h.save, Option.map_some, hend hk]⟩
  | succ k ih =>
    obtain ⟨t, c', hs, hlate, hleft, hok', hend'⟩ := h.advances heq (by omega) hok href
    obtain ⟨c'', hlate'', hmoved, -⟩ := h.next (a := .advance n) trivial hs
    obtain rfl : c'' = c' := Option.some.inj (hlate''.save.symm.trans hlate.save)
    have href' : ¬ c''.phase.refusing := by
      rcases hmoved with rfl | hmoved
      · exact href
      · exact h.never_refused heq hmoved href
    obtain ⟨u, hu, hphase⟩ := ih hlate (by omega) hok' href' hend'
    exact ⟨u, by rw [List.replicate_succ, exec, hs, Option.bind_some, hu], hphase⟩

theorem Late.healthy {n : ℕ} {r x : RunRequest fold F} (heq : requestEq S.classify x r = true) {s t : State S}
    {c : Save S} {as : List (Action S)} (hr : Run (step S) (FiniteRequest S) s as t)
    (has : ∀ a ∈ as, a ≠ .fail n ∧ a ≠ .crash n) (h : Late n r x s c) (hf : ¬ c.phase.failing)
    (href : ¬ c.phase.refusing) : ∃ c', Late n r x t c' ∧ ¬ c'.phase.failing ∧ ¬ c'.phase.refusing := by
  induction hr generalizing c with
  | nil s => exact ⟨c, h, hf, href⟩
  | @cons s u v a as hg hs hr ih =>
    obtain ⟨hfail, hcrash⟩ := has a (List.mem_cons_self ..)
    obtain ⟨c', hc', hmoved, hfailing⟩ := h.next hg hs
    refine ih (fun b hb => has b (List.mem_cons_of_mem a hb)) hc' ?_ ?_
    · intro hf'
      rcases hfailing hf' with hf' | hf' | hf'
      · exact hf hf'
      · exact hfail hf'
      · exact hcrash hf'
    · rcases hmoved with rfl | hmoved
      · exact href
      · exact h.never_refused heq hmoved href

def Succeeds (s : State S) (i : ℕ) : Prop :=
  ∃ k u, exec (step S) s (List.replicate k (.advance i)) = some u ∧
    (u.saves[i]?).map Save.phase = some (.done .returned)

/-- What a store of snapshots promises in a state and for every run from it. -/
structure CreateOnce (s : State S) : Prop where
  frozen : ∀ as t, Run (step S) (FiniteRequest S) s as t → ∀ d i, s.destination d = some i →
    t.destination d = some i ∧ t.content S i = s.content S i
  returned : ∀ (i : ℕ) (c : Save S), s.saves[i]? = some c → c.phase = .done .returned →
    ∃ x, load S s c.directory = some x ∧ requestEq S.classify x c.request = true
  differing : ∀ r x, requestFloats S.classify isFinite r = true → load S s (requestDirectory S r) = some x →
    requestEq S.classify x r = false → ∀ as t, Run (step S) (FiniteRequest S) (started s r) as t →
      (t.saves[s.saves.length]?).map Save.phase ≠ some (.done .returned) ∧ load S t (requestDirectory S r) = some x
  again : ∀ r x, requestFloats S.classify isFinite r = true → load S s (requestDirectory S r) = some x →
    requestEq S.classify x r = true → ∀ as t, Run (step S) (FiniteRequest S) (started s r) as t →
      (∀ a ∈ as, a ≠ .fail s.saves.length ∧ a ≠ .crash s.saves.length) → Succeeds t s.saves.length
  overlapping : ∀ (i : ℕ) (c : Save S) x, s.saves[i]? = some c → ¬ c.phase.failing →
    load S s c.directory = some x → requestEq S.classify x c.request = true →
      ∀ as t, Run (step S) (FiniteRequest S) s as t → (∀ a ∈ as, a ≠ .fail i ∧ a ≠ .crash i) → Succeeds t i

theorem late_started {s : State S} (h : Sound s) {r x : RunRequest fold F}
    (hr : requestFloats S.classify isFinite r = true) (hx : load S s (requestDirectory S r) = some x) :
    Late s.saves.length r x (started s r)
      { request := r, phase := if isSegment r.runId then .opening else .done .failed, content := S.empty } :=
  ⟨sound_step (a := .begin r) h hr rfl, getElem?_started s r, rfl, h.load_frozen (a := .begin r) rfl hx⟩

theorem Late.succeeds {n : ℕ} {r x : RunRequest fold F} (heq : requestEq S.classify x r = true) {s t : State S}
    {c : Save S} {as : List (Action S)} (hr : Run (step S) (FiniteRequest S) s as t)
    (has : ∀ a ∈ as, a ≠ .fail n ∧ a ≠ .crash n) (h : Late n r x s c) (hf : ¬ c.phase.failing)
    (href : ¬ c.phase.refusing) : Succeeds t n := by
  obtain ⟨c', hc', hf, href⟩ := h.healthy heq hr has hf href
  have hend : c'.phase.left = 0 → c'.phase = .done .returned := by
    intro hleft
    cases hpc : c'.phase with
    | done o =>
      cases o with
      | returned => rfl
      | refused => exact absurd (.inr hpc) href
      | failed => exact absurd (.inr (.inl hpc)) hf
    | crashed => exact absurd (.inr (.inr hpc)) hf
    | _ =>
      rw [hpc] at hleft
      exact absurd hleft (by simp [Phase.left])
  obtain ⟨u, hu, hphase⟩ := hc'.returns heq c'.phase.left rfl (fun h => hf (.inl h)) href hend
  exact ⟨_, u, hu, hphase⟩

theorem requestDirectory_eq {r₁ r₂ : RunRequest fold F} (h : requestEq S.classify r₁ r₂ = true) :
    r₁.runId = r₂.runId ∧ requestDirectory S r₁ = requestDirectory S r₂ := by
  have hkey := (requestEq_iff S.classify).mp h |>.1
  have hrun : r₁.runId = r₂.runId := congrArg RequestKey.runId hkey
  have hroot : r₁.profile.stateRoot = r₂.profile.stateRoot :=
    congrArg (fun k : RequestKey => k.profile.stateRoot) hkey
  exact ⟨hrun, by rw [requestDirectory, requestDirectory, hrun, hroot]⟩

theorem Sound.isSegment_of_load {s : State S} (h : Sound s) {d : S.Directory} {r x : RunRequest fold F}
    (hx : load S s d = some x) (heq : requestEq S.classify x r = true) : isSegment r.runId = true := by
  obtain ⟨i, hd, -⟩ := Option.bind_eq_some_iff.mp hx
  obtain ⟨c, hc, -, -, -, hsegment⟩ := h.stored d i hd
  have hxc : x = c.request := Option.some.inj (hx.symm.trans (h.load_eq hd hc))
  rw [← (requestDirectory_eq heq).1, hxc]
  exact hsegment

theorem snapshots_create_once (S : Snapshots fold F) {as : List (Action S)} {s : State S}
    (h : Run (step S) (FiniteRequest S) {} as s) : CreateOnce s := by
  have hs := sound_run h sound_empty
  refine ⟨?_, ?_, ?_, ?_, ?_⟩
  · intro bs t hr d i hd
    exact hs.frozen_run hr hd
  · intro i c hc hp
    exact hs.returned i c hc (.inr hp)
  · intro r x hfinite hx hne bs t hr
    obtain ⟨c, hc, hp⟩ := (late_started hs hfinite hx).run hr (P := fun p => ¬ p.returning)
      (by simp only [Phase.returning]; split <;> simp)
      (fun u b b' hb hm hp => hb.never_returns hne hm hp)
    refine ⟨?_, hc.stored⟩
    rw [hc.save, Option.map_some]
    intro hret
    exact hp (.inr (Option.some.inj hret))
  · intro r x hfinite hx heq bs t hr hbs
    have hlate := late_started hs hfinite hx
    rw [if_pos (hs.isSegment_of_load hx heq)] at hlate
    exact hlate.succeeds heq hr hbs (by simp [Phase.failing]) (by simp [Phase.refusing])
  · intro i c x hc hf hx heq bs t hr hbs
    have hlate : Late i c.request x s c := ⟨hs, hc, rfl, hx⟩
    refine hlate.succeeds heq hr hbs hf ?_
    intro href
    obtain ⟨y, hy, hne⟩ := hs.refused i c hc href
    obtain rfl : x = y := Option.some.inj (hx.symm.trans hy)
    rw [heq] at hne
    cases hne

end Store

/-! A store of one request, with the text of a request taken as what is left of it. -/

section Sample

def sampleClassify : Option ℤ → FloatClass
  | some z => .finite z
  | none => .infinite false

def sampleRequest (x : Option ℤ) : RunRequest (fun c => [c]) (Option ℤ) where
  runId := "r1"
  presetId := none
  profile :=
    { profile :=
        { executor := .hostNative
          checkpointStore := .memory
          stateDir := none
          permissions := {}
          requiredCapabilities := []
          fallbackExecutors := []
          fallbacks_are_explicit_and_distinct := by simp }
      skillRoot := "/skill"
      stateRoot := "/state"
      fieldOrigins := [] }
  inputs := [("limit", .float x)]
  secretInputs := []
  bindings := []
  breakpoints := []
  nodeOverrides := []
  compareCandidates := []
  artifactRequests := []
  valueOrigins := []

def sampleSnapshots : Snapshots (fun c => [c]) (Option ℤ) where
  classify := sampleClassify
  Text := RunRequest (fun c => [c]) (Option ℤ)
  empty := sampleRequest (some 0)
  write := dropNonFinite sampleClassify
  read text := some text
  read_write _ _ := rfl
  Directory := String × String
  directoryEq := inferInstance
  locate stateRoot runId := (stateRoot, runId)

def sampleActions (x : Option ℤ) : List (Action sampleSnapshots) :=
  [.begin (sampleRequest x), .advance 0, .advance 0, .advance 0, .advance 0]

theorem snapshots_create_once_sample :
    ∃ s, Run (step sampleSnapshots) (FiniteRequest sampleSnapshots) {} (sampleActions (some 7)) s ∧ CreateOnce s := by
  have hrun : ∃ s, Run (step sampleSnapshots) (FiniteRequest sampleSnapshots) {} (sampleActions (some 7)) s :=
    ⟨_, .cons rfl rfl (.cons trivial rfl (.cons trivial rfl (.cons trivial rfl (.cons trivial rfl
      (.nil _)))))⟩
  obtain ⟨s, hs⟩ := hrun
  exact ⟨s, hs, snapshots_create_once sampleSnapshots hs⟩

/-- A limit of infinity is stored as `null`: the save returns, and the stored request is another one. -/
theorem infinite_input_not_stored :
    ∃ s, exec (step sampleSnapshots) {} (sampleActions none) = some s ∧
      (s.saves[0]?).map Save.phase = some (.done .returned) ∧
      ∃ x, load sampleSnapshots s ("/state", "r1") = some x ∧
        requestEq sampleClassify x (sampleRequest none) = false :=
  ⟨_, rfl, rfl, _, rfl, by decide⟩

end Sample

end GraphSkillRuntime.RunSnapshots
