import GraphSkillRuntime.InstallerPlans
import Mathlib.Data.List.Chain

/-! An operation that fails while it is applied is rolled back. -/

namespace GraphSkillRuntime.Installer

namespace Disk

def installerWrites (d : Disk) (path : Path) : List (Option Bytes) :=
  (d.writes.filter fun w => w.author = .installer ∧ w.path = path).map Write.content

def Foreign (d : Disk) (path : Path) : Prop := ∃ w ∈ d.writes, w.author = .other ∧ w.path = path

instance (d : Disk) (path : Path) : Decidable (d.Foreign path) := List.decidableBEx _ _

def lastWriter (d : Disk) (path : Path) : Option Author :=
  ((d.writes.filter fun w => w.path = path).getLast?).map Write.author

def Replays (initial : Files) (d : Disk) : Prop :=
  ∀ path, d.files path = match (d.writes.filter fun w => w.path = path).getLast? with
    | some w => w.content
    | none => initial path

structure Advances (initial : Files) (d d' : Disk) : Prop where
  replays : Replays initial d → Replays initial d'
  writes : d.writes <+: d'.writes
  script : d'.script <:+ d.script

variable {initial : Files} {d d' d'' : Disk}

theorem Advances.refl (initial : Files) (d : Disk) : Advances initial d d :=
  ⟨id, List.prefix_refl _, List.suffix_refl _⟩

theorem Advances.trans (h : Advances initial d d') (h' : Advances initial d' d'') : Advances initial d d'' :=
  ⟨h'.replays ∘ h.replays, h.writes.trans h'.writes, h'.script.trans h.script⟩

theorem Advances.foreign (h : Advances initial d d') {path : Path} (hf : d.Foreign path) : d'.Foreign path := by
  obtain ⟨w, hw, hauthor⟩ := hf
  exact ⟨w, h.writes.subset hw, hauthor⟩

theorem advances_write (d : Disk) (author : Author) (path : Path) (content : Option Bytes) :
    Advances initial d (d.write author path content) := by
  refine ⟨fun h p => ?_, List.prefix_append _ _, List.suffix_refl _⟩
  by_cases hp : p = path
  · subst hp
    simp [Disk.write, List.filter_append]
  · have hne : ¬ path = p := fun heq => hp heq.symm
    simp [Disk.write, List.filter_append, Function.update_of_ne hp, hne, h p]

theorem installerWrites_write_other (d : Disk) (path : Path) (content : Option Bytes) (p : Path) :
    (d.write .other path content).installerWrites p = d.installerWrites p := by
  simp [installerWrites, Disk.write, List.filter_append]

theorem installerWrites_write (d : Disk) (path : Path) (content : Option Bytes) (p : Path) :
    (d.write .installer path content).installerWrites p =
      d.installerWrites p ++ if path = p then [content] else [] := by
  by_cases hp : path = p
  · simp [installerWrites, Disk.write, List.filter_append, hp]
  · simp [installerWrites, Disk.write, List.filter_append, hp]

theorem Replays.files_eq_or (h : Replays initial d) (path : Path) :
    d.files path = (d.installerWrites path).getLast?.getD (initial path) ∨ d.lastWriter path = some .other := by
  have hreplays := h path
  rw [lastWriter, installerWrites]
  rcases hlast : (d.writes.filter fun w => w.path = path).getLast? with _ | w
  · rw [hlast] at hreplays
    left
    have hnone : (d.writes.filter fun w => w.author = .installer ∧ w.path = path) = [] := by
      rw [List.getLast?_eq_none_iff] at hlast
      rw [List.filter_eq_nil_iff] at hlast ⊢
      intro w hw hboth
      simp only [decide_eq_true_eq] at hboth
      exact hlast w hw (by simpa using hboth.2)
    rw [hnone]
    exact hreplays
  · rw [hlast] at hreplays
    cases hauthor : w.author with
    | other =>
      right
      rw [hlast]
      exact congrArg some hauthor
    | installer =>
      left
      obtain ⟨ws, hws⟩ := List.getLast?_eq_some_iff.mp hlast
      have hfilter : (d.writes.filter fun w => w.author = .installer ∧ w.path = path) =
          ws.filter (fun w => w.author = .installer) ++ [w] := by
        have hboth : (d.writes.filter fun w => w.author = .installer ∧ w.path = path) =
            (d.writes.filter fun w => w.path = path).filter fun w => w.author = .installer := by
          rw [List.filter_filter]
          simp
        rw [hboth, hws]
        simp [List.filter_append, hauthor]
      rw [hfilter, List.map_append, List.map_singleton, List.getLast?_concat]
      exact hreplays

theorem Replays.files_eq (h : Replays initial d) {path : Path} (hf : ¬ d.Foreign path) :
    d.files path = (d.installerWrites path).getLast?.getD (initial path) := by
  rcases h.files_eq_or path with hfiles | hlast
  · exact hfiles
  · rw [lastWriter, Option.map_eq_some_iff] at hlast
    obtain ⟨w, hw, hauthor⟩ := hlast
    have hmem := List.mem_of_getLast? hw
    rw [List.mem_filter] at hmem
    exact absurd ⟨w, hmem.1, hauthor, by simpa using hmem.2⟩ hf

theorem foldl_write_other (initial : Files) (ws : List (Path × Option Bytes)) (d : Disk) :
    Advances initial d (ws.foldl (fun d w => d.write .other w.1 w.2) d) ∧
      ∀ p, (ws.foldl (fun d w => d.write .other w.1 w.2) d).installerWrites p = d.installerWrites p := by
  induction ws generalizing d with
  | nil => exact ⟨.refl initial d, fun _ => rfl⟩
  | cons w ws ih =>
    obtain ⟨hadvances, hwrites⟩ := ih (d.write .other w.1 w.2)
    refine ⟨(advances_write d .other w.1 w.2).trans hadvances, fun p => ?_⟩
    exact (hwrites p).trans (installerWrites_write_other d w.1 w.2 p)

theorem pass_spec (initial : Files) (d : Disk) :
    Advances initial d d.pass.2 ∧ (∀ p, d.pass.2.installerWrites p = d.installerWrites p) ∧
      (d.pass.1 = true → ∃ moment ∈ d.script, moment.fails = true) := by
  rw [pass]
  rcases hscript : d.script with _ | ⟨moment, script⟩
  · exact ⟨.refl initial d, fun _ => rfl, by simp⟩
  · obtain ⟨hadvances, hwrites⟩ := foldl_write_other initial moment.others { d with script := script }
    refine ⟨⟨fun h => hadvances.replays h, hadvances.writes, hadvances.script.trans ?_⟩, hwrites, fun hfails => ?_⟩
    · rw [hscript]
      exact List.suffix_cons moment script
    · exact ⟨moment, List.mem_cons_self, hfails⟩

variable {path : Path} {limit : ℕ} {content : Option Bytes}

theorem read_spec (initial : Files) {result : Except Refusal (Option Bytes)} (h : d.read path limit = (result, d')) :
    Advances initial d d' ∧ (∀ p, d'.installerWrites p = d.installerWrites p) ∧
      ((∃ moment ∈ d.script, moment.fails = true) ∧ result = .error (.inaccessible path) ∨
        result = readBounded d'.files path limit) := by
  obtain ⟨hadvances, hwrites, hfails⟩ := pass_spec initial d
  rw [Disk.read] at h
  rcases hpass : d.pass with ⟨fails, d₁⟩
  rw [hpass] at h hadvances hwrites hfails
  cases fails with
  | true =>
    obtain ⟨hresult, rfl⟩ := Prod.mk.inj h
    exact ⟨hadvances, hwrites, .inl ⟨hfails rfl, hresult.symm⟩⟩
  | false =>
    obtain ⟨hresult, rfl⟩ := Prod.mk.inj h
    exact ⟨hadvances, hwrites, .inr hresult.symm⟩

theorem assertUnchanged_spec (initial : Files) {expected : Option Bytes} {result : Except Refusal Unit}
    (h : d.assertUnchanged path expected = (result, d')) :
    Advances initial d d' ∧ (∀ p, d'.installerWrites p = d.installerWrites p) ∧
      (result = .ok () → d'.files path = expected) := by
  rw [Disk.assertUnchanged] at h
  rcases hread : d.read path maxConfigBytes with ⟨current, d₁⟩
  obtain ⟨hadvances, hwrites, hcurrent⟩ := read_spec initial hread
  rw [hread] at h
  cases current with
  | error e =>
    obtain ⟨rfl, rfl⟩ := Prod.mk.inj h
    exact ⟨hadvances, hwrites, fun hok => by cases hok⟩
  | ok current =>
    obtain ⟨hresult, rfl⟩ := Prod.mk.inj h
    refine ⟨hadvances, hwrites, fun hok => ?_⟩
    rcases hcurrent with ⟨-, herror⟩ | hcurrent
    · cases herror
    · rw [hok] at hresult
      split at hresult
      · next heq => exact (readBounded_eq_ok hcurrent.symm).trans heq
      · cases hresult

theorem writeOrRemove_spec (initial : Files) {result : Except Refusal Unit}
    (h : d.writeOrRemove path content = (result, d')) :
    Advances initial d d' ∧
      ((result = .ok () ∧ ∀ p, d'.installerWrites p = d.installerWrites p ++ if path = p then [content] else []) ∨
        (∃ moment ∈ d.script, moment.fails = true) ∧ result ≠ .ok () ∧
          ∀ p, d'.installerWrites p = d.installerWrites p) := by
  obtain ⟨hadvances, hwrites, hfails⟩ := pass_spec initial d
  rw [Disk.writeOrRemove] at h
  rcases hpass : d.pass with ⟨fails, d₁⟩
  rw [hpass] at h hadvances hwrites hfails
  cases fails with
  | true =>
    obtain ⟨rfl, rfl⟩ := Prod.mk.inj h
    exact ⟨hadvances, .inr ⟨hfails rfl, by simp, hwrites⟩⟩
  | false =>
    obtain ⟨rfl, rfl⟩ := Prod.mk.inj h
    refine ⟨hadvances.trans (advances_write d₁ .installer path content), .inl ⟨rfl, fun p => ?_⟩⟩
    rw [installerWrites_write]
    exact congrArg (· ++ _) (hwrites p)

end Disk

def changesAt (changes : List Change) (path : Path) : List Change := changes.filter fun c => c.path = path

theorem changesAt_concat (changes : List Change) (c : Change) (path : Path) :
    changesAt (changes ++ [c]) path = changesAt changes path ++ if c.path = path then [c] else [] := by
  by_cases hp : c.path = path <;> simp [changesAt, List.filter_append, hp]

theorem changesAt_cons (c : Change) (changes : List Change) (path : Path) :
    changesAt (c :: changes) path = (if c.path = path then [c] else []) ++ changesAt changes path := by
  by_cases hp : c.path = path <;> simp [changesAt, hp]

def Chained (changes : List Change) : Prop := changes.IsChain fun c c' => c.after = c'.before

/-- What is known when the changes `touched` have been written. -/
structure Touched (initial : Files) (touched : List Change) (d : Disk) : Prop where
  replays : d.Replays initial
  writes : ∀ p, d.installerWrites p = (changesAt touched p).map Change.after
  chained : ∀ p, d.Foreign p ∨ Chained (changesAt touched p)

section

variable {initial : Files} {touched : List Change} {d d' : Disk}

theorem Touched.advance (h : Touched initial touched d) (hadvances : d.Advances initial d')
    (hwrites : ∀ p, d'.installerWrites p = d.installerWrites p) : Touched initial touched d' where
  replays := hadvances.replays h.replays
  writes p := (hwrites p).trans (h.writes p)
  chained p := (h.chained p).imp_left hadvances.foreign

theorem Touched.concat {c : Change} (h : Touched initial touched d) (hbefore : d.files c.path = c.before)
    (hadvances : d.Advances initial d')
    (hwrites : ∀ p, d'.installerWrites p = d.installerWrites p ++ if c.path = p then [c.after] else []) :
    Touched initial (touched ++ [c]) d' := by
  refine ⟨hadvances.replays h.replays, fun p => ?_, fun p => ?_⟩
  · rw [hwrites, h.writes, changesAt_concat, List.map_append]
    by_cases hp : c.path = p <;> simp [hp]
  · by_cases hf : d.Foreign p
    · exact .inl (hadvances.foreign hf)
    · right
      have hchained := (h.chained p).resolve_left hf
      rw [changesAt_concat]
      by_cases hp : c.path = p
      · subst hp
        rw [if_pos rfl, Chained, List.isChain_append]
        refine ⟨hchained, List.isChain_singleton c, fun l hl c' hc' => ?_⟩
        obtain rfl : c = c' := by simpa using hc'
        have hlast : d.files c.path = l.after := by
          rw [h.replays.files_eq hf, h.writes, List.getLast?_map, Option.mem_def.mp hl]
          rfl
        exact hlast.symm.trans hbefore
      · rw [if_neg hp, List.append_nil]
        exact hchained

theorem applySteps_spec {ss : List Step} {result : Except Refusal Unit} {all : List Change}
    (h : Touched initial touched d) (happly : applySteps ss touched d = ((result, all), d')) :
    Touched initial all d' ∧ d.Advances initial d' ∧
      ∃ more, all = touched ++ more ∧ more <+: (ss.filter Step.written).map Step.toChange := by
  induction ss generalizing touched d with
  | nil =>
    rw [applySteps] at happly
    cases happly
    exact ⟨h, .refl initial _, [], (List.append_nil _).symm, List.nil_prefix⟩
  | cons s ss ih =>
    rw [applySteps] at happly
    rcases hassert : d.assertUnchanged s.path s.before with ⟨unchanged, d₁⟩
    obtain ⟨hadvances, hwrites, hfiles⟩ := Disk.assertUnchanged_spec initial hassert
    have h₁ := h.advance hadvances hwrites
    rw [hassert] at happly
    cases unchanged with
    | error e =>
      cases happly
      exact ⟨h₁, hadvances, [], (List.append_nil _).symm, List.nil_prefix⟩
    | ok =>
      cases hwritten : s.written with
      | false =>
        simp only [hwritten] at happly
        obtain ⟨htouched, hadvances', more, hall, hinit⟩ := ih h₁ happly
        rw [List.filter_cons_of_neg (by simp [hwritten])]
        exact ⟨htouched, hadvances.trans hadvances', more, hall, hinit⟩
      | true =>
        simp only [hwritten, if_true] at happly
        rcases hwrite : d₁.writeOrRemove s.path s.after with ⟨done, d₂⟩
        obtain ⟨hadvances', hdone⟩ := Disk.writeOrRemove_spec initial hwrite
        rw [hwrite] at happly
        cases done with
        | error e =>
          cases happly
          obtain ⟨hok, -⟩ | ⟨-, -, hkept⟩ := hdone
          · cases hok
          · exact ⟨h₁.advance hadvances' hkept, hadvances.trans hadvances', [], (List.append_nil _).symm,
              List.nil_prefix⟩
        | ok =>
          obtain ⟨-, hadded⟩ | ⟨-, hne, -⟩ := hdone
          · have h₂ : Touched initial (touched ++ [s.toChange]) d₂ := h₁.concat (hfiles rfl) hadvances' hadded
            obtain ⟨htouched, hadvances'', more, hall, hinit⟩ := ih h₂ happly
            refine ⟨htouched, (hadvances.trans hadvances').trans hadvances'', s.toChange :: more, ?_, ?_⟩
            · rw [hall, List.append_assoc, List.singleton_append]
            · rw [List.filter_cons_of_pos (by simp [hwritten]), List.map_cons]
              exact List.cons_prefix_cons.mpr ⟨rfl, hinit⟩
          · exact absurd rfl hne

def Change.Unreadable (c : Change) : Prop := ∃ content, c.after = some content ∧ maxConfigBytes < content.length

theorem restoreChange_spec (initial : Files) {c : Change} {failure : Option Path}
    (h : restoreChange c d = (failure, d')) :
    d.Advances initial d' ∧
      ((failure = none ∧ ∀ p, d'.installerWrites p = d.installerWrites p ++ if c.path = p then [c.before] else []) ∨
        failure = some c.path ∧ (∀ p, d'.installerWrites p = d.installerWrites p) ∧
          (d.Replays initial → d.files c.path = c.after → ¬ d'.Foreign c.path →
            c.Unreadable ∨ ∃ moment ∈ d.script, moment.fails = true)) := by
  rw [restoreChange] at h
  rcases hread : d.read c.path maxConfigBytes with ⟨result, d₁⟩
  obtain ⟨hadvances, hwrites, hresult⟩ := Disk.read_spec initial hread
  -- what the rollback reads is what the installer left, unless somebody else wrote
  have hfiles (hreplays : d.Replays initial) (hf : ¬ d₁.Foreign c.path) : d₁.files c.path = d.files c.path := by
    rw [(hadvances.replays hreplays).files_eq hf, hwrites,
      hreplays.files_eq fun hforeign => hf (hadvances.foreign hforeign)]
  rw [hread] at h
  cases result with
  | error e =>
    cases h
    refine ⟨hadvances, .inr ⟨rfl, hwrites, fun hreplays hafter hf => ?_⟩⟩
    rcases hresult with ⟨hfails, -⟩ | herror
    · exact .inr hfails
    · left
      rw [readBounded, hfiles hreplays hf, hafter] at herror
      cases hc : c.after with
      | none => rw [hc] at herror; cases herror
      | some content =>
        refine ⟨content, hc, ?_⟩
        rw [hc] at herror
        simp only at herror
        split at herror
        · assumption
        · cases herror
  | ok current =>
    have hcurrent : d₁.files c.path = current := by
      rcases hresult with ⟨-, herror⟩ | hok
      · cases herror
      · exact readBounded_eq_ok hok.symm
    simp only at h
    split at h
    · next hne =>
      cases h
      refine ⟨hadvances, .inr ⟨rfl, hwrites, fun hreplays hafter hf => ?_⟩⟩
      exact absurd (hcurrent.symm.trans ((hfiles hreplays hf).trans hafter)) hne
    · rcases hwrite : d₁.writeOrRemove c.path c.before with ⟨done, d₂⟩
      obtain ⟨hadvances', hdone⟩ := Disk.writeOrRemove_spec initial hwrite
      rw [hwrite] at h
      cases done with
      | error e =>
        cases h
        obtain ⟨hok, -⟩ | ⟨⟨moment, hmoment, hfails⟩, -, hkept⟩ := hdone
        · cases hok
        · refine ⟨hadvances.trans hadvances', .inr ⟨rfl, fun p => (hkept p).trans (hwrites p), fun _ _ _ => ?_⟩⟩
          exact .inr ⟨moment, hadvances.script.subset hmoment, hfails⟩
      | ok =>
        cases h
        obtain ⟨-, hadded⟩ | ⟨-, hne, -⟩ := hdone
        · refine ⟨hadvances.trans hadvances', .inl ⟨rfl, fun p => ?_⟩⟩
          rw [hadded, hwrites]
        · exact absurd rfl hne

theorem restore_spec (initial : Files) {changes : List Change} {failures : List Path}
    (h : restore changes d = (failures, d')) :
    d.Advances initial d' ∧ ∀ p, ∃ restored : List Change, restored.Sublist (changesAt changes p) ∧
      d'.installerWrites p = d.installerWrites p ++ restored.map Change.before ∧
      (p ∉ failures → restored = changesAt changes p) ∧
      (p ∈ failures → restored ≠ changesAt changes p) := by
  induction changes generalizing d failures with
  | nil =>
    cases h
    exact ⟨.refl initial _, fun p => ⟨[], List.Sublist.refl _, by simp, fun _ => rfl, fun hp => by cases hp⟩⟩
  | cons c changes ih =>
    rw [restore] at h
    rcases hchange : restoreChange c d with ⟨failure, d₁⟩
    obtain ⟨hadvances, hstep⟩ := restoreChange_spec initial hchange
    rcases hrest : restore changes d₁ with ⟨more, d₂⟩
    rw [hchange] at h
    simp only [hrest] at h
    obtain ⟨rfl, rfl⟩ := Prod.mk.inj h
    obtain ⟨hadvances', hpaths⟩ := ih hrest
    refine ⟨hadvances.trans hadvances', fun p => ?_⟩
    obtain ⟨restored, hsub, hwrites, hall, hsome⟩ := hpaths p
    rw [changesAt_cons]
    obtain ⟨rfl, hadded⟩ | ⟨rfl, hkept, -⟩ := hstep
    · refine ⟨(if c.path = p then [c] else []) ++ restored, hsub.append_left _, ?_, fun hp => ?_, fun hp heq => ?_⟩
      · rw [hwrites, hadded, List.map_append, List.append_assoc]
        by_cases hp : c.path = p <;> simp [hp]
      · rw [hall (by simpa using hp)]
      · exact hsome (by simpa using hp) (List.append_cancel_left heq)
    · refine ⟨restored, hsub.trans (List.sublist_append_right _ _), ?_, fun hp => ?_, fun hp heq => ?_⟩
      · rw [hwrites, hkept]
      · simp only [Option.toList_some, List.singleton_append, List.mem_cons, not_or] at hp
        rw [hall hp.2, if_neg fun heq => hp.1 heq.symm, List.nil_append]
      · by_cases hcp : c.path = p
        · have hlen := hsub.length_le
          rw [heq, if_pos hcp] at hlen
          simp only [List.singleton_append, List.length_cons] at hlen
          omega
        · rw [if_neg hcp, List.nil_append] at heq
          exact hsome ((List.mem_cons.mp hp).resolve_left fun heq => hcp heq.symm) heq

theorem restore_cause (initial : Files) {changes : List Change} {failures : List Path} {p : Path}
    (h : restore changes d = (failures, d')) (hreplays : d.Replays initial)
    (hchain : (changesAt changes p).IsChain fun c c' => c'.after = c.before)
    (hhead : ∀ c ∈ (changesAt changes p).head?, d.files p = c.after) (hf : ¬ d'.Foreign p) (hp : p ∈ failures) :
    (∃ c ∈ changes, c.path = p ∧ c.Unreadable) ∨ ∃ moment ∈ d.script, moment.fails = true := by
  induction changes generalizing d failures with
  | nil =>
    cases h
    cases hp
  | cons c changes ih =>
    rw [restore] at h
    rcases hchange : restoreChange c d with ⟨failure, d₁⟩
    obtain ⟨hadvances, hstep⟩ := restoreChange_spec initial hchange
    rcases hrest : restore changes d₁ with ⟨more, d₂⟩
    obtain ⟨hadvances', -⟩ := restore_spec initial hrest
    rw [hchange] at h
    simp only [hrest] at h
    obtain ⟨rfl, rfl⟩ := Prod.mk.inj h
    have hreplays₁ := hadvances.replays hreplays
    have hf₁ : ¬ d₁.Foreign p := fun hforeign => hf (hadvances'.foreign hforeign)
    have hf₀ : ¬ d.Foreign p := fun hforeign => hf₁ (hadvances.foreign hforeign)
    rw [changesAt_cons] at hchain hhead
    have later (hmore : p ∈ more) (hhead₁ : ∀ c ∈ (changesAt changes p).head?, d₁.files p = c.after) :
        (∃ c' ∈ c :: changes, c'.path = p ∧ c'.Unreadable) ∨ ∃ moment ∈ d.script, moment.fails = true := by
      rcases ih hrest hreplays₁ hchain.right_of_append hhead₁ hmore with ⟨c', hc', hpath⟩ | ⟨moment, hm, hfails⟩
      · exact .inl ⟨c', List.mem_cons_of_mem c hc', hpath⟩
      · exact .inr ⟨moment, hadvances.script.subset hm, hfails⟩
    by_cases hcp : c.path = p
    · subst hcp
      rw [if_pos rfl] at hchain hhead
      obtain ⟨rfl, hadded⟩ | ⟨rfl, -, hcause⟩ := hstep
      · refine later (by simpa using hp) fun c' hc' => ?_
        rw [hreplays₁.files_eq hf₁, hadded, if_pos rfl, List.getLast?_concat]
        exact ((List.isChain_cons.mp hchain).1 c' hc').symm
      · rcases hcause hreplays (hhead c rfl) hf₁ with hunreadable | hfails
        · exact .inl ⟨c, List.mem_cons_self, rfl, hunreadable⟩
        · exact .inr hfails
    · rw [if_neg hcp] at hchain hhead
      obtain ⟨rfl, hadded⟩ | ⟨rfl, hkept, -⟩ := hstep
      · refine later (by simpa using hp) fun c' hc' => ?_
        rw [hreplays₁.files_eq hf₁, hadded, if_neg hcp, List.append_nil, ← hreplays.files_eq hf₀]
        exact hhead c' hc'
      · refine later ((List.mem_cons.mp hp).resolve_left fun heq => hcp heq.symm) fun c' hc' => ?_
        rw [hreplays₁.files_eq hf₁, hkept, ← hreplays.files_eq hf₀]
        exact hhead c' hc'

theorem touched_nil (files : Files) (script : List Moment) : Touched files [] { files, script } where
  replays _ := rfl
  writes _ := rfl
  chained _ := .inr List.isChain_nil

theorem changesAt_reverse (changes : List Change) (path : Path) :
    changesAt changes.reverse path = (changesAt changes path).reverse := by
  rw [changesAt, changesAt, List.filter_reverse]

end

/-- When an operation fails, every path it wrote holds its content from before the operation, or somebody else
has written it since; a path the rollback could not put back is named and left alone; and no other path was
written. The rollback is stopped at a path only by somebody else's write, by a content too long to be read
again or by an access that fails during the rollback. -/
theorem apply_failed_rolled_back {prepared : List PreparedTarget} {files : Files} {script : List Moment}
    {reason : Refusal} {touched : List Change} {failures : List Path} {d : Disk}
    (h : apply prepared { files, script } = (.failed reason touched failures, d)) :
    touched <+: ((steps prepared).filter Step.written).map Step.toChange ∧ ∀ p,
      (p ∉ touched.map Change.path → d.installerWrites p = []) ∧
      (p ∉ failures → ∀ c ∈ (changesAt touched p).head?,
        (d.installerWrites p).getLast? = some c.before ∧
          (d.files p = c.before ∨ d.lastWriter p = some .other)) ∧
      (p ∈ failures →
        (∃ restored : List Change, restored.Sublist (changesAt touched p).reverse ∧
          restored ≠ (changesAt touched p).reverse ∧
          d.installerWrites p = (changesAt touched p).map Change.after ++ restored.map Change.before) ∧
        (d.Foreign p ∨ (∃ c ∈ touched, c.path = p ∧ c.Unreadable) ∨
          ∃ moment ∈ (applySteps (steps prepared) [] { files, script }).2.script, moment.fails = true)) := by
  rw [apply] at h
  rcases happly : applySteps (steps prepared) [] { files, script } with ⟨⟨result, all⟩, d₁⟩
  obtain ⟨htouched, -, more, rfl, hinit⟩ := applySteps_spec (touched_nil files script) happly
  rw [happly] at h
  cases result with
  | ok => cases h
  | error e =>
    rcases hrestore : restore all.reverse d₁ with ⟨failures', d₂⟩
    simp only [hrestore] at h
    cases h
    obtain ⟨hadvances, hpaths⟩ := restore_spec files hrestore
    refine ⟨hinit, fun p => ?_⟩
    obtain ⟨restored, hsub, hwrites, hall, hsome⟩ := hpaths p
    rw [changesAt_reverse] at hsub hall hsome
    rw [htouched.writes] at hwrites
    refine ⟨fun hp => ?_, fun hp c hc => ?_, fun hp => ⟨⟨restored, hsub, hsome hp, hwrites⟩, ?_⟩⟩
    · have hnone : changesAt touched p = [] := by
        rw [changesAt, List.filter_eq_nil_iff]
        intro c hc hcp
        exact hp (List.mem_map.mpr ⟨c, hc, by simpa using hcp⟩)
      rw [hnone] at hsub hwrites
      rw [List.reverse_nil, List.sublist_nil] at hsub
      rw [hwrites, hsub]
      rfl
    · have hlast : (d.installerWrites p).getLast? = some c.before := by
        obtain ⟨cs, hcs⟩ := List.head?_eq_some_iff.mp hc
        rw [hwrites, hall hp, hcs, List.reverse_cons, List.map_append, ← List.append_assoc, List.map_singleton,
          List.getLast?_concat]
      refine ⟨hlast, ?_⟩
      have hfiles := (hadvances.replays htouched.replays).files_eq_or p
      rwa [hlast] at hfiles
    · by_cases hf : d.Foreign p
      · exact .inl hf
      · right
        have hf₁ : ¬ d₁.Foreign p := fun hforeign => hf (hadvances.foreign hforeign)
        have hchain := (htouched.chained p).resolve_left hf₁
        have hcause := restore_cause files hrestore htouched.replays (p := p)
          (by rw [changesAt_reverse, List.isChain_reverse]; exact hchain)
          (fun c hc => by
            rw [changesAt_reverse, List.head?_reverse] at hc
            rw [htouched.replays.files_eq hf₁, htouched.writes, List.getLast?_map, Option.mem_def.mp hc]
            rfl) hf hp
        simpa only [List.mem_reverse] using hcause

theorem apply_sample (text : Bytes) {after : Bytes}
    (hafter : appendTextBlock (some text) (renderBlock codexMarker sampleBody) = after)
    (hlength : text.length ≤ maxConfigBytes) (script : List Moment) :
    apply [samplePlan text] { files := sampleFiles text, script := [{}, {}, { fails := true }] ++ script } =
      let change : Change := ⟨sampleConfig, some text, some after⟩
      let restored := restore [change]
        { files := Function.update (sampleFiles text) sampleConfig (some after)
          writes := [⟨.installer, sampleConfig, some after⟩], script }
      (.failed (.inaccessible (manifestPath sampleHost sampleRequest .codex)) [change] restored.1, restored.2) := by
  simp [apply, steps, samplePlan, cleanTarget, PreparedTarget.mutationSteps, PreparedTarget.manifestStep,
    installMutation, applySteps, Disk.assertUnchanged, Disk.read, Disk.pass, Disk.writeOrRemove, Disk.write,
    readBounded, sampleFiles, Nat.not_lt.mpr hlength, hafter, sampleResource, Resource.path]

theorem apply_failed_rolled_back_sample :
    ∃ reason touched failures d,
      apply [samplePlan (utf8 "a = 1\n")]
          { files := sampleFiles (utf8 "a = 1\n"), script := [{}, {}, { fails := true }] } =
        (.failed reason touched failures, d) ∧
      (d.files sampleConfig = some (utf8 "a = 1\n") ∨ d.lastWriter sampleConfig = some .other) := by
  have h := apply_sample (utf8 "a = 1\n") rfl (by decide +kernel) []
  refine ⟨_, _, _, _, h, ?_⟩
  exact (((apply_failed_rolled_back h).2 sampleConfig).2.1 (by decide +kernel) _ rfl).2

/-- A rollback whose own write fails leaves the new content though nobody else wrote there. -/
theorem rollback_write_fails :
    prepare sampleHost .install (sampleFiles (utf8 "a = 1\n")) sampleRequest serverBundle =
        .ok [samplePlan (utf8 "a = 1\n")] ∧
      canApply [samplePlan (utf8 "a = 1\n")] = true ∧
      ∃ reason touched failures d,
        apply [samplePlan (utf8 "a = 1\n")]
            { files := sampleFiles (utf8 "a = 1\n"), script := [{}, {}, { fails := true }, {}, { fails := true }] } =
          (.failed reason touched failures, d) ∧
        (∃ c ∈ touched, c.path = sampleConfig ∧ d.files c.path ≠ c.before) ∧ ¬ d.Foreign sampleConfig := by
  have h := apply_sample (utf8 "a = 1\n") rfl (by decide +kernel) [{}, { fails := true }]
  obtain ⟨hprepare, hcan⟩ := prepare_sample (utf8 "a = 1\n") (by decide +kernel)
    (markerBounds_eq_none.mp (by decide +kernel))
  refine ⟨hprepare, hcan, _, _, _, _, h, ⟨_, List.mem_singleton_self _, rfl, ?_⟩, ?_⟩
  · decide +kernel
  · decide +kernel

/-! An operation nobody disturbs, on distinct paths, is carried out as it was planned. -/

def settle (files : Files) (changes : List Change) : Files :=
  changes.foldl (fun files c => Function.update files c.path c.after) files

theorem settle_of_notMem {changes : List Change} {p : Path} (h : p ∉ changes.map Change.path) (files : Files) :
    settle files changes p = files p := by
  induction changes generalizing files with
  | nil => rfl
  | cons c changes ih =>
    rw [List.map_cons, List.mem_cons, not_or] at h
    rw [settle, List.foldl_cons]
    exact (ih h.2 _).trans (Function.update_of_ne h.1 _ _)

theorem settle_of_mem {changes : List Change} (hnodup : (changes.map Change.path).Nodup) {c : Change}
    (h : c ∈ changes) (files : Files) : settle files changes c.path = c.after := by
  induction changes generalizing files with
  | nil => cases h
  | cons c' changes ih =>
    rw [List.map_cons, List.nodup_cons] at hnodup
    rw [settle, List.foldl_cons]
    rcases List.mem_cons.mp h with rfl | h
    · exact (settle_of_notMem hnodup.1 _).trans (Function.update_self _ _ _)
    · exact ih hnodup.2 h _

def changes (prepared : List PreparedTarget) : List Change :=
  ((steps prepared).filter Step.written).map Step.toChange

def Change.write (c : Change) : Write := ⟨.installer, c.path, c.after⟩

theorem applySteps_quiet {ss : List Step} {files : Files} (hnodup : (ss.map fun s => s.path).Nodup)
    (hbefore : ∀ s ∈ ss, readBounded files s.path maxConfigBytes = .ok s.before) (touched : List Change)
    (writes : List Write) :
    applySteps ss touched { files, writes } =
      ((.ok (), touched ++ (ss.filter Step.written).map Step.toChange),
        { files := settle files ((ss.filter Step.written).map Step.toChange)
          writes := writes ++ ((ss.filter Step.written).map Step.toChange).map Change.write }) := by
  induction ss generalizing files touched writes with
  | nil => simp [applySteps, settle]
  | cons s ss ih =>
    rw [List.map_cons, List.nodup_cons] at hnodup
    have hread : (Disk.mk files writes []).assertUnchanged s.path s.before = (.ok (), { files, writes }) := by
      simp [Disk.assertUnchanged, Disk.read, Disk.pass, hbefore s List.mem_cons_self]
    rw [applySteps, hread]
    cases hwritten : s.written with
    | false =>
      have happly := ih hnodup.2 (fun s' hs' => hbefore s' (List.mem_cons_of_mem s hs')) touched writes
      rw [List.filter_cons_of_neg (by simp [hwritten])]
      simpa [hwritten] using happly
    | true =>
      have happly := @ih (Function.update files s.path s.after) hnodup.2 (fun s' hs' => by
        have hne : s'.path ≠ s.path := fun heq => hnodup.1 (heq ▸ List.mem_map_of_mem hs')
        rw [readBounded, Function.update_of_ne hne]
        exact hbefore s' (List.mem_cons_of_mem s hs')) (touched ++ [s.toChange])
          (writes ++ [⟨.installer, s.path, s.after⟩])
      rw [List.filter_cons_of_pos (by simp [hwritten])]
      simpa [hwritten, Disk.writeOrRemove, Disk.pass, Disk.write, settle, Change.write] using happly

theorem apply_quiet {prepared : List PreparedTarget} {files : Files}
    (hnodup : ((steps prepared).map fun s => s.path).Nodup)
    (hbefore : ∀ s ∈ steps prepared, readBounded files s.path maxConfigBytes = .ok s.before) :
    apply prepared { files } =
      (.applied (prepared.flatMap PreparedTarget.mutationSteps).length (!(changes prepared).isEmpty),
        { files := settle files (changes prepared), writes := (changes prepared).map Change.write }) := by
  rw [apply, applySteps_quiet hnodup hbefore [] []]
  rfl

end GraphSkillRuntime.Installer
