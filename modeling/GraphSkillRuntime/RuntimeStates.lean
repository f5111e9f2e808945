import GraphSkillRuntime.FencedLogs
import GraphSkillRuntime.JsonText
import Mathlib.Logic.Function.Basic

/-!
The store of run states. A worker writes the states of a run under a lease, which carries a fencing token; what the
store has handed out and accepted for a run is a fenced log.
-/

namespace GraphSkillRuntime.RuntimeStates

open OrderedDict FencedLogs

variable {σ : Type}

structure LeaseToken where
  leaseId : String
  ownerId : String
  fencingToken : ℤ
  ttlMs : ℤ
  safetyMarginMs : ℤ

structure StateRef where
  runId : String
  version : ℤ

structure StateVersionRef where
  runId : String
  version : ℤ
  fencingToken : ℤ

inductive StoreError where
  | leaseConflict (text : String)
  | leaseFencing (text : String)

def decimal (z : ℤ) : String := .ofList (JsonText.intText z)

structure InMemoryRuntimeStateStore (σ : Type) where
  leases : Dict String (Option LeaseToken) := ∅
  fencingTokens : Dict String ℤ := ∅
  snapshots : Dict String (Dict ℤ σ) := ∅
  latestVersion : Dict String ℤ := ∅

def leaseIdOf (runId : String) (tokenVal : ℤ) : String := "lease-" ++ runId ++ "-" ++ decimal tokenVal

namespace InMemoryRuntimeStateStore

variable (s : InMemoryRuntimeStateStore σ) (runId : String)

def activeLease : Option LeaseToken := (s.leases.get? runId).join

def grantLease (ownerId : String) (ttlMs : ℤ) : LeaseToken × InMemoryRuntimeStateStore σ :=
  let tokenVal := (s.fencingTokens.get? runId).getD 0 + 1
  let token := ⟨leaseIdOf runId tokenVal, ownerId, tokenVal, ttlMs, 0⟩
  (token, { s with fencingTokens := s.fencingTokens.set runId tokenVal, leases := s.leases.set runId (some token) })

def acquireLease (ownerId : String) (ttlMs : ℤ) : Except StoreError (LeaseToken × InMemoryRuntimeStateStore σ) :=
  match s.activeLease runId with
  | none => .ok (s.grantLease runId ownerId ttlMs)
  | some lease =>
    if lease.ownerId ≠ ownerId then
      .error (.leaseConflict ("Lease for run " ++ runId ++ " is already held by " ++ lease.ownerId))
    else .ok (s.grantLease runId ownerId ttlMs)

def holds (token : LeaseToken) : Bool :=
  match s.activeLease runId with
  | none => false
  | some lease => lease.leaseId = token.leaseId

def heartbeat (token : LeaseToken) : Except StoreError LeaseToken :=
  if s.holds runId token then .ok token
  else .error (.leaseFencing ("Lease " ++ token.leaseId ++ " is no longer active for run " ++ runId))

def snapshot (state : σ) (token : LeaseToken) : Except StoreError (StateVersionRef × InMemoryRuntimeStateStore σ) :=
  let currentToken := (s.fencingTokens.get? runId).getD 0
  if token.fencingToken < currentToken then
    .error (.leaseFencing ("Lease is fenced: token " ++ decimal token.fencingToken ++ " < current " ++
      decimal currentToken))
  else
    match s.activeLease runId with
    | none => .error (.leaseFencing ("Lease " ++ token.leaseId ++ " is no longer active for run " ++ runId))
    | some lease =>
      if lease.leaseId ≠ token.leaseId then
        .error (.leaseFencing ("Lease is fenced: active lease is " ++ lease.leaseId))
      else
        let version := (s.latestVersion.get? runId).getD 0 + 1
        .ok (⟨runId, version, token.fencingToken⟩, { s with
          latestVersion := s.latestVersion.set runId version
          snapshots := s.snapshots.set runId (((s.snapshots.get? runId).getD ∅).set version state) })

/-- Where nothing is kept, a dict of its own that is new and empty. -/
def restore (fresh : σ) (stateRef : Option StateRef) : σ :=
  let version :=
    match stateRef with
    | none => (s.latestVersion.get? runId).getD 0
    | some stateRef => stateRef.version
  (((s.snapshots.get? runId).getD ∅).get? version).getD fresh

def release (token : LeaseToken) : InMemoryRuntimeStateStore σ :=
  if s.holds runId token then { s with leases := s.leases.set runId none } else s

end InMemoryRuntimeStateStore

/-! Workers that show the tokens which the store has given to them. -/

structure World (σ : Type) where
  store : InMemoryRuntimeStateStore σ
  history : String → FencedLog LeaseToken σ

def World.start : World σ := ⟨{}, fun _ => .empty⟩

def Given (w : World σ) (token : LeaseToken) : Prop := ∃ runId, token ∈ (w.history runId).grants

def granted (l : FencedLog LeaseToken σ) (token : LeaseToken) : FencedLog LeaseToken σ :=
  { l with grants := l.grants ++ [token], held := true }

def written (l : FencedLog LeaseToken σ) (fence : ℕ) (state : σ) : FencedLog LeaseToken σ :=
  { l with entries := l.entries ++ [(fence, state)] }

inductive Step (w : World σ) : World σ → Prop
  | acquire {runId ownerId : String} {ttlMs : ℤ} {token : LeaseToken} {store : InMemoryRuntimeStateStore σ}
      (h : w.store.acquireLease runId ownerId ttlMs = .ok (token, store)) :
      Step w ⟨store, Function.update w.history runId (granted (w.history runId) token)⟩
  | snapshot {runId : String} {state : σ} {token : LeaseToken} {ref : StateVersionRef}
      {store : InMemoryRuntimeStateStore σ} (hgiven : Given w token)
      (h : w.store.snapshot runId state token = .ok (ref, store)) :
      Step w ⟨store, Function.update w.history runId (written (w.history runId) ref.fencingToken.toNat state)⟩
  | release {runId : String} {token : LeaseToken} (hgiven : Given w token) :
      Step w ⟨w.store.release runId token, Function.update w.history runId
        (if w.store.holds runId token then { w.history runId with held := false } else w.history runId)⟩

def Steps : World σ → World σ → Prop := Relation.ReflTransGen Step

/-- The store keeps the dict that it is given and no copy; whoever has the dict may change what it holds. -/
structure Memory (ρ δ : Type) where
  world : World ρ
  holds : ρ → δ

/-- A run of workers, with the dicts that somebody changes while it goes on. -/
inductive Run {ρ δ : Type} [DecidableEq ρ] : Memory ρ δ → List ρ → Memory ρ δ → Prop
  | refl (m : Memory ρ δ) : Run m [] m
  | call {m m' : Memory ρ δ} {changed : List ρ} (h : Run m changed m') {w : World ρ} (hstep : Step m'.world w) :
      Run m changed { m' with world := w }
  | change {m m' : Memory ρ δ} {changed : List ρ} (h : Run m changed m') (dict : ρ) (content : δ) :
      Run m (dict :: changed) { m' with holds := Function.update m'.holds dict content }

structure Tracks (s : InMemoryRuntimeStateStore σ) (runId : String) (l : FencedLog LeaseToken σ) : Prop where
  sound : l.Sound
  fencing : (s.fencingTokens.get? runId).getD 0 = (l.grants.length : ℤ)
  tokens : ∀ (i : ℕ) (token : LeaseToken), l.grants[i]? = some token →
    token.fencingToken = (i : ℤ) + 1 ∧ token.leaseId = leaseIdOf runId ((i : ℤ) + 1)
  lease : s.activeLease runId = if l.held then l.grants.getLast? else none
  version : (s.latestVersion.get? runId).getD 0 = (l.entries.length : ℤ)
  snapshots : ∀ v : ℤ, ((s.snapshots.get? runId).getD ∅).get? v =
    if 1 ≤ v then (l.entries[(v - 1).toNat]?).map Prod.snd else none

theorem minus_notMem_decimal {z : ℤ} (hz : 0 ≤ z) : '-' ∉ JsonText.intText z := by
  intro hmem
  rcases List.mem_append.mp hmem with hsign | hdigit
  · have hneg : decide (z < 0) = false := by
      apply decide_eq_false
      omega
    rw [hneg] at hsign
    cases hsign
  · have hdigit := Nat.isDigit_of_mem_toDigits (by decide) (by decide) hdigit
    cases hdigit

theorem append_separator_injective {c : Char} {u v a b : List Char} (ha : c ∉ a) (hb : c ∉ b)
    (h : u ++ c :: a = v ++ c :: b) : u = v ∧ a = b := by
  induction u generalizing v with
  | nil =>
    cases v with
    | nil => exact ⟨rfl, (List.cons.inj h).2⟩
    | cons d v =>
      obtain ⟨-, htail⟩ := List.cons.inj h
      have hmem : c ∈ a := by
        rw [htail]
        exact List.mem_append_right v (List.mem_cons_self ..)
      exact absurd hmem ha
  | cons d u ih =>
    cases v with
    | nil =>
      obtain ⟨-, htail⟩ := List.cons.inj h
      have hmem : c ∈ b := by
        rw [← htail]
        exact List.mem_append_right u (List.mem_cons_self ..)
      exact absurd hmem hb
    | cons e v =>
      obtain ⟨rfl, htail⟩ := List.cons.inj h
      obtain ⟨rfl, hab⟩ := ih htail
      exact ⟨rfl, hab⟩

theorem intText_injective {m n : ℕ} (h : JsonText.intText m = JsonText.intText n) : m = n := by
  have hm (k : ℕ) : JsonText.intText k = Nat.toDigits 10 k := by
    have hneg : decide ((k : ℤ) < 0) = false := by
      apply decide_eq_false
      omega
    rw [JsonText.intText, hneg, Int.natAbs_natCast]
    rfl
  rw [hm, hm] at h
  have hvalue (k : ℕ) : Nat.ofDigitChars 10 (Nat.toDigits 10 k) 0 = k := Nat.ofDigitChars_ten_toDigits
  rw [← hvalue m, h, hvalue]

theorem leaseIdOf_injective {runId other : String} {m n : ℕ} (h : leaseIdOf runId m = leaseIdOf other n) :
    runId = other ∧ m = n := by
  have hchars := congrArg String.toList h
  simp only [leaseIdOf, decimal, String.toList_append, String.toList_ofList, List.append_assoc] at hchars
  have hcut := append_separator_injective (minus_notMem_decimal (by omega : (0 : ℤ) ≤ m))
    (minus_notMem_decimal (by omega : (0 : ℤ) ≤ n)) (List.append_cancel_left hchars)
  exact ⟨String.toList_injective hcut.1, intText_injective hcut.2⟩

section

variable {s s' : InMemoryRuntimeStateStore σ} {runId other : String} {l : FencedLog LeaseToken σ} {token : LeaseToken}

theorem acquire_cases {ownerId : String} {ttlMs : ℤ} (h : s.acquireLease runId ownerId ttlMs = .ok (token, s')) :
    (token, s') = s.grantLease runId ownerId ttlMs ∧ ∀ lease ∈ s.activeLease runId, lease.ownerId = ownerId := by
  unfold InMemoryRuntimeStateStore.acquireLease at h
  cases hactive : s.activeLease runId with
  | none =>
    rw [hactive] at h
    exact ⟨(Except.ok.inj h).symm, nofun⟩
  | some lease =>
    simp only [hactive] at h
    split_ifs at h with howner
    refine ⟨(Except.ok.inj h).symm, ?_⟩
    intro lease' hlease
    obtain rfl := Option.some.inj hlease
    exact not_not.mp howner

theorem acquire_free {ownerId : String} (ttlMs : ℤ) (h : ∀ lease ∈ s.activeLease runId, lease.ownerId = ownerId) :
    s.acquireLease runId ownerId ttlMs = .ok (s.grantLease runId ownerId ttlMs) := by
  unfold InMemoryRuntimeStateStore.acquireLease
  cases hactive : s.activeLease runId with
  | none => rfl
  | some lease => simp [h lease hactive]

def snapshotOf (s : InMemoryRuntimeStateStore σ) (runId : String) (state : σ) : InMemoryRuntimeStateStore σ :=
  let version := (s.latestVersion.get? runId).getD 0 + 1
  { s with
    latestVersion := s.latestVersion.set runId version
    snapshots := s.snapshots.set runId (((s.snapshots.get? runId).getD ∅).set version state) }

theorem snapshot_cases {state : σ} {ref : StateVersionRef} (h : s.snapshot runId state token = .ok (ref, s')) :
    s.holds runId token = true ∧ ref = ⟨runId, (s.latestVersion.get? runId).getD 0 + 1, token.fencingToken⟩ ∧
      s' = snapshotOf s runId state := by
  unfold InMemoryRuntimeStateStore.snapshot at h
  simp only at h
  split_ifs at h with hstale
  cases hactive : s.activeLease runId with
  | none =>
    rw [hactive] at h
    cases h
  | some lease =>
    simp only [hactive] at h
    split_ifs at h with hlease
    have hpair := Except.ok.inj h
    refine ⟨?_, (congrArg Prod.fst hpair).symm, (congrArg Prod.snd hpair).symm⟩
    unfold InMemoryRuntimeStateStore.holds
    rw [hactive]
    exact decide_eq_true (not_not.mp hlease)

theorem snapshot_accepted {state : σ} (hholds : s.holds runId token = true)
    (hfresh : (s.fencingTokens.get? runId).getD 0 ≤ token.fencingToken) :
    ∃ r, s.snapshot runId state token = .ok r := by
  unfold InMemoryRuntimeStateStore.holds at hholds
  unfold InMemoryRuntimeStateStore.snapshot
  simp only
  rw [if_neg (Int.not_lt.mpr hfresh)]
  cases hactive : s.activeLease runId with
  | none =>
    rw [hactive] at hholds
    cases hholds
  | some lease =>
    rw [hactive] at hholds
    have hlease : lease.leaseId = token.leaseId := of_decide_eq_true hholds
    simp only [hlease, ne_eq, not_true_eq_false, if_false]
    exact ⟨_, rfl⟩

theorem Tracks.of_same (h : Tracks s runId l) (hfencing : s'.fencingTokens.get? runId = s.fencingTokens.get? runId)
    (hlease : s'.leases.get? runId = s.leases.get? runId)
    (hversion : s'.latestVersion.get? runId = s.latestVersion.get? runId)
    (hsnapshots : s'.snapshots.get? runId = s.snapshots.get? runId) : Tracks s' runId l := by
  refine ⟨h.sound, ?_, h.tokens, ?_, ?_, ?_⟩
  · rw [hfencing]
    exact h.fencing
  · rw [InMemoryRuntimeStateStore.activeLease, hlease]
    exact h.lease
  · rw [hversion]
    exact h.version
  · intro v
    rw [hsnapshots]
    exact h.snapshots v

theorem Tracks.last (h : Tracks s runId l) (hheld : l.held = true) : ∃ lease, s.activeLease runId = some lease ∧
    l.grants.getLast? = some lease ∧ lease.fencingToken = (l.grants.length : ℤ) ∧
      lease.leaseId = leaseIdOf runId (l.grants.length : ℕ) := by
  have hpos := List.length_pos_iff.mpr (h.sound.granted hheld)
  have hlast : l.grants.getLast? = some (l.grants.getLast (h.sound.granted hheld)) := List.getLast?_eq_some_getLast _
  have hactive := h.lease
  rw [hheld, if_pos rfl, hlast] at hactive
  have hget : l.grants[l.grants.length - 1]? = some (l.grants.getLast (h.sound.granted hheld)) := by
    rw [← List.getLast?_eq_getElem?, hlast]
  obtain ⟨hfence, hid⟩ := h.tokens _ _ hget
  have hcount : ((l.grants.length - 1 : ℕ) : ℤ) + 1 = (l.grants.length : ℤ) := by omega
  rw [hcount] at hfence hid
  exact ⟨_, hactive, hlast, hfence, hid⟩

theorem Tracks.fence (h : Tracks s runId l) (hmem : token ∈ l.grants) :
    token.fencingToken.toNat ≤ l.grants.length ∧ 1 ≤ token.fencingToken.toNat ∧
      (token.fencingToken.toNat : ℤ) = token.fencingToken ∧
        token.leaseId = leaseIdOf runId token.fencingToken.toNat := by
  obtain ⟨i, hi⟩ := List.mem_iff_getElem?.mp hmem
  have hlt := (List.getElem?_eq_some_iff.mp hi).1
  obtain ⟨hfence, hid⟩ := h.tokens i token hi
  have hnat : (token.fencingToken.toNat : ℤ) = token.fencingToken := Int.toNat_of_nonneg (by omega)
  refine ⟨by omega, by omega, hnat, ?_⟩
  rw [hnat, hfence]
  exact hid

theorem holds_iff (h : Tracks s runId l) {g : FencedLog LeaseToken σ} (hg : Tracks s other g)
    (hmem : token ∈ g.grants) : s.holds runId token = true ↔ other = runId ∧ l.Admits token.fencingToken.toNat := by
  obtain ⟨hle, hpos, hnat, hid⟩ := hg.fence hmem
  unfold InMemoryRuntimeStateStore.holds
  cases hheld : l.held with
  | false =>
    have hactive := h.lease
    rw [hheld] at hactive
    rw [hactive]
    constructor
    · exact nofun
    · rintro ⟨-, hadmits, -⟩
      rw [hheld] at hadmits
      cases hadmits
  | true =>
    obtain ⟨lease, hactive, -, -, hleaseId⟩ := h.last hheld
    rw [hactive]
    simp only [decide_eq_true_eq, hleaseId, hid]
    constructor
    · intro hsame
      obtain ⟨hrun, hcount⟩ := leaseIdOf_injective hsame
      exact ⟨hrun.symm, hheld, hcount.symm⟩
    · rintro ⟨rfl, -, hcount⟩
      rw [hcount]

theorem accepts_iff (h : Tracks s runId l) {g : FencedLog LeaseToken σ} (hg : Tracks s other g)
    (hmem : token ∈ g.grants) (state : σ) : (∃ r, s.snapshot runId state token = .ok r) ↔
      other = runId ∧ l.Admits token.fencingToken.toNat := by
  rw [← holds_iff h hg hmem]
  constructor
  · rintro ⟨r, hr⟩
    exact (snapshot_cases hr).1
  · intro hholds
    obtain ⟨-, -, hfence⟩ := (holds_iff h hg hmem).mp hholds
    obtain ⟨-, -, hnat, -⟩ := hg.fence hmem
    have hcurrent := h.fencing
    apply snapshot_accepted hholds
    omega

theorem Tracks.grant (h : Tracks s runId l) (ownerId : String) (ttlMs : ℤ) :
    Tracks (s.grantLease runId ownerId ttlMs).2 runId (granted l (s.grantLease runId ownerId ttlMs).1) := by
  refine ⟨(FencedLog.Move.grant _).sound h.sound, ?_, ?_, ?_, h.version, h.snapshots⟩
  · simp only [InMemoryRuntimeStateStore.grantLease, granted, Dict.get?_set, if_true, Option.getD_some, h.fencing,
      List.length_append, List.length_singleton]
    omega
  · intro i token hi
    simp only [granted, List.getElem?_append] at hi
    split_ifs at hi with hlt
    · exact h.tokens i token hi
    · have hzero : i - l.grants.length = 0 := by
        have hbound := (List.getElem?_eq_some_iff.mp hi).1
        rw [List.length_singleton] at hbound
        omega
      have hcount : (l.grants.length : ℤ) = (i : ℤ) := by omega
      rw [hzero, List.getElem?_cons_zero, Option.some.injEq] at hi
      rw [← hi, ← hcount, ← h.fencing]
      exact ⟨rfl, rfl⟩
  · simp only [InMemoryRuntimeStateStore.grantLease, InMemoryRuntimeStateStore.activeLease, granted, Dict.get?_set,
      if_true, List.getLast?_concat]
    rfl

theorem Tracks.write (h : Tracks s runId l) (hheld : l.held = true) (state : σ) :
    Tracks (snapshotOf s runId state) runId (written l l.grants.length state) := by
  refine ⟨(FencedLog.Move.write state hheld).sound h.sound, h.fencing, h.tokens, h.lease, ?_, ?_⟩
  · simp only [snapshotOf, written, Dict.get?_set, if_true, Option.getD_some, h.version, List.length_append,
      List.length_singleton]
    omega
  · intro v
    simp only [snapshotOf, written, Dict.get?_set, if_true, Option.getD_some, h.version, List.getElem?_append]
    by_cases hv : (l.entries.length : ℤ) + 1 = v
    · have hindex : (v - 1).toNat = l.entries.length := by omega
      rw [if_pos hv, if_pos (by omega : 1 ≤ v), hindex, if_neg (Nat.lt_irrefl _), Nat.sub_self]
      rfl
    · rw [if_neg hv, h.snapshots v]
      by_cases hpos : 1 ≤ v
      · rw [if_pos hpos, if_pos hpos]
        by_cases hlt : (v - 1).toNat < l.entries.length
        · rw [if_pos hlt]
        · have hfar : ∃ k, (v - 1).toNat - l.entries.length = k + 1 :=
            Nat.exists_eq_succ_of_ne_zero (by omega)
          obtain ⟨k, hk⟩ := hfar
          rw [if_neg hlt, hk, List.getElem?_eq_none (Nat.le_of_not_lt hlt)]
          rfl
      · rw [if_neg hpos, if_neg hpos]

theorem Tracks.drop (h : Tracks s runId l) :
    Tracks { s with leases := s.leases.set runId none } runId { l with held := false } := by
  refine ⟨FencedLog.Move.release.sound h.sound, h.fencing, h.tokens, ?_, h.version, h.snapshots⟩
  simp [InMemoryRuntimeStateStore.activeLease]

end

def Tracked (w : World σ) : Prop := ∀ runId, Tracks w.store runId (w.history runId)

theorem start_tracked : Tracked (World.start : World σ) := by
  intro runId
  refine ⟨FencedLog.sound_empty, rfl, nofun, rfl, rfl, ?_⟩
  intro v
  simp [World.start, FencedLog.empty]

theorem Step.moves {w w' : World σ} (h : Step w w') (hw : Tracked w) :
    Tracked w' ∧ ∀ runId, FencedLog.Moves (w.history runId) (w'.history runId) := by
  have hupdate {store : InMemoryRuntimeStateStore σ} {runId : String} {l : FencedLog LeaseToken σ}
      (hself : Tracks store runId l) (hmoves : FencedLog.Moves (w.history runId) l)
      (hsame : ∀ r, r ≠ runId → Tracks store r (w.history r)) :
      Tracked ⟨store, Function.update w.history runId l⟩ ∧
        ∀ r, FencedLog.Moves (w.history r) (Function.update w.history runId l r) := by
    constructor
    · intro r
      by_cases hr : r = runId
      · subst hr
        simpa using hself
      · simpa [Function.update_of_ne hr] using hsame r hr
    · intro r
      by_cases hr : r = runId
      · subst hr
        simpa using hmoves
      · rw [Function.update_of_ne hr]
        exact .refl
  cases h with
  | @acquire runId ownerId ttlMs token store hacquire =>
    have hgrant := (acquire_cases hacquire).1
    obtain ⟨rfl, rfl⟩ := Prod.mk.inj hgrant
    apply hupdate ((hw runId).grant ownerId ttlMs) (.single (.grant _))
    intro r hr
    apply (hw r).of_same <;> simp [InMemoryRuntimeStateStore.grantLease, Ne.symm hr]
  | @snapshot runId state token ref store hgiven hsnapshot =>
    obtain ⟨other, hmem⟩ := hgiven
    obtain ⟨hholds, rfl, rfl⟩ := snapshot_cases hsnapshot
    obtain ⟨-, hheld, hfence⟩ := (holds_iff (hw runId) (hw other) hmem).mp hholds
    simp only [hfence]
    apply hupdate ((hw runId).write hheld state) (.single (.write state hheld))
    intro r hr
    apply (hw r).of_same <;> simp [snapshotOf, Ne.symm hr]
  | @release runId token hgiven =>
    unfold InMemoryRuntimeStateStore.release
    split_ifs with hholds
    · apply hupdate (hw runId).drop (.single .release)
      intro r hr
      apply (hw r).of_same <;> simp [Ne.symm hr]
    · exact hupdate (hw runId) .refl fun r _ => hw r

theorem Steps.moves {w w' : World σ} (h : Steps w w') (hw : Tracked w) :
    Tracked w' ∧ ∀ runId, FencedLog.Moves (w.history runId) (w'.history runId) := by
  induction h with
  | refl => exact ⟨hw, fun _ => .refl⟩
  | tail _ hstep ih =>
    obtain ⟨htracked, hmoves⟩ := ih
    obtain ⟨htracked', hmoves'⟩ := hstep.moves htracked
    exact ⟨htracked', fun runId => (hmoves runId).trans (hmoves' runId)⟩

theorem acquire_owner {s s' : InMemoryRuntimeStateStore σ} {runId : String} {l : FencedLog LeaseToken σ}
    (h : Tracks s runId l) (hheld : l.held = true) {token : LeaseToken} (hlast : l.grants.getLast? = some token)
    {ownerId : String} {ttlMs : ℤ} {t : LeaseToken} (hacquire : s.acquireLease runId ownerId ttlMs = .ok (t, s')) :
    ownerId = token.ownerId := by
  obtain ⟨lease, hactive, hlease, -⟩ := h.last hheld
  rw [hlast, Option.some.injEq] at hlease
  rw [hlease]
  exact ((acquire_cases hacquire).2 lease hactive).symm

theorem admitted_last {s : InMemoryRuntimeStateStore σ} {runId : String} {l : FencedLog LeaseToken σ}
    (h : Tracks s runId l) {token : LeaseToken} (hmem : token ∈ l.grants)
    (hadmits : l.Admits token.fencingToken.toNat) : l.grants.getLast? = some token := by
  obtain ⟨i, hi⟩ := List.mem_iff_getElem?.mp hmem
  have hfence := (h.tokens i token hi).1
  have hcount := hadmits.2
  have hlast : l.grants.length - 1 = i := by omega
  rw [List.getLast?_eq_getElem?, hlast, hi]

/-- However workers that show the tokens given to them take turns, the store accepts the states of a run from one token
at most, and while it does no other owner gets a lease. A token that is refused once is refused from then on. -/
theorem one_writer_at_a_time {w : World σ} (h : Steps World.start w) (runId : String) (state : σ) :
    (∀ token, Given w token → (∃ r, w.store.snapshot runId state token = .ok r) →
      (∀ token', Given w token' → (∃ r, w.store.snapshot runId state token' = .ok r) → token' = token) ∧
      ∀ ownerId ttlMs r, w.store.acquireLease runId ownerId ttlMs = .ok r → ownerId = token.ownerId) ∧
    ∀ token, Given w token → (∀ r, w.store.snapshot runId state token ≠ .ok r) →
      ∀ w', Steps w w' → ∀ state' r, w'.store.snapshot runId state' token ≠ .ok r := by
  obtain ⟨hw, -⟩ := h.moves start_tracked
  have hlast {token : LeaseToken} (hgiven : Given w token)
      (haccepted : ∃ r, w.store.snapshot runId state token = .ok r) :
      (w.history runId).held = true ∧ (w.history runId).grants.getLast? = some token := by
    obtain ⟨other, hmem⟩ := hgiven
    obtain ⟨rfl, hadmits⟩ := (accepts_iff (hw runId) (hw other) hmem state).mp haccepted
    exact ⟨hadmits.1, admitted_last (hw other) hmem hadmits⟩
  constructor
  · intro token hgiven haccepted
    obtain ⟨hheld, htoken⟩ := hlast hgiven haccepted
    constructor
    · intro token' hgiven' haccepted'
      have htoken' := (hlast hgiven' haccepted').2
      rw [htoken] at htoken'
      exact (Option.some.inj htoken').symm
    · intro ownerId ttlMs r hacquire
      exact acquire_owner (hw runId) hheld htoken hacquire
  · intro token hgiven hrefused w' hsteps state' r haccepted
    obtain ⟨other, hmem⟩ := hgiven
    obtain ⟨hw', hmoves⟩ := hsteps.moves hw
    have hmem' := (hmoves other).grants_grow.subset hmem
    obtain ⟨rfl, hadmits⟩ := (accepts_iff (hw' runId) (hw' other) hmem' state').mp ⟨r, haccepted⟩
    have hnot : ¬ (w.history other).Admits token.fencingToken.toNat := by
      intro hold
      obtain ⟨r', hr'⟩ := (accepts_iff (hw other) (hw other) hmem state).mpr ⟨rfl, hold⟩
      exact hrefused r' hr'
    exact (hmoves other).not_admits ((hw other).fence hmem).1 hnot hadmits

def firstToken : LeaseToken := ⟨leaseIdOf "r" 1, "a", 1, 1000, 0⟩

def leased (σ : Type) : World σ :=
  ⟨(World.start.store.grantLease "r" "a" 1000).2, Function.update World.start.history "r" (granted .empty firstToken)⟩

theorem leased_step : Step World.start (leased σ) :=
  @Step.acquire _ _ "r" "a" 1000 firstToken _ rfl

theorem firstToken_given : firstToken ∈ ((leased σ).history "r").grants := List.mem_cons_self ..

theorem renewed_lease_fences : ∃ w : World (List String), Steps World.start w ∧ Given w firstToken ∧
    ∀ w', Steps w w' → ∀ state r, w'.store.snapshot "r" state firstToken ≠ .ok r := by
  have hfree : ∀ lease ∈ (leased (List String)).store.activeLease "r", lease.ownerId = "a" := by
    intro lease hlease
    obtain rfl := Option.some.inj hlease
    rfl
  have hleased : Steps World.start (leased (List String)) := .single leased_step
  have hsteps := hleased.tail (.acquire (acquire_free 1000 hfree))
  obtain ⟨hw, -⟩ := Steps.moves hsteps start_tracked
  have hgiven : firstToken ∈ (granted ((leased (List String)).history "r")
      ((leased (List String)).store.grantLease "r" "a" 1000).1).grants :=
    List.mem_append_left _ firstToken_given
  refine ⟨_, hsteps, ⟨"r", hgiven⟩, ?_⟩
  apply (one_writer_at_a_time hsteps "r" ["s"]).2 firstToken ⟨"r", hgiven⟩
  intro r hr
  have hadmits := ((accepts_iff (hw "r") (hw "r") hgiven ["s"]).mp ⟨r, hr⟩).2
  exact absurd hadmits.2 (by decide)

section

variable {ρ δ : Type} [DecidableEq ρ] {m m' : Memory ρ δ} {changed : List ρ}

theorem Run.steps (h : Run m changed m') : Steps m.world m'.world := by
  induction h with
  | refl => exact .refl
  | call _ hstep ih => exact ih.tail hstep
  | change _ _ _ ih => exact ih

theorem Run.holds_eq (h : Run m changed m') {dict : ρ} (hdict : dict ∉ changed) : m'.holds dict = m.holds dict := by
  induction h with
  | refl => rfl
  | call _ _ ih => exact ih hdict
  | change _ other content ih =>
    rw [List.mem_cons, not_or] at hdict
    exact (Function.update_of_ne hdict.1 _ _).trans (ih hdict.2)

theorem restore_entry {s : InMemoryRuntimeStateStore σ} {runId : String} {l : FencedLog LeaseToken σ}
    (h : Tracks s runId l) {k : ℕ} {e : ℕ × σ} (he : l.entries[k]? = some e) (fresh : σ) (refRun : String) :
    s.restore runId fresh (some ⟨refRun, (k : ℤ) + 1⟩) = e.2 := by
  have hstored := h.snapshots ((k : ℤ) + 1)
  have hindex : ((k : ℤ) + 1 - 1).toNat = k := by omega
  rw [if_pos (by omega : (1 : ℤ) ≤ (k : ℤ) + 1), hindex, he] at hstored
  rw [InMemoryRuntimeStateStore.restore, hstored]
  rfl

theorem restore_last {s : InMemoryRuntimeStateStore σ} {runId : String} {l : FencedLog LeaseToken σ}
    (h : Tracks s runId l) (fresh : σ) :
    s.restore runId fresh none = ((l.entries.getLast?).map Prod.snd).getD fresh := by
  rw [InMemoryRuntimeStateStore.restore, h.version, h.snapshots, List.getLast?_eq_getElem?]
  by_cases hnone : l.entries.length = 0
  · rw [if_neg (by omega), List.length_eq_zero_iff.mp hnone]
    rfl
  · have hindex : ((l.entries.length : ℤ) - 1).toNat = l.entries.length - 1 := by omega
    rw [if_pos (by omega), hindex]

/-- What the store has accepted for a run stays under its version for good, in the order of the fencing tokens: the
dict itself, which holds what it held when it was accepted as long as nobody changes it. -/
theorem accepted_states_are_kept {start : Memory ρ δ} (hstart : start.world = World.start) (h : Run start changed m)
    (runId : String) :
    (m.world.history runId).entries.Pairwise (fun e f => e.1 ≤ f.1) ∧
    (∀ fresh, m.world.store.restore runId fresh none =
      (((m.world.history runId).entries.getLast?).map Prod.snd).getD fresh) ∧
    (∀ token state ref store, m.world.store.snapshot runId state token = .ok (ref, store) →
      ref.version = ((m.world.history runId).entries.length : ℤ) + 1) ∧
    ∀ (k : ℕ) (e : ℕ × ρ), (m.world.history runId).entries[k]? = some e → ∀ later m', Run m later m' →
      (m'.world.history runId).entries[k]? = some e ∧
      (∀ fresh refRun, m'.world.store.restore runId fresh (some ⟨refRun, (k : ℤ) + 1⟩) = e.2) ∧
      (e.2 ∉ later → m'.holds e.2 = m.holds e.2) := by
  have hsteps := h.steps
  rw [hstart] at hsteps
  obtain ⟨hw, -⟩ := hsteps.moves start_tracked
  refine ⟨(hw runId).sound.ordered, restore_last (hw runId), ?_, ?_⟩
  · intro token state ref store hsnapshot
    obtain ⟨-, rfl, -⟩ := snapshot_cases hsnapshot
    simp only [(hw runId).version]
  · intro k e he later m' hlater
    obtain ⟨hw', hmoves⟩ := hlater.steps.moves hw
    have hkept : (m'.world.history runId).entries[k]? = some e := by
      obtain ⟨more, hmore⟩ := (hmoves runId).entries_grow
      rw [← hmore, List.getElem?_append_left (List.getElem?_eq_some_iff.mp he).1, he]
    exact ⟨hkept, restore_entry (hw' runId) hkept, hlater.holds_eq⟩

end

theorem first_state : ∃ m : Memory ℕ (List String), Run ⟨World.start, fun _ => ["one"]⟩ [] m ∧
    (m.world.history "r").entries = [(1, 7)] ∧ m.holds 7 = ["one"] := by
  obtain ⟨hw, -⟩ := Steps.moves (.single (leased_step (σ := ℕ))) start_tracked
  obtain ⟨⟨ref, store⟩, hone⟩ := (accepts_iff (hw "r") (hw "r") firstToken_given 7).mpr ⟨rfl, rfl, rfl⟩
  have hrun := Run.refl (⟨World.start, fun _ => ["one"]⟩ : Memory ℕ (List String))
  refine ⟨_, (hrun.call leased_step).call (.snapshot ⟨"r", firstToken_given⟩ hone), ?_, rfl⟩
  obtain ⟨-, rfl, -⟩ := snapshot_cases hone
  rfl

/-- The first state is restored in the dict that was accepted, which holds what it held while another one is changed. -/
theorem first_state_is_kept : ∃ m m' : Memory ℕ (List String), Run ⟨World.start, fun _ => ["one"]⟩ [] m ∧
    Run m [8] m' ∧ m'.world.store.restore "r" 0 (some ⟨"r", 1⟩) = 7 ∧ m'.holds 7 = ["one"] := by
  obtain ⟨m, hrun, hentries, hholds⟩ := first_state
  have hlater : Run m [8] _ := (Run.refl m).change 8 ["two"]
  have hentry : (m.world.history "r").entries[0]? = some (1, 7) := by
    rw [hentries]
    rfl
  obtain ⟨-, hrestore, hkept⟩ := (accepted_states_are_kept rfl hrun "r").2.2.2 0 (1, 7) hentry _ _ hlater
  exact ⟨m, _, hrun, hlater, hrestore 0 "r", (hkept (by decide)).trans hholds⟩

/-- What its owner puts into the dict afterwards is restored with it. -/
example : ∃ m m' : Memory ℕ (List String), Run ⟨World.start, fun _ => ["one"]⟩ [] m ∧ m.holds 7 = ["one"] ∧
    Run m [7] m' ∧ m'.world.store.restore "r" 0 (some ⟨"r", 1⟩) = 7 ∧ m'.holds 7 = ["two"] := by
  obtain ⟨m, hrun, hentries, hholds⟩ := first_state
  obtain ⟨hw, -⟩ := hrun.steps.moves start_tracked
  have hentry : (m.world.history "r").entries[0]? = some (1, 7) := by
    rw [hentries]
    rfl
  exact ⟨m, _, hrun, hholds, (Run.refl m).change 7 ["two"], restore_entry (hw "r") hentry 0 "r", rfl⟩

end GraphSkillRuntime.RuntimeStates
