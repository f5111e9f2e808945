import Mathlib.Data.List.DropRight
import Mathlib.Data.List.Sort
import Mathlib.Logic.Relation
import GraphSkillRuntime.JsonText
import GraphSkillRuntime.NumberedLogs

/-!
The buffer of an event stream: it keeps the last events of a run, and a watcher who has dropped off resumes behind the
last event that it has seen.
-/

namespace GraphSkillRuntime.EventStreams

open OrderedDict NumberedLogs

variable {β : Type}

def seqText (seq : ℤ) : String := .ofList (JsonText.intText seq)

structure EventEnvelope (β : Type) where
  streamId : String
  seq : ℤ
  cursor : String
  body : β

def makeEventEnvelope (streamId : String) (seq : ℤ) (cursor : Option String) (body : β) : EventEnvelope β where
  streamId := streamId
  seq := seq
  cursor := cursor.getD (streamId ++ ":" ++ seqText seq)
  body := body

inductive StreamError where
  | valueError (text : String)
  | cursorGap (text : String)
  | cursorExpired (text : String)
  | backpressure (text : String)

def extreme (ahead : ℤ → ℤ → Bool) : List ℤ → Option ℤ
  | [] => none
  | key :: keys =>
    match extreme ahead keys with
    | none => some key
    | some best => some (if ahead best key then best else key)

def minKey : List ℤ → Option ℤ := extreme fun a b => a < b

def maxKey : List ℤ → Option ℤ := extreme fun a b => b < a

structure EventStreamBuffer (β : Type) where
  streamId : String
  capacity : ℤ
  events : Dict ℤ (EventEnvelope β) := ∅
  evictedSeqs : List ℤ := []

namespace EventStreamBuffer

variable (b : EventStreamBuffer β)

def knows (seq : ℤ) : Prop := seq ∈ b.events.keys ∨ seq ∈ b.evictedSeqs

instance (seq : ℤ) : Decidable (b.knows seq) := inferInstanceAs (Decidable (_ ∨ _))

def store (event : EventEnvelope β) : Except StreamError (EventStreamBuffer β) :=
  if b.capacity ≤ b.events.keys.length then
    if b.capacity = 1 then .error (.backpressure "Stream capacity reached")
    else
      match minKey b.events.keys with
      | none => .error (.valueError "min() iterable argument is empty")
      | some minS => .ok { b with
          events := (b.events.erase minS).set event.seq event
          evictedSeqs := b.evictedSeqs ++ [minS] }
  else .ok { b with events := b.events.set event.seq event }

def append (event : EventEnvelope β) : Except StreamError (EventStreamBuffer β) :=
  if event.streamId ≠ b.streamId then
    .error (.valueError ("stream_id mismatch: expected " ++ b.streamId ++ ", got " ++ event.streamId))
  else if b.knows event.seq then .ok b
  else
    match maxKey b.events.keys with
    | none => b.store event
    | some maxSeq =>
      if maxSeq < event.seq ∧ event.seq ≠ maxSeq + 1 then
        .error (.cursorGap ("Gap detected: expected " ++ seqText (maxSeq + 1) ++ ", got " ++ seqText event.seq))
      else b.store event

def sortedEvents : List (EventEnvelope β) := (b.events.keys.insertionSort (· ≤ ·)).filterMap b.events.get?

/-- `cursor.split(":")[-1]`. -/
def lastPart (cursor : String) : String := .ofList (cursor.toList.rtakeWhile (· ≠ ':'))

def resume (readInt : String → Option ℤ) (cursor : Option String) :
    Except StreamError (List (EventEnvelope β) × Option String) :=
  match cursor with
  | none => .ok (b.sortedEvents, b.sortedEvents.getLast?.map EventEnvelope.cursor)
  | some cursor =>
    match readInt (lastPart cursor) with
    | none => .error (.valueError ("Invalid cursor format: " ++ cursor))
    | some n =>
      match minKey b.events.keys with
      | none => .ok ([], some cursor)
      | some minSeq =>
        if n < minSeq - 1 then
          .error (.cursorExpired ("Cursor expired: requested seq > " ++ seqText n ++ ", but min available is " ++
            seqText minSeq))
        else
          let events := b.sortedEvents.filter fun event => n < event.seq
          .ok (events, some ((events.getLast?.map EventEnvelope.cursor).getD cursor))

end EventStreamBuffer

structure Session (β : Type) where
  buffer : EventStreamBuffer β
  /-- Everything that the buffer has taken, in the order in which it was taken. -/
  log : List (EventEnvelope β)
  cursor : Option String
  received : List (EventEnvelope β)

def begin (streamId : String) (capacity : ℤ) : Session β := ⟨{ streamId, capacity }, [], none, []⟩

inductive Step (readInt : String → Option ℤ) : Session β → Session β → Prop
  /-- The producers number upwards from the first event, and leave the cursors to the envelopes. -/
  | append {s : Session β} {seq : ℤ} {body : β} {streamId : String} {b : EventStreamBuffer β}
      (hforward : ∀ first ∈ s.log.head?, first.seq ≤ seq)
      (h : s.buffer.append (makeEventEnvelope streamId seq none body) = .ok b) :
      Step readInt s { s with
        buffer := b
        log := if s.buffer.knows seq then s.log else s.log ++ [makeEventEnvelope streamId seq none body] }
  | refuse {s : Session β} {event : EventEnvelope β} {error : StreamError} (h : s.buffer.append event = .error error) :
      Step readInt s s
  | read {s : Session β} {events : List (EventEnvelope β)} {next : Option String}
      (h : s.buffer.resume readInt s.cursor = .ok (events, next)) :
      Step readInt s { s with cursor := next, received := s.received ++ events }
  | startOver {s : Session β} {error : StreamError} (h : s.buffer.resume readInt s.cursor = .error error) :
      Step readInt s { s with cursor := none, received := [] }

def Reachable (readInt : String → Option ℤ) (streamId : String) (capacity : ℤ) (s : Session β) : Prop :=
  Relation.ReflTransGen (Step readInt) (begin streamId capacity) s

theorem mem_of_extreme {ahead : ℤ → ℤ → Bool} {keys : List ℤ} {m : ℤ} (h : extreme ahead keys = some m) : m ∈ keys := by
  induction keys generalizing m with
  | nil => cases h
  | cons key keys ih =>
    rw [extreme] at h
    split at h
    · obtain rfl := Option.some.inj h
      exact List.mem_cons_self
    · next best hbest =>
      obtain rfl := Option.some.inj h
      split_ifs
      · exact List.mem_cons_of_mem _ (ih hbest)
      · exact List.mem_cons_self

theorem extreme_eq_some {ahead : ℤ → ℤ → Bool} {keys : List ℤ} {m : ℤ} (hm : m ∈ keys)
    (hfirst : ∀ k ∈ keys, k = m ∨ ahead m k = true ∧ ahead k m = false) : extreme ahead keys = some m := by
  induction keys with
  | nil => cases hm
  | cons key keys ih =>
    have hrest : ∀ k ∈ keys, k = m ∨ ahead m k = true ∧ ahead k m = false :=
      fun k hk => hfirst k (List.mem_cons_of_mem _ hk)
    by_cases hmem : m ∈ keys
    · rw [extreme, ih hmem hrest]
      rcases hfirst key List.mem_cons_self with rfl | ⟨hahead, -⟩
      · simp
      · simp [hahead]
    · obtain rfl : m = key := (List.mem_cons.mp hm).resolve_right hmem
      rw [extreme]
      cases hbest : extreme ahead keys with
      | none => rfl
      | some best =>
        have hbehind := hrest best (mem_of_extreme hbest)
        rcases hbehind with rfl | ⟨-, hbehind⟩
        · exact absurd (mem_of_extreme hbest) hmem
        · simp [hbehind]

section Windows

variable {b b' : EventStreamBuffer β} {gone kept : List (EventEnvelope β)} {event : EventEnvelope β}

structure Holds (b : EventStreamBuffer β) (gone kept : List (EventEnvelope β)) : Prop where
  entries : b.events.entries = kept.map fun e => (e.seq, e)
  evicted : b.evictedSeqs = gone.map EventEnvelope.seq
  numbered : Numbered EventEnvelope.seq (gone ++ kept)
  nonempty : gone ≠ [] → kept ≠ []
  fits : kept ≠ [] → kept.length ≤ b.capacity

theorem Holds.keys (h : Holds b gone kept) : b.events.keys = kept.map EventEnvelope.seq := by
  rw [Dict.keys, h.entries, List.map_map]
  rfl

theorem Holds.knows_iff (h : Holds b gone kept) (seq : ℤ) :
    b.knows seq ↔ seq ∈ (gone ++ kept).map EventEnvelope.seq := by
  rw [EventStreamBuffer.knows, h.keys, h.evicted, List.map_append, List.mem_append]
  exact or_comm

theorem Holds.minKey_eq (h : Holds b gone kept) : minKey b.events.keys = kept.head?.map EventEnvelope.seq := by
  rw [h.keys]
  cases kept with
  | nil => rfl
  | cons first kept =>
    have hnumbered := (numbered_append.mp h.numbered).2.1
    apply extreme_eq_some (by simp)
    intro k hk
    obtain ⟨e, he, rfl⟩ := List.mem_map.mp hk
    have hle := hnumbered.head_le rfl he
    simp only [decide_eq_true_eq, decide_eq_false_iff_not]
    omega

theorem Holds.maxKey_eq (h : Holds b gone kept) : maxKey b.events.keys = kept.getLast?.map EventEnvelope.seq := by
  rw [h.keys]
  cases hlast : kept.getLast? with
  | none =>
    rw [List.getLast?_eq_none_iff.mp hlast]
    rfl
  | some last =>
    have hnumbered := (numbered_append.mp h.numbered).2.1
    apply extreme_eq_some (List.mem_map_of_mem (List.mem_of_getLast? hlast))
    intro k hk
    obtain ⟨e, he, rfl⟩ := List.mem_map.mp hk
    have hle := hnumbered.le_last hlast he
    simp only [decide_eq_true_eq, decide_eq_false_iff_not]
    omega

theorem Holds.sortedEvents_eq (h : Holds b gone kept) : b.sortedEvents = kept := by
  have hnumbered := (numbered_append.mp h.numbered).2.1
  have hsorted : (kept.map EventEnvelope.seq).Pairwise (· ≤ ·) := by
    apply List.pairwise_map.mpr
    apply hnumbered.pairwise.imp
    intro a b hab
    omega
  rw [EventStreamBuffer.sortedEvents, h.keys, hsorted.insertionSort_eq, List.filterMap_map]
  have hget : ∀ e ∈ kept, (b.events.get? ∘ EventEnvelope.seq) e = some e := by
    intro e he
    apply Dict.get?_mem.mpr
    rw [h.entries]
    exact List.mem_map_of_mem he
  rw [List.filterMap_congr hget]
  exact List.filterMap_some

theorem Holds.notMem_keys (h : Holds b gone kept) (hnext : Numbered EventEnvelope.seq (gone ++ kept ++ [event])) :
    event.seq ∉ b.events.keys := by
  rw [h.keys]
  intro hmem
  obtain ⟨e, he, heq⟩ := List.mem_map.mp hmem
  have hlt := (List.pairwise_append.mp hnext.pairwise).2.2 e (List.mem_append_right _ he) event
    (List.mem_singleton_self event)
  omega

theorem Holds.entries_erase {first : EventEnvelope β} (h : Holds b gone (first :: kept)) :
    (b.events.erase first.seq).entries = kept.map fun e => (e.seq, e) := by
  have hnumbered := (numbered_append.mp h.numbered).2.1
  change b.events.entries.filter (fun e => decide (e.1 ≠ first.seq)) = _
  rw [h.entries, List.map_cons, List.filter_cons_of_neg (by simp)]
  apply List.filter_eq_self.mpr
  intro entry hentry
  obtain ⟨e, he, rfl⟩ := List.mem_map.mp hentry
  have hlt := (List.pairwise_cons.mp hnumbered.pairwise).1 e he
  simp only [decide_eq_true_eq]
  omega

theorem Holds.store (h : Holds b gone kept) (hnext : Numbered EventEnvelope.seq (gone ++ kept ++ [event]))
    (hok : b.store event = .ok b') : b'.streamId = b.streamId ∧ b'.capacity = b.capacity ∧
      ∃ gone' kept', Holds b' gone' kept' ∧ gone' ++ kept' = gone ++ kept ++ [event] := by
  have hlength : b.events.keys.length = kept.length := by rw [h.keys, List.length_map]
  have hfresh := h.notMem_keys hnext
  rw [EventStreamBuffer.store, hlength] at hok
  split_ifs at hok with hfull hone
  · rw [h.minKey_eq] at hok
    cases kept with
    | nil => cases hok
    | cons first kept =>
      obtain rfl := Except.ok.inj hok
      have herased := h.entries_erase
      refine ⟨rfl, rfl, gone ++ [first], kept ++ [event], ?_, by simp⟩
      constructor
      · have hkeys : event.seq ∉ (b.events.erase first.seq).keys := by
          intro hmem
          apply hfresh
          rw [Dict.keys, herased, List.map_map] at hmem
          rw [h.keys]
          exact List.mem_cons_of_mem _ hmem
        rw [Dict.entries_set_new hkeys, herased, List.map_append]
        rfl
      · simp [h.evicted]
      · simpa using hnext
      · simp
      · intro _
        have hle := h.fits (List.cons_ne_nil _ _)
        simpa using hle
  · obtain rfl := Except.ok.inj hok
    refine ⟨rfl, rfl, gone, kept ++ [event], ?_, by simp⟩
    constructor
    · rw [Dict.entries_set_new hfresh, h.entries, List.map_append]
      rfl
    · exact h.evicted
    · simpa using hnext
    · simp
    · intro _
      change ((kept ++ [event]).length : ℤ) ≤ b.capacity
      rw [List.length_append, List.length_singleton]
      omega

theorem Holds.append (h : Holds b gone kept) (hforward : ∀ first ∈ (gone ++ kept).head?, first.seq ≤ event.seq)
    (hok : b.append event = .ok b') : event.streamId = b.streamId ∧ b'.streamId = b.streamId ∧
      (b.knows event.seq ∧ b' = b ∨ ¬ b.knows event.seq ∧
        ∃ gone' kept', Holds b' gone' kept' ∧ gone' ++ kept' = gone ++ kept ++ [event]) := by
  rw [EventStreamBuffer.append] at hok
  split_ifs at hok with hstream hknows
  · obtain rfl := Except.ok.inj hok
    exact ⟨not_not.mp hstream, rfl, .inl ⟨hknows, rfl⟩⟩
  · have hnext : Numbered EventEnvelope.seq (gone ++ kept ++ [event]) ∧ b.store event = .ok b' := by
      rw [h.maxKey_eq] at hok
      cases hlast : kept.getLast? with
      | none =>
        obtain rfl := List.getLast?_eq_none_iff.mp hlast
        have hgone : gone = [] := by
          by_contra hne
          exact h.nonempty hne rfl
        rw [hlast] at hok
        exact ⟨by simp [hgone, Numbered], hok⟩
      | some last =>
        simp only [hlast, Option.map_some] at hok
        have hlast' : (gone ++ kept).getLast? = some last := by simp [List.getLast?_append, hlast]
        split_ifs at hok with hgap
        refine ⟨h.numbered.concat fun a ha => ?_, hok⟩
        obtain rfl : last = a := Option.some.inj (hlast'.symm.trans ha)
        by_contra hbehind
        apply hknows
        apply (h.knows_iff event.seq).mpr
        obtain ⟨first, rest, hlog⟩ := List.exists_cons_of_ne_nil (List.ne_nil_of_mem (List.mem_of_getLast? hlast'))
        have hfirst : (gone ++ kept).head? = some first := by rw [hlog]; rfl
        obtain ⟨e, he, heq⟩ := h.numbered.exists_mem hfirst hlast' (hforward first hfirst) (by omega)
        exact List.mem_map.mpr ⟨e, he, heq⟩
    obtain ⟨hid, -, gone', kept', hholds, heq⟩ := h.store hnext.1 hnext.2
    exact ⟨not_not.mp hstream, hid, .inr ⟨hknows, gone', kept', hholds, heq⟩⟩

end Windows

theorem colon_notMem_intText (n : ℤ) : ':' ∉ JsonText.intText n := by
  intro hmem
  rcases List.mem_append.mp hmem with hsign | hdigit
  · unfold JsonText.signText at hsign
    split_ifs at hsign
    · simp at hsign
    · cases hsign
  · have hdigit := Nat.isDigit_of_mem_toDigits (by decide) (by decide) hdigit
    cases hdigit

theorem lastPart_cursor (streamId : String) (n : ℤ) :
    EventStreamBuffer.lastPart (streamId ++ ":" ++ seqText n) = seqText n := by
  have hall : ∀ c ∈ (JsonText.intText n).reverse, decide (c ≠ ':') = true := by
    intro c hc
    apply decide_eq_true
    rintro rfl
    exact colon_notMem_intText n (List.mem_reverse.mp hc)
  have hsplit : (streamId ++ ":" ++ seqText n).toList.reverse =
      (JsonText.intText n).reverse ++ ':' :: streamId.toList.reverse := by
    simp [seqText]
  rw [EventStreamBuffer.lastPart, List.rtakeWhile, hsplit, List.takeWhile_append_of_pos hall]
  simp [seqText]

section Sessions

variable {readInt : String → Option ℤ} {s : Session β} {gone kept : List (EventEnvelope β)}

def Behind (s : Session β) (after : List (EventEnvelope β)) : Prop :=
  ∃ before last, s.log = before ++ s.received ++ after ∧ s.received.getLast? = some last ∧ s.cursor = some last.cursor

structure Tracks (s : Session β) (gone kept : List (EventEnvelope β)) : Prop where
  holds : Holds s.buffer gone kept
  log : s.log = gone ++ kept
  cursors : ∀ e ∈ s.log, e.cursor = s.buffer.streamId ++ ":" ++ seqText e.seq
  watcher : s.cursor = none ∧ s.received = [] ∨ ∃ after, Behind s after

theorem Tracks.resume_start (h : Tracks s gone kept) (hcursor : s.cursor = none) :
    s.buffer.resume readInt s.cursor = .ok (kept, kept.getLast?.map EventEnvelope.cursor) := by
  rw [hcursor, EventStreamBuffer.resume, h.holds.sortedEvents_eq]

theorem Tracks.resume_behind (hread : ∀ n, readInt (seqText n) = some n) (h : Tracks s gone kept)
    {after : List (EventEnvelope β)} (hafter : Behind s after) :
    (∃ next, s.buffer.resume readInt s.cursor = .ok (after, next) ∧
        next = (after.getLast?.map EventEnvelope.cursor).or s.cursor) ∨
      (∃ text, s.buffer.resume readInt s.cursor = .error (.cursorExpired text)) ∧
        ∃ e ∈ after, e.seq ∈ s.buffer.evictedSeqs := by
  obtain ⟨before, last, hlog, hlast, hcursor⟩ := hafter
  have hmem : last ∈ s.log := by
    rw [hlog]
    exact List.mem_append_left _ (List.mem_append_right _ (List.mem_of_getLast? hlast))
  have hnumbered : Numbered EventEnvelope.seq s.log := h.log ▸ h.holds.numbered
  have hne : kept ≠ [] := by
    intro hnil
    have hgone : gone = [] := by
      by_contra hgone
      exact h.holds.nonempty hgone hnil
    rw [h.log, hgone, hnil] at hmem
    cases hmem
  obtain ⟨first, rest, rfl⟩ := List.exists_cons_of_ne_nil hne
  have hfirst : first ∈ s.log := by simp [h.log]
  have hafter : s.log.filter (fun e => last.seq < e.seq) = after := by
    have hlast' : (before ++ s.received).getLast? = some last := by simp [List.getLast?_append, hlast]
    rw [hlog] at hnumbered ⊢
    exact hnumbered.filter_after hlast'
  have hgone : ∀ e ∈ gone, e.seq < first.seq := by
    intro e he
    rw [h.log] at hnumbered
    exact (List.pairwise_append.mp hnumbered.pairwise).2.2 e he first List.mem_cons_self
  rw [hcursor, h.cursors last hmem, EventStreamBuffer.resume]
  simp only [lastPart_cursor, hread, h.holds.minKey_eq, h.holds.sortedEvents_eq, List.head?_cons, Option.map_some]
  split_ifs with hexpired
  · refine .inr ⟨⟨_, rfl⟩, ?_⟩
    obtain ⟨start, tail, hstart⟩ := List.exists_cons_of_ne_nil (List.ne_nil_of_mem hmem)
    have hnewest := List.getLast?_eq_some_getLast (List.ne_nil_of_mem hmem)
    have hhead : s.log.head? = some start := by rw [hstart]; rfl
    have hle := hnumbered.head_le hhead hmem
    have hle' := hnumbered.le_last hnewest hfirst
    obtain ⟨e, he, hseq⟩ := hnumbered.exists_mem (n := last.seq + 1) hhead hnewest (by omega) (by omega)
    refine ⟨e, ?_, ?_⟩
    · rw [← hafter, List.mem_filter]
      exact ⟨he, decide_eq_true (by omega)⟩
    · rw [h.log] at he
      rw [h.holds.evicted]
      apply List.mem_map_of_mem
      apply (List.mem_append.mp he).resolve_right
      intro hkept
      have hfar := ((numbered_append.mp h.holds.numbered).2.1).head_le rfl hkept
      omega
  · have hkept : (first :: rest).filter (fun e => last.seq < e.seq) = after := by
      have hnone : gone.filter (fun e => last.seq < e.seq) = [] := by
        apply List.filter_eq_nil_iff.mpr
        intro e he
        have hlt := hgone e he
        simp only [decide_eq_true_eq]
        omega
      rw [← hafter, h.log, List.filter_append, hnone, List.nil_append]
    refine .inl ⟨_, by rw [hkept], ?_⟩
    cases after.getLast? <;> rfl

theorem Tracks.step (hread : ∀ n, readInt (seqText n) = some n) (h : Tracks s gone kept) {s' : Session β}
    (hstep : Step readInt s s') : ∃ gone' kept', Tracks s' gone' kept' := by
  cases hstep with
  | @append seq body streamId b hforward hok =>
    rw [h.log] at hforward
    obtain ⟨hstream, hsame, ⟨hknown, rfl⟩ | ⟨hnew, gone', kept', hholds, hlog⟩⟩ := h.holds.append hforward hok
    · have hknown : s.buffer.knows seq := hknown
      rw [if_pos hknown]
      exact ⟨gone, kept, h⟩
    · have hnew : ¬ s.buffer.knows seq := hnew
      rw [if_neg hnew]
      refine ⟨gone', kept', hholds, ?_, ?_, ?_⟩
      · rw [hlog, h.log]
      · intro e he
        rcases List.mem_append.mp he with he | he
        · rw [hsame]
          exact h.cursors e he
        · obtain rfl := List.mem_singleton.mp he
          rw [hsame, ← hstream]
          rfl
      · rcases h.watcher with hstart | ⟨after, before, last, hlog, hlast, hcursor⟩
        · exact .inl hstart
        · refine .inr ⟨after ++ [makeEventEnvelope streamId seq none body], before, last, ?_, hlast, hcursor⟩
          simp [hlog]
  | refuse => exact ⟨gone, kept, h⟩
  | @read events next hok =>
    refine ⟨gone, kept, h.holds, h.log, h.cursors, ?_⟩
    rcases h.watcher with ⟨hcursor, hnone⟩ | ⟨after, hafter⟩
    · rw [h.resume_start hcursor] at hok
      obtain ⟨rfl, rfl⟩ := Prod.mk.inj (Except.ok.inj hok)
      cases hlast : kept.getLast? with
      | none =>
        rw [List.getLast?_eq_none_iff.mp hlast]
        exact .inl ⟨rfl, by simp [hnone]⟩
      | some last =>
        refine .inr ⟨[], gone, last, ?_, ?_, rfl⟩
        · simp [h.log, hnone]
        · simp [hnone, hlast]
    · rcases h.resume_behind hread hafter with ⟨next', hnext, rfl⟩ | ⟨⟨text, hexpired⟩, -⟩
      · rw [hnext] at hok
        obtain ⟨rfl, rfl⟩ := Prod.mk.inj (Except.ok.inj hok)
        obtain ⟨before, last, hlog, hlast, hcursor⟩ := hafter
        cases hnewest : after.getLast? with
        | none =>
          obtain rfl := List.getLast?_eq_none_iff.mp hnewest
          exact .inr ⟨[], before, last, by simp [hlog], by simp [hlast], by simp [hcursor]⟩
        | some newest =>
          refine .inr ⟨[], before, newest, by simp [hlog], ?_, rfl⟩
          simp [List.getLast?_append, hnewest]
      · rw [hexpired] at hok
        cases hok
  | startOver => exact ⟨gone, kept, h.holds, h.log, h.cursors, .inl ⟨rfl, rfl⟩⟩

theorem Reachable.tracks (hread : ∀ n, readInt (seqText n) = some n) {streamId : String} {capacity : ℤ}
    (h : Reachable readInt streamId capacity s) : ∃ gone kept, Tracks s gone kept := by
  induction h with
  | refl => exact ⟨[], [], ⟨rfl, rfl, .nil, by simp, by simp⟩, rfl, by simp [begin], .inl ⟨rfl, rfl⟩⟩
  | tail _ hstep ih =>
    obtain ⟨gone, kept, h⟩ := ih
    exact h.step hread hstep

end Sessions

/-- However the producers and a watcher take turns, the buffer takes events with consecutive numbers and keeps no more
than it has room for. What the watcher has received is a stretch of them, and its next turn brings exactly what comes
behind it, or says that some of that is gone. -/
theorem watcher_receives_each_event_once (readInt : String → Option ℤ) (hread : ∀ n, readInt (seqText n) = some n)
    (streamId : String) (capacity : ℤ) {s : Session β} (h : Reachable readInt streamId capacity s) :
    Numbered EventEnvelope.seq s.log ∧
      (s.buffer.events.keys = [] ∨ s.buffer.events.keys.length ≤ s.buffer.capacity) ∧
      ∃ before after, s.log = before ++ s.received ++ after ∧
        ((∃ next, s.buffer.resume readInt s.cursor = .ok (after, next)) ∨
          (∃ text, s.buffer.resume readInt s.cursor = .error (.cursorExpired text)) ∧
            ∃ e ∈ after, e.seq ∈ s.buffer.evictedSeqs) := by
  obtain ⟨gone, kept, ht⟩ := h.tracks hread
  refine ⟨ht.log ▸ ht.holds.numbered, ?_, ?_⟩
  · rw [ht.holds.keys, List.length_map, List.map_eq_nil_iff]
    by_cases hnil : kept = []
    · exact .inl hnil
    · exact .inr (ht.holds.fits hnil)
  · rcases ht.watcher with ⟨hcursor, hnone⟩ | ⟨after, hafter⟩
    · refine ⟨gone, kept, ?_, .inl ⟨_, ht.resume_start hcursor⟩⟩
      rw [ht.log, hnone, List.append_nil]
    · have hresume := ht.resume_behind hread hafter
      obtain ⟨before, last, hlog, -, -⟩ := hafter
      exact ⟨before, after, hlog, hresume.imp_left fun ⟨next, hnext, _⟩ => ⟨next, hnext⟩⟩

/-! Room for two events, of which a watcher has seen two when the third one comes. -/

def readDecimal (text : String) : Option ℤ :=
  match text.toList with
  | '-' :: digits => some (-(Nat.ofDigitChars 10 digits 0 : ℤ))
  | digits => if digits.all Char.isDigit then some (Nat.ofDigitChars 10 digits 0) else none

theorem readDecimal_seqText (n : ℤ) : readDecimal (seqText n) = some n := by
  have hvalue : Nat.ofDigitChars 10 (Nat.toDigits 10 n.natAbs) 0 = n.natAbs := Nat.ofDigitChars_ten_toDigits
  have hdigits : ∀ c ∈ Nat.toDigits 10 n.natAbs, c.isDigit = true :=
    fun c hc => Nat.isDigit_of_mem_toDigits (by decide) (by decide) hc
  rw [readDecimal, seqText, String.toList_ofList, JsonText.intText]
  by_cases hneg : n < 0
  · simp only [hneg, decide_true, JsonText.signText, if_true, List.singleton_append, hvalue]
    congr 1
    omega
  · simp only [hneg, decide_false, JsonText.signText, Bool.false_eq_true, if_false, List.nil_append]
    split
    · next digits hsign =>
      have hdigit := hdigits '-' (hsign ▸ List.mem_cons_self)
      cases hdigit
    · rw [if_pos (List.all_eq_true.mpr hdigits), hvalue]
      congr 1
      omega

theorem third_event_received : ∃ s : Session String, Reachable readDecimal "run" 2 s ∧
    s.received.map EventEnvelope.body = ["a", "b"] ∧ s.buffer.evictedSeqs = [1] ∧
      ∃ after next, after.map EventEnvelope.body = ["c"] ∧
        s.buffer.resume readDecimal s.cursor = .ok (after, next) := by
  have hfirst : Reachable readDecimal "run" 2 _ :=
    Relation.ReflTransGen.tail .refl (@Step.append String readDecimal _ 1 "a" "run" _ (by simp [begin]) rfl)
  have hsecond : Reachable readDecimal "run" 2 _ :=
    Relation.ReflTransGen.tail hfirst (@Step.append String readDecimal _ 2 "b" "run" _ (by decide) rfl)
  have hread : Reachable readDecimal "run" 2 _ :=
    Relation.ReflTransGen.tail hsecond (@Step.read String readDecimal _ _ _ rfl)
  have hthird : Reachable readDecimal "run" 2 _ :=
    Relation.ReflTransGen.tail hread (@Step.append String readDecimal _ 3 "c" "run" _ (by decide) rfl)
  obtain ⟨-, -, before, after, hlog, hnext⟩ :=
    watcher_receives_each_event_once readDecimal readDecimal_seqText "run" 2 hthird
  have hlog : [makeEventEnvelope "run" 1 none "a", makeEventEnvelope "run" 2 none "b",
      makeEventEnvelope "run" 3 none "c"] = before ++ [makeEventEnvelope "run" 1 none "a",
      makeEventEnvelope "run" 2 none "b"] ++ after := hlog
  -- what was received stands at the front, since the first event came once
  obtain rfl : before = [] := by
    have hlength := congrArg List.length hlog
    simp only [List.length_append, List.length_cons, List.length_nil] at hlength
    rcases before with _ | ⟨first, _ | ⟨second, rest⟩⟩
    · rfl
    · have hsecond := (List.cons.inj (List.cons.inj hlog).2).1
      simp [makeEventEnvelope] at hsecond
    · simp only [List.length_cons] at hlength
      omega
  obtain rfl : after = [makeEventEnvelope "run" 3 none "c"] := by simpa using hlog.symm
  rcases hnext with ⟨next, hnext⟩ | ⟨-, e, he, hevicted⟩
  · exact ⟨_, hthird, rfl, rfl, _, next, rfl, hnext⟩
  · obtain rfl := List.mem_singleton.mp he
    have hone : (3 : ℤ) = 1 := List.mem_singleton.mp hevicted
    cases hone

end GraphSkillRuntime.EventStreams
