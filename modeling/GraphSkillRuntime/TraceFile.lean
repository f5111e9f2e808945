import GraphSkillRuntime.JsonLines
import Mathlib

/-!
The trace file of a run: events are appended as JSON lines, and a continued run reads its spend and its
elapsed time back from them.
-/

namespace GraphSkillRuntime

open OrderedDict JsonText

/-- Python's numbers: `int` and `float` of other values raise where they are `none`. -/
structure PythonNumbers (F : Type) extends FloatFormat F where
  zero : F
  isZero : F → Bool
  trunc : F → Option ℤ
  ofInt : ℤ → Option F
  intOfText : String → Option ℤ

section

variable {F : Type}

def textAt (kvs : List (String × Json F)) (key : String) : Option String :=
  match Dict.find kvs key with
  | some (.str s) => some s
  | _ => none

structure CallbackEvent (F : Type) where
  persisted : Bool
  payload : List (String × Json F)
  distinct : (Json.dict payload).Distinct
  llmCall : textAt payload "event_type" = some "llm_call" →
    ∃ i o : ℤ, Dict.find payload "input_tokens" = some (.int i) ∧ Dict.find payload "output_tokens" = some (.int o)
  runEnded : textAt payload "event_type" = some "run_ended" →
    ∃ x : F, Dict.find payload "wall_time_seconds" = some (.float x)

structure RunSpendLedger where
  totalInputTokens : ℤ
  totalOutputTokens : ℤ
  deriving DecidableEq

def carriesEventId (eventId : String) : Json F → Bool
  | .dict kvs => textAt kvs "handoff_event_id" = some eventId
  | _ => false

end

section

variable {F : Type} (N : PythonNumbers F)

def emit (text : List Char) (event : CallbackEvent F) : List Char :=
  if event.persisted then text ++ (dumps N.toFloatFormat (.dict event.payload) ++ ['\n']) else text

def appendRunEventOnce (text : List Char) (event : CallbackEvent F) (eventId : String) : List Char :=
  if (readLines N.toFloatFormat text).any (carriesEventId eventId) then text else emit N text event

def truthyJson : Json F → Bool
  | .null => false
  | .bool b => b
  | .int z => z ≠ 0
  | .float x => !N.isZero x
  | .str s => s ≠ ""
  | .list xs => !xs.isEmpty
  | .dict kvs => !kvs.isEmpty

def toInt : Json F → Option ℤ
  | .bool b => some (if b then 1 else 0)
  | .int z => some z
  | .float x => N.trunc x
  | .str s => N.intOfText s
  | _ => none

/-- `int(event.get(key) or 0)`. -/
def tokensAt (kvs : List (String × Json F)) (key : String) : Option ℤ :=
  match Dict.find kvs key with
  | some v => if truthyJson N v then toInt N v else some 0
  | none => some 0

def addCall (ledger : RunSpendLedger) : Json F → Option RunSpendLedger
  | .dict kvs =>
    if textAt kvs "event_type" = some "llm_call" then
      match tokensAt N kvs "input_tokens", tokensAt N kvs "output_tokens" with
      | some i, some o => some ⟨ledger.totalInputTokens + i, ledger.totalOutputTokens + o⟩
      | _, _ => none
    else some ledger
  | _ => some ledger

def continuing (trace : Option (List Char)) : Option RunSpendLedger :=
  match trace with
  | none => some ⟨0, 0⟩
  | some text => (readLines N.toFloatFormat text).foldlM (addCall N) ⟨0, 0⟩

def carryElapsed (carried : F) : Json F → Option F
  | .dict kvs =>
    if textAt kvs "event_type" = some "run_ended" then
      match Dict.find kvs "wall_time_seconds" with
      | some (.bool b) => N.ofInt (if b then 1 else 0)
      | some (.int z) => N.ofInt z
      | some (.float x) => some x
      | _ => some carried
    else some carried
  | _ => some carried

def elapsedBefore (trace : Option (List Char)) : Option F :=
  match trace with
  | none => some N.zero
  | some text => (readLines N.toFloatFormat text).foldlM (carryElapsed N) N.zero

inductive TraceOp (F : Type) where
  | emit (event : CallbackEvent F)
  | appendOnce (event : CallbackEvent F) (eventId : String)

def TraceOp.event : TraceOp F → CallbackEvent F
  | .emit event | .appendOnce event _ => event

def traceStep (text : List Char) : TraceOp F → List Char
  | .emit event => emit N text event
  | .appendOnce event eventId => appendRunEventOnce N text event eventId

def traceText (ops : List (TraceOp F)) : List Char := ops.foldl (traceStep N) []

end

/-! What the trace is for: a list of payloads that only grows, and the totals over it. -/

section

variable {F : Type}

def CallbackEvent.record (event : CallbackEvent F) : List (Json F) :=
  if event.persisted then [.dict event.payload] else []

def TraceOp.record (log : List (Json F)) : TraceOp F → List (Json F)
  | .emit event => event.record
  | .appendOnce event eventId => if log.any (carriesEventId eventId) then [] else event.record

def recorded (ops : List (TraceOp F)) : List (Json F) := ops.foldl (fun log op => log ++ op.record log) []

/-- The tokens of an `llm_call` payload. -/
def callTokens (key : String) : Json F → ℤ
  | .dict kvs =>
    if textAt kvs "event_type" = some "llm_call" then
      match Dict.find kvs key with
      | some (.int z) => z
      | _ => 0
    else 0
  | _ => 0

def spendOf (log : List (Json F)) : RunSpendLedger :=
  ⟨(log.map (callTokens "input_tokens")).sum, (log.map (callTokens "output_tokens")).sum⟩

/-- The time that a `run_ended` payload carries. -/
def endedAfter : Json F → Option F
  | .dict kvs =>
    if textAt kvs "event_type" = some "run_ended" then
      match Dict.find kvs "wall_time_seconds" with
      | some (.float x) => some x
      | _ => none
    else none
  | _ => none

/-- The events that carry the id are appended through `appendRunEventOnce`, under their own id. -/
structure AppendedUnder (eventId : String) (ops : List (TraceOp F)) : Prop where
  call : ∃ event, TraceOp.appendOnce event eventId ∈ ops
  own : ∀ op ∈ ops, carriesEventId eventId (.dict op.event.payload) = true ↔
    ∃ event, op = .appendOnce event eventId
  persisted : ∀ event, TraceOp.appendOnce event eventId ∈ ops → event.persisted = true

def NoRawBreak (v : Json F) : Prop := ∀ c ∈ v.chars, isRawBreak c = false

structure TraceReadBack (N : PythonNumbers F) (ops : List (TraceOp F)) : Prop where
  written : traceText N ops = writeLines N.toFloatFormat (recorded ops)
  readBack : readLines N.toFloatFormat (traceText N ops) = recorded ops
  ledger : continuing N (some (traceText N ops)) = some (spendOf (recorded ops))
  elapsed : elapsedBefore N (some (traceText N ops)) =
    some (((recorded ops).filterMap endedAfter).getLast?.getD N.zero)
  once : ∀ eventId, AppendedUnder eventId ops → (recorded ops).countP (carriesEventId eventId) = 1

end

section

variable {F : Type}

theorem recorded_concat (ops : List (TraceOp F)) (op : TraceOp F) :
    recorded (ops ++ [op]) = recorded ops ++ op.record (recorded ops) := by
  simp [recorded]

theorem mem_record {op : TraceOp F} {log : List (Json F)} {v : Json F} (h : v ∈ op.record log) :
    v = .dict op.event.payload := by
  have hevent (event : CallbackEvent F) (hv : v ∈ event.record) : v = .dict event.payload := by
    unfold CallbackEvent.record at hv
    split_ifs at hv
    · exact List.mem_singleton.1 hv
    · cases hv
  cases op with
  | emit event => exact hevent event h
  | appendOnce event eventId =>
    simp only [TraceOp.record] at h
    split_ifs at h
    · cases h
    · exact hevent event h

theorem mem_recorded {ops : List (TraceOp F)} {v : Json F} (h : v ∈ recorded ops) :
    ∃ event : CallbackEvent F, v = .dict event.payload := by
  induction ops using List.reverseRecOn with
  | nil => cases h
  | append_singleton ops op ih =>
    rw [recorded_concat, List.mem_append] at h
    rcases h with h | h
    · exact ih h
    · exact ⟨op.event, mem_record h⟩

theorem countP_recorded {eventId : String} {ops : List (TraceOp F)}
    (hown : ∀ op ∈ ops, carriesEventId eventId (.dict op.event.payload) = true ↔
      ∃ event, op = .appendOnce event eventId)
    (hpersisted : ∀ event, TraceOp.appendOnce event eventId ∈ ops → event.persisted = true) :
    (recorded ops).countP (carriesEventId eventId) ≤ 1 ∧
      ((∃ event, TraceOp.appendOnce event eventId ∈ ops) →
        0 < (recorded ops).countP (carriesEventId eventId)) := by
  induction ops using List.reverseRecOn with
  | nil => exact ⟨Nat.zero_le 1, by simp⟩
  | append_singleton ops op ih =>
    have hprev := ih (fun op' hop => hown op' (List.mem_append_left _ hop))
      (fun event hev => hpersisted event (List.mem_append_left _ hev))
    rw [recorded_concat, List.countP_append]
    by_cases hop : ∃ event, op = .appendOnce event eventId
    · obtain ⟨event, rfl⟩ := hop
      have hcarry : carriesEventId eventId (.dict event.payload) = true :=
        (hown _ (by simp)).2 ⟨event, rfl⟩
      have hp : event.persisted = true := hpersisted event (by simp)
      by_cases hany : (recorded ops).any (carriesEventId eventId) = true
      · have hpos : 0 < (recorded ops).countP (carriesEventId eventId) := by
          rw [List.countP_pos_iff]
          exact List.any_eq_true.1 hany
        rw [TraceOp.record, if_pos hany, List.countP_nil]
        omega
      · have hzero : (recorded ops).countP (carriesEventId eventId) = 0 := by
          rw [List.countP_eq_zero]
          intro v hv hc
          exact hany (List.any_eq_true.2 ⟨v, hv, hc⟩)
        rw [TraceOp.record, if_neg hany, CallbackEvent.record, if_pos hp, List.countP_singleton, if_pos hcarry, hzero]
        omega
    · have hnone : (op.record (recorded ops)).countP (carriesEventId eventId) = 0 := by
        rw [List.countP_eq_zero]
        intro v hv hc
        rw [mem_record hv] at hc
        exact hop ((hown op (by simp)).1 hc)
      rw [hnone, Nat.add_zero]
      refine ⟨hprev.1, ?_⟩
      rintro ⟨event, hev⟩
      rw [List.mem_append, List.mem_singleton] at hev
      rcases hev with hev | hev
      · exact hprev.2 ⟨event, hev⟩
      · exact absurd ⟨event, hev.symm⟩ hop

variable (N : PythonNumbers F)

theorem emit_eq (text : List Char) (event : CallbackEvent F) :
    emit N text event = text ++ writeLines N.toFloatFormat event.record := by
  unfold emit CallbackEvent.record
  split_ifs
  · simp [writeLines]
  · simp [writeLines]

theorem readLines_recorded {ops : List (TraceOp F)} (h : ∀ v ∈ recorded ops, NoRawBreak v) :
    readLines N.toFloatFormat (writeLines N.toFloatFormat (recorded ops)) = recorded ops := by
  refine (readLines_writeLines_iff N.toFloatFormat fun v hv => ?_).2 h
  obtain ⟨event, rfl⟩ := mem_recorded hv
  exact event.distinct

theorem traceText_eq {ops : List (TraceOp F)} (h : ∀ v ∈ recorded ops, NoRawBreak v) :
    traceText N ops = writeLines N.toFloatFormat (recorded ops) := by
  induction ops using List.reverseRecOn with
  | nil => rfl
  | append_singleton ops op ih =>
    rw [recorded_concat, List.forall_mem_append] at h
    have htext := ih h.1
    have hread := readLines_recorded N h.1
    have hstep : traceText N (ops ++ [op]) = traceStep N (traceText N ops) op := by simp [traceText]
    rw [hstep, recorded_concat, writeLines_append, htext]
    cases op with
    | emit event => exact emit_eq N _ event
    | appendOnce event eventId =>
      simp only [traceStep, appendRunEventOnce, TraceOp.record, hread]
      split_ifs
      · simp [writeLines]
      · exact emit_eq N _ event

theorem tokensAt_int {kvs : List (String × Json F)} {key : String} {z : ℤ}
    (h : Dict.find kvs key = some (.int z)) : tokensAt N kvs key = some z := by
  rw [tokensAt, h]
  by_cases hz : z = 0
  · simp [truthyJson, hz]
  · simp [truthyJson, hz, toInt]

theorem addCall_event (ledger : RunSpendLedger) (event : CallbackEvent F) :
    addCall N ledger (.dict event.payload) =
      some ⟨ledger.totalInputTokens + callTokens "input_tokens" (.dict event.payload),
        ledger.totalOutputTokens + callTokens "output_tokens" (.dict event.payload)⟩ := by
  by_cases h : textAt event.payload "event_type" = some "llm_call"
  · obtain ⟨i, o, hi, ho⟩ := event.llmCall h
    simp only [addCall, callTokens, if_pos h, tokensAt_int N hi, tokensAt_int N ho, hi, ho]
  · simp only [addCall, callTokens, if_neg h, add_zero]

theorem foldlM_addCall {log : List (Json F)} (h : ∀ v ∈ log, ∃ event : CallbackEvent F, v = .dict event.payload)
    (ledger : RunSpendLedger) :
    log.foldlM (addCall N) ledger =
      some ⟨ledger.totalInputTokens + (spendOf log).totalInputTokens,
        ledger.totalOutputTokens + (spendOf log).totalOutputTokens⟩ := by
  induction log generalizing ledger with
  | nil => simp [spendOf]
  | cons v log ih =>
    rw [List.forall_mem_cons] at h
    obtain ⟨⟨event, rfl⟩, hlog⟩ := h
    rw [List.foldlM_cons, addCall_event]
    simp only [Option.bind_eq_bind, Option.bind_some, ih hlog, spendOf, List.map_cons, List.sum_cons, add_assoc]

theorem carryElapsed_event (carried : F) (event : CallbackEvent F) :
    carryElapsed N carried (.dict event.payload) = some ((endedAfter (.dict event.payload)).getD carried) := by
  by_cases h : textAt event.payload "event_type" = some "run_ended"
  · obtain ⟨x, hx⟩ := event.runEnded h
    simp only [carryElapsed, endedAfter, if_pos h, hx, Option.getD_some]
  · simp only [carryElapsed, endedAfter, if_neg h, Option.getD_none]

theorem foldlM_carryElapsed {log : List (Json F)}
    (h : ∀ v ∈ log, ∃ event : CallbackEvent F, v = .dict event.payload) (carried : F) :
    log.foldlM (carryElapsed N) carried = some ((log.filterMap endedAfter).getLast?.getD carried) := by
  induction log generalizing carried with
  | nil => rfl
  | cons v log ih =>
    rw [List.forall_mem_cons] at h
    obtain ⟨⟨event, rfl⟩, hlog⟩ := h
    rw [List.foldlM_cons, carryElapsed_event]
    simp only [Option.bind_eq_bind, Option.bind_some, ih hlog]
    cases hended : endedAfter (.dict event.payload : Json F) with
    | none => rw [List.filterMap_cons_none hended, Option.getD_none]
    | some x => rw [List.filterMap_cons_some hended, List.getLast?_cons, Option.getD_some, Option.getD_some]

/-- The trace is read back as it was written, with the totals over it, exactly when no text of a recorded
payload holds U+0085, U+2028 or U+2029. -/
theorem trace_read_back_iff (ops : List (TraceOp F)) :
    TraceReadBack N ops ↔ ∀ v ∈ recorded ops, NoRawBreak v := by
  constructor
  · intro h
    have hread := h.readBack
    rw [h.written] at hread
    refine (readLines_writeLines_iff N.toFloatFormat fun v hv => ?_).1 hread
    obtain ⟨event, rfl⟩ := mem_recorded hv
    exact event.distinct
  · intro h
    have htext := traceText_eq N h
    have hread : readLines N.toFloatFormat (traceText N ops) = recorded ops := by
      rw [htext, readLines_recorded N h]
    refine ⟨htext, hread, ?_, ?_, ?_⟩
    · rw [continuing, hread, foldlM_addCall N fun v => mem_recorded]
      simp
    · rw [elapsedBefore, hread, foldlM_carryElapsed N fun v => mem_recorded]
    · intro eventId hid
      have hcount := countP_recorded hid.own hid.persisted
      have hpos := hcount.2 hid.call
      omega

end

theorem zero_nonempty : ['0'] ≠ [] := by simp

theorem zero_digits : ∀ c ∈ ['0'], c.isDigit = true := by simp

theorem zero_written : ((some ⟨['0'], zero_nonempty, zero_digits⟩ : Option Digits).isSome ||
    (none : Option (Option Bool × Digits)).isSome) = true := rfl

theorem wholeNumbers_read (z : ℤ) :
    (match FloatLiteral.decimal (z < 0) z.natAbs (some ⟨['0'], zero_nonempty, zero_digits⟩) none zero_written with
      | .decimal negative whole _ _ _ => if negative then -(whole : ℤ) else whole
      | _ => 0) = z := by
  by_cases hz : z < 0
  · simp only [hz, decide_true, if_true]
    omega
  · simp only [hz, decide_false, Bool.false_eq_true, if_false]
    omega

def wholeNumbers : PythonNumbers ℤ where
  repr z := .decimal (z < 0) z.natAbs (some ⟨['0'], zero_nonempty, zero_digits⟩) none zero_written
  ofLiteral
    | .decimal negative whole _ _ _ => if negative then -whole else whole
    | _ => 0
  ofLiteral_repr := wholeNumbers_read
  zero := 0
  isZero z := z = 0
  trunc := some
  ofInt := some
  intOfText _ := none

def separatorCall : CallbackEvent ℤ where
  persisted := true
  payload :=
    [("schema_version", .str "1.0"), ("timestamp", .str "2026-08-20T13:14:59+00:00"), ("sub_run_id", .null),
     ("group_key", .null), ("subgraph_path", .null), ("phase_execution_id", .null),
     ("event_type", .str "llm_call"), ("phase_name", .str "write"), ("step_id", .str "step-1"),
     ("input_tokens", .int 7), ("output_tokens", .int 3), ("resolved_model", .null),
     ("response_data", .dict [("content", .str "one\u2028two")]), ("parent_node_id", .null), ("node_type", .null)]
  distinct := by simp [Json.Distinct, distinctMembers]
  llmCall _ := ⟨7, 3, rfl, rfl⟩
  runEnded h := absurd h (by decide)

theorem separator_call_is_not_counted :
    continuing wholeNumbers (some (traceText wholeNumbers [.emit separatorCall])) = some ⟨0, 0⟩ ∧
      spendOf (recorded [.emit separatorCall]) = ⟨7, 3⟩ ∧
      ¬ TraceReadBack wholeNumbers [.emit separatorCall] := by
  have hread : continuing wholeNumbers (some (traceText wholeNumbers [.emit separatorCall])) = some ⟨0, 0⟩ := by
    decide +kernel
  have hspend : spendOf (recorded [.emit separatorCall]) = ⟨7, 3⟩ := by decide
  refine ⟨hread, hspend, ?_⟩
  intro h
  have hledger := h.ledger
  rw [hread, hspend] at hledger
  exact absurd hledger (by decide)

end GraphSkillRuntime
