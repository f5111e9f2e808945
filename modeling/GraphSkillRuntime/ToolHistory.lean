import GraphSkillRuntime.AgentMessages
import Mathlib.Data.List.Basic

/-! The repair of the message history before a model request: every assistant message with tool calls is followed at
once by one tool message per call. -/

namespace GraphSkillRuntime.ToolHistory

def isTool : Message → Bool
  | .tool _ _ _ _ _ => true
  | _ => false

def answersCall (callId : String) : Message → Bool
  | .tool _ _ _ toolCallId _ => toolCallId == callId
  | _ => false

def orphanNotice : String :=
  "[系统] 该工具调用未获得独立结果:同一轮的提交已被系统处理,请阅读随后的反馈消息并继续。"

def callName (call : ToolCall) : String := if call.name = "" then "tool" else call.name

def orphanAnswer (call : ToolCall) (callId : String) : Message :=
  .tool none (some (callName call)) (.str orphanNotice) callId true

structure Repair where
  consumed : List ℕ := []
  repaired : List Message := []
  synthesized : List String := []
  dropped : ℕ := 0

def callId? (call : ToolCall) : Option String := call.id.filter (fun callId => callId ≠ "")

section

variable (messages : List Message)

def response? (position : ℕ) (consumed : List ℕ) (callId : String) : Option (Message × ℕ) :=
  ((messages.drop (position + 1)).zipIdx (position + 1)).find?
    (fun later => answersCall callId later.1 && !consumed.contains later.2)

def answerCall (position : ℕ) (r : Repair) (call : ToolCall) : Repair :=
  match callId? call with
  | none => r
  | some callId =>
    match response? messages position r.consumed callId with
    | some later => { r with consumed := r.consumed ++ [later.2], repaired := r.repaired ++ [later.1] }
    | none =>
      { r with
        repaired := r.repaired ++ [orphanAnswer call callId]
        synthesized := r.synthesized ++ [callName call] }

def repairStep (r : Repair) (entry : Message × ℕ) : Repair :=
  if r.consumed.contains entry.2 then r
  else if isTool entry.1 then { r with dropped := r.dropped + 1 }
  else entry.1.toolCalls.foldl (answerCall messages entry.2) { r with repaired := r.repaired ++ [entry.1] }

def repairRun : Repair := messages.zipIdx.foldl (repairStep messages) {}

def repairOrphanedToolCalls : List Message := (repairRun messages).repaired

end

def askedIds (m : Message) : List String := m.toolCalls.filterMap callId?

/-- The provider's shape: a message that is no tool message, then one answer for each id it asks for. -/
inductive Legal : List Message → Prop where
  | nil : Legal []
  | turn {m : Message} {answers rest : List Message} (hm : isTool m = false)
      (hanswers : List.Forall₂ (fun callId a => answersCall callId a = true) (askedIds m) answers)
      (hrest : Legal rest) : Legal (m :: (answers ++ rest))

/-- One answer of the repaired history; `origin` is where it stood, and a placeholder stood nowhere. -/
structure Answer where
  callId : String
  origin : Option ℕ
  message : Message

structure Turn where
  position : ℕ
  message : Message
  answers : List Answer

def Turn.messages (t : Turn) : List Message := t.message :: t.answers.map Answer.message

def Turn.asked (t : Turn) : List (ℕ × Answer) := t.answers.map (fun a => (t.position, a))

/-- The answers in order, when the positions `used` are taken: each one is a later tool message for its call that is
not taken yet, or the placeholder of a call of the message all whose later answers are taken. -/
def Justified (messages : List Message) : List ℕ → List (ℕ × Answer) → Prop
  | _, [] => True
  | used, (q, a) :: rest =>
    answersCall a.callId a.message = true ∧
    (∀ p, a.origin = some p → q < p ∧ p ∉ used ∧ messages[p]? = some a.message) ∧
    (a.origin = none →
      (∃ asking, messages[q]? = some asking ∧
        ∃ call ∈ asking.toolCalls, callId? call = some a.callId ∧ a.message = orphanAnswer call a.callId) ∧
      ∀ p m, q < p → messages[p]? = some m → answersCall a.callId m = true → p ∈ used) ∧
    Justified messages (used ++ a.origin.toList) rest

structure Explains (messages : List Message) (turns : List Turn) (result : List Message) : Prop where
  result_eq : result = turns.flatMap Turn.messages
  positions : turns.map (fun t => (t.message, t.position)) = messages.zipIdx.filter (fun e => !isTool e.1)
  ids : ∀ t ∈ turns, t.answers.map Answer.callId = askedIds t.message
  justified : Justified messages [] (turns.flatMap Turn.asked)

def origins (asked : List (ℕ × Answer)) : List ℕ := asked.filterMap (fun e => e.2.origin)

theorem isTool_of_answersCall {callId : String} {m : Message} (h : answersCall callId m = true) : isTool m = true := by
  cases m with
  | tool => rfl
  | human => exact absurd h Bool.false_ne_true
  | ai => exact absurd h Bool.false_ne_true

section

variable {messages : List Message}

theorem justified_append (used : List ℕ) (l l' : List (ℕ × Answer)) :
    Justified messages used (l ++ l') ↔ Justified messages used l ∧ Justified messages (used ++ origins l) l' := by
  induction l generalizing used with
  | nil => simp [Justified, origins]
  | cons e l ih =>
    obtain ⟨q, a⟩ := e
    have horigins : origins ((q, a) :: l) = a.origin.toList ++ origins l := by
      cases h : a.origin <;> simp [origins, h]
    simp only [List.cons_append, Justified, ih, horigins, List.append_assoc, and_assoc]

theorem Justified.answers {used : List ℕ} {l : List (ℕ × Answer)} (h : Justified messages used l) :
    ∀ e ∈ l, answersCall e.2.callId e.2.message = true := by
  induction l generalizing used with
  | nil => simp
  | cons e l ih =>
    intro f hf
    rcases List.mem_cons.mp hf with rfl | hf
    · exact h.1
    · exact ih h.2.2.2 f hf

theorem Justified.tool_at {used : List ℕ} {l : List (ℕ × Answer)} (h : Justified messages used l) {p : ℕ}
    (hp : p ∈ origins l) : ∃ m, messages[p]? = some m ∧ isTool m = true := by
  induction l generalizing used with
  | nil => simp [origins] at hp
  | cons e l ih =>
    obtain ⟨f, hf, horigin⟩ := List.mem_filterMap.mp hp
    rcases List.mem_cons.mp hf with rfl | hf
    · exact ⟨_, (h.2.1 p horigin).2.2, isTool_of_answersCall h.1⟩
    · exact ih h.2.2.2 (List.mem_filterMap.mpr ⟨f, hf, horigin⟩)

theorem response?_some {q p : ℕ} {consumed : List ℕ} {callId : String} {m : Message}
    (h : response? messages q consumed callId = some (m, p)) :
    q < p ∧ p ∉ consumed ∧ messages[p]? = some m ∧ answersCall callId m = true := by
  have hfound := List.find?_some h
  simp only [Bool.and_eq_true, Bool.not_eq_true', List.contains_eq_mem, decide_eq_false_iff_not] at hfound
  obtain ⟨hle, hget⟩ := List.mk_mem_zipIdx_iff_le_and_getElem?_sub.mp (List.mem_of_find?_eq_some h)
  rw [List.getElem?_drop, Nat.add_sub_cancel' hle] at hget
  exact ⟨hle, hfound.2, hget, hfound.1⟩

theorem response?_none {q : ℕ} {consumed : List ℕ} {callId : String}
    (h : response? messages q consumed callId = none) (p : ℕ) (m : Message) (hlt : q < p)
    (hget : messages[p]? = some m) (hm : answersCall callId m = true) : p ∈ consumed := by
  have hmem : (m, p) ∈ (messages.drop (q + 1)).zipIdx (q + 1) := by
    apply List.mk_mem_zipIdx_iff_le_and_getElem?_sub.mpr
    rw [List.getElem?_drop, Nat.add_sub_cancel' hlt]
    exact ⟨hlt, hget⟩
  have hnot := List.find?_eq_none.mp h _ hmem
  simpa [hm] using hnot

theorem answerCalls_spec {messages : List Message} {q : ℕ} {asking : Message} (hasking : messages[q]? = some asking)
    (calls : List ToolCall) (hcalls : ∀ call ∈ calls, call ∈ asking.toolCalls) (r : Repair) :
    ∃ answers : List Answer,
      (calls.foldl (answerCall messages q) r).repaired = r.repaired ++ answers.map Answer.message ∧
      (calls.foldl (answerCall messages q) r).consumed =
        r.consumed ++ origins (answers.map (fun a => (q, a))) ∧
      answers.map Answer.callId = calls.filterMap callId? ∧
      Justified messages r.consumed (answers.map (fun a => (q, a))) := by
  induction calls generalizing r with
  | nil => exact ⟨[], by simp [origins, Justified]⟩
  | cons call calls ih =>
    obtain ⟨hcall, hcalls⟩ := List.forall_mem_cons.mp hcalls
    obtain ⟨answers, hrepaired, hconsumed, hids, hjustified⟩ := ih hcalls (answerCall messages q r call)
    rw [List.foldl_cons, hrepaired, hconsumed]
    cases hid : callId? call with
    | none =>
      have hstep : answerCall messages q r call = r := by simp [answerCall, hid]
      rw [hstep] at hjustified ⊢
      exact ⟨answers, rfl, rfl, by simp [hid, hids], hjustified⟩
    | some callId =>
      cases hresponse : response? messages q r.consumed callId with
      | none =>
        have hstep : answerCall messages q r call =
            { r with
              repaired := r.repaired ++ [orphanAnswer call callId]
              synthesized := r.synthesized ++ [callName call] } := by simp [answerCall, hid, hresponse]
        rw [hstep] at hjustified ⊢
        refine ⟨⟨callId, none, orphanAnswer call callId⟩ :: answers, ?_, ?_, by simp [hid, hids], ?_⟩
        · simp
        · simp [origins]
        · refine ⟨by simp [answersCall, orphanAnswer], by simp, fun _ => ?_, by simpa using hjustified⟩
          exact ⟨⟨asking, hasking, call, hcall, hid, rfl⟩, fun p m => response?_none hresponse p m⟩
      | some later =>
        obtain ⟨m, p⟩ := later
        obtain ⟨hlt, hfree, hget, hanswers⟩ := response?_some hresponse
        have hstep : answerCall messages q r call =
            { r with consumed := r.consumed ++ [p], repaired := r.repaired ++ [m] } := by
          simp [answerCall, hid, hresponse]
        rw [hstep] at hjustified ⊢
        refine ⟨⟨callId, some p, m⟩ :: answers, ?_, ?_, by simp [hid, hids], ?_⟩
        · simp
        · simp [origins]
        · refine ⟨hanswers, fun p' hp' => ?_, by simp, by simpa using hjustified⟩
          obtain rfl := Option.some.inj hp'
          exact ⟨hlt, hfree, hget⟩

theorem repairSteps_spec (messages : List Message) (l : List (Message × ℕ))
    (hl : ∀ e ∈ l, messages[e.2]? = some e.1) (r : Repair)
    (hr : ∀ p ∈ r.consumed, ∃ m, messages[p]? = some m ∧ isTool m = true) :
    ∃ turns : List Turn,
      (l.foldl (repairStep messages) r).repaired = r.repaired ++ turns.flatMap Turn.messages ∧
      turns.map (fun t => (t.message, t.position)) = l.filter (fun e => !isTool e.1) ∧
      (∀ t ∈ turns, t.answers.map Answer.callId = askedIds t.message) ∧
      Justified messages r.consumed (turns.flatMap Turn.asked) := by
  induction l generalizing r with
  | nil => exact ⟨[], by simp [Justified]⟩
  | cons e l ih =>
    have hget := hl e List.mem_cons_self
    have hl' : ∀ f ∈ l, messages[f.2]? = some f.1 := fun f hf => hl f (List.mem_cons_of_mem _ hf)
    rw [List.foldl_cons]
    cases htool : isTool e.1 with
    | true =>
      have hstep : (repairStep messages r e).repaired = r.repaired ∧
          (repairStep messages r e).consumed = r.consumed := by
        unfold repairStep
        split_ifs <;> simp_all
      obtain ⟨turns, hrepaired, hturns, hids, hjustified⟩ := ih hl' (repairStep messages r e) (hstep.2 ▸ hr)
      exact ⟨turns, by rw [hrepaired, hstep.1], by simp [htool, hturns], hids, hstep.2 ▸ hjustified⟩
    | false =>
      have hfree : r.consumed.contains e.2 = false := by
        rw [List.contains_eq_mem, decide_eq_false_iff_not]
        intro hmem
        obtain ⟨m, hm, hmtool⟩ := hr e.2 hmem
        rw [hget] at hm
        cases hm
        rw [htool] at hmtool
        exact Bool.false_ne_true hmtool
      have hstep : repairStep messages r e =
          e.1.toolCalls.foldl (answerCall messages e.2) { r with repaired := r.repaired ++ [e.1] } := by
        simp only [repairStep, hfree, htool, Bool.false_eq_true, if_false]
      obtain ⟨answers, hanswered, hconsumed, hcalls, hgiven⟩ :=
        answerCalls_spec hget e.1.toolCalls (fun _ hcall => hcall) { r with repaired := r.repaired ++ [e.1] }
      rw [← hstep] at hanswered hconsumed
      obtain ⟨turns, hrepaired, hturns, hids, hjustified⟩ := ih hl' (repairStep messages r e) (by
        intro p hp
        rw [hconsumed] at hp
        rcases List.mem_append.mp hp with hp | hp
        · exact hr p hp
        · exact hgiven.tool_at hp)
      refine ⟨⟨e.2, e.1, answers⟩ :: turns, ?_, ?_, ?_, ?_⟩
      · rw [hrepaired, hanswered, List.flatMap_cons]
        simp [Turn.messages]
      · simp [htool, hturns]
      · intro t ht
        rcases List.mem_cons.mp ht with rfl | ht
        · exact hcalls
        · exact hids t ht
      · rw [List.flatMap_cons, justified_append]
        rw [hconsumed] at hjustified
        exact ⟨hgiven, hjustified⟩

theorem explains_repair (messages : List Message) :
    ∃ turns, Explains messages turns (repairOrphanedToolCalls messages) := by
  obtain ⟨turns, hrepaired, hturns, hids, hjustified⟩ := repairSteps_spec messages messages.zipIdx
    (fun e he => List.mem_zipIdx_iff_getElem?.mp he) {} (by simp)
  exact ⟨turns, by rw [repairOrphanedToolCalls, repairRun, hrepaired]; simp, hturns, hids, hjustified⟩

end

theorem forall₂_answers {messages : List Message} {t : Turn} {used : List ℕ}
    (hids : t.answers.map Answer.callId = askedIds t.message) (h : Justified messages used t.asked) :
    List.Forall₂ (fun callId a => answersCall callId a = true) (askedIds t.message) (t.answers.map Answer.message) := by
  rw [← hids, List.forall₂_map_left_iff, List.forall₂_map_right_iff, List.forall₂_same]
  intro a ha
  exact h.answers (t.position, a) (List.mem_map_of_mem ha)

theorem filter_answers {callIds : List String} {answers : List Message}
    (h : List.Forall₂ (fun callId a => answersCall callId a = true) callIds answers) :
    answers.filter (fun m => !isTool m) = [] := by
  induction h with
  | nil => rfl
  | cons hanswers _ ih => simp [isTool_of_answersCall hanswers, ih]

theorem Explains.message_no_tool {messages result : List Message} {turns : List Turn}
    (h : Explains messages turns result) : ∀ t ∈ turns, isTool t.message = false := by
  intro t ht
  have hmem := List.mem_map_of_mem ht (f := fun t => (t.message, t.position))
  rw [h.positions] at hmem
  simpa using (List.mem_filter.mp hmem).2

theorem turns_legal {messages : List Message} {turns : List Turn} {used : List ℕ}
    (htools : ∀ t ∈ turns, isTool t.message = false)
    (hids : ∀ t ∈ turns, t.answers.map Answer.callId = askedIds t.message)
    (h : Justified messages used (turns.flatMap Turn.asked)) :
    Legal (turns.flatMap Turn.messages) ∧
      (turns.flatMap Turn.messages).filter (fun m => !isTool m) = turns.map Turn.message := by
  induction turns generalizing used with
  | nil => exact ⟨.nil, rfl⟩
  | cons t turns ih =>
    rw [List.flatMap_cons, justified_append] at h
    have htool := htools t List.mem_cons_self
    have hanswers := forall₂_answers (hids t List.mem_cons_self) h.1
    obtain ⟨hlegal, hfilter⟩ := ih (fun t ht => htools t (List.mem_cons_of_mem _ ht))
      (fun t ht => hids t (List.mem_cons_of_mem _ ht)) h.2
    constructor
    · exact .turn htool hanswers hlegal
    · simp [Turn.messages, htool, filter_answers hanswers, hfilter]

theorem Explains.legal {messages result : List Message} {turns : List Turn} (h : Explains messages turns result) :
    Legal result :=
  h.result_eq ▸ (turns_legal h.message_no_tool h.ids h.justified).1

theorem Explains.others {messages result : List Message} {turns : List Turn} (h : Explains messages turns result) :
    result.filter (fun m => !isTool m) = messages.filter (fun m => !isTool m) := by
  have hmessages := congrArg (List.map Prod.fst) h.positions
  rw [List.map_map] at hmessages
  calc result.filter (fun m => !isTool m)
      = turns.map Turn.message := h.result_eq ▸ (turns_legal h.message_no_tool h.ids h.justified).2
    _ = (messages.zipIdx.filter (fun e => !isTool e.1)).map Prod.fst := hmessages
    _ = (messages.zipIdx.map Prod.fst).filter (fun m => !isTool m) := by rw [List.filter_map]; rfl
    _ = messages.filter (fun m => !isTool m) := by rw [List.zipIdx_map_fst]

/-! ### Histories that already have the shape -/

section

variable {messages : List Message}

theorem response?_adjacent {pre done rest : List Message} {m a : Message} {consumed : List ℕ} {callId : String}
    (hmessages : messages = pre ++ m :: (done ++ a :: rest)) (ha : answersCall callId a = true)
    (hdone : ∀ j < done.length, pre.length + 1 + j ∈ consumed) (hfree : pre.length + 1 + done.length ∉ consumed) :
    response? messages pre.length consumed callId = some (a, pre.length + 1 + done.length) := by
  have hdrop : messages.drop (pre.length + 1) = done ++ a :: rest := by
    rw [hmessages, List.drop_length_add_append, List.drop_succ_cons, List.drop_zero]
  have hskipped : (done.zipIdx (pre.length + 1)).find?
      (fun later => answersCall callId later.1 && !consumed.contains later.2) = none := by
    apply List.find?_eq_none.mpr
    intro e he
    obtain ⟨hle, hlt, -⟩ := List.mem_zipIdx he
    have hmem := hdone (e.2 - (pre.length + 1)) (by omega)
    rw [Nat.add_sub_cancel' hle] at hmem
    simp [hmem]
  rw [response?, hdrop, List.zipIdx_append, List.find?_append, hskipped, List.zipIdx_cons, Option.none_or,
    List.find?_cons_of_pos]
  simpa [ha] using hfree

theorem answerCalls_adjacent {pre todo rest : List Message} {m : Message} {calls : List ToolCall} (done : List Message)
    (r : Repair)
    (hmessages : messages = pre ++ m :: (done ++ (todo ++ rest)))
    (htodo : List.Forall₂ (fun callId a => answersCall callId a = true) (calls.filterMap callId?) todo)
    (hdone : ∀ j < done.length, pre.length + 1 + j ∈ r.consumed)
    (hfree : ∀ p ∈ r.consumed, p < pre.length + 1 + done.length) :
    (calls.foldl (answerCall messages pre.length) r).repaired = r.repaired ++ todo ∧
    (∀ j < done.length + todo.length, pre.length + 1 + j ∈ (calls.foldl (answerCall messages pre.length) r).consumed) ∧
    ∀ p ∈ (calls.foldl (answerCall messages pre.length) r).consumed,
      p < pre.length + 1 + (done.length + todo.length) := by
  induction calls generalizing done todo r with
  | nil =>
    cases htodo
    simpa using ⟨hdone, hfree⟩
  | cons call calls ih =>
    cases hid : callId? call with
    | none =>
      have hstep : answerCall messages pre.length r call = r := by simp [answerCall, hid]
      rw [List.filterMap_cons_none hid] at htodo
      rw [List.foldl_cons, hstep]
      exact ih done r hmessages htodo hdone hfree
    | some callId =>
      rw [List.filterMap_cons_some hid] at htodo
      cases htodo with
      | cons ha htodo =>
        rename_i a todo
        have hresponse := response?_adjacent hmessages ha hdone
          (fun hmem => absurd (hfree _ hmem) (by omega))
        have hstep : answerCall messages pre.length r call =
            { r with
              consumed := r.consumed ++ [pre.length + 1 + done.length]
              repaired := r.repaired ++ [a] } := by simp [answerCall, hid, hresponse]
        rw [List.foldl_cons, hstep]
        have hnext := ih (done ++ [a])
          { r with
            consumed := r.consumed ++ [pre.length + 1 + done.length]
            repaired := r.repaired ++ [a] } (by simp [hmessages]) htodo (by
            intro j hj
            rw [List.length_append, List.length_singleton] at hj
            by_cases hlast : j < done.length
            · exact List.mem_append_left _ (hdone j hlast)
            · obtain rfl : j = done.length := by omega
              exact List.mem_append_right _ (List.mem_singleton_self _)) (by
            intro p hp
            rw [List.length_append, List.length_singleton]
            rcases List.mem_append.mp hp with hp | hp
            · have := hfree p hp
              omega
            · rw [List.mem_singleton.mp hp]
              omega)
        simpa [Nat.add_assoc, Nat.add_comm 1] using hnext

theorem skip_consumed (messages : List Message) (l : List (Message × ℕ)) (r : Repair) (h : ∀ e ∈ l, e.2 ∈ r.consumed) :
    l.foldl (repairStep messages) r = r := by
  induction l with
  | nil => rfl
  | cons e l ih =>
    have hstep : repairStep messages r e = r := by simp [repairStep, h e List.mem_cons_self]
    rw [List.foldl_cons, hstep]
    exact ih (fun f hf => h f (List.mem_cons_of_mem _ hf))

theorem repairSteps_legal {suffix : List Message} (h : Legal suffix) (pre : List Message) (r : Repair)
    (hmessages : messages = pre ++ suffix) (hrepaired : r.repaired = pre)
    (hconsumed : ∀ p ∈ r.consumed, p < pre.length) :
    ((suffix.zipIdx pre.length).foldl (repairStep messages) r).repaired = messages := by
  induction h generalizing pre r with
  | nil => simpa [hmessages] using hrepaired
  | @turn m answers rest hm hanswers _ ih =>
    have hfree : r.consumed.contains pre.length = false := by
      rw [List.contains_eq_mem, decide_eq_false_iff_not]
      exact fun hmem => absurd (hconsumed _ hmem) (by omega)
    have hstep : repairStep messages r (m, pre.length) =
        m.toolCalls.foldl (answerCall messages pre.length) { r with repaired := r.repaired ++ [m] } := by
      simp only [repairStep, hfree, hm, Bool.false_eq_true, if_false]
    obtain ⟨hrepaired', hdone, hbound⟩ := answerCalls_adjacent []
      { r with repaired := r.repaired ++ [m] } hmessages hanswers (by simp) (by
        intro p hp
        have := hconsumed p hp
        simp only [List.length_nil]
        omega)
    rw [← hstep] at hrepaired' hdone hbound
    have hskip := skip_consumed messages (answers.zipIdx (pre.length + 1)) (repairStep messages r (m, pre.length))
      (by
        intro e he
        obtain ⟨hle, hlt, -⟩ := List.mem_zipIdx he
        have hmem := hdone (e.2 - (pre.length + 1)) (by simp only [List.length_nil]; omega)
        rwa [Nat.add_sub_cancel' hle] at hmem)
    rw [List.zipIdx_cons, List.foldl_cons, List.zipIdx_append, List.foldl_append, hskip]
    have hlength : (pre ++ m :: answers).length = pre.length + 1 + answers.length := by
      simp only [List.length_append, List.length_cons]
      omega
    rw [← hlength]
    apply ih
    · simp [hmessages]
    · rw [hrepaired', hrepaired]
      simp
    · intro p hp
      rw [hlength]
      simpa using hbound p hp

theorem repair_of_legal (h : Legal messages) : repairOrphanedToolCalls messages = messages :=
  repairSteps_legal h [] {} rfl rfl (by simp)

end

/-- The repaired history has the provider's shape with the same other messages, its answers are explained by the
history, and the shape is a fixed point. -/
theorem tool_history_repaired (messages : List Message) :
    Legal (repairOrphanedToolCalls messages) ∧
    (repairOrphanedToolCalls messages).filter (fun m => !isTool m) = messages.filter (fun m => !isTool m) ∧
    (∃ turns, Explains messages turns (repairOrphanedToolCalls messages)) ∧
    repairOrphanedToolCalls (repairOrphanedToolCalls messages) = repairOrphanedToolCalls messages ∧
    (Legal messages → repairOrphanedToolCalls messages = messages) := by
  obtain ⟨turns, hturns⟩ := explains_repair messages
  exact ⟨hturns.legal, hturns.others, ⟨turns, hturns⟩, repair_of_legal hturns.legal, repair_of_legal⟩

end GraphSkillRuntime.ToolHistory
