import Mathlib
import GraphSkillRuntime.CognitiveFlow
import GraphSkillRuntime.MarkdownFields
import GraphSkillRuntime.ValueEquality

/-!
What an accepted submission leaves on the blackboard. The schema gate looks at every block; the hoist follows one path
into the first block for each declared property, and the property's name is read as part of that path.
-/

namespace GraphSkillRuntime

open OrderedDict

def businessDataParsed : String := "business_data_parsed"

def declaredProperties (outputSchema : Dict String Value) : List String :=
  match dictAt outputSchema "properties" with
  | some properties => properties.keys
  | none => []

def isRequired (outputSchema : Dict String Value) (name : String) : Bool :=
  match outputSchema.get? "required" with
  | some (.list required) => required.any (fun v => v = .str name)
  | _ => false

/-- The `io_specs` of `_build_skill_node`. -/
def agentIoSpecs (outputSchema : Dict String Value) : List IODef :=
  (declaredProperties outputSchema).map (fun propName =>
    { sourceField := businessDataParsed
      targetField := propName
      hoistPath := some (businessDataParsed ++ "[0]." ++ propName)
      required := isRequired outputSchema propName })

abbrev FieldError := String × String

/-- The model that pydantic builds from a phase's output schema: its fields are the declared properties, and it forbids
any other. -/
structure FinishGate (F : Type) (outputSchema : Dict String Value) where
  reader : Markdown.Reader F
  annotations : Dict String Markdown.Annotation
  printer : Printer
  reprText : String → String
  /-- `model_validate` and the dump of what it returns, or the first error and the others. -/
  validate : Dict String (JsonText.Json F) → Except (FieldError × List FieldError) (Dict String Value)
  fields : annotations.keys = declaredProperties outputSchema
  forbidsExtra : ∀ data item, validate data = .ok item → ∀ name ∈ item.keys, name ∈ annotations.keys
  keyed : ∀ data item, validate data = .ok item → (Value.ofDict item).Keyed

namespace FinishGate

variable {F : Type} {outputSchema : Dict String Value} (gate : FinishGate F outputSchema)

def itemLabel (id : String) : String := if id = "" then "unknown" else id

def submissionText (args : Dict String Value) : String := strip (argText gate.printer args "business_data_md")

def blocks (args : Dict String Value) : List (Markdown.ParsedBlock F) :=
  Markdown.parseMd gate.reader gate.annotations (gate.submissionText args).toList

def parseGap (blocks : List (Markdown.ParsedBlock F)) : List String :=
  let unread := blocks.flatMap (fun block => block.unread.map (fun entry => (block, entry)))
  if unread.isEmpty then []
  else
    ("business_data_md 有 " ++ toString unread.length ++ " 行没有被读进任何字段，本次输出是残缺的。" ++
      "请把下面每一行改写成 `- 字段名: 值`（或把整个对象改写成 `## ` 标题下的一个 " ++
      "```json 代码块），然后重新提交。") ::
    unread.map (fun e => "item " ++ itemLabel e.1.id ++ ": business_data_md 第 " ++ toString e.2.lineNumber ++ " 行 " ++
      gate.reprText (.ofList e.2.text) ++ " 没有被读进任何字段 —— " ++ e.2.reason)

def blockErrors (block : Markdown.ParsedBlock F) (errors : List FieldError) : List String :=
  errors.map (fun e => "item " ++ itemLabel block.id ++ ": " ++ (if e.1 = "" then "__root__" else e.1) ++ ": " ++ e.2)

def validateBlocks : List (Markdown.ParsedBlock F) → List (Dict String Value) × List String
  | [] => ([], [])
  | block :: blocks =>
    let rest := validateBlocks blocks
    match gate.validate block.data with
    | .ok item => (item :: rest.1, rest.2)
    | .error (error, errors) => (rest.1, blockErrors block (error :: errors) ++ rest.2)

def validateFinishArgs (args : Dict String Value) : FinishValidation :=
  if gate.submissionText args = "" then .failed ["business_data_md 是空。必须填入完整 markdown 结果。"]
  else
    let blocks := gate.blocks args
    if blocks.isEmpty then
      .failed ["未能在 business_data_md 中检测到任何 ## 块。必须按 output_schema 范例输出至少 1 个 ## 块。"]
    else if !(gate.parseGap blocks).isEmpty then .failed (gate.parseGap blocks)
    else
      let validated := gate.validateBlocks blocks
      if !validated.2.isEmpty then .failed validated.2 else .passed validated.1

end FinishGate

def agentFlow {F : Type} {outputSchema : Dict String Value} (phaseName : String)
    (gate : FinishGate F outputSchema) : CognitiveFlow where
  phaseName := phaseName
  ioSpecs := agentIoSpecs outputSchema
  printer := gate.printer
  validateFinishArgs args := .ok (gate.validateFinishArgs args)

def SingleKey (name : String) : Prop := name ≠ "" ∧ '.' ∉ name.toList ∧ '[' ∉ name.toList

instance : DecidablePred SingleKey := fun _ => inferInstanceAs (Decidable (_ ∧ _))

theorem splitBrackets_plain {s : List Char} (h : '[' ∉ s) (fuel : ℕ) (hfuel : s.length ≤ fuel) :
    splitBrackets s fuel = (s, some []) := by
  induction s generalizing fuel with
  | nil => rw [splitBrackets]
  | cons c s ih =>
    rw [List.mem_cons, not_or] at h
    cases fuel with
    | zero => cases hfuel
    | succ fuel =>
      have hc : ¬ c = '[' := fun heq => h.1 heq.symm
      rw [splitBrackets, if_neg hc, ih h.2 fuel (Nat.le_of_succ_le_succ hfuel)]

theorem parsePart_plain {s : List Char} (hne : s ≠ []) (h : '[' ∉ s) :
    parsePart s = some [.key (.ofList s)] := by
  have hsplit := splitBrackets_plain h s.length le_rfl
  cases s with
  | nil => exact absurd rfl hne
  | cons c s =>
    unfold parsePart
    rw [hsplit]
    rfl

theorem parsePath_single {name : String} (h : SingleKey name) : parsePath name = some [.key name] := by
  obtain ⟨hne, hdot, hbracket⟩ := h
  have hchars : name.toList ≠ [] := fun hnil => hne (String.toList_inj.mp hnil)
  rw [parsePath, List.splitOn_eq_singleton hdot, List.mapM_cons, parsePart_plain hchars hbracket, List.mapM_nil]
  simp

theorem parseIndex_zero : parseIndex ['0'] = some (.index 0) := by
  have hzero : ("0" : String).toNat? = some 0 := Nat.toNat?_repr 0
  have hstrip : strip (String.ofList ['0']) = "0" := rfl
  have hint : pythonInt (.ofList ['0']) = some 0 := by
    unfold pythonInt
    rw [hstrip]
    exact congrArg (Option.map Int.ofNat) hzero
  unfold parseIndex
  rw [hint]

theorem parsePart_root : parsePart ['b', 'u', 's', 'i', 'n', 'e', 's', 's', '_', 'd', 'a', 't', 'a', '_', 'p', 'a',
    'r', 's', 'e', 'd', '[', '0', ']'] = some [.key businessDataParsed, .index 0] := by
  have hsplit : splitBrackets ['b', 'u', 's', 'i', 'n', 'e', 's', 's', '_', 'd', 'a', 't', 'a', '_', 'p', 'a', 'r',
      's', 'e', 'd', '[', '0', ']'] 23 = (businessDataParsed.toList, some [['0']]) := rfl
  unfold parsePart
  simp only [List.length_cons, List.length_nil, hsplit]
  simp [parseIndex_zero, businessDataParsed]

theorem parsePath_root (name : String) : parsePath (businessDataParsed ++ "[0]." ++ name) =
    (parsePath name).map ([.key businessDataParsed, .index 0] ++ ·) := by
  have hroot : (businessDataParsed ++ "[0]." ++ name).toList = ['b', 'u', 's', 'i', 'n', 'e', 's', 's', '_', 'd', 'a',
      't', 'a', '_', 'p', 'a', 'r', 's', 'e', 'd', '[', '0', ']'] ++ '.' :: name.toList := by
    simp [businessDataParsed]
  rw [parsePath, hroot, List.splitOn_append_cons_self_of_not_mem (by decide), List.mapM_cons, parsePart_root,
    parsePath]
  cases (name.toList.splitOn '.').mapM parsePart <;> rfl

theorem resolvePath_single {name : String} (h : SingleKey name) (d : Dict String Value) :
    resolvePath (.ofDict d) name = d.get? name := by
  simp [resolvePath, parsePath_single h, followToken]

section

variable {F : Type} {outputSchema : Dict String Value} {gate : FinishGate F outputSchema}

theorem extract_hoist (m : CognitiveFlow) (args : Dict String Value) (first : Dict String Value)
    (rest : List (Dict String Value)) (propName : String) (required : Bool) :
    IODef.extract ⟨businessDataParsed, propName, some (businessDataParsed ++ "[0]." ++ propName), required⟩
      (m.finishResult args (first :: rest)) = resolvePath (.ofDict first) propName := by
  have hne : businessDataParsed ++ "[0]." ++ propName ≠ "" := by
    intro h
    have hchars := congrArg String.toList h
    simp [businessDataParsed] at hchars
  have hstarts : startsWith (businessDataParsed ++ "[0]." ++ propName) (businessDataParsed ++ "[") = true := by
    rw [startsWith_iff]
    exact ⟨"0]." ++ propName, String.toList_inj.mp (by simp)⟩
  have hitems : (m.finishResult args (first :: rest)).get? businessDataParsed =
      some (.list ((first :: rest).map .ofDict)) := by
    apply Dict.get?_ofList_of_mem
    · simp
    · simp [businessDataParsed]
  rw [IODef.extract]
  simp only [hne, if_false, hstarts, Bool.or_true, if_true]
  rw [resolvePath, parsePath_root, resolvePath]
  cases parsePath propName with
  | none => rfl
  | some tokens =>
    simp only [Option.map_some, bind, Option.bind_some, List.cons_append, List.nil_append, List.foldlM_cons,
      followToken, Value.asDict?_ofDict, hitems]
    rfl

theorem get?_ofList_filterMap (f : String → Option Value) (names : List String) (name : String) :
    (Dict.ofList (names.filterMap fun n => (f n).map fun v => (n, v))).get? name =
      if name ∈ names then f name else none := by
  have hfind : ∀ names : List String, Dict.find (names.filterMap fun n => (f n).map fun v => (n, v)) name =
      if name ∈ names then f name else none := by
    intro names
    induction names with
    | nil => rfl
    | cons first names ih =>
      by_cases hfirst : first = name
      · subst hfirst
        cases hv : f first with
        | none => simp [hv, ih]
        | some v => simp [hv, Dict.find]
      · have hne : ¬ name = first := fun h => hfirst h.symm
        cases hv : f first with
        | none => simp [hv, ih, hne]
        | some v => simp [hv, Dict.find, hfirst, ih, hne]
  rw [Dict.get?_ofList, ← List.filterMap_reverse, hfind]
  simp

def hoistedValue (outputSchema first : Dict String Value) (name : String) : Option Value :=
  if name ∈ declaredProperties outputSchema then
    if SingleKey name then first.get? name else resolvePath (.ofDict first) name
  else none

def boardValue (outputSchema first data : Dict String Value) (name : String) : Option Value :=
  (hoistedValue outputSchema first name).or (data.get? name)

def AlreadyHeld (outputSchema first data : Dict String Value) : Prop :=
  ∀ name u, hoistedValue outputSchema first name = some u → ∃ w, data.get? name = some w ∧ u.eqv w = true

theorem hoistedValue_of_declared {first : Dict String Value} {name : String}
    (h : name ∈ declaredProperties outputSchema) :
    hoistedValue outputSchema first name = resolvePath (.ofDict first) name := by
  rw [hoistedValue, if_pos h]
  split_ifs with hsingle
  · rw [resolvePath_single hsingle]
  · rfl

theorem resolveHoist_get? (phaseName : String) (args first : Dict String Value) (rest : List (Dict String Value))
    (data : BusinessData) (name : String) :
    (resolveHoist (agentFlow phaseName gate).ioSpecs ((agentFlow phaseName gate).finishResult args (first :: rest))
        data).newBusinessData.get? name = boardValue outputSchema first data name := by
  have hupdates : ((agentFlow phaseName gate).ioSpecs.filterMap fun spec =>
      (spec.extract ((agentFlow phaseName gate).finishResult args (first :: rest))).map fun v =>
        (spec.targetField, v)) =
      (declaredProperties outputSchema).filterMap fun n => (resolvePath (.ofDict first) n).map fun v => (n, v) := by
    rw [agentFlow, agentIoSpecs, List.filterMap_map]
    apply List.filterMap_congr
    intro n _
    rw [Function.comp_apply, extract_hoist]
  rw [resolveHoist, Dict.get?_update, hupdates, get?_ofList_filterMap, boardValue]
  congr 1
  split_ifs with h
  · rw [hoistedValue_of_declared h]
  · rw [hoistedValue, if_neg h]

theorem keyed_of_get? {d : Dict String Value} (hd : (Value.ofDict d).Keyed) {name : String} {v : Value}
    (h : d.get? name = some v) : v.Keyed := Value.keyedMembers_iff.mp hd.2 _ (Dict.get?_mem.mp h)

theorem keyed_followToken {v w : Value} {token : PathToken} (hv : v.Keyed) (h : followToken v token = some w) :
    w.Keyed := by
  cases v with
  | dict kvs =>
    cases token with
    | key name =>
      rw [followToken, Value.asDict?, Option.bind_some, Dict.get?_ofList] at h
      exact Value.keyedMembers_iff.mp hv.2 _ (List.mem_reverse.mp (Dict.mem_of_find h))
    | index n => cases h
  | list xs =>
    cases token with
    | key name => cases h
    | index n => exact Value.keyedElements_iff.mp hv _ (List.mem_of_getElem? h)
  | _ => cases token <;> cases h

theorem keyed_resolvePath {v w : Value} {path : String} (hv : v.Keyed) (h : resolvePath v path = some w) : w.Keyed := by
  have hfold : ∀ (tokens : List PathToken) (v : Value), v.Keyed → tokens.foldlM followToken v = some w → w.Keyed := by
    intro tokens
    induction tokens with
    | nil => exact fun v hv h => Option.some.inj h ▸ hv
    | cons token tokens ih =>
      intro v hv h
      obtain ⟨u, hu, h⟩ := Option.bind_eq_some_iff.mp h
      exact ih u (keyed_followToken hv hu) h
  obtain ⟨tokens, -, h⟩ := Option.bind_eq_some_iff.mp h
  exact hfold tokens v hv h

theorem keyed_hoistedValue {first : Dict String Value} (hfirst : (Value.ofDict first).Keyed) {name : String}
    {u : Value} (h : hoistedValue outputSchema first name = some u) : u.Keyed := by
  have hname : name ∈ declaredProperties outputSchema := by
    by_contra hnot
    rw [hoistedValue, if_neg hnot] at h
    cases h
  rw [hoistedValue_of_declared hname] at h
  exact keyed_resolvePath hfirst h

theorem dictEqv_hoist_iff {first data new : Dict String Value} (hdata : (Value.ofDict data).Keyed)
    (hnew : ∀ name, new.get? name = boardValue outputSchema first data name) :
    dictEqv new data = true ↔ AlreadyHeld outputSchema first data := by
  have hiff : dictEqv new data = true ↔
      ∀ name, Option.Rel (fun v w => Value.eqv v w = true) (new.get? name) (data.get? name) :=
    Value.eqv_dict_iff new.nodup data.nodup
  rw [hiff]
  constructor
  · intro hrel name u hu
    have hname := hrel name
    rw [hnew, boardValue, hu, Option.some_or] at hname
    cases hw : data.get? name with
    | none =>
      rw [hw] at hname
      cases hname
    | some w =>
      rw [hw] at hname
      cases hname with
      | some heqv => exact ⟨w, rfl, heqv⟩
  · intro hheld name
    rw [hnew, boardValue]
    cases hu : hoistedValue outputSchema first name with
    | none =>
      rw [Option.none_or]
      cases hw : data.get? name with
      | none => exact .none
      | some w => exact .some (Value.eqv_refl w (keyed_of_get? hdata hw))
    | some u =>
      obtain ⟨w, hw, heqv⟩ := hheld name u hu
      rw [Option.some_or, hw]
      exact .some heqv

section Hoist

variable (phaseName : String) (args first : Dict String Value) (rest : List (Dict String Value)) {data : BusinessData}
  (hdata : (Value.ofDict data).Keyed) (flow : FrameworkState)

include hdata

theorem applyIoHoist_held (h : AlreadyHeld outputSchema first data) :
    ∃ flow', (agentFlow phaseName gate).applyIoHoist data flow
      ((agentFlow phaseName gate).finishResult args (first :: rest)) = .ok (data, flow') := by
  have hget := @resolveHoist_get? F outputSchema gate phaseName args first rest data
  unfold CognitiveFlow.applyIoHoist
  dsimp only
  rw [if_pos ((dictEqv_hoist_iff hdata hget).mpr h)]
  exact ⟨_, rfl⟩

theorem applyIoHoist_writes (h : ¬ AlreadyHeld outputSchema first data)
    (hset : ∀ name, (boardValue outputSchema first data name).isSome → settable name = true) :
    ∃ data' flow', (agentFlow phaseName gate).applyIoHoist data flow
        ((agentFlow phaseName gate).finishResult args (first :: rest)) = .ok (data', flow') ∧
      ∀ name, data'.get? name = boardValue outputSchema first data name := by
  have hget := @resolveHoist_get? F outputSchema gate phaseName args first rest data
  have hnone := updateError?_eq_none_iff.mpr fun k hk => hset k (by rwa [← hget, ← Dict.mem_keys])
  unfold CognitiveFlow.applyIoHoist
  dsimp only
  rw [if_neg (mt (dictEqv_hoist_iff hdata hget).mp h), hnone]
  refine ⟨_, _, rfl, fun name => ?_⟩
  rw [Dict.get?_update, hget, boardValue, Option.or_assoc, Option.or_self]

theorem applyIoHoist_raises (h : ¬ AlreadyHeld outputSchema first data)
    (hset : ¬ ∀ name, (boardValue outputSchema first data name).isSome → settable name = true) :
    ∃ e, (agentFlow phaseName gate).applyIoHoist data flow
      ((agentFlow phaseName gate).finishResult args (first :: rest)) = .error e := by
  have hget := @resolveHoist_get? F outputSchema gate phaseName args first rest data
  unfold CognitiveFlow.applyIoHoist
  dsimp only
  rw [if_neg (mt (dictEqv_hoist_iff hdata hget).mp h)]
  split
  · exact ⟨_, rfl⟩
  · rename_i hnone
    rw [updateError?_eq_none_iff] at hnone
    exact absurd (fun name hname => hnone name (by rwa [Dict.mem_keys, hget])) hset

end Hoist

theorem validateBlocks_items {blocks : List (Markdown.ParsedBlock F)} (h : (gate.validateBlocks blocks).2 = []) :
    List.Forall₂ (fun block item => gate.validate block.data = .ok item) blocks (gate.validateBlocks blocks).1 := by
  induction blocks with
  | nil => exact .nil
  | cons block blocks ih =>
    rw [FinishGate.validateBlocks] at h ⊢
    cases hblock : gate.validate block.data with
    | error e => simp [hblock, FinishGate.blockErrors] at h
    | ok item =>
      simp only [hblock] at h ⊢
      exact .cons hblock (ih h)

theorem validateFinishArgs_passed {args : Dict String Value} {items : List (Dict String Value)}
    (h : gate.validateFinishArgs args = .passed items) :
    gate.blocks args ≠ [] ∧
      List.Forall₂ (fun block item => gate.validate block.data = .ok item) (gate.blocks args) items := by
  unfold FinishGate.validateFinishArgs at h
  dsimp only at h
  split_ifs at h with hempty hblocks hgap herrors
  have herrors : (gate.validateBlocks (gate.blocks args)).2 = [] := by simpa using herrors
  rw [← FinishValidation.passed.inj h]
  exact ⟨by simpa using hblocks, validateBlocks_items herrors⟩

theorem forall_validated_iff {blocks : List (Markdown.ParsedBlock F)} {items : List (Dict String Value)}
    (h : List.Forall₂ (fun block item => gate.validate block.data = .ok item) blocks items)
    (P : Dict String Value → Prop) :
    (∀ block ∈ blocks, ∀ item, gate.validate block.data = .ok item → P item) ↔ ∀ item ∈ items, P item := by
  constructor
  · intro hblocks item hitem
    obtain ⟨block, hblock, hvalid⟩ := exists_mem_of_forall₂ h hitem
    exact hblocks block hblock item hvalid
  · intro hitems block hblock item hvalid
    obtain ⟨item', hitem, hvalid'⟩ := exists_mem_of_forall₂ h.flip hblock
    rw [hvalid] at hvalid'
    obtain rfl := Except.ok.inj hvalid'
    exact hitems item hitem

theorem validateFinishArgs_of {args : Dict String Value} {blocks : List (Markdown.ParsedBlock F)}
    {items : List (Dict String Value)} (htext : gate.submissionText args ≠ "") (hblocks : gate.blocks args = blocks)
    (hne : blocks ≠ []) (hread : ∀ block ∈ blocks, block.unread = [])
    (hvalid : gate.validateBlocks blocks = (items, [])) : gate.validateFinishArgs args = .passed items := by
  have hgap : gate.parseGap blocks = [] := by
    have hunread : blocks.flatMap (fun block => block.unread.map (fun entry => (block, entry))) = [] := by
      rw [List.flatMap_eq_nil_iff]
      exact fun block hblock => by rw [hread block hblock, List.map_nil]
    simp [FinishGate.parseGap, hunread]
  unfold FinishGate.validateFinishArgs
  simp [htext, hblocks, hne, hgap, hvalid]

/-- In every open turn, every value of every accepted block is on the blackboard `data` afterwards. -/
def FinishGate.Lossless (gate : FinishGate F outputSchema) (args : Dict String Value) (data : BusinessData) : Prop :=
  ∀ (phaseName : String) (turnGate : Option String) (state : AgentState) (toolCallId : String), state.data = data →
    ¬ (finishTurnKey state.messages ≠ none ∧ finishTurnKey state.messages = turnGate) →
    ∃ outcome after, (agentFlow phaseName gate).handleFinishTask turnGate args state toolCallId = .ok outcome ∧
      outcome.command.data = some after ∧
      ∀ block ∈ gate.blocks args, ∀ item, gate.validate block.data = .ok item →
        ∀ name v, item.get? name = some v → ∃ w, after.get? name = some w ∧ v.eqv w = true

/-- The first item has the value where its name leads, or it has none there and the blackboard has the value. -/
def StandsIn (outputSchema first data : Dict String Value) (name : String) (v : Value) : Prop :=
  ∃ w, boardValue outputSchema first data name = some w ∧ v.eqv w = true

theorem handleFinishTask_accepts {phaseName : String} {turnGate : Option String} {state : AgentState}
    {toolCallId : String} {args : Dict String Value} {items : List (Dict String Value)}
    (hgate : gate.validateFinishArgs args = .passed items)
    (hopen : ¬ (finishTurnKey state.messages ≠ none ∧ finishTurnKey state.messages = turnGate))
    {data' : BusinessData} {flow' : FrameworkState}
    (hhoist : (agentFlow phaseName gate).applyIoHoist state.data
      { state.flow with finishTaskResult := some ((agentFlow phaseName gate).finishResult args items) }
      ((agentFlow phaseName gate).finishResult args items) = .ok (data', flow')) :
    (agentFlow phaseName gate).handleFinishTask turnGate args state toolCallId =
      .ok ⟨.accepted, finishTurnKey state.messages, some ((agentFlow phaseName gate).finishResult args items),
        { data := some data'
          flow := some flow'
          messages := [.tool none (some "finish_task") (.str "PHASE_COMPLETE") toolCallId false] }⟩ := by
  have hpassed : (agentFlow phaseName gate).validateFinishArgs args = .ok (.passed items) := congrArg Except.ok hgate
  unfold CognitiveFlow.handleFinishTask
  simp only [if_neg hopen, hpassed, bind, Except.bind, hhoist]
  rfl

theorem handleFinishTask_raises {phaseName : String} {turnGate : Option String} {state : AgentState}
    {toolCallId : String} {args : Dict String Value} {items : List (Dict String Value)}
    (hgate : gate.validateFinishArgs args = .passed items)
    (hopen : ¬ (finishTurnKey state.messages ≠ none ∧ finishTurnKey state.messages = turnGate)) {e : String}
    (hhoist : (agentFlow phaseName gate).applyIoHoist state.data
      { state.flow with finishTaskResult := some ((agentFlow phaseName gate).finishResult args items) }
      ((agentFlow phaseName gate).finishResult args items) = .error e) :
    (agentFlow phaseName gate).handleFinishTask turnGate args state toolCallId = .error e := by
  have hpassed : (agentFlow phaseName gate).validateFinishArgs args = .ok (.passed items) := congrArg Except.ok hgate
  unfold CognitiveFlow.handleFinishTask
  simp only [if_neg hopen, hpassed, bind, Except.bind, hhoist]

theorem standsIn_of_held {first data : Dict String Value} (hfirst : (Value.ofDict first).Keyed)
    (hdata : (Value.ofDict data).Keyed) (hheld : AlreadyHeld outputSchema first data) {name : String} {v w : Value}
    (hw : data.get? name = some w) (hvw : v.eqv w = true) : StandsIn outputSchema first data name v := by
  unfold StandsIn boardValue
  cases hu : hoistedValue outputSchema first name with
  | none => exact ⟨w, hw, hvw⟩
  | some u =>
    obtain ⟨w', hw', huw⟩ := hheld name u hu
    obtain rfl := Option.some.inj (hw.symm.trans hw')
    have hwu := Value.eqv_symm u w (keyed_hoistedValue hfirst hu) (keyed_of_get? hdata hw) huw
    exact ⟨u, rfl, Value.eqv_trans v w u hvw hwu⟩

theorem StandsIn.held {first data : Dict String Value} (hheld : AlreadyHeld outputSchema first data) {name : String}
    {v : Value} (h : StandsIn outputSchema first data name v) : ∃ w, data.get? name = some w ∧ v.eqv w = true := by
  obtain ⟨w, hw, hvw⟩ := h
  rcases Option.or_eq_some_iff.mp hw with hu | ⟨-, hw⟩
  · obtain ⟨w', hw', hww'⟩ := hheld name w hu
    exact ⟨w', hw', Value.eqv_trans v w w' hvw hww'⟩
  · exact ⟨w, hw, hvw⟩

theorem hoisted_of_lossless {args first : Dict String Value} {rest : List (Dict String Value)} {data : BusinessData}
    (hgate : gate.validateFinishArgs args = .passed (first :: rest)) (hdata : (Value.ofDict data).Keyed)
    (hlossless : gate.Lossless args data) :
    (∀ item ∈ first :: rest, ∀ name v, item.get? name = some v → StandsIn outputSchema first data name v) ∧
      (AlreadyHeld outputSchema first data ∨
        ∀ name, (boardValue outputSchema first data name).isSome → settable name = true) := by
  obtain ⟨-, hitems⟩ := validateFinishArgs_passed hgate
  obtain ⟨_, -, hvalid⟩ := exists_mem_of_forall₂ hitems (List.mem_cons_self (a := first))
  have hfirst := gate.keyed _ first hvalid
  obtain ⟨state, rfl, hmessages⟩ : ∃ state : AgentState, state.data = data ∧ state.messages = [] :=
    ⟨⟨data, {}, []⟩, rfl, rfl⟩
  have hopen : ¬ (finishTurnKey state.messages ≠ none ∧ finishTurnKey state.messages = none) := by
    rw [hmessages]
    simp [finishTurnKey]
  obtain ⟨outcome, after, hfinish, hafter, hpresent⟩ := hlossless "" none state "" rfl hopen
  rw [forall_validated_iff hitems] at hpresent
  by_cases hheld : AlreadyHeld outputSchema first state.data
  · obtain ⟨flow', hhoist⟩ := applyIoHoist_held "" args first rest hdata _ hheld
    obtain rfl := Except.ok.inj (hfinish.symm.trans (handleFinishTask_accepts hgate hopen hhoist))
    obtain rfl := Option.some.inj hafter
    refine ⟨fun item hitem name v hv => ?_, .inl hheld⟩
    obtain ⟨w, hw, hvw⟩ := hpresent item hitem name v hv
    exact standsIn_of_held hfirst hdata hheld hw hvw
  · by_cases hset : ∀ name, (boardValue outputSchema first state.data name).isSome → settable name = true
    · obtain ⟨data', flow', hhoist, hwritten⟩ :=
        applyIoHoist_writes "" args first rest hdata _ hheld hset
      obtain rfl := Except.ok.inj (hfinish.symm.trans (handleFinishTask_accepts hgate hopen hhoist))
      obtain rfl := Option.some.inj hafter
      refine ⟨fun item hitem name v hv => ?_, .inr hset⟩
      obtain ⟨w, hw, hvw⟩ := hpresent item hitem name v hv
      exact ⟨w, by rw [← hwritten, hw], hvw⟩
    · obtain ⟨e, hhoist⟩ := applyIoHoist_raises "" args first rest hdata _ hheld hset
      cases hfinish.symm.trans (handleFinishTask_raises hgate hopen hhoist)

/-- Nothing of a submission is lost exactly when the first item answers for every block and, unless the blackboard has
all of it already, no field is one that `update_business` refuses. -/
theorem accepted_submission_lossless_iff {args first : Dict String Value} {rest : List (Dict String Value)}
    {data : BusinessData} (hgate : gate.validateFinishArgs args = .passed (first :: rest))
    (hdata : (Value.ofDict data).Keyed) :
    gate.Lossless args data ↔
      (∀ item ∈ first :: rest, ∀ name v, item.get? name = some v → StandsIn outputSchema first data name v) ∧
      (AlreadyHeld outputSchema first data ∨
        ∀ name, (boardValue outputSchema first data name).isSome → settable name = true) := by
  obtain ⟨-, hitems⟩ := validateFinishArgs_passed hgate
  constructor
  · exact hoisted_of_lossless hgate hdata
  · rintro ⟨hstands, hset⟩ phaseName turnGate state toolCallId rfl hopen
    by_cases hheld : AlreadyHeld outputSchema first state.data
    · obtain ⟨flow', hhoist⟩ := applyIoHoist_held phaseName args first rest hdata _ hheld
      refine ⟨_, _, handleFinishTask_accepts hgate hopen hhoist, rfl, ?_⟩
      rw [forall_validated_iff hitems]
      exact fun item hitem name v hv => (hstands item hitem name v hv).held hheld
    · obtain ⟨data', flow', hhoist, hwritten⟩ := applyIoHoist_writes phaseName args first rest hdata _
        hheld (hset.resolve_left hheld)
      refine ⟨_, _, handleFinishTask_accepts hgate hopen hhoist, rfl, ?_⟩
      rw [forall_validated_iff hitems]
      intro item hitem name v hv
      obtain ⟨w, hw, hvw⟩ := hstands item hitem name v hv
      exact ⟨w, by rw [hwritten, hw], hvw⟩

end

/-! A phase with one declared property, a text. -/

def gradeKey : String := .ofList ['g']

def gradeSchema : Dict String Value :=
  Dict.single "properties" (.dict [(gradeKey, .dict [("type", .str "string")])])

def gradeGate : FinishGate Unit gradeSchema where
  reader := Markdown.asciiReader
  annotations := Dict.single gradeKey .other
  printer := plainPrinter
  reprText := id
  validate data :=
    match data.get? gradeKey with
    | some (.str s) => .ok (Dict.single gradeKey (.str s))
    | _ => .error ((gradeKey, "Field required"), [])
  fields := rfl
  forbidsExtra data item h := by
    split at h
    · rw [← Except.ok.inj h]
      exact fun name hname => hname
    · cases h
  keyed data item h := by
    split at h
    · rw [← Except.ok.inj h]
      simp [Value.ofDict, Dict.single, Value.Keyed, Value.KeyedMembers]
    · cases h

def gradeOf (c : Char) : Dict String Value := Dict.single gradeKey (.str (.ofList [c]))

def gradeLines (c : Char) : List Char := ['-', ' ', 'g', ':', ' ', c]

def graded (text : List Char) : Dict String Value := Dict.single "business_data_md" (.str (.ofList text))

def gradedOnce : Dict String Value := graded (['#', '#', ' ', 'a', '\n'] ++ gradeLines '1')

def gradedInTwoBlocks : Dict String Value :=
  graded (['#', '#', ' ', 'a', '\n'] ++ gradeLines '1' ++ ['\n', '#', '#', ' ', 'b', '\n'] ++ gradeLines '2')

theorem gradeBlock (id : String) (number : ℕ) {c : Char} (hc : c = '1' ∨ c = '2') :
    Markdown.parseBlock Markdown.asciiReader gradeGate.annotations (id, [⟨number, gradeLines c⟩]) =
      ⟨id, [], Dict.single gradeKey (.str (.ofList [c]))⟩ := by
  have hjson : Markdown.parseJsonBlock Markdown.asciiReader [gradeLines c] = none := by
    rcases hc with rfl | rfl <;> rfl
  have hrun : Markdown.flushNested Markdown.asciiReader gradeGate.annotations
      (Markdown.blockStep Markdown.asciiReader gradeGate.annotations ⟨∅, [], none⟩ ⟨number, gradeLines c⟩) =
      ⟨Dict.single gradeKey (.str (.ofList [c])), [], none⟩ := by
    rcases hc with rfl | rfl <;> rfl
  simp only [Markdown.parseBlock, List.map_cons, List.map_nil, hjson, Markdown.parseBlockData, List.foldl_cons,
    List.foldl_nil, hrun, List.mergeSort_nil]

theorem accepted_submission_lossless_once : gradeGate.Lossless gradedOnce ∅ := by
  have htext : gradeGate.submissionText gradedOnce = .ofList (['#', '#', ' ', 'a', '\n'] ++ gradeLines '1') := rfl
  have hsplit : Markdown.splitIntoBlocks (['#', '#', ' ', 'a', '\n'] ++ gradeLines '1') =
      [(.ofList ['a'], [⟨2, gradeLines '1'⟩])] := rfl
  have hblocks : gradeGate.blocks gradedOnce =
      [⟨.ofList ['a'], [], Dict.single gradeKey (.str (.ofList ['1']))⟩] := by
    rw [FinishGate.blocks, htext, String.toList_ofList, Markdown.parseMd]
    change (Markdown.splitIntoBlocks _).map (Markdown.parseBlock Markdown.asciiReader gradeGate.annotations) = _
    rw [hsplit, List.map_singleton, gradeBlock _ _ (.inl rfl)]
  have hgate : gradeGate.validateFinishArgs gradedOnce = .passed [gradeOf '1'] :=
    validateFinishArgs_of (by rw [htext]; decide) hblocks (by simp) (by simp) rfl
  have hsingle : SingleKey gradeKey := by decide
  have hdeclared : gradeKey ∈ declaredProperties gradeSchema := by decide
  have hvalue : hoistedValue gradeSchema (gradeOf '1') gradeKey = some (.str (.ofList ['1'])) := by
    rw [hoistedValue, if_pos hdeclared, if_pos hsingle]
    rfl
  have honly : ∀ name, name ≠ gradeKey → hoistedValue gradeSchema (gradeOf '1') name = none := by
    intro name hne
    rw [hoistedValue, if_neg]
    exact fun hname => hne (List.mem_singleton.mp hname)
  have hempty : (Value.ofDict ∅).Keyed := ⟨List.nodup_nil, trivial⟩
  refine (accepted_submission_lossless_iff hgate hempty).mpr ⟨?_, ?_⟩
  · intro item hitem name v hv
    obtain rfl := List.mem_singleton.mp hitem
    have hname : name = gradeKey := by
      by_contra hne
      rw [gradeOf, Dict.get?_single, if_neg (Ne.symm hne)] at hv
      cases hv
    subst hname
    obtain rfl : .str (.ofList ['1']) = v := Option.some.inj hv
    exact ⟨_, by rw [boardValue, hvalue, Option.some_or], by decide⟩
  · refine .inr fun name hname => ?_
    by_cases hne : name = gradeKey
    · subst hne
      decide
    · rw [boardValue, honly name hne] at hname
      cases hname

theorem second_block_dropped : ¬ gradeGate.Lossless gradedInTwoBlocks ∅ := by
  have htext : gradeGate.submissionText gradedInTwoBlocks = .ofList (['#', '#', ' ', 'a', '\n'] ++ gradeLines '1' ++
      ['\n', '#', '#', ' ', 'b', '\n'] ++ gradeLines '2') := rfl
  have hsplit : Markdown.splitIntoBlocks (['#', '#', ' ', 'a', '\n'] ++ gradeLines '1' ++
      ['\n', '#', '#', ' ', 'b', '\n'] ++ gradeLines '2') =
      [(.ofList ['a'], [⟨2, gradeLines '1'⟩]), (.ofList ['b'], [⟨4, gradeLines '2'⟩])] := rfl
  have hblocks : gradeGate.blocks gradedInTwoBlocks =
      [⟨.ofList ['a'], [], Dict.single gradeKey (.str (.ofList ['1']))⟩,
        ⟨.ofList ['b'], [], Dict.single gradeKey (.str (.ofList ['2']))⟩] := by
    rw [FinishGate.blocks, htext, String.toList_ofList, Markdown.parseMd]
    change (Markdown.splitIntoBlocks _).map (Markdown.parseBlock Markdown.asciiReader gradeGate.annotations) = _
    rw [hsplit, List.map_cons, List.map_singleton, gradeBlock _ _ (.inl rfl), gradeBlock _ _ (.inr rfl)]
  have hgate : gradeGate.validateFinishArgs gradedInTwoBlocks = .passed [gradeOf '1', gradeOf '2'] :=
    validateFinishArgs_of (by rw [htext]; decide) hblocks (by simp) (by simp) rfl
  intro hlossless
  have hempty : (Value.ofDict ∅).Keyed := ⟨List.nodup_nil, trivial⟩
  obtain ⟨w, hw, hequals⟩ :=
    (hoisted_of_lossless hgate hempty hlossless).1 (gradeOf '2') (by simp) gradeKey (.str (.ofList ['2'])) rfl
  have hsingle : SingleKey gradeKey := by decide
  have hdeclared : gradeKey ∈ declaredProperties gradeSchema := by decide
  have hvalue : boardValue gradeSchema (gradeOf '1') ∅ gradeKey = some (.str (.ofList ['1'])) := by
    rw [boardValue, hoistedValue, if_pos hdeclared, if_pos hsingle]
    rfl
  obtain rfl := Option.some.inj (hvalue.symm.trans hw)
  exact absurd hequals (by decide)

end GraphSkillRuntime
