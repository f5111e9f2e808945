import GraphSkillRuntime.MarkdownFields
import GraphSkillRuntime.Runs

/-! Items that fail their schema and the patches an agent makes for them. -/

namespace GraphSkillRuntime.Markdown

open OrderedDict JsonText

structure ModelError where
  loc : List String
  msg : String
  type : String

/-- A Pydantic model class; `M` are its instances. -/
structure ModelClass (F M : Type) where
  annotations : Dict String Annotation
  modelValidate : Dict String (Json F) → Except (List ModelError) M
  modelDump : M → Dict String (Json F)

inductive ErrorKind where
  | structural
  | semantic
  deriving DecidableEq

structure FieldError where
  field : String
  error : String
  errorKind : ErrorKind

structure ItemError where
  index : ℕ
  itemId : String
  fields : List FieldError

structure DiagnosticReport (M : Type) where
  validItems : List M
  errors : List ItemError

def classifyErrorKind (type : String) : ErrorKind := if type = "missing" then .structural else .semantic

def fieldError (e : ModelError) : FieldError := ⟨".".intercalate e.loc, e.msg, classifyErrorKind e.type⟩

namespace DiagnosticReport

variable {M : Type}

def hasStructuralErrors (report : DiagnosticReport M) : Bool :=
  report.errors.any (fun e => e.fields.any (fun f => f.errorKind = .structural))

def semanticOnly (report : DiagnosticReport M) : Bool := !report.errors.isEmpty && !report.hasStructuralErrors

end DiagnosticReport

structure PatchCall (F : Type) where
  itemId : String
  field : String
  value : Json F

abbrev Patches (F : Type) := Dict String (Dict String (Json F))

def applyFieldPatch {F : Type} (patches : Patches F) (call : PatchCall F) : Patches F :=
  patches.set call.itemId (((patches.get? call.itemId).getD ∅).set call.field call.value)

def patchedFields {F : Type} (patches : Patches F) (block : ParsedBlock F) : Dict String (Json F) :=
  if block.id = "" then block.data
  else
    match patches.get? block.id with
    | some fields => block.data.update fields
    | none => block.data

inductive MdError where
  | semanticValidation (errors : List ItemError)
  | skillLoad (message : String)
  | validation (errors : List ModelError)

section Patching

variable {F M : Type} (R : Reader F) (C : ModelClass F M)

def diagnoseFrom (first : ℕ) : List (ParsedBlock F) → DiagnosticReport M
  | [] => ⟨[], []⟩
  | block :: rest =>
    let report := diagnoseFrom (first + 1) rest
    match C.modelValidate block.data with
    | .ok item => { report with validItems := item :: report.validItems }
    | .error errors => { report with errors := ⟨first, block.id, errors.map fieldError⟩ :: report.errors }

def diagnose (blocks : List (ParsedBlock F)) : DiagnosticReport M := diagnoseFrom C 0 blocks

/-- The `final_results` of `finalize` when no item was added. -/
def finalResults (blocks : List (ParsedBlock F)) (calls : List (PatchCall F)) : List (Dict String (Json F)) :=
  let report := diagnose C blocks
  let errorBlocks := report.errors.filterMap (fun e => blocks[e.index]?)
  report.validItems.map C.modelDump ++ errorBlocks.map (patchedFields (calls.foldl applyFieldPatch ∅))

/-- `outcome` is what the patch agent did: it failed, or it made these calls and finalized. -/
def mdToJson (mdText : List Char) (outcome : Except String (List (PatchCall F))) : Except MdError (List M) :=
  let blocks := parseMd R C.annotations mdText
  let report := diagnose C blocks
  if report.errors.isEmpty then .ok report.validItems
  else if report.semanticOnly then .error (.semanticValidation report.errors)
  else
    match outcome with
    | .error e => .error (.skillLoad ("md_to_json md-patch deferred fallback failed before producing final_results: " ++
        e))
    | .ok calls => (finalResults C blocks calls).mapM (fun item => (C.modelValidate item).mapError .validation)

/-! ### The list that is validated at the end -/

def failing (block : ParsedBlock F) : Bool := !(C.modelValidate block.data).isOk

def blockFinal (patches : Patches F) (block : ParsedBlock F) : Dict String (Json F) :=
  match C.modelValidate block.data with
  | .ok item => C.modelDump item
  | .error _ => patchedFields patches block

variable {C}

theorem diagnoseFrom_validItems (first : ℕ) (blocks : List (ParsedBlock F)) :
    (diagnoseFrom C first blocks).validItems =
      blocks.filterMap (fun block => (C.modelValidate block.data).toOption) := by
  induction blocks generalizing first with
  | nil => rfl
  | cons block blocks ih =>
    cases h : C.modelValidate block.data with
    | ok item => simp [diagnoseFrom, h, ih, Except.toOption]
    | error errors => simp [diagnoseFrom, h, ih, Except.toOption]

theorem diagnoseFrom_errorBlocks (before blocks : List (ParsedBlock F)) :
    (diagnoseFrom C before.length blocks).errors.filterMap (fun e => (before ++ blocks)[e.index]?) =
      blocks.filter (failing C) := by
  induction blocks generalizing before with
  | nil => rfl
  | cons block blocks ih =>
    have hrest := ih (before ++ [block])
    rw [List.length_append, List.length_singleton, List.append_assoc, List.singleton_append] at hrest
    cases h : C.modelValidate block.data with
    | ok item => simp [diagnoseFrom, h, hrest, failing, Except.isOk, Except.toBool]
    | error errors => simp [diagnoseFrom, h, hrest, failing, Except.isOk, Except.toBool]

theorem finalResults_eq (blocks : List (ParsedBlock F)) (calls : List (PatchCall F)) :
    finalResults C blocks calls =
      (blocks.filterMap (fun block => (C.modelValidate block.data).toOption)).map C.modelDump ++
        (blocks.filter (failing C)).map (patchedFields (calls.foldl applyFieldPatch ∅)) := by
  have hblocks := diagnoseFrom_errorBlocks (C := C) [] blocks
  rw [List.length_nil, List.nil_append] at hblocks
  simp only [finalResults, diagnose, diagnoseFrom_validItems, hblocks]

theorem failing_iff {block : ParsedBlock F} :
    failing C block = true ↔ ∃ errors, C.modelValidate block.data = .error errors := by
  cases h : C.modelValidate block.data <;> simp [failing, h, Except.isOk, Except.toBool]

theorem not_failing_iff {block : ParsedBlock F} :
    failing C block = false ↔ ∃ item, C.modelValidate block.data = .ok item := by
  cases h : C.modelValidate block.data <;> simp [failing, h, Except.isOk, Except.toBool]

theorem finalResults_in_order {valids fails : List (ParsedBlock F)}
    (hvalids : ∀ block ∈ valids, failing C block = false)
    (hfails : ∀ block ∈ fails, failing C block = true) (calls : List (PatchCall F)) :
    finalResults C (valids ++ fails) calls =
      (valids ++ fails).map (blockFinal C (calls.foldl applyFieldPatch ∅)) := by
  have hnone : fails.filterMap (fun block => (C.modelValidate block.data).toOption) = [] := by
    rw [List.filterMap_eq_nil_iff]
    intro block hblock
    obtain ⟨errors, h⟩ := failing_iff.mp (hfails block hblock)
    rw [h]
    rfl
  have hdumps : (valids.filterMap (fun block => (C.modelValidate block.data).toOption)).map C.modelDump =
      valids.map (blockFinal C (calls.foldl applyFieldPatch ∅)) := by
    rw [List.map_filterMap, ← List.filterMap_eq_map]
    apply List.filterMap_congr
    intro block hblock
    obtain ⟨item, h⟩ := not_failing_iff.mp (hvalids block hblock)
    simp [h, blockFinal, Except.toOption]
  have hpatched : fails.map (patchedFields (calls.foldl applyFieldPatch ∅)) =
      fails.map (blockFinal C (calls.foldl applyFieldPatch ∅)) := by
    apply List.map_congr_left
    intro block hblock
    obtain ⟨errors, h⟩ := failing_iff.mp (hfails block hblock)
    simp [blockFinal, h]
  rw [finalResults_eq, List.filterMap_append, hnone, List.append_nil, List.filter_append,
    List.filter_eq_nil_iff.mpr (by simpa using hvalids), List.filter_eq_self.mpr hfails, List.nil_append, hdumps,
    hpatched, List.map_append]

theorem applyFieldPatch_get? (patches : Patches F) (call : PatchCall F) (id : String) :
    (applyFieldPatch patches call).get? id =
      if call.itemId = id then some (((patches.get? id).getD ∅).set call.field call.value) else patches.get? id := by
  rw [applyFieldPatch, Dict.get?_set]
  split_ifs with h
  · rw [h]
  · rfl

theorem patches_from_calls {calls : List (PatchCall F)} {patches : Patches F} {id : String}
    {fields : Dict String (Json F)} (h : (calls.foldl applyFieldPatch patches).get? id = some fields) :
    ∀ key ∈ fields.keys, (∃ call ∈ calls, call.itemId = id ∧ call.field = key) ∨
      ∃ old, patches.get? id = some old ∧ key ∈ old.keys := by
  induction calls generalizing patches with
  | nil => exact fun key hkey => .inr ⟨fields, h, hkey⟩
  | cons call calls ih =>
    intro key hkey
    rcases ih h key hkey with ⟨later, hlater, hcall⟩ | ⟨old, hold, hmem⟩
    · exact .inl ⟨later, List.mem_cons_of_mem _ hlater, hcall⟩
    · rw [applyFieldPatch_get?] at hold
      split_ifs at hold with hid
      · obtain rfl := Option.some.inj hold
        rw [← Dict.contains_iff, Dict.contains_set] at hmem
        rcases hmem with hfield | hmem
        · exact .inl ⟨call, List.mem_cons_self, hid, hfield⟩
        · cases hget : patches.get? id with
          | none =>
            rw [hget] at hmem
            cases hmem
          | some earlier =>
            rw [hget] at hmem
            exact .inr ⟨earlier, rfl, Dict.contains_iff.mp hmem⟩
      · exact .inr ⟨old, hold, hmem⟩

/-- A call that is made for the block at `target`, whose header it names, or for no block. -/
structure AimedPatch (F : Type) where
  call : PatchCall F
  target : Option ℕ

def AimedPatch.Aims (blocks : List (ParsedBlock F)) (patch : AimedPatch F) : Prop :=
  match patch.target with
  | some i => ∃ block, blocks[i]? = some block ∧ block.id = patch.call.itemId
  | none => patch.call.itemId ∉ blocks.map ParsedBlock.id

/-- The fields that are patched for the block at `i`. -/
def aimedFields (aimed : List (AimedPatch F)) (i : ℕ) : List String :=
  (aimed.filter (fun patch => patch.target = some i)).map (fun patch => patch.call.field)

variable (C) in
structure InPlace (blocks : List (ParsedBlock F)) (aimed : List (AimedPatch F))
    (final : List (Dict String (Json F))) : Prop where
  count : final.length = blocks.length
  valid : ∀ (i : ℕ) (block : ParsedBlock F) item, blocks[i]? = some block → C.modelValidate block.data = .ok item →
    ∃ fields, final[i]? = some fields ∧ C.modelValidate fields = .ok item
  patched : ∀ (i : ℕ) (block : ParsedBlock F) errors, blocks[i]? = some block →
    C.modelValidate block.data = .error errors →
    ∃ patch, final[i]? = some (block.data.update patch) ∧ ∀ key ∈ patch.keys, key ∈ aimedFields aimed i

variable (C) in
structure ReturnedInPlace (blocks : List (ParsedBlock F)) (aimed : List (AimedPatch F)) (results : List M) : Prop where
  count : results.length = blocks.length
  valid : ∀ (i : ℕ) (block : ParsedBlock F) item, blocks[i]? = some block → C.modelValidate block.data = .ok item →
    results[i]? = some item
  patched : ∀ (i : ℕ) (block : ParsedBlock F) errors, blocks[i]? = some block →
    C.modelValidate block.data = .error errors →
    ∃ patch item, results[i]? = some item ∧ C.modelValidate (block.data.update patch) = .ok item ∧
      ∀ key ∈ patch.keys, key ∈ aimedFields aimed i

variable (C) in
structure KeepsBlocks (mdText : List Char) : Prop where
  fields : ∀ aimed : List (AimedPatch F), (∀ patch ∈ aimed, patch.Aims (parseMd R C.annotations mdText)) →
    (diagnose C (parseMd R C.annotations mdText)).hasStructuralErrors = true →
    InPlace C (parseMd R C.annotations mdText) aimed
      (finalResults C (parseMd R C.annotations mdText) (aimed.map AimedPatch.call))
  returned : ∀ aimed : List (AimedPatch F), (∀ patch ∈ aimed, patch.Aims (parseMd R C.annotations mdText)) →
    ∀ results, mdToJson R C mdText (.ok (aimed.map AimedPatch.call)) = .ok results →
    ReturnedInPlace C (parseMd R C.annotations mdText) aimed results

variable (C) in
/-- Valid blocks stand first and are read back from their dump, and no other block has the header of a failing one. -/
def PatchSafe (blocks : List (ParsedBlock F)) : Prop :=
  (∃ valids fails, blocks = valids ++ fails ∧ (∀ block ∈ fails, failing C block = true) ∧
    ∀ block ∈ valids, ∃ item, C.modelValidate block.data = .ok item ∧ C.modelValidate (C.modelDump item) = .ok item) ∧
  ∀ (i j : ℕ) (block other : ParsedBlock F), blocks[i]? = some block → blocks[j]? = some other →
    failing C block = true → block.id ≠ "" → block.id = other.id → i = j

theorem forall₂_getElem? {α β : Type} {r : α → β → Prop} {xs : List α} {ys : List β} (h : List.Forall₂ r xs ys) {i : ℕ}
    {x : α} (hx : xs[i]? = some x) : ∃ y, ys[i]? = some y ∧ r x y := by
  induction h generalizing i with
  | nil => simp at hx
  | cons hr _ ih =>
    cases i with
    | zero =>
      rw [List.getElem?_cons_zero] at hx
      exact ⟨_, List.getElem?_cons_zero, Option.some.inj hx ▸ hr⟩
    | succ i =>
      rw [List.getElem?_cons_succ] at hx
      exact ih hx

theorem inPlace_of_safe {blocks : List (ParsedBlock F)} (hsafe : PatchSafe C blocks) {aimed : List (AimedPatch F)}
    (haimed : ∀ patch ∈ aimed, patch.Aims blocks) :
    InPlace C blocks aimed (finalResults C blocks (aimed.map AimedPatch.call)) := by
  obtain ⟨⟨valids, fails, hblocks, hfails, hvalids⟩, hdistinct⟩ := hsafe
  have hfinal := finalResults_in_order (C := C)
    (fun block hblock => not_failing_iff.mpr ((hvalids block hblock).imp fun _ h => h.1)) hfails
    (aimed.map AimedPatch.call)
  rw [← hblocks] at hfinal
  rw [hfinal]
  refine ⟨by simp, ?_, ?_⟩
  · intro i block item hblock hvalid
    refine ⟨C.modelDump item, by simp [hblock, blockFinal, hvalid], ?_⟩
    have hmem := List.mem_of_getElem? hblock
    rw [hblocks] at hmem
    rcases List.mem_append.mp hmem with hmem | hmem
    · obtain ⟨item', hitem, hdump⟩ := hvalids block hmem
      rw [hvalid] at hitem
      rwa [← Except.ok.inj hitem] at hdump
    · have hfail := hfails block hmem
      rw [not_failing_iff.mpr ⟨item, hvalid⟩] at hfail
      cases hfail
  · intro i block errors hblock hfail
    have hbase : blockFinal C ((aimed.map AimedPatch.call).foldl applyFieldPatch ∅) block =
        patchedFields ((aimed.map AimedPatch.call).foldl applyFieldPatch ∅) block := by
      simp [blockFinal, hfail]
    have hget : (blocks.map (blockFinal C ((aimed.map AimedPatch.call).foldl applyFieldPatch ∅)))[i]? =
        some (patchedFields ((aimed.map AimedPatch.call).foldl applyFieldPatch ∅) block) := by
      rw [List.getElem?_map, hblock, Option.map_some, hbase]
    rw [hget]
    unfold patchedFields
    split_ifs with hid
    · exact ⟨∅, by rw [Dict.update_empty], by simp⟩
    · split
      · next fields hfields =>
        refine ⟨fields, rfl, ?_⟩
        intro key hkey
        rcases patches_from_calls hfields key hkey with ⟨call, hcall, hitem, hfield⟩ | ⟨old, hold, -⟩
        · obtain ⟨patch, hpatch, rfl⟩ := List.mem_map.mp hcall
          have hown : patch.target = some i := by
            have haims := haimed patch hpatch
            unfold AimedPatch.Aims at haims
            split at haims
            · next j htarget =>
              obtain ⟨other, hother, hsame⟩ := haims
              rw [htarget, hdistinct i j block other hblock hother (failing_iff.mpr ⟨errors, hfail⟩) hid
                (hitem.symm.trans hsame.symm)]
            · exact absurd (List.mem_map_of_mem (List.mem_of_getElem? hblock)) (hitem ▸ haims)
          exact List.mem_map.mpr ⟨patch, List.mem_filter.mpr ⟨hpatch, by simpa using hown⟩, hfield⟩
        · cases hold
      · exact ⟨∅, by rw [Dict.update_empty], by simp⟩

theorem valid_first {blocks : List (ParsedBlock F)} (h : InPlace C blocks [] (finalResults C blocks [])) :
    ∃ valids fails, blocks = valids ++ fails ∧ (∀ block ∈ valids, failing C block = false) ∧
      ∀ block ∈ fails, failing C block = true := by
  have hcount : (blocks.filterMap (fun block => (C.modelValidate block.data).toOption)).length =
      blocks.countP (fun block => !failing C block) := by
    rw [List.length_filterMap_eq_countP]
    congr 1
    funext block
    cases hvalid : C.modelValidate block.data <;> simp [failing, hvalid, Except.toOption, Except.isOk, Except.toBool]
  -- beyond the dumps there are only items that fail
  have hlate : ∀ i block, blocks.countP (fun block => !failing C block) ≤ i → blocks[i]? = some block →
      failing C block = true := by
    intro i block hi hblock
    by_contra hvalid
    obtain ⟨item, hitem⟩ := not_failing_iff.mp (Bool.not_eq_true _ ▸ hvalid)
    obtain ⟨fields, hfields, hok⟩ := h.valid i block item hblock hitem
    rw [finalResults_eq, List.getElem?_append_right (by rw [List.length_map, hcount]; exact hi),
      List.getElem?_map] at hfields
    obtain ⟨failed, hfailed, rfl⟩ := Option.map_eq_some_iff.mp hfields
    obtain ⟨errors, herrors⟩ := failing_iff.mp (List.mem_filter.mp (List.mem_of_getElem? hfailed)).2
    have hsame : patchedFields (([] : List (PatchCall F)).foldl applyFieldPatch ∅) failed = failed.data := by
      simp [patchedFields]
    rw [hsame, herrors] at hok
    cases hok
  refine ⟨blocks.take (blocks.countP fun block => !failing C block),
    blocks.drop (blocks.countP fun block => !failing C block), (List.take_append_drop _ _).symm, ?_, ?_⟩
  · have hsplit := List.take_append_drop (blocks.countP fun block => !failing C block) blocks
    have hnone :
        (blocks.drop (blocks.countP fun block => !failing C block)).countP (fun block => !failing C block) = 0 := by
      rw [List.countP_eq_zero]
      intro block hblock
      obtain ⟨i, hi⟩ := List.mem_iff_getElem?.mp hblock
      rw [List.getElem?_drop] at hi
      simp [hlate _ block (Nat.le_add_right _ _) hi]
    have hall := congrArg (List.countP fun block => !failing C block) hsplit
    rw [List.countP_append, hnone, Nat.add_zero] at hall
    have hlength := List.length_take_le (blocks.countP fun block => !failing C block) blocks
    have hfull := List.countP_eq_length.mp (Nat.le_antisymm List.countP_le_length (hlength.trans hall.ge))
    exact fun block hblock => by simpa using hfull block hblock
  · intro block hblock
    obtain ⟨i, hi⟩ := List.mem_iff_getElem?.mp hblock
    rw [List.getElem?_drop] at hi
    exact hlate _ block (Nat.le_add_right _ _) hi

theorem safe_of_inPlace {blocks : List (ParsedBlock F)}
    (h : ∀ aimed : List (AimedPatch F), (∀ patch ∈ aimed, patch.Aims blocks) →
      InPlace C blocks aimed (finalResults C blocks (aimed.map AimedPatch.call))) : PatchSafe C blocks := by
  obtain ⟨valids, fails, hblocks, hvalids, hfails⟩ := valid_first (h [] (by simp))
  have hfinal : ∀ calls, finalResults C blocks calls =
      blocks.map (blockFinal C (calls.foldl applyFieldPatch ∅)) := by
    intro calls
    rw [hblocks]
    exact finalResults_in_order hvalids hfails calls
  refine ⟨⟨valids, fails, hblocks, hfails, ?_⟩, ?_⟩
  · intro block hblock
    obtain ⟨item, hitem⟩ := not_failing_iff.mp (hvalids block hblock)
    obtain ⟨i, hi⟩ := List.mem_iff_getElem?.mp (hblocks ▸ List.mem_append_left fails hblock : block ∈ blocks)
    obtain ⟨fields, hfields, hok⟩ := (h [] (by simp)).valid i block item hi hitem
    rw [hfinal, List.getElem?_map, hi, Option.map_some] at hfields
    have hdump : blockFinal C (List.foldl applyFieldPatch ∅ (([] : List (AimedPatch F)).map AimedPatch.call)) block =
        C.modelDump item := by
      simp [blockFinal, hitem]
    rw [← Option.some.inj hfields, hdump] at hok
    exact ⟨item, hitem, hok⟩
  · intro i j block other hi hj hfail hid hsame
    by_contra hne
    -- a call for the other block, with a value that the failing one does not have
    obtain ⟨value, hvalue⟩ : ∃ value : Json F, block.data.get? "x" ≠ some value := by
      by_cases hnull : block.data.get? "x" = some .null
      · exact ⟨.bool true, by simp [hnull]⟩
      · exact ⟨.null, hnull⟩
    have hplace := h [⟨⟨other.id, "x", value⟩, some j⟩] (by
      intro patch hpatch
      obtain rfl := List.mem_singleton.mp hpatch
      exact ⟨other, hj, rfl⟩)
    obtain ⟨errors, herrors⟩ := failing_iff.mp hfail
    obtain ⟨patch, hpatch, hkeys⟩ := hplace.patched i block errors hi herrors
    have hnokeys : patch.get? "x" = none := by
      rw [Dict.get?_eq_none]
      intro hx
      have hmem := hkeys "x" hx
      simp [aimedFields, Ne.symm hne] at hmem
    rw [hfinal, List.getElem?_map, hi, Option.map_some] at hpatch
    have hget := congrArg (fun fields => Dict.get? fields "x") (Option.some.inj hpatch)
    rw [hsame] at hid
    simp [blockFinal, herrors, patchedFields, hid, applyFieldPatch, hsame, hnokeys] at hget
    exact hvalue hget.symm

theorem valid_items {blocks : List (ParsedBlock F)} (h : ∀ block ∈ blocks, failing C block = false) :
    List.Forall₂ (fun block item => C.modelValidate block.data = .ok item) blocks (diagnose C blocks).validItems := by
  rw [diagnose, diagnoseFrom_validItems]
  induction blocks with
  | nil => exact .nil
  | cons block blocks ih =>
    rw [List.forall_mem_cons] at h
    obtain ⟨item, hitem⟩ := not_failing_iff.mp h.1
    rw [List.filterMap_cons_some (b := item) (by rw [hitem]; rfl)]
    exact .cons hitem (ih h.2)

theorem returned_without_errors {blocks : List (ParsedBlock F)} (h : (diagnose C blocks).errors.isEmpty = true)
    (aimed : List (AimedPatch F)) : ReturnedInPlace C blocks aimed (diagnose C blocks).validItems := by
  have hfails := diagnoseFrom_errorBlocks (C := C) [] blocks
  rw [List.length_nil, ← diagnose, List.isEmpty_iff.mp h, List.filterMap_nil] at hfails
  have hvalid : ∀ block ∈ blocks, failing C block = false := by
    simpa using List.filter_eq_nil_iff.mp hfails.symm
  have hitems := valid_items hvalid
  refine ⟨hitems.length_eq.symm, ?_, ?_⟩
  · intro i block item hblock hitem
    obtain ⟨item', hget, hok⟩ := forall₂_getElem? hitems hblock
    rw [hitem] at hok
    rw [hget, Except.ok.inj hok]
  · intro i block errors hblock herrors
    have hok := hvalid block (List.mem_of_getElem? hblock)
    rw [failing_iff.mpr ⟨errors, herrors⟩] at hok
    cases hok

theorem returned_of_inPlace {blocks : List (ParsedBlock F)} {aimed : List (AimedPatch F)}
    {final : List (Dict String (Json F))} (h : InPlace C blocks aimed final) {results : List M}
    (hresults : final.mapM (fun item => (C.modelValidate item).mapError MdError.validation) = .ok results) :
    ReturnedInPlace C blocks aimed results := by
  have hall := mapM_ok_iff.mp hresults
  have hok : ∀ fields item, (C.modelValidate fields).mapError MdError.validation = .ok item →
      C.modelValidate fields = .ok item := by
    intro fields item hitem
    cases hfields : C.modelValidate fields with
    | error errors => simp [hfields, Except.mapError] at hitem
    | ok item' =>
      rw [hfields] at hitem
      exact congrArg _ (Except.ok.inj hitem)
  refine ⟨hall.length_eq.symm.trans h.count, ?_, ?_⟩
  · intro i block item hblock hitem
    obtain ⟨fields, hfields, hvalid⟩ := h.valid i block item hblock hitem
    obtain ⟨item', hget, hitem'⟩ := forall₂_getElem? hall hfields
    have hsame := hok fields item' hitem'
    rw [hvalid] at hsame
    rw [hget, Except.ok.inj hsame]
  · intro i block errors hblock herrors
    obtain ⟨patch, hpatch, hkeys⟩ := h.patched i block errors hblock herrors
    obtain ⟨item, hget, hitem⟩ := forall₂_getElem? hall hpatch
    exact ⟨patch, item, hget, hok _ item hitem, hkeys⟩

end Patching

theorem patched_results_in_place_iff {F M : Type} (R : Reader F) (C : ModelClass F M) (mdText : List Char) :
    KeepsBlocks R C mdText ↔
      ((diagnose C (parseMd R C.annotations mdText)).hasStructuralErrors = true →
        PatchSafe C (parseMd R C.annotations mdText)) := by
  constructor
  · intro h hstructural
    exact safe_of_inPlace (fun aimed haimed => h.fields aimed haimed hstructural)
  · intro hsafe
    refine ⟨fun aimed haimed hstructural => inPlace_of_safe (hsafe hstructural) haimed, ?_⟩
    intro aimed haimed results hresults
    simp only [mdToJson] at hresults
    split_ifs at hresults with hempty hsemantic
    · obtain rfl := Except.ok.inj hresults
      exact returned_without_errors hempty aimed
    · have hstructural : (diagnose C (parseMd R C.annotations mdText)).hasStructuralErrors = true := by
        simpa [DiagnosticReport.semanticOnly, hempty] using hsemantic
      exact returned_of_inPlace (inPlace_of_safe (hsafe hstructural) haimed) hresults

def scoreClass : ModelClass Unit (Json Unit) where
  annotations := ∅
  modelValidate data :=
    match data.get? (.ofList ['s']) with
    | some score => .ok score
    | none => .error [⟨["s"], "Field required", "missing"⟩]
  modelDump score := Dict.single (.ofList ['s']) score

def unscoredFirst : List Char := ['#', '#', ' ', 'a', '\n', '#', '#', ' ', 'b', '\n', '-', ' ', 's', ':', ' ', '1']

theorem patched_item_moves_last :
    mdToJson asciiReader scoreClass unscoredFirst (.ok [⟨.ofList ['a'], .ofList ['s'], .str "2"⟩]) =
      .ok [.str (.ofList ['1']), .str "2"] ∧ ¬ KeepsBlocks asciiReader scoreClass unscoredFirst := by
  have hresult : mdToJson asciiReader scoreClass unscoredFirst (.ok [⟨.ofList ['a'], .ofList ['s'], .str "2"⟩]) =
      .ok [.str (.ofList ['1']), .str "2"] := rfl
  refine ⟨hresult, fun h => ?_⟩
  have hplaces := h.returned [⟨⟨.ofList ['a'], .ofList ['s'], .str "2"⟩, some 0⟩] (by
    intro patch hpatch
    obtain rfl := List.mem_singleton.mp hpatch
    exact ⟨_, rfl, rfl⟩) _ hresult
  have hsecond := hplaces.valid 1 _ (.str (.ofList ['1'])) rfl rfl
  simp at hsecond

end GraphSkillRuntime.Markdown
