import GraphSkillRuntime.PhaseFrame

namespace GraphSkillRuntime

open OrderedDict

/-! The places of the blackboard that a phase delta writes. -/

inductive Slot where
  | field (name : String) (h : name ≠ "phase_outputs")
  | record (phaseId : String)

namespace Slot

def read (data : BusinessData) : Slot → Option Value
  | field name _ => data.get? name
  | record phaseId => phaseOutputAt data phaseId

def put (phaseId : String) (payload : Dict String Value) : Slot → Option Value
  | field name _ => payload.get? name
  | record q => if phaseId = q then some (.ofDict payload) else none

theorem read_congr {d e : BusinessData} (h : d.Same e) (slot : Slot) : slot.read d = slot.read e := by
  cases slot with
  | field name _ => exact h name
  | record q =>
    simp only [read, phaseOutputAt, dictAt]
    rw [h "phase_outputs"]

end Slot

def SameBlackboard (d e : BusinessData) : Prop := ∀ slot : Slot, slot.read d = slot.read e

def WritesSlot (delta : Dict String Value) (slot : Slot) : Prop :=
  ∃ current, slot.read (mergeBusinessChannel current (.delta delta)) ≠ slot.read current

section Payloads

variable {phaseId phaseId' : String} {payload payload' delta delta' : Dict String Value}

theorem read_merge (hd : delta.Same (phaseDataDelta phaseId payload)) (hin : payload.get? "inputs" = none)
    (current : BusinessData) (slot : Slot) :
    slot.read (mergeBusinessChannel current (.delta delta)) =
      (slot.put phaseId payload).or (slot.read current) := by
  rw [Slot.read_congr (mergeBusinessChannel_congr current hd)]
  cases slot with
  | field name h => exact get?_merge_phaseDataDelta hin h
  | record q =>
    refine (phaseOutputAt_merge_phaseDataDelta hin q).trans ?_
    by_cases hq : phaseId = q <;> simp [Slot.put, Slot.read, hq]

theorem writesSlot_iff (hd : delta.Same (phaseDataDelta phaseId payload))
    (hin : payload.get? "inputs" = none) (slot : Slot) :
    WritesSlot delta slot ↔ (slot.put phaseId payload).isSome := by
  constructor
  · rintro ⟨current, hne⟩
    rw [read_merge hd hin] at hne
    cases hput : slot.put phaseId payload with
    | none => exact absurd (by rw [hput, Option.none_or]) hne
    | some v => rfl
  · intro hsome
    obtain ⟨v, hv⟩ := Option.isSome_iff_exists.mp hsome
    refine ⟨∅, ?_⟩
    rw [read_merge hd hin, hv, Option.some_or]
    cases slot <;> simp [Slot.read, phaseOutputAt, dictAt]

theorem merges_commute (hd : delta.Same (phaseDataDelta phaseId payload))
    (hd' : delta'.Same (phaseDataDelta phaseId' payload')) (hin : payload.get? "inputs" = none)
    (hin' : payload'.get? "inputs" = none) (hdis : ∀ slot, ¬ (WritesSlot delta slot ∧ WritesSlot delta' slot))
    (current : BusinessData) :
    SameBlackboard (mergeBusinessChannel (mergeBusinessChannel current (.delta delta)) (.delta delta'))
      (mergeBusinessChannel (mergeBusinessChannel current (.delta delta')) (.delta delta)) := by
  intro slot
  have hslot := hdis slot
  rw [writesSlot_iff hd hin, writesSlot_iff hd' hin'] at hslot
  rw [read_merge hd' hin', read_merge hd hin, read_merge hd hin, read_merge hd' hin']
  cases hput : slot.put phaseId payload with
  | none => simp
  | some v =>
    have hnone : slot.put phaseId' payload' = none := by
      cases hput' : slot.put phaseId' payload' with
      | none => rfl
      | some w => exact absurd ⟨by simp [hput], by simp [hput']⟩ hslot
    simp [hnone]

theorem writesSlot_record_of_inputs (h : delta.contains "inputs" = true) (q : String) :
    WritesSlot delta (.record q) := by
  have hmerge : ∀ current, mergeBusinessChannel current (.delta delta) = coerceBusinessData delta := by
    intro current
    simp [mergeBusinessChannel, h]
  have hread : ∀ v : Value, (Slot.record q).read
      (Dict.single "phase_outputs" (.ofDict (Dict.single q v))) = some v := by
    intro v
    rw [Slot.read, phaseOutputAt_single, if_pos rfl]
  by_cases hr : (Slot.record q).read (coerceBusinessData delta) = some .null
  · refine ⟨Dict.single "phase_outputs" (.ofDict (Dict.single q (.bool true))), ?_⟩
    rw [hmerge, hread, hr]
    simp
  · refine ⟨Dict.single "phase_outputs" (.ofDict (Dict.single q .null)), ?_⟩
    rw [hmerge, hread]
    exact hr

theorem contains_inputs (hd : delta.Same (phaseDataDelta phaseId payload)) :
    delta.contains "inputs" = (payload.get? "inputs").isSome := by
  rw [Dict.contains, hd "inputs", get?_phaseDataDelta]
  rfl

theorem writesSlot_own_record (hd : delta.Same (phaseDataDelta phaseId payload)) :
    WritesSlot delta (.record phaseId) := by
  cases hin : payload.get? "inputs" with
  | none => exact (writesSlot_iff hd hin _).mpr (by simp [Slot.put])
  | some v => exact writesSlot_record_of_inputs (by rw [contains_inputs hd, hin]; rfl) _

end Payloads

end GraphSkillRuntime
